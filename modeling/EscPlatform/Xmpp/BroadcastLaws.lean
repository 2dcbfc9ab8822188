-- Whom a message to the connected peers reaches. The seven game calls and
-- `broadcastEvent` run the same loop over the roster, and what the roster
-- holds is known from the history of its callbacks.
import EscPlatform.Xmpp.ConnectionLaws
import EscPlatform.Xmpp.RosterLaws

namespace esc_platform.xmpp

open runs ledger

/-! ## The client in the pointer exists -/

def Listener.Valid (l : Listener) : Prop := ∀ g, l.mClient = some g → g < l.clients.length

namespace Listener

theorem Valid.setup {l : Listener} (username password server : String) (port : Int) :
    (l.setup username password server port).Valid := by
  intro g hg
  simp only [Listener.setup, Option.some.injEq] at hg
  simp [Listener.setup, ← hg]

theorem Valid.setStream {l : Listener} (h : l.Valid) (g : Nat) (isOpen flag : Bool) :
    ({ l.setStream g isOpen with mIsConnected := flag } : Listener).Valid := by
  intro d hd
  have hlt := h d hd
  simpa [Listener.setStream] using hlt

theorem Valid.send {l : Listener} (h : l.Valid) (stanza : Stanza) : (l.send stanza).Valid := by
  intro g hg
  rw [send_mClient] at hg
  rw [send_length]
  exact h g hg

theorem Valid.outcome {l l' : Listener} (h : l.Valid) (ho : l.Outcome l') : l'.Valid := by
  cases ho with
  | keeps => exact h
  | setup _ username password server port => exact Valid.setup _ _ _ _
  | stream g isOpen _ => exact h.setStream g isOpen isOpen
  | send stanza => exact h.send stanza

end Listener

namespace Client

theorem step_valid (c : Client) (a : Action) (h : c.mListener.Valid) :
    (c.step a).mListener.Valid := h.outcome (step_outcome c a)

theorem run_valid (as : List Action) : (run step {} as).mListener.Valid :=
  run_inv (I := fun c : Client => c.mListener.Valid) step_valid (by rintro g ⟨⟩)

/-! ## The loop over the roster -/

/-- The gloox client `g` got this message for each of the user names, in their order. -/
def handed (c : Client) (g : Nat) (usernames : List String) (body : String) : Client :=
  let messages := usernames.map fun u => Stanza.message (u ++ "@" ++ c.mListener.mServer) body ""
  let clients := c.mListener.clients.modify g fun client =>
    { client with sent := client.sent ++ messages }
  { c with mListener := { c.mListener with clients := clients } }

@[simp] theorem handed_nil (c : Client) (g : Nat) (body : String) : c.handed g [] body = c := by
  have hid : (fun client : GlooxClient => { client with sent := client.sent ++ [] }) = id := by
    funext client
    simp
  simp only [handed, List.map_nil, hid, List.modify_id]

theorem handed_cons (c : Client) (g : Nat) (u : String) (us : List String) (body : String) :
    (c.handed g [u] body).handed g us body = c.handed g (u :: us) body := by
  simp [handed, List.modify_modify_eq, Function.comp_def]

/-- With a connection, a client and a body, `sendMessage` refuses the empty name only. -/
theorem sendMessage_handed {c : Client} {g : Nat} {body : String}
    (hconn : c.mListener.mIsConnected = true) (hm : c.mListener.mClient = some g)
    (hbody : body ≠ "") (u : String) :
    (c.sendMessage u body "").1 = if u = "" then c else c.handed g [u] body := by
  unfold sendMessage
  split
  · rfl
  · simp [Listener.sendMessage, Listener.send, handed, hconn, hm, hbody]

/-- The user names that a loop over these roster entries sends to. -/
def addressees (entries : List (String × Peer)) : List String :=
  ((entries.filter (·.2.mConnected)).map (·.2.mUsername)).filter (· ≠ "")

theorem sendLoop_handed {body : String} (hbody : body ≠ "") {g : Nat}
    (entries : List (String × Peer)) (c : Client) (hconn : c.mListener.mIsConnected = true)
    (hm : c.mListener.mClient = some g) :
    entries.foldl (fun c entry =>
        if entry.2.mConnected then (c.sendMessage entry.2.mUsername body "").1 else c) c =
      c.handed g (addressees entries) body := by
  induction entries generalizing c with
  | nil => exact (handed_nil c g body).symm
  | cons entry entries ih =>
    obtain ⟨name, peer⟩ := entry
    rw [List.foldl_cons]
    by_cases hpeer : peer.mConnected = true
    · by_cases hname : peer.mUsername = ""
      · simp only [hpeer, if_true, sendMessage_handed hconn hm hbody, hname]
        rw [ih c hconn hm]
        simp [addressees, hpeer, hname]
      · simp only [hpeer, if_true, sendMessage_handed hconn hm hbody, hname, if_false]
        rw [ih (c.handed g [peer.mUsername] body) hconn hm, handed_cons]
        simp [addressees, hpeer, hname]
    · simp only [hpeer, Bool.false_eq_true, if_false]
      rw [ih c hconn hm]
      simp [addressees, hpeer]

theorem sendToConnected_handed {c : Client} {g : Nat} {body : String}
    (hconn : c.mListener.mIsConnected = true) (hm : c.mListener.mClient = some g)
    (hbody : body ≠ "") :
    Plugin.sendToConnected body c = c.handed g (addressees c.mRoster.toList) body :=
  sendLoop_handed hbody _ c hconn hm

theorem gameCall_handed {c : Client} {g : Nat} {message : String}
    (hconn : c.mListener.mIsConnected = true) (hm : c.mListener.mClient = some g)
    (hmessage : message ≠ "") : Plugin.gameCall message (some c) =
      (some (c.handed g (addressees c.mRoster.toList) message), 0) := by
  simp only [Plugin.gameCall, sendToConnected_handed hconn hm hmessage]

theorem broadcastEvent_handed {c : Client} {g : Nat} {body : String}
    (hconn : c.mListener.mIsConnected = true) (hm : c.mListener.mClient = some g)
    (hbody : body ≠ "") : Plugin.broadcastEvent (some body) (some c) =
      some (some (c.handed g (addressees c.mRoster.toList) body)) := by
  simp only [Plugin.broadcastEvent, Option.map_some, sendToConnected_handed hconn hm hbody]

/-! ## The names in the roster -/

/-- In a run each roster entry holds its own key as the user name. -/
theorem mem_toList_mRoster (as : List Action) (u : String) (peer : Peer) :
    (u, peer) ∈ (run step {} as).mRoster.toList ↔
      ∃ presence, known (rosterEntries as) u = some presence ∧ peer = peerOf u presence := by
  rw [Std.TreeMap.mem_toList_iff_getElem?_eq_some, run_rosterFollows as u, Option.map_eq_some_iff]
  constructor
  · rintro ⟨presence, hknown, rfl⟩
    exact ⟨presence, hknown, rfl⟩
  · rintro ⟨presence, hknown, rfl⟩
    exact ⟨presence, hknown, rfl⟩

theorem addressees_nodup (as : List Action) :
    (addressees (run step {} as).mRoster.toList).Nodup := by
  unfold addressees
  apply List.Pairwise.filter _
  -- the user names are the keys
  have hkeys : ((run step {} as).mRoster.toList.filter (·.2.mConnected)).map (·.2.mUsername) =
      ((run step {} as).mRoster.toList.filter (·.2.mConnected)).map (·.1) := by
    apply List.map_congr_left
    intro entry hentry
    obtain ⟨presence, -, hpeer⟩ :=
      (mem_toList_mRoster as entry.1 entry.2).mp (List.mem_of_mem_filter hentry)
    rw [hpeer, peerOf_mUsername]
  rw [hkeys]
  refine List.pairwise_map.mpr (List.Pairwise.filter _ ?_)
  exact Std.TreeMap.distinct_keys_toList.imp fun hne heq => hne (by simp [heq])

theorem mem_addressees (as : List Action) (u : String) :
    u ∈ addressees (run step {} as).mRoster.toList ↔
      u ≠ "" ∧ ∃ presence, known (rosterEntries as) u = some (some presence) ∧
        presence.isAvailable = true := by
  unfold addressees
  simp only [List.mem_filter, List.mem_map, decide_eq_true_eq, Prod.exists]
  constructor
  · rintro ⟨⟨key, peer, ⟨hmem, hconn⟩, rfl⟩, hne⟩
    obtain ⟨presence, hknown, rfl⟩ := (mem_toList_mRoster as key peer).mp hmem
    rw [peerOf_mConnected, Option.any_eq_true] at hconn
    obtain ⟨p, rfl, hp⟩ := hconn
    rw [peerOf_mUsername] at hne ⊢
    exact ⟨hne, p, hknown, hp⟩
  · rintro ⟨hne, presence, hknown, hp⟩
    have hmem := (mem_toList_mRoster as u (peerOf u (some presence))).mpr ⟨_, hknown, rfl⟩
    refine ⟨⟨u, _, ⟨hmem, ?_⟩, peerOf_mUsername u _⟩, hne⟩
    rw [peerOf_mConnected]
    simpa using hp

end Client

/-! ## The recipients -/

/-- The user name is in the last roster, and its most recent presence since is available. -/
def Reached (as : List Action) (u : String) : Prop :=
  ∃ presence, known (rosterEntries as) u = some (some presence) ∧ presence.isAvailable = true

/-- With a connection and a client, `broadcastEvent` and the game calls hand gloox one message for
each user name that is reached, and none for any other. -/
theorem broadcast_reaches_the_available_peers (as : List Action) (g : Nat) (body : String)
    (state : Bool) (hconn : (run Client.step {} as).mListener.mIsConnected = true)
    (hm : (run Client.step {} as).mListener.mClient = some g) (hbody : body ≠ "") :
    ∃ us : List String, us.Nodup ∧ (∀ u, u ∈ us ↔ u ≠ "" ∧ Reached as u) ∧
      let c := run Client.step {} as
      g < c.mListener.clients.length ∧
      Plugin.broadcastEvent (some body) (some c) = some (some (c.handed g us body)) ∧
      Plugin.startGame (some c) = (some (c.handed g us "gameStart"), 0) ∧
      Plugin.cancelGame (some c) = (some (c.handed g us "gameCancel"), 0) ∧
      Plugin.endGame (some c) = (some (c.handed g us "gameEnd"), 0) ∧
      Plugin.startRound (some c) = (some (c.handed g us "startRound"), 0) ∧
      Plugin.cancelRound (some c) = (some (c.handed g us "cancelRound"), 0) ∧
      Plugin.endRound (some c) = (some (c.handed g us "endRound"), 0) ∧
      Plugin.pauseGame state (some c) =
        (some (c.handed g us ("pause:" ++ if state then "true" else "false")), 0) := by
  refine ⟨Client.addressees (run Client.step {} as).mRoster.toList, Client.addressees_nodup as,
    Client.mem_addressees as, ?_⟩
  have hgame : ∀ message : String, message ≠ "" →
      Plugin.gameCall message (some (run Client.step {} as)) =
        (some ((run Client.step {} as).handed g
          (Client.addressees (run Client.step {} as).mRoster.toList) message), 0) :=
    fun _ hmessage => Client.gameCall_handed hconn hm hmessage
  exact ⟨Client.run_valid as g hm, Client.broadcastEvent_handed hconn hm hbody,
    hgame _ (by decide), hgame _ (by decide), hgame _ (by decide), hgame _ (by decide),
    hgame _ (by decide), hgame _ (by decide), hgame _ (by cases state <;> decide)⟩

theorem broadcast_reaches_an_away_peer :
    let c := run Client.step {} [.connect "docent" "docent" "host" 5222 true, .onConnect 0,
      .handleRoster [⟨"bob"⟩, ⟨"eve"⟩], .handleRosterPresence ⟨"bob"⟩ "phone" .away ""]
    ∃ us : List String, us.Nodup ∧ "bob" ∈ us ∧ "eve" ∉ us ∧
      Plugin.broadcastEvent (some "hello") (some c) = some (some (c.handed 0 us "hello")) := by
  obtain ⟨us, hnodup, hmem, -, hbroadcast, -⟩ := broadcast_reaches_the_available_peers
    [.connect "docent" "docent" "host" 5222 true, .onConnect 0,
      .handleRoster [⟨"bob"⟩, ⟨"eve"⟩], .handleRosterPresence ⟨"bob"⟩ "phone" .away ""]
    0 "hello" true (by decide) (by decide) (by decide)
  refine ⟨us, hnodup, (hmem "bob").mpr ⟨by decide, .away, by decide, rfl⟩, fun heve => ?_,
    hbroadcast⟩
  -- no presence of eve came since the roster
  obtain ⟨-, presence, hknown, -⟩ := (hmem "eve").mp heve
  have hnone : known (rosterEntries [.connect "docent" "docent" "host" 5222 true, .onConnect 0,
      .handleRoster [⟨"bob"⟩, ⟨"eve"⟩], .handleRosterPresence ⟨"bob"⟩ "phone" .away ""]) "eve" =
      some none := by decide
  rw [hnone] at hknown
  cases hknown

/-! ## Items that come and go -/

/-- The user names on the server, as the callbacks tell them. -/
def serverRoster (as : List Action) : List String :=
  as.foldl (fun names a => match a with
    | .handleRoster roster => roster.map (·.username)
    | .handleItemAdded item => item.username :: names
    | .handleItemRemoved item => names.filter (· ≠ item.username)
    | _ => names) []

/-- Behind the roster and the callbacks `cs`, the map has the user names on the server, and a
message to all reaches those of them whose most recent presence is available. -/
def MirrorsTheServer (before : List Action) (roster : Roster) (cs : List Action) : Prop :=
  let c := run Client.step {} (before ++ .handleRoster roster :: cs)
  let names := serverRoster (before ++ .handleRoster roster :: cs)
  (∀ u, u ∈ c.mRoster ↔ u ∈ names) ∧
    ∀ g body, c.mListener.mIsConnected = true → c.mListener.mClient = some g → body ≠ "" →
      ∃ us : List String, us.Nodup ∧
        (∀ u, u ∈ us ↔ u ≠ "" ∧ u ∈ names ∧
          ∃ resource presence, (presencesOf u cs).getLast? = some (resource, presence) ∧
            presence.isAvailable = true) ∧
        Plugin.broadcastEvent (some body) (some c) = some (some (c.handed g us body)) ∧
        Plugin.startGame (some c) = (some (c.handed g us "gameStart"), 0)

/-- The condition on a callback: an item that is added is in the list of the roster, and one that
is removed is not. -/
def KeepsTheList (roster : Roster) : Action → Prop
  | .handleItemAdded item => item.username ∈ roster.map (·.username)
  | .handleItemRemoved item => item.username ∉ roster.map (·.username)
  | _ => True

theorem serverRoster_concat (as : List Action) (a : Action) :
    serverRoster (as ++ [a]) = match a with
      | .handleRoster roster => roster.map (·.username)
      | .handleItemAdded item => item.username :: serverRoster as
      | .handleItemRemoved item => (serverRoster as).filter (· ≠ item.username)
      | _ => serverRoster as := by
  unfold serverRoster
  rw [List.foldl_concat]

/-- The map has the user names of the list, whatever items were added or removed since. -/
theorem mem_mRoster_since_roster (before : List Action) (roster : Roster) {cs : List Action}
    (hcs : ∀ a ∈ cs, a.isHandleRoster = false) (u : String) :
    u ∈ (run Client.step {} (before ++ .handleRoster roster :: cs)).mRoster ↔
      u ∈ roster.map (·.username) := by
  rw [Client.mem_mRoster, ← known_isSome, known_since_roster before roster hcs u]
  by_cases hu : u ∈ roster.map (·.username) <;> simp [hu]

/-- A message to all reaches the user names of the list whose most recent presence since is
available. -/
theorem messages_since_roster (before : List Action) (roster : Roster) {cs : List Action}
    (hcs : ∀ a ∈ cs, a.isHandleRoster = false) {g : Nat} {body : String}
    (hconn : (run Client.step {} (before ++ .handleRoster roster :: cs)).mListener.mIsConnected =
      true)
    (hm : (run Client.step {} (before ++ .handleRoster roster :: cs)).mListener.mClient = some g)
    (hbody : body ≠ "") :
    let c := run Client.step {} (before ++ .handleRoster roster :: cs)
    ∃ us : List String, us.Nodup ∧
      (∀ u, u ∈ us ↔ u ≠ "" ∧ u ∈ roster.map (·.username) ∧
        ∃ resource presence, (presencesOf u cs).getLast? = some (resource, presence) ∧
          presence.isAvailable = true) ∧
      Plugin.broadcastEvent (some body) (some c) = some (some (c.handed g us body)) ∧
      Plugin.startGame (some c) = (some (c.handed g us "gameStart"), 0) := by
  intro c
  refine ⟨Client.addressees c.mRoster.toList, Client.addressees_nodup _, fun u => ?_,
    Client.broadcastEvent_handed hconn hm hbody, Client.gameCall_handed hconn hm (by decide)⟩
  rw [Client.mem_addressees, known_since_roster before roster hcs u]
  apply and_congr_right
  intro _
  by_cases hu : u ∈ roster.map (·.username)
  · simp only [hu, if_true, true_and, Option.some.injEq, Option.map_eq_some_iff, Prod.exists]
    constructor
    · rintro ⟨presence, ⟨resource, _, hlast, rfl⟩, havailable⟩
      exact ⟨resource, _, hlast, havailable⟩
    · rintro ⟨resource, presence, hlast, havailable⟩
      exact ⟨presence, ⟨resource, presence, hlast, rfl⟩, havailable⟩
  · simp [hu]

/-- While each callback keeps the list, it has the user names on the server. -/
theorem mem_serverRoster_of_keeps (before : List Action) {roster : Roster} {cs : List Action}
    (hcs : ∀ a ∈ cs, a.isHandleRoster = false) (hkeep : ∀ a ∈ cs, KeepsTheList roster a)
    (u : String) :
    u ∈ serverRoster (before ++ .handleRoster roster :: cs) ↔ u ∈ roster.map (·.username) := by
  induction cs using List.reverseRecOn with
  | nil => rw [serverRoster_concat]
  | append_singleton cs a ih =>
    have hlast := ih (fun b hb => hcs b (by simp [hb])) fun b hb => hkeep b (by simp [hb])
    have hroster := hcs a (by simp)
    have hitem := hkeep a (by simp)
    rw [← List.cons_append, ← List.append_assoc, serverRoster_concat]
    cases a with
    | handleRoster => cases hroster
    | handleItemAdded item =>
      rw [List.mem_cons, hlast]
      exact or_iff_right_of_imp fun heq => heq ▸ hitem
    | handleItemRemoved item =>
      rw [List.mem_filter, hlast]
      refine and_iff_left_of_imp fun hu => ?_
      exact decide_eq_true fun heq => hitem (heq ▸ hu)
    | _ => exact hlast

/-- A callback behind which the map still has the user names on the server keeps the list. -/
theorem keepsTheList_of_mem_iff (before : List Action) {roster : Roster} {bs : List Action}
    {a : Action}
    (h : ∀ u, u ∈ serverRoster (before ++ .handleRoster roster :: (bs ++ [a])) ↔
      u ∈ roster.map (·.username)) : KeepsTheList roster a := by
  rw [← List.cons_append, ← List.append_assoc, serverRoster_concat] at h
  cases a with
  | handleItemAdded item => exact (h item.username).mp (List.mem_cons_self ..)
  | handleItemRemoved item =>
    intro hin
    have hfiltered := (h item.username).mpr hin
    simp at hfiltered
  | _ => trivial

end esc_platform.xmpp
