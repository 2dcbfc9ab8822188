-- The connected peers against the sessions of the client. A session starts
-- with a connection and ends with its loss, and the roster map outlives
-- both: `connect` clears the three queues and not the map.
import EscPlatform.Xmpp.ConnectionLaws
import EscPlatform.Xmpp.RosterLaws

namespace esc_platform.xmpp

open runs ledger

/-! ## Peers after a step -/

namespace Client

theorem isPeerConnected_congr {c d : Client} (h : c.mRoster = d.mRoster) (u : String) :
    c.isPeerConnected u = d.isPeerConnected u := by
  unfold isPeerConnected
  rw [h]

/-- A new roster forgets who was connected. -/
theorem handleRoster_isPeerConnected (c : Client) (roster : Roster) (u : String) :
    (c.handleRoster roster).isPeerConnected u = false := by
  have hfollows := Follows.list peerOf RosterItem.username roster [] u
  unfold isPeerConnected
  rw [handleRoster_mRoster, rosterLoop_mRoster, hfollows, known_snoc]
  by_cases hu : u ∈ roster.map RosterItem.username <;> simp [after, hu, peerOf]

theorem handleRosterPresence_isPeerConnected (c : Client) (item : RosterItem) (resource : String)
    (presence : PresenceType) (message u : String) :
    (c.handleRosterPresence item resource presence message).isPeerConnected u =
      if u = item.username ∧ item.username ∈ c.mRoster then presence.isAvailable
      else c.isPeerConnected u := by
  unfold isPeerConnected
  rw [handleRosterPresence_mRoster]
  cases hpeer : c.mRoster[item.username]? with
  | none =>
    have hnot : item.username ∉ c.mRoster := by
      simp [Std.TreeMap.mem_iff_isSome_getElem?, hpeer]
    simp [hnot]
  | some peer =>
    have hmem : item.username ∈ c.mRoster := by
      simp [Std.TreeMap.mem_iff_isSome_getElem?, hpeer]
    by_cases hu : u = item.username
    · subst hu
      simp [hmem, setStatus_mConnected]
    · simp [Std.TreeMap.getElem?_insert, hu, Ne.symm hu]

/-! ## The connection after a step -/

/-- `disconnect` closes a stream, which is then reported. -/
def closes (c : Client) : Bool := c.mListener.mIsConnected && c.mListener.currentIsOpen

theorem listenerOnDisconnect_mIsConnected (c : Client) (g : Nat) (e : ConnectionError)
    (attempt : Attempt) (threadCreated : Bool) :
    (c.listenerOnDisconnect g e attempt threadCreated).1.mListener.mIsConnected = false := by
  unfold listenerOnDisconnect
  rw [onDisconnect_mListener]
  split <;> rfl

theorem disconnect_mIsConnected (c : Client) (threadJoined : Bool) :
    (c.disconnect threadJoined).1.mListener.mIsConnected =
      (c.mListener.mIsConnected && !c.closes) := by
  unfold disconnect closes closeConnection glooxDisconnect Listener.currentIsOpen
  cases hconn : c.mListener.mIsConnected with
  | false => simp [hconn]
  | true =>
    cases hm : c.mListener.mClient with
    | none => simp [hconn]
    | some g =>
      simp only [if_true, Bool.true_and]
      split
      · rename_i hopen
        rw [listenerOnDisconnect_mIsConnected, hopen]
        rfl
      · rename_i hopen
        simp only [hconn, Bool.not_eq_true] at hopen ⊢
        rw [hopen]
        rfl

/-- The flag of the listener after a step. -/
theorem step_mIsConnected (c : Client) (a : Action) :
    (c.step a).mListener.mIsConnected = match a with
      | .disconnect _ => c.mListener.mIsConnected && !c.closes
      | .onConnect g | .onTLSConnect g =>
        c.mListener.mIsConnected || decide (g < c.mListener.clients.length)
      | .onDisconnect g _ _ _ =>
        c.mListener.mIsConnected && !decide (g < c.mListener.clients.length)
      | _ => c.mListener.mIsConnected := by
  cases a with
  | connect user password server port threadCreated =>
    simp only [step, connect_mListener]
    split <;> rfl
  | disconnect threadJoined => exact disconnect_mIsConnected c threadJoined
  | onConnect g =>
    simp only [step]
    split
    · rename_i hg
      simp [listenerOnConnect_mListener, hg]
    · rename_i hg
      simp [hg]
  | onTLSConnect g =>
    simp only [step]
    split
    · rename_i hg
      simp [listenerOnTLSConnect_mListener, hg]
    · rename_i hg
      simp [hg]
  | onDisconnect g e attempt threadCreated =>
    simp only [step]
    split
    · rename_i hg
      simp [listenerOnDisconnect_mIsConnected, hg]
    · rename_i hg
      simp [hg]
  | handleMessage => simp [step, handleMessage]
  | handleRoster roster =>
    simp only [step, handleRoster, fire_mListener, pushState_mListener]
    split
    · exact Listener.subscribeTo_mIsConnected _ _
    · rfl
  | handleRosterPresence => simp [step, handleRosterPresence]
  | handleSubscriptionRequest jid => exact Listener.send_mIsConnected _ _
  | sendMessage recipient message subject =>
    simp only [step, sendMessage, Listener.sendMessage]
    split
    · rfl
    · simp only
      split
      · rfl
      · exact Listener.send_mIsConnected _ _
  | handleItemAdded | handleItemRemoved | setSignals | popEvent | popState | popPresence => rfl

end Client

/-! ## Sessions -/

/-- The user names with an available presence since the `onConnect` of the current session. A
session with no `onConnect` yet, or that was lost, is `none`. -/
abbrev Session := Option (List String)

namespace Session

def see (m : Session) (c : Client) (a : Action) (_ : Client) : Session :=
  match a with
  | .connect user _ server _ _ => if user = "" ∨ server = "" then m else none
  | .disconnect _ => if c.closes then none else m
  | .onConnect g => if g < c.mListener.clients.length then some [] else m
  | .onDisconnect g _ _ _ => if g < c.mListener.clients.length then none else m
  | .handleRosterPresence item _ presence _ =>
    if presence.isAvailable then m.map (item.username :: ·) else m
  | _ => m

/-- A peer counts as connected only with a connection, and by a presence of its session. -/
def PeersOfSession (s : Client × Session) : Prop :=
  ∀ u, s.1.isPeerConnected u = true →
    s.1.mListener.mIsConnected = true ∧ ∃ us, s.2 = some us ∧ u ∈ us

def NoPeerConnected (c : Client) : Prop := ∀ u, c.isPeerConnected u = false

/-- A session starts and ends while no peer is marked as connected, and a peer of the roster gets
available in a session only. -/
def StartsClean (s : Client × Session) : Action → Prop
  | .connect user _ server _ _ => user ≠ "" → server ≠ "" → NoPeerConnected s.1
  | .disconnect _ => s.1.closes = true → NoPeerConnected s.1
  | .onConnect g | .onDisconnect g _ _ _ =>
    g < s.1.mListener.clients.length → NoPeerConnected s.1
  | .handleRosterPresence item _ presence _ =>
    presence.isAvailable = true → item.username ∈ s.1.mRoster →
      s.1.mListener.mIsConnected = true ∧ s.2 ≠ none
  | _ => True

/-- Without a session the property says that no peer is connected. -/
theorem peersOfSession_none (c : Client) : PeersOfSession (c, none) ↔ NoPeerConnected c := by
  constructor
  · intro h u
    by_contra hu
    obtain ⟨-, us, hus, -⟩ := h u (by simpa using hu)
    cases hus
  · intro h u hu
    rw [h u] at hu
    cases hu

theorem peersOfSession_start (c : Client) : PeersOfSession (c, some []) ↔ NoPeerConnected c := by
  constructor
  · intro h u
    by_contra hu
    obtain ⟨-, us, hus, hmem⟩ := h u (by simpa using hu)
    cases hus
    cases hmem
  · intro h u hu
    rw [h u] at hu
    cases hu

/-- The property looks at the map and the flag only. -/
theorem PeersOfSession.of_eq {c d : Client} {m : Session} (h : PeersOfSession (c, m))
    (hroster : d.mRoster = c.mRoster)
    (hconn : c.mListener.mIsConnected = true → d.mListener.mIsConnected = true) :
    PeersOfSession (d, m) := by
  intro u hu
  rw [Client.isPeerConnected_congr hroster u] at hu
  obtain ⟨hc, hus⟩ := h u hu
  exact ⟨hconn hc, hus⟩

theorem noPeerConnected_congr {c d : Client} (h : d.mRoster = c.mRoster) :
    NoPeerConnected d ↔ NoPeerConnected c := by
  unfold NoPeerConnected
  simp only [Client.isPeerConnected_congr h]

theorem handleRosterPresence_peersOfSession {c : Client} {m : Session}
    (h : PeersOfSession (c, m)) (item : RosterItem) (resource : String) (presence : PresenceType)
    (message : String) :
    PeersOfSession (monitored Client.step see (c, m)
        (.handleRosterPresence item resource presence message)) ↔
      StartsClean (c, m) (.handleRosterPresence item resource presence message) := by
  have hconn := Client.step_mIsConnected c (.handleRosterPresence item resource presence message)
  have hpeer := c.handleRosterPresence_isPeerConnected item resource presence message
  simp only [monitored, see, StartsClean]
  constructor
  · intro hnext havailable hmem
    have hu := hpeer item.username
    rw [if_pos ⟨rfl, hmem⟩, havailable] at hu
    obtain ⟨hc, us, hus, -⟩ := hnext item.username hu
    rw [if_pos havailable] at hus
    refine ⟨hconn.symm.trans hc, ?_⟩
    rintro rfl
    cases hus
  · intro hclean u hu
    have hu' : (c.handleRosterPresence item resource presence message).isPeerConnected u = true :=
      hu
    rw [hpeer u] at hu'
    split at hu'
    · -- the presence made this peer available
      rename_i hitem
      obtain ⟨rfl, hmem⟩ := hitem
      obtain ⟨hc, hsession⟩ := hclean hu' hmem
      obtain ⟨us, hus⟩ := Option.ne_none_iff_exists'.mp hsession
      exact ⟨hconn.trans hc, item.username :: us, by rw [if_pos hu', hus]; rfl, by simp⟩
    · obtain ⟨hc, us, hus, hmem⟩ := h u hu'
      simp only at hus
      refine ⟨hconn.trans hc, ?_⟩
      by_cases havailable : presence.isAvailable = true
      · exact ⟨item.username :: us, by rw [if_pos havailable, hus]; rfl, by simp [hmem]⟩
      · exact ⟨us, by rw [if_neg havailable, hus], hmem⟩

/-- One step keeps the property exactly when it starts and ends sessions clean. -/
theorem step_peersOfSession (s : Client × Session) (a : Action) (h : PeersOfSession s) :
    PeersOfSession (monitored Client.step see s a) ↔ StartsClean s a := by
  obtain ⟨c, m⟩ := s
  have hconn := Client.step_mIsConnected c a
  cases a with
  | handleRosterPresence item resource presence message =>
    exact handleRosterPresence_peersOfSession h item resource presence message
  | handleRoster roster =>
    refine ⟨fun _ => trivial, fun _ u hu => ?_⟩
    rw [show (monitored Client.step see (c, m) (.handleRoster roster)).1 = c.handleRoster roster
      from rfl, Client.handleRoster_isPeerConnected] at hu
    cases hu
  | connect user password server port threadCreated =>
    have hroster := c.step_mRoster (a := .connect user password server port threadCreated) rfl
    simp only [monitored, see, StartsClean]
    split
    · rename_i hempty
      refine ⟨fun _ hu hs => absurd hempty (by simp [hu, hs]), fun _ => ?_⟩
      exact h.of_eq hroster fun hc => hconn.trans hc
    · rename_i hempty
      rw [peersOfSession_none, noPeerConnected_congr hroster]
      simp only [not_or] at hempty
      simp [hempty]
  | disconnect threadJoined =>
    have hroster := c.step_mRoster (a := .disconnect threadJoined) rfl
    simp only [monitored, see, StartsClean]
    by_cases hcloses : c.closes = true
    · rw [if_pos hcloses, peersOfSession_none, noPeerConnected_congr hroster]
      simp [hcloses]
    · rw [if_neg hcloses]
      refine ⟨fun _ hyes => absurd hyes hcloses, fun _ => ?_⟩
      exact h.of_eq hroster fun hc => by simp [hconn, hc, hcloses]
  | onConnect g =>
    have hroster := c.step_mRoster (a := .onConnect g) rfl
    simp only [monitored, see, StartsClean]
    by_cases hg : g < c.mListener.clients.length
    · rw [if_pos hg, peersOfSession_start, noPeerConnected_congr hroster]
      simp [hg]
    · rw [if_neg hg]
      refine ⟨fun _ hyes => absurd hyes hg, fun _ => ?_⟩
      exact h.of_eq hroster fun hc => by simp [hconn, hc]
  | onDisconnect g e attempt threadCreated =>
    have hroster := c.step_mRoster (a := .onDisconnect g e attempt threadCreated) rfl
    simp only [monitored, see, StartsClean]
    by_cases hg : g < c.mListener.clients.length
    · rw [if_pos hg, peersOfSession_none, noPeerConnected_congr hroster]
      simp [hg]
    · rw [if_neg hg]
      refine ⟨fun _ hyes => absurd hyes hg, fun _ => ?_⟩
      exact h.of_eq hroster fun hc => by simp [hconn, hc, hg]
  | onTLSConnect g =>
    have hroster := c.step_mRoster (a := .onTLSConnect g) rfl
    refine ⟨fun _ => trivial, fun _ => ?_⟩
    exact h.of_eq hroster fun hc => by simp [hconn, hc]
  | handleMessage name subject body =>
    have hroster := c.step_mRoster (a := .handleMessage name subject body) rfl
    exact ⟨fun _ => trivial, fun _ => h.of_eq hroster fun hc => hconn.trans hc⟩
  | sendMessage recipient message subject =>
    have hroster := c.step_mRoster (a := .sendMessage recipient message subject) rfl
    exact ⟨fun _ => trivial, fun _ => h.of_eq hroster fun hc => hconn.trans hc⟩
  | handleItemAdded | handleItemRemoved | handleSubscriptionRequest | setSignals | popEvent
  | popState | popPresence =>
    exact ⟨fun _ => trivial, fun _ => h.of_eq rfl fun hc => hconn.trans hc⟩

theorem peersOfSession_new : PeersOfSession ({}, none) := by
  rw [peersOfSession_none]
  intro u
  simp [Client.isPeerConnected]

/-- In every state of a run the connected peers are those of the current session exactly when
each session of the run starts and ends while no peer is marked as connected, and no peer gets
available outside of one. -/
theorem peers_are_of_the_session_iff (as : List Action) :
    Always (monitored Client.step see) PeersOfSession ({}, none) as ↔
      EachStep (monitored Client.step see) StartsClean ({}, none) as :=
  always_iff_eachStep (I := fun _ => True) (fun _ _ _ => trivial)
    (fun s a _ h => step_peersOfSession s a h) trivial peersOfSession_new

/-- The server closes the connection: bob still counts as connected. -/
theorem a_peer_outlives_the_connection :
    ¬ ∀ as, Always (monitored Client.step see) PeersOfSession ({}, none) as := by
  intro h
  have hlast := h [.connect "docent" "docent" "host" 5222 true, .onConnect 0,
    .handleRoster [⟨"bob"⟩], .handleRosterPresence ⟨"bob"⟩ "phone" .available "",
    .onDisconnect 0 .connStreamClosed ⟨false, []⟩ false] _ (List.prefix_refl _) "bob"
  rw [run_monitored_fst, Client.isPeerConnected_run] at hlast
  exact absurd (hlast (by decide)).1 (by decide)

end Session

end esc_platform.xmpp
