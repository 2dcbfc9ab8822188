-- The roster map over whole runs: it holds the user names of the last list
-- that the server sent, and for each of them the latest presence since. The
-- resource of a presence and the items that come and go play no part in it.
import EscPlatform.Lib.Ledger
import EscPlatform.Lib.Runs
import EscPlatform.Xmpp.Client

namespace esc_platform.xmpp

open runs ledger

/-! ## What the roster should say -/

/-- Available, Chat, Away, DND and XA. -/
def PresenceType.isAvailable : PresenceType → Bool
  | .available | .chat | .away | .dnd | .xa => true
  | .unavailable | .probe | .error | .invalid => false

/-- A roster callback as an entry of a ledger. -/
def rosterEntry : Action → Option (Entry String PresenceType)
  | .handleRoster roster => some (.list (roster.map (·.username)))
  | .handleRosterPresence item _ presence _ => some (.write item.username presence)
  | _ => none

def rosterEntries (as : List Action) : List (Entry String PresenceType) := as.filterMap rosterEntry

/-- The peer of a user name with this latest presence, if there was one. -/
def peerOf (username : String) : Option PresenceType → Peer
  | none => { mUsername := username }
  | some presence => Peer.setStatus { mUsername := username } (presenceToStatus presence)

@[simp] theorem peerOf_mUsername (username : String) (presence : Option PresenceType) :
    (peerOf username presence).mUsername = username := by
  cases presence <;> rfl

/-- A status keeps nothing of the one before. -/
theorem peerOf_setStatus (username : String) (old : Option PresenceType) (value : Status) :
    (peerOf username old).setStatus value = Peer.setStatus { mUsername := username } value := by
  cases old <;> rfl

/-- The cast of the numbers and the bound of `setStatus` pick the five available kinds. -/
theorem setStatus_mConnected (p : Peer) (presence : PresenceType) :
    (p.setStatus (presenceToStatus presence)).mConnected = presence.isAvailable := by
  cases presence <;> rfl

theorem peerOf_mConnected (username : String) (presence : Option PresenceType) :
    (peerOf username presence).mConnected = presence.any (·.isAvailable) := by
  cases presence with
  | none => rfl
  | some presence => exact setStatus_mConnected _ presence

namespace Client

/-! ## What a step does to the roster -/

@[simp] theorem fire_mRoster (c : Client) (isSet : Bool) (signal : Signal) :
    (c.fire isSet signal).mRoster = c.mRoster := by
  unfold fire; split <;> rfl

@[simp] theorem pushState_mRoster (c : Client) (s : State) : (c.pushState s).mRoster = c.mRoster :=
  rfl

@[simp] theorem reportDisconnect_mRoster (c : Client) (err : ErrorT) :
    (c.reportDisconnect err).mRoster = c.mRoster := by
  simp [reportDisconnect]

@[simp] theorem connect_mRoster (c : Client) (user password server : String) (port : Int)
    (threadCreated : Bool) :
    (c.connect user password server port threadCreated).1.mRoster = c.mRoster := by
  unfold connect
  split
  · rfl
  · cases threadCreated <;> rfl

@[simp] theorem registerAndConnect_mRoster (c : Client) (attempt : Attempt) (threadCreated : Bool) :
    (c.registerAndConnect attempt threadCreated).1.mRoster = c.mRoster := by
  unfold registerAndConnect
  simp only
  split
  · rw [connect_mRoster]
  · rfl

@[simp] theorem listenerOnDisconnect_mRoster (c : Client) (g : Nat) (e : ConnectionError)
    (attempt : Attempt) (threadCreated : Bool) :
    (c.listenerOnDisconnect g e attempt threadCreated).1.mRoster = c.mRoster := by
  unfold listenerOnDisconnect onDisconnect
  simp only
  split
  · rw [registerAndConnect_mRoster]
  · rw [reportDisconnect_mRoster]

@[simp] theorem closeConnection_mRoster (c : Client) : c.closeConnection.mRoster = c.mRoster := by
  unfold closeConnection
  split
  · unfold glooxDisconnect
    split
    · rw [listenerOnDisconnect_mRoster]
    · rfl
  · rfl

@[simp] theorem disconnect_mRoster (c : Client) (threadJoined : Bool) :
    (c.disconnect threadJoined).1.mRoster = c.mRoster := by
  unfold disconnect
  split
  · rw [closeConnection_mRoster]
  · rfl

/-- The map is the middle one of what the loop of `handleRoster` builds. -/
theorem rosterLoop_mRoster (roster : Roster) (subscribeToGame : Bool) :
    (rosterLoop roster subscribeToGame).2.1 = roster.foldl
      (fun mRoster item => mRoster.insertIfNew item.username (peerOf item.username none)) ∅ := by
  have hloop : ∀ (s : Bool × Std.TreeMap String Peer × List String),
      (roster.foldl (fun s item =>
        (if kGameEngineUsername = item.username then false else s.1,
          s.2.1.insertIfNew item.username { mUsername := item.username },
          s.2.2 ++ [item.username])) s).2.1 =
        roster.foldl (fun mRoster item =>
          mRoster.insertIfNew item.username (peerOf item.username none)) s.2.1 := by
    intro s
    induction roster generalizing s with
    | nil => rfl
    | cons item roster ih => exact ih _
  exact hloop (subscribeToGame, ∅, [])

/-- The map after a presence: it has an entry for the name, or it stays. -/
theorem handleRosterPresence_mRoster (c : Client) (item : RosterItem) (resource : String)
    (presence : PresenceType) (message : String) :
    (c.handleRosterPresence item resource presence message).mRoster =
      match c.mRoster[item.username]? with
      | some peer => c.mRoster.insert item.username (peer.setStatus (presenceToStatus presence))
      | none => c.mRoster := by
  unfold handleRosterPresence
  exact fire_mRoster _ _ _

theorem handleRoster_mRoster (c : Client) (roster : Roster) :
    (c.handleRoster roster).mRoster =
      (rosterLoop roster (c.mUsername ≠ kDocentUsername)).2.1 := by
  simp only [handleRoster, fire_mRoster, pushState_mRoster]
  split <;> rfl

/-- Only the two roster callbacks change the map. -/
theorem step_mRoster (c : Client) {a : Action} (h : rosterEntry a = none) :
    (c.step a).mRoster = c.mRoster := by
  cases a with
  | connect => exact connect_mRoster _ _ _ _ _ _
  | disconnect => exact disconnect_mRoster _ _
  | onConnect g =>
    simp only [step]
    split
    · simp [listenerOnConnect, onConnect]
    · rfl
  | onTLSConnect g =>
    simp only [step]
    split
    · simp [listenerOnTLSConnect, onTLSConnect]
    · rfl
  | onDisconnect g e attempt threadCreated =>
    simp only [step]
    split
    · exact listenerOnDisconnect_mRoster _ _ _ _ _
    · rfl
  | handleMessage => simp [step, handleMessage]
  | handleRoster | handleRosterPresence => cases h
  | sendMessage recipient message subject =>
    simp only [step, sendMessage]
    split <;> rfl
  | handleItemAdded | handleItemRemoved | handleSubscriptionRequest | setSignals | popEvent
  | popState | popPresence => rfl

/-! ## The roster follows the callbacks -/

/-- The map says of each user name what the callbacks left known of it. -/
def RosterFollows (c : Client) (es : List (Entry String PresenceType)) : Prop :=
  Follows c.mRoster peerOf es

theorem step_rosterFollows {c : Client} {es : List (Entry String PresenceType)}
    (h : c.RosterFollows es) (a : Action) :
    (c.step a).RosterFollows (es ++ (rosterEntry a).toList) := by
  cases ha : rosterEntry a with
  | none =>
    unfold RosterFollows
    rw [step_mRoster c ha, Option.toList_none, List.append_nil]
    exact h
  | some entry =>
    cases a with
    | handleRoster roster =>
      cases ha
      unfold RosterFollows step
      rw [handleRoster_mRoster, rosterLoop_mRoster]
      exact Follows.list peerOf (·.username) roster es
    | handleRosterPresence item resource presence message =>
      cases ha
      unfold RosterFollows step
      rw [handleRosterPresence_mRoster]
      cases hpeer : c.mRoster[item.username]? with
      | none => exact Follows.write_unknown h hpeer presence
      | some peer =>
        have hwrite := Follows.write_known h hpeer presence
        have hold : ∃ old, peer = peerOf item.username old := by
          have hknown := h item.username
          rw [hpeer] at hknown
          obtain ⟨old, -, rfl⟩ := Option.map_eq_some_iff.mp hknown.symm
          exact ⟨old, rfl⟩
        obtain ⟨old, rfl⟩ := hold
        simp only [peerOf_setStatus]
        exact hwrite
    | _ => cases ha

theorem run_rosterFollows (as : List Action) :
    (run step {} as).RosterFollows (rosterEntries as) := by
  induction as using List.reverseRecOn with
  | nil => exact follows_nil peerOf
  | append_singleton as a ih =>
    have hentries : rosterEntries (as ++ [a]) = rosterEntries as ++ (rosterEntry a).toList := by
      unfold rosterEntries
      rw [List.filterMap_append]
      cases ha : rosterEntry a <;> simp [ha]
    rw [run_append, hentries]
    exact step_rosterFollows ih a

/-- The keys of the map are the user names of the last roster. -/
theorem mem_mRoster (as : List Action) (u : String) :
    u ∈ (run step {} as).mRoster ↔ u ∈ lastList (rosterEntries as) := by
  rw [Std.TreeMap.mem_iff_isSome_getElem?, run_rosterFollows as u, Option.isSome_map,
    known_isSome]

/-- A peer counts as connected when the latest presence since the roster is available. -/
theorem isPeerConnected_run (as : List Action) (u : String) :
    (run step {} as).isPeerConnected u =
      (known (rosterEntries as) u).any (·.any (·.isAvailable)) := by
  unfold isPeerConnected
  rw [run_rosterFollows as u]
  cases hknown : known (rosterEntries as) u with
  | none => rfl
  | some presence => exact peerOf_mConnected u presence

end Client

/-! ## The resources of a peer -/

def Action.isHandleRoster : Action → Bool
  | .handleRoster _ => true
  | _ => false

/-- The presences of a user name, the oldest first, each with its resource. -/
def presencesOf (u : String) (as : List Action) : List (String × PresenceType) :=
  as.filterMap fun
    | .handleRosterPresence item resource presence _ =>
      if u = item.username then some (resource, presence) else none
    | _ => none

/-- Some resource has a latest presence of an available kind. -/
def someResourceIsAvailable (presences : List (String × PresenceType)) : Prop :=
  ∃ resource presence, (presences.filter (·.1 = resource)).getLast? = some (resource, presence) ∧
    presence.isAvailable = true

theorem lastWrite_rosterEntries (u : String) (as : List Action) :
    lastWrite u (rosterEntries as) = (presencesOf u as).getLast?.map (·.2) := by
  unfold lastWrite rosterEntries presencesOf
  rw [List.filterMap_filterMap, ← List.getLast?_map, List.map_filterMap]
  congr 2
  funext a
  cases a with
  | handleRosterPresence item resource presence message =>
    by_cases hu : u = item.username <;> simp [rosterEntry, hu]
  | _ => rfl

theorem rosterEntries_isList {as : List Action} (h : ∀ a ∈ as, a.isHandleRoster = false) :
    ∀ e ∈ rosterEntries as, e.isList = false := by
  intro e he
  obtain ⟨a, ha, hentry⟩ := List.mem_filterMap.mp he
  have hkind := h a ha
  cases a with
  | handleRoster => cases hkind
  | handleRosterPresence =>
    cases hentry
    rfl
  | _ => cases hentry

/-- What is known of a user name after a roster and callbacks with no other roster. -/
theorem known_since_roster (before : List Action) (roster : Roster) {cs : List Action}
    (hcs : ∀ a ∈ cs, a.isHandleRoster = false) (u : String) :
    known (rosterEntries (before ++ .handleRoster roster :: cs)) u =
      if u ∈ roster.map (·.username) then some ((presencesOf u cs).getLast?.map (·.2))
      else none := by
  have hentries : rosterEntries (before ++ .handleRoster roster :: cs) =
      rosterEntries before ++ .list (roster.map (·.username)) :: rosterEntries cs := by
    simp [rosterEntries, rosterEntry]
  rw [hentries, known_since_list _ _ _ (rosterEntries_isList hcs), lastWrite_rosterEntries]

theorem isPeerConnected_since_roster (before : List Action) (roster : Roster) {cs : List Action}
    (hcs : ∀ a ∈ cs, a.isHandleRoster = false) (u : String) :
    (run Client.step {} (before ++ .handleRoster roster :: cs)).isPeerConnected u =
      (decide (u ∈ roster.map (·.username)) &&
        (presencesOf u cs).getLast?.any (·.2.isAvailable)) := by
  rw [Client.isPeerConnected_run, known_since_roster _ _ hcs]
  by_cases hu : u ∈ roster.map (·.username) <;> simp [hu, Option.any_map]

/-- A peer of the roster counts as connected exactly when the most recent presence of any of its
resources is of an available kind: the last writer wins. -/
theorem a_peer_is_connected_by_its_last_presence (before : List Action) (roster : Roster)
    (cs : List Action) (u : String) (hcs : ∀ a ∈ cs, a.isHandleRoster = false)
    (hu : u ∈ roster.map (·.username)) :
    (run Client.step {} (before ++ .handleRoster roster :: cs)).isPeerConnected u = true ↔
      ∃ resource presence, (presencesOf u cs).getLast? = some (resource, presence) ∧
        presence.isAvailable = true := by
  rw [isPeerConnected_since_roster _ _ hcs, decide_eq_true hu, Bool.true_and,
    Option.any_eq_true]
  exact ⟨fun ⟨⟨resource, presence⟩, h⟩ => ⟨resource, presence, h⟩,
    fun ⟨resource, presence, h⟩ => ⟨(resource, presence), h⟩⟩

theorem a_peer_is_connected_by_its_last_presence_away :
    (run Client.step {} [.handleRoster [⟨"bob"⟩],
      .handleRosterPresence ⟨"bob"⟩ "phone" .unavailable "",
      .handleRosterPresence ⟨"bob"⟩ "desk" .away ""]).isPeerConnected "bob" = true :=
  (a_peer_is_connected_by_its_last_presence [] [⟨"bob"⟩]
    [.handleRosterPresence ⟨"bob"⟩ "phone" .unavailable "",
      .handleRosterPresence ⟨"bob"⟩ "desk" .away ""] "bob" (by simp [Action.isHandleRoster])
    (by simp)).mpr ⟨"desk", .away, by simp [presencesOf], rfl⟩

/-- One resource is available and another one goes: the peer counts as gone. -/
theorem a_resource_that_goes_hides_the_others :
    ¬ ∀ before roster cs u, (∀ a ∈ cs, Action.isHandleRoster a = false) →
      u ∈ List.map RosterItem.username roster →
      ((run Client.step {} (before ++ .handleRoster roster :: cs)).isPeerConnected u = true ↔
        someResourceIsAvailable (presencesOf u cs)) := by
  intro h
  have hcs : ∀ a ∈ [Action.handleRosterPresence ⟨"bob"⟩ "desk" .available "",
      .handleRosterPresence ⟨"bob"⟩ "phone" .unavailable ""], a.isHandleRoster = false := by
    simp [Action.isHandleRoster]
  have hbob := (h [] [⟨"bob"⟩] _ "bob" hcs (by simp)).mpr
    ⟨"desk", .available, by simp [presencesOf], rfl⟩
  rw [isPeerConnected_since_roster _ _ hcs] at hbob
  simp [presencesOf, PresenceType.isAvailable] at hbob

end esc_platform.xmpp
