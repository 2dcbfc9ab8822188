-- The peer that the presence signal passes. `handleRosterPresence` looks for
-- the user name once and tests the iterator before it sets the status, but not
-- before it gives the peer to the callback.
import EscPlatform.Xmpp.RosterLaws

namespace esc_platform.xmpp

open runs ledger

/-! ## One callback -/

/-- The signal of a presence passes the entry that the roster has for the user name. -/
def PassesPeer (c : Client) : Action → Prop
  | .handleRosterPresence item resource presence message =>
    c.signals.mSignalRosterPresence = true →
      ∃ peer, (c.handleRosterPresence item resource presence message).fired =
          c.fired ++
            [.rosterPresence (some peer) resource (presenceToStatus presence) message] ∧
        (c.handleRosterPresence item resource presence message).mRoster[item.username]? =
          some peer ∧ peer.mUsername = item.username
  | _ => True

/-- The user names of the last roster that the callbacks so far brought. -/
def lastRoster (as : List Action) : List String := lastList (rosterEntries as)

/-- The condition: a presence, where its signal is set, is of a user name of the last roster. -/
def OfLastRoster (before : List Action) : Action → Prop
  | .handleRosterPresence item _ _ _ =>
    (run Client.step {} before).signals.mSignalRosterPresence = true →
      item.username ∈ lastRoster before
  | _ => True

namespace Client

/-- The signal passes what the map has for the user name behind the update. -/
theorem handleRosterPresence_fired {c : Client} (h : c.signals.mSignalRosterPresence = true)
    (item : RosterItem) (resource : String) (presence : PresenceType) (message : String) :
    (c.handleRosterPresence item resource presence message).fired = c.fired ++
      [.rosterPresence
        (c.handleRosterPresence item resource presence message).mRoster[item.username]?
        resource (presenceToStatus presence) message] := by
  rw [handleRosterPresence_mRoster]
  unfold handleRosterPresence fire
  exact congrArg Client.fired (if_pos h)

/-- The map has an entry for the user name then exactly where it had one before. -/
theorem handleRosterPresence_entry (c : Client) (item : RosterItem) (resource : String)
    (presence : PresenceType) (message : String) :
    (c.handleRosterPresence item resource presence message).mRoster[item.username]? =
      c.mRoster[item.username]?.map (·.setStatus (presenceToStatus presence)) := by
  rw [handleRosterPresence_mRoster]
  cases hpeer : c.mRoster[item.username]? with
  | none => exact hpeer
  | some peer => simp

/-- A roster keeps its peers under their own names. -/
theorem RosterFollows.mUsername {c : Client} {es : List (Entry String PresenceType)}
    (h : c.RosterFollows es) {u : String} {peer : Peer} (hpeer : c.mRoster[u]? = some peer) :
    peer.mUsername = u := by
  have hknown := h u
  rw [hpeer] at hknown
  obtain ⟨presence, -, rfl⟩ := Option.map_eq_some_iff.mp hknown.symm
  exact peerOf_mUsername u presence

end Client

/-! ## Runs -/

theorem passesPeer_iff (before : List Action) (a : Action) :
    PassesPeer (run Client.step {} before) a ↔ OfLastRoster before a := by
  cases a with
  | handleRosterPresence item resource presence message =>
    simp only [PassesPeer, OfLastRoster, lastRoster]
    refine imp_congr_right fun hset => ?_
    rw [← Client.mem_mRoster, Std.TreeMap.mem_iff_isSome_getElem?,
      Client.handleRosterPresence_fired hset, Client.handleRosterPresence_entry]
    rcases hpeer : (run Client.step {} before).mRoster[item.username]? with _ | peer
    · simp
    · have hname := (Client.run_rosterFollows before).mUsername hpeer
      refine iff_of_true ⟨peer.setStatus (presenceToStatus presence), rfl, rfl, hname⟩ rfl
  | _ => exact Iff.rfl

/-- Over a run, each presence signal passes a peer of the roster exactly where each presence is of
a user name of the last roster. -/
theorem presence_signals_pass_a_peer_iff (as : List Action) :
    EachStep Client.step PassesPeer {} as ↔
      ∀ before a, before ++ [a] <+: as → OfLastRoster before a := by
  unfold EachStep
  simp only [passesPeer_iff]

/-- A presence that comes before any roster. -/
theorem an_early_presence_has_no_peer :
    ¬ EachStep Client.step PassesPeer {}
      [.setSignals { mSignalRosterPresence := true },
        .handleRosterPresence ⟨"bob"⟩ "phone" .available ""] := by
  intro h
  have hbob := (passesPeer_iff _ _).mp (h [.setSignals { mSignalRosterPresence := true }] _
    (List.prefix_refl _))
  exact absurd (hbob rfl) (by decide)

end esc_platform.xmpp
