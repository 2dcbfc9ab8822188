-- What becomes of the messages of a network over whole runs, whatever the
-- order of the steps: every message has one fate, and a conversation is
-- complete exactly where no step of the run takes something from it.
import EscPlatform.Xmpp.Network

namespace esc_platform.xmpp

open runs mailboxes

namespace Network

variable {ι : Type} [DecidableEq ι]

/-! ## One fate for every message -/

/-- What gloox got on a lane went to a client or to none, or is in transit, in this order. The
events of a client are those that left its queue and those in it, and of each lane they are the
messages that went to it. -/
structure Accounted (s : Network ι × Books ι) : Prop where
  lanes : ∀ l, s.1.handed l = (s.2.2.fates l).map (·.2) ++ s.1.inTransit l
  arrivals : ∀ l q, ofLane l (s.2.2.left q ++ s.2.1.boxes q) = wentTo q (s.2.2.fates l)
  queue : ∀ q, (s.1.clients q).mEventQueue = (s.2.1.boxes q).map (·.2.event)

theorem balanced_step (s : Network ι × Books ι) (a : NetworkAction ι) (h : Balanced s.2) :
    Balanced (booked s a).2 := by
  obtain ⟨s, m⟩ := s
  simp only [booked, monitored, book]
  cases s.moveOf a with
  | none => exact h
  | some mv => exact balanced_move m mv h

theorem accounted_of {s : Network ι × Books ι} (h : Agrees s) (hb : Balanced s.2) :
    Accounted s := by
  refine ⟨fun l => ?_, fun l q => ?_, fun q => (h.boxes q).symm⟩
  · rw [← h.sent l, ← h.lanes l]
    exact hb.lanes l
  · rw [ofLane_append]
    exact hb.boxes l q

section conversation

variable (l : Lane ι) (q : ι)

/-- The texts that gloox got on the lane are those that the polls of `q` gave, those that wait in
its queue and those in transit, and none is missing. -/
def Delivered (s : Network ι × Books ι) : Prop :=
  (s.1.handed l).map texts = ofLane l (s.2.2.given q) ++
    (ofLane l (s.2.1.boxes q)).map texts ++ (s.1.inTransit l).map texts

/-- The step takes nothing from the conversation. A new connection finds none of its events in the
queue, a poll whose turn it is has room for the texts, and the server neither routes its messages
to another client nor drops them. -/
def Intact (s : Network ι × Books ι) : NetworkAction ι → Prop
  | .act p a => p = q → (s.1.clients q).startsOver a = true → ofLane l (s.2.1.boxes q) = []
  | .getNextEvent r n k => r = q → ∀ x ∈ (s.2.1.boxes q).head?, x.1 = l →
    Fits x.2.username n ∧ Fits x.2.body k
  | .route k r => k = l → r = q ∨ s.1.inTransit l = [] ∨
    (s.1.clients r).mListener.hasSession l.recipient = false
  | .drop k => k = l → s.1.inTransit l = []

variable {l q}

theorem delivered_iff {s : Network ι × Books ι} (h : Agrees s) :
    Delivered l q s ↔ Complete texts l q s.2 := by
  unfold Delivered Complete
  rw [← h.sent l, ← h.lanes l]

/-- A poll shows a message as it is exactly where its texts fit. -/
theorem shown_eq (n k : Nat) (m : Mail) :
    shown n k m = texts m ↔ Fits m.username n ∧ Fits m.body k := by
  rw [← readBuffer_strncpy, ← readBuffer_strncpy]
  exact Prod.mk.injEq _ _ _ _ ▸ Iff.rfl

/-- The step is the move of the post that it is booked as. -/
theorem keeps_iff {s : Network ι × Books ι} (h : Agrees s) (a : NetworkAction ι) :
    (∀ mv ∈ s.1.moveOf a, Keeps texts l q s.2.1 mv) ↔ Intact l q s a := by
  obtain ⟨s, m⟩ := s
  have hlane := h.lanes l
  simp only at hlane
  cases a with
  | act p a =>
    by_cases hquiet : isQuiet a = true
    · rw [isQuiet_moveOf hquiet]
      by_cases hover : (s.clients p).startsOver a = true
      · simp only [hover, if_true, Option.mem_some_iff, forall_eq', Keeps, Intact]
        constructor
        · intro hkeeps hp _
          exact hkeeps hp
        · intro hintact hp
          subst hp
          exact hintact rfl hover
      · simp only [hover, Bool.false_eq_true, if_false, Option.not_mem_none, false_implies,
          implies_true, Intact, true_iff]
        intro hp hstart
        subst hp
        exact absurd hstart hover
    · have hquietly : Intact l q (s, m) (.act p a) := by
        intro _ hstart
        cases a with
        | connect | onDisconnect => exact absurd rfl hquiet
        | _ => cases hstart
      refine iff_of_true ?_ hquietly
      intro mv hmv
      cases a with
      | sendMessage recipient message subject =>
        obtain ⟨x, -, rfl⟩ := Option.map_eq_some_iff.mp hmv
        trivial
      | popEvent =>
        cases hmv
        intro _ _ _ _
        rfl
      | handleMessage => cases hmv
      | _ => exact absurd rfl hquiet
  | getNextEvent r n k =>
    simp only [moveOf, Option.mem_some_iff, forall_eq', Keeps, Intact, shown_eq]
  | route k r =>
    simp only [moveOf, Intact]
    cases hsession : (s.clients r).mListener.hasSession k.recipient with
    | false =>
      simp only [Bool.false_eq_true, if_false, Option.not_mem_none, false_implies, implies_true,
        true_iff]
      intro hk
      subst hk
      exact .inr (.inr hsession)
    | true =>
      simp only [if_true, Option.mem_some_iff, forall_eq', Keeps, hlane]
      constructor
      · intro hkeeps hk
        exact (hkeeps hk).imp id .inl
      · intro hintact hk
        subst hk
        rcases hintact rfl with hr | hempty | hclosed
        · exact .inl hr
        · exact .inr hempty
        · rw [hsession] at hclosed
          cases hclosed
  | drop k => simp only [moveOf, Option.mem_some_iff, forall_eq', Keeps, Intact, hlane]

theorem delivered_step (s : Network ι × Books ι) (a : NetworkAction ι) (h : Agrees s)
    (hd : Delivered l q s) : Delivered l q (booked s a) ↔ Intact l q s a := by
  rw [delivered_iff (agrees_step s a h), ← keeps_iff h]
  rw [delivered_iff h] at hd
  obtain ⟨s, m⟩ := s
  simp only [booked, monitored, book]
  cases s.moveOf a with
  | none => simpa using hd
  | some mv => simpa using complete_move texts l q m mv hd

variable (l q)

end conversation

end Network

end esc_platform.xmpp
