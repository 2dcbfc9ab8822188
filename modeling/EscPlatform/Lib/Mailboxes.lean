-- Lanes carry messages to boxes. A message goes out on a lane, the front of a
-- lane is carried to a box or lost, and a box gives its oldest message or is
-- emptied. An account keeps what became of every message.
import EscPlatform.Lib.Runs
import Mathlib.Data.List.Basic
import Mathlib.Logic.Function.Basic

namespace mailboxes

open runs

/-! ## The post -/

/-- What is under way on each lane, and what waits in each box with the lane that it came on. The
oldest is in front. -/
structure Post (L R M : Type) where
  lanes : L → List M := fun _ => []
  boxes : R → List (L × M) := fun _ => []

/-- `read` is what the taker gets to see of a message. -/
inductive Move (L R M N : Type)
  | send (l : L) (m : M)
  | carry (l : L) (r : R)
  | lose (l : L)
  | take (r : R) (read : M → N)
  | clear (r : R)

/-- What became of the messages, the oldest in front. -/
structure Account (L R M N : Type) where
  sent : L → List M := fun _ => []
  /-- The messages that left a lane: the box that they went to, or none. -/
  fates : L → List (Option R × M) := fun _ => []
  /-- The messages that left a box. -/
  left : R → List (L × M) := fun _ => []
  /-- What the takers got to see. -/
  given : R → List (L × N) := fun _ => []

section machine

variable {L R M N : Type} [DecidableEq L] [DecidableEq R]

/-- On an empty lane or box there is nothing to move. -/
def Post.step (s : Post L R M) : Move L R M N → Post L R M
  | .send l m => { s with lanes := Function.update s.lanes l (s.lanes l ++ [m]) }
  | .carry l r =>
    { lanes := Function.update s.lanes l (s.lanes l).tail
      boxes := Function.update s.boxes r
        (s.boxes r ++ (s.lanes l).head?.toList.map (l, ·)) }
  | .lose l => { s with lanes := Function.update s.lanes l (s.lanes l).tail }
  | .take r _ => { s with boxes := Function.update s.boxes r (s.boxes r).tail }
  | .clear r => { s with boxes := Function.update s.boxes r [] }

def Account.see (m : Account L R M N) (s : Post L R M) (a : Move L R M N) (_ : Post L R M) :
    Account L R M N :=
  match a with
  | .send l x => { m with sent := Function.update m.sent l (m.sent l ++ [x]) }
  | .carry l r =>
    { m with
      fates := Function.update m.fates l
        (m.fates l ++ (s.lanes l).head?.toList.map (some r, ·)) }
  | .lose l =>
    { m with
      fates := Function.update m.fates l (m.fates l ++ (s.lanes l).head?.toList.map (none, ·)) }
  | .take r read =>
    { m with
      left := Function.update m.left r (m.left r ++ (s.boxes r).head?.toList)
      given := Function.update m.given r
        (m.given r ++ (s.boxes r).head?.toList.map fun x => (x.1, read x.2)) }
  | .clear r => { m with left := Function.update m.left r (m.left r ++ s.boxes r) }

/-- The post with its account. -/
def move : Post L R M × Account L R M N → Move L R M N → Post L R M × Account L R M N :=
  monitored Post.step Account.see

/-- The messages of a lane among those of a box. -/
def ofLane {K : Type} (l : L) (xs : List (L × K)) : List K :=
  xs.filterMap fun x => if x.1 = l then some x.2 else none

section ofLane

variable {K : Type} (l : L)

@[simp] theorem ofLane_nil : ofLane l ([] : List (L × K)) = [] := rfl

@[simp] theorem ofLane_append (xs ys : List (L × K)) :
    ofLane l (xs ++ ys) = ofLane l xs ++ ofLane l ys := by
  simp [ofLane]

theorem ofLane_cons (x : L × K) (xs : List (L × K)) :
    ofLane l (x :: xs) = if x.1 = l then x.2 :: ofLane l xs else ofLane l xs := by
  unfold ofLane
  rw [List.filterMap_cons]
  by_cases h : x.1 = l
  · simp [h]
  · simp [h]

end ofLane

/-! ## Every message has one fate -/

/-- The messages of a lane that went to the box. -/
def wentTo (r : R) (fates : List (Option R × M)) : List M :=
  fates.filterMap fun x => if x.1 = some r then some x.2 else none

@[simp] theorem wentTo_append (r : R) (xs ys : List (Option R × M)) :
    wentTo r (xs ++ ys) = wentTo r xs ++ wentTo r ys := by
  simp [wentTo]

/-- What was sent on a lane has a fate or is under way, and the box got just what went to it: it
gave it away, or it is there. -/
structure Balanced (s : Post L R M × Account L R M N) : Prop where
  lanes : ∀ l, s.2.sent l = (s.2.fates l).map (·.2) ++ s.1.lanes l
  boxes : ∀ l r, ofLane l (s.2.left r) ++ ofLane l (s.1.boxes r) = wentTo r (s.2.fates l)

theorem balanced_new : Balanced (({}, {}) : Post L R M × Account L R M N) := by
  constructor
  · intro l
    rfl
  · intro l r
    rfl

theorem head_tail {K : Type} (xs : List K) : xs.head?.toList ++ xs.tail = xs := by
  cases xs with
  | nil => rfl
  | cons x xs => rfl

omit [DecidableEq R] in
/-- A lane that moves its front on. -/
theorem balanced_front (l k : L) (sent : List M) (fates : L → List (Option R × M))
    (lanes : L → List M) (dest : Option R) (h : sent = (fates k).map (·.2) ++ lanes k) :
    sent =
      (Function.update fates l (fates l ++ (lanes l).head?.toList.map (dest, ·)) k).map (·.2) ++
        Function.update lanes l (lanes l).tail k := by
  by_cases hk : k = l
  · subst hk
    rw [Function.update_self, Function.update_self, List.map_append, List.append_assoc,
      List.map_map, h]
    congr 1
    have hid : ((fun x : Option R × M => x.2) ∘ fun x => (dest, x)) = id := rfl
    rw [hid, List.map_id, head_tail]
  · rw [Function.update_of_ne hk, Function.update_of_ne hk, h]

theorem balanced_move (s : Post L R M × Account L R M N) (a : Move L R M N) (h : Balanced s) :
    Balanced (move s a) := by
  obtain ⟨s, m⟩ := s
  obtain ⟨hlanes, hboxes⟩ := h
  simp only at hlanes hboxes
  cases a with
  | send l x =>
    refine ⟨fun k => ?_, hboxes⟩
    simp only [move, monitored, Post.step, Account.see]
    by_cases hk : k = l
    · subst hk
      simp [hlanes]
    · simp [hk, hlanes]
  | carry l r =>
    refine ⟨fun k => balanced_front l k _ _ _ _ (hlanes k), fun k q => ?_⟩
    simp only [move, monitored, Post.step, Account.see]
    have hold := hboxes k q
    by_cases hk : k = l
    · subst hk
      by_cases hq : q = r
      · subst hq
        rw [Function.update_self, Function.update_self, ofLane_append, ← List.append_assoc, hold,
          wentTo_append]
        congr 1
        cases s.lanes k with
        | nil => rfl
        | cons x xs => simp [ofLane, wentTo]
      · rw [Function.update_of_ne hq, Function.update_self, hold, wentTo_append]
        cases s.lanes k with
        | nil => simp [wentTo]
        | cons x xs => simp [wentTo, Ne.symm hq]
    · rw [Function.update_of_ne hk]
      by_cases hq : q = r
      · subst hq
        rw [Function.update_self, ofLane_append, ← List.append_assoc, hold]
        cases s.lanes l with
        | nil => simp
        | cons x xs => simp [ofLane, Ne.symm hk]
      · rw [Function.update_of_ne hq, hold]
  | lose l =>
    refine ⟨fun k => balanced_front l k _ _ _ _ (hlanes k), fun k q => ?_⟩
    simp only [move, monitored, Post.step, Account.see]
    rw [hboxes k q]
    by_cases hk : k = l
    · subst hk
      rw [Function.update_self, wentTo_append]
      cases s.lanes k with
      | nil => simp [wentTo]
      | cons x xs => simp [wentTo]
    · rw [Function.update_of_ne hk]
  | take r read =>
    refine ⟨hlanes, fun k q => ?_⟩
    simp only [move, monitored, Post.step, Account.see]
    rw [← hboxes k q]
    by_cases hq : q = r
    · subst hq
      rw [Function.update_self, Function.update_self, ofLane_append, List.append_assoc,
        ← ofLane_append, head_tail]
    · rw [Function.update_of_ne hq, Function.update_of_ne hq]
  | clear r =>
    refine ⟨hlanes, fun k q => ?_⟩
    simp only [move, monitored, Post.step, Account.see]
    rw [← hboxes k q]
    by_cases hq : q = r
    · subst hq
      simp
    · rw [Function.update_of_ne hq, Function.update_of_ne hq]

/-! ## A lane whose messages all reach one reader -/

section reader

variable (view : M → N) (l : L) (r : R)

/-- The messages of the lane were seen in full at the box, wait in it or are under way, and none
is missing. -/
def Complete (s : Post L R M × Account L R M N) : Prop :=
  (s.2.sent l).map view =
    ofLane l (s.2.given r) ++ (ofLane l (s.1.boxes r)).map view ++ (s.1.lanes l).map view

/-- The move neither loses a message of the lane, nor carries it to another box, nor throws it out
of the box, nor shows it otherwise than it is. -/
def Keeps (s : Post L R M) : Move L R M N → Prop
  | .send _ _ => True
  | .carry k q => k = l → q = r ∨ s.lanes l = []
  | .lose k => k = l → s.lanes l = []
  | .take q read => q = r → ∀ x ∈ (s.boxes r).head?, x.1 = l → read x.2 = view x.2
  | .clear q => q = r → ofLane l (s.boxes r) = []

/-- Where the front is gone the count is not right any more. -/
theorem complete_tail (sent given waiting : List N) (lane : List M)
    (h : sent = given ++ waiting ++ lane.map view) :
    sent = given ++ waiting ++ lane.tail.map view ↔ lane = [] := by
  rw [h, List.append_cancel_left_eq]
  cases lane with
  | nil => simp
  | cons x xs => simp

theorem complete_move (s : Post L R M × Account L R M N) (a : Move L R M N)
    (h : Complete view l r s) : Complete view l r (move s a) ↔ Keeps view l r s.1 a := by
  obtain ⟨s, m⟩ := s
  unfold Complete at h ⊢
  simp only at h
  cases a with
  | send k x =>
    simp only [move, monitored, Post.step, Account.see, Keeps, iff_true]
    by_cases hk : l = k
    · subst hk
      simp [h]
    · simp [hk, h]
  | carry k q =>
    simp only [move, monitored, Post.step, Account.see, Keeps]
    by_cases hk : k = l
    · subst hk
      by_cases hq : q = r
      · -- the front goes from the lane to the end of the box
        subst hq
        simp only [Function.update_self, ofLane_append, h]
        cases s.lanes k with
        | nil => simp
        | cons x xs => simp [ofLane]
      · rw [Function.update_self, Function.update_of_ne (Ne.symm hq)]
        rw [complete_tail view _ _ _ _ h]
        simp [hq]
    · rw [Function.update_of_ne (Ne.symm hk)]
      by_cases hq : q = r
      · subst hq
        cases s.lanes k with
        | nil => simp [h, hk]
        | cons x xs => simp [h, hk, ofLane]
      · rw [Function.update_of_ne (Ne.symm hq)]
        simp [h, hk]
  | lose k =>
    simp only [move, monitored, Post.step, Account.see, Keeps]
    by_cases hk : k = l
    · subst hk
      rw [Function.update_self, complete_tail view _ _ _ _ h]
      simp
    · rw [Function.update_of_ne (Ne.symm hk)]
      simp [h, hk]
  | take q read =>
    simp only [move, monitored, Post.step, Account.see, Keeps]
    by_cases hq : q = r
    · subst hq
      simp only [Function.update_self, ofLane_append, h]
      rcases s.boxes q with _ | ⟨⟨k, x⟩, xs⟩
      · simp
      · by_cases hk : k = l
        · subst hk
          simp [ofLane_cons, eq_comm]
        · simp [ofLane_cons, hk]
    · rw [Function.update_of_ne (Ne.symm hq), Function.update_of_ne (Ne.symm hq)]
      simp [h, hq]
  | clear q =>
    simp only [move, monitored, Post.step, Account.see, Keeps]
    by_cases hq : q = r
    · subst hq
      rw [Function.update_self, h]
      simp
    · rw [Function.update_of_ne (Ne.symm hq)]
      simp [h, hq]

end reader

end machine

end mailboxes
