-- Queues of entries with a due time, kept in the order of these times. At a
-- time `now` the entries at the front that are due are taken up, each gets a
-- new time, and the queue is sorted again. What becomes of one entry does
-- not depend on the others.
import Mathlib.Data.List.Sort
import Mathlib.Data.List.TakeWhile
import Mathlib.Order.Defs.LinearOrder

namespace due_queues

variable {T ι : Type} [LinearOrder T]

/-! ## Queues -/

/-- The front of the queue is due first. -/
def Ordered (queue : List (T × ι)) : Prop := queue.Pairwise fun e e' => e.1 ≤ e'.1

/-- What a sort by due time may do: entries with equal times come in any order. -/
structure Sorter (T ι : Type) [LinearOrder T] where
  sort : List (T × ι) → List (T × ι)
  perm : ∀ queue, (sort queue).Perm queue
  ordered : ∀ queue, Ordered (sort queue)

/-- The sort that leaves equal times as they are. -/
def Sorter.stable : Sorter T ι where
  sort := List.insertionSort (Order.Preimage Prod.fst (· ≤ ·))
  perm := List.perm_insertionSort _
  ordered := List.pairwise_insertionSort _

/-- The entries that are taken up. -/
def taken (now : T) (queue : List (T × ι)) : List (T × ι) := queue.takeWhile fun e => e.1 ≤ now

def kept (now : T) (queue : List (T × ι)) : List (T × ι) := queue.dropWhile fun e => e.1 ≤ now

def renewed (after : T → ι → T) (e : T × ι) : T × ι := (after e.1 e.2, e.2)

/-! ## One turn -/

section turns

variable {after : T → ι → T} {now : T} {queue queue' : List (T × ι)}

theorem taken_eq_filter (h : Ordered queue) : taken now queue = queue.filter (·.1 ≤ now) := by
  unfold taken
  induction queue with
  | nil => rfl
  | cons e queue ih =>
    obtain ⟨hfirst, hrest⟩ := List.pairwise_cons.mp h
    by_cases hdue : e.1 ≤ now
    · rw [List.takeWhile_cons_of_pos (by simpa using hdue),
        List.filter_cons_of_pos (by simpa using hdue), ih hrest]
    · rw [List.takeWhile_cons_of_neg (by simpa using hdue),
        List.filter_cons_of_neg (by simpa using hdue)]
      have hnone : ∀ e' ∈ queue, ¬ e'.1 ≤ now := fun e' he' hle =>
        hdue ((hfirst e' he').trans hle)
      rw [List.filter_eq_nil_iff.mpr (by simpa using hnone)]

theorem kept_eq_filter (h : Ordered queue) :
    kept now queue = queue.filter fun e => !decide (e.1 ≤ now) := by
  unfold kept
  induction queue with
  | nil => rfl
  | cons e queue ih =>
    obtain ⟨hfirst, hrest⟩ := List.pairwise_cons.mp h
    by_cases hdue : e.1 ≤ now
    · rw [List.dropWhile_cons_of_pos (by simpa using hdue),
        List.filter_cons_of_neg (by simpa using hdue), ih hrest]
    · rw [List.dropWhile_cons_of_neg (by simpa using hdue)]
      have hall : ∀ e' ∈ e :: queue, ¬ e'.1 ≤ now := by
        rintro e' he' hle
        rcases List.mem_cons.mp he' with rfl | hmem
        · exact hdue hle
        · exact hdue ((hfirst e' hmem).trans hle)
      exact (List.filter_eq_self.mpr (by simpa using hall)).symm

theorem taken_ordered (h : Ordered queue) : Ordered (taken now queue) :=
  List.Pairwise.sublist (List.takeWhile_sublist _) h

/-- The entry behind a time `now`, whatever else is in the queue. -/
def renew (after : T → ι → T) (now : T) (e : T × ι) : T × ι :=
  if e.1 ≤ now then renewed after e else e

/-- A turn gives each due entry its new time, and moves nothing else. -/
theorem turn_perm (h : Ordered queue) :
    ((taken now queue).map (renewed after) ++ kept now queue).Perm
      (queue.map (renew after now)) := by
  rw [taken_eq_filter h, kept_eq_filter h]
  have htaken : (queue.filter (·.1 ≤ now)).map (renewed after) =
      (queue.filter (·.1 ≤ now)).map (renew after now) := by
    apply List.map_congr_left
    intro e he
    rw [renew, if_pos (by simpa using (List.mem_filter.mp he).2)]
  have hkept : (queue.filter fun e => !decide (e.1 ≤ now)).map (renew after now) =
      queue.filter fun e => !decide (e.1 ≤ now) := by
    refine (List.map_congr_left fun e he => ?_).trans (List.map_id _)
    rw [renew, if_neg (by simpa using (List.mem_filter.mp he).2), id]
  rw [htaken, ← hkept, ← List.map_append]
  apply List.Perm.map
  exact List.filter_append_perm (fun e : T × ι => decide (e.1 ≤ now)) queue

end turns

/-! ## Many turns -/

/-- The due time of one item behind the times `nows`. -/
def dueAfter (after : T → ι → T) (nows : List T) (x : ι) (start : T) : T :=
  nows.foldl (fun due now => if due ≤ now then after due x else due) start

section runs

variable {after : T → ι → T}

theorem dueAfter_append_single (nows : List T) (now : T) (x : ι) (start : T) :
    dueAfter after (nows ++ [now]) x start =
      (renew after now (dueAfter after nows x start, x)).1 := by
  unfold dueAfter renew renewed
  rw [List.foldl_append, List.foldl_cons, List.foldl_nil]
  split <;> rfl

end runs

end due_queues
