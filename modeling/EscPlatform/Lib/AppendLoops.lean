-- A loop that appends the elements of one vector to another, and reads the
-- size of the source again in each turn. What it does depends on whether the
-- source is the vector that it appends to.
import Mathlib.Data.List.Basic

namespace append_loops

/-- How a loop fails to end: it used up its fuel, or it read behind the vector. -/
inductive LoopFault
  | outOfFuel
  | outOfBounds
  deriving DecidableEq, Repr

section loop

variable {σ α : Type} (source : σ → List α) (push : σ → α → σ) (bound : Nat → Int)

/-- `for( ; i < bound( source.size() ); ++i ) push( source[i] )`. -/
def appendLoop : Nat → Nat → σ → Except LoopFault σ
  | 0, _, _ => .error .outOfFuel
  | fuel + 1, i, s =>
    if (i : Int) < bound (source s).length then
      match (source s)[i]? with
      | none => .error .outOfBounds
      | some a => appendLoop fuel (i + 1) (push s a)
    else .ok s

end loop

section laws

variable {σ α : Type} {source : σ → List α} {push : σ → α → σ} {bound : Nat → Int}
  {fuel i : Nat} {s s' : σ}

theorem appendLoop_done (h : bound (source s).length ≤ i) :
    appendLoop source push bound (fuel + 1) i s = .ok s := by
  rw [appendLoop, if_neg (by omega)]

theorem appendLoop_nil (h : source s = []) :
    appendLoop source push (fun n => n) (fuel + 1) i s = .ok s := by
  apply appendLoop_done
  rw [h, List.length_nil]
  exact Int.natCast_nonneg i

theorem appendLoop_turn (hi : i < bound (source s).length) (hlt : i < (source s).length) :
    appendLoop source push bound (fuel + 1) i s =
      appendLoop source push bound fuel (i + 1) (push s (source s)[i]) := by
  rw [appendLoop, if_pos hi, List.getElem?_eq_getElem hlt]

/-! ## A source that stays -/

/-- Where a turn leaves the source alone, the loop pushes its elements up to the bound. -/
theorem appendLoop_stays (hbound : ∀ n, bound n ≤ n) (hpush : ∀ s a, source (push s a) = source s)
    (hfuel : (bound (source s).length).toNat - i < fuel) :
    appendLoop source push bound fuel i s =
      .ok ((((source s).take (bound (source s).length).toNat).drop i).foldl push s) := by
  induction fuel generalizing i s with
  | zero => omega
  | succ fuel ih =>
    have hle := hbound (source s).length
    by_cases hi : (i : Int) < bound (source s).length
    · have hlt : i < (source s).length := by omega
      have htake : i < ((source s).take (bound (source s).length).toNat).length := by
        rw [List.length_take]
        omega
      rw [appendLoop_turn hi hlt, ih (by rw [hpush]; omega), hpush,
        List.drop_eq_getElem_cons htake, List.foldl_cons, List.getElem_take]
    · rw [appendLoop_done (by omega), List.drop_of_length_le, List.foldl_nil]
      rw [List.length_take]
      omega

/-! ## A source that grows -/

theorem appendLoop_length_le
    (hgrow : ∀ s a, (source s).length < (source (push s a)).length)
    (h : appendLoop source push bound fuel i s = .ok s') :
    (source s).length ≤ (source s').length := by
  induction fuel generalizing i s with
  | zero => cases h
  | succ fuel ih =>
    unfold appendLoop at h
    split at h
    · split at h
      · cases h
      · have hrest := ih h
        have := hgrow s ‹_›
        omega
    · cases h
      exact Nat.le_refl _

/-- Where a turn makes the source longer, a loop that takes a turn leaves it longer. -/
theorem appendLoop_grows
    (hgrow : ∀ s a, (source s).length < (source (push s a)).length)
    (hi : i < bound (source s).length) (h : appendLoop source push bound fuel i s = .ok s') :
    (source s).length < (source s').length := by
  cases fuel with
  | zero => cases h
  | succ fuel =>
    rw [appendLoop, if_pos hi] at h
    split at h
    · cases h
    · have hrest := appendLoop_length_le hgrow h
      have := hgrow s ‹_›
      omega

/-- Where each turn makes the source longer and nothing cuts its size, the bound runs away from
the counter. -/
theorem appendLoop_never_ends
    (hgrow : ∀ s a, (source s).length < (source (push s a)).length)
    (hi : i < (source s).length) :
    appendLoop source push (fun n => n) fuel i s = .error .outOfFuel := by
  induction fuel generalizing i s with
  | zero => rfl
  | succ fuel ih =>
    rw [appendLoop_turn (by omega) hi]
    have := hgrow s (source s)[i]
    exact ih (by omega)

end laws

end append_loops
