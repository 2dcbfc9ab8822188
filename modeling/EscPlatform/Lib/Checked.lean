-- Programs with state that may throw: what a sequence does, and `Ends I J m c`,
-- which says that a condition `c` of the text of `m` decides whether it ends,
-- whatever the state is. One rule for each way to put programs together.
import Mathlib.Tactic.ByContra

namespace checked

variable {ε σ α β ι : Type} {I J : σ → Prop}

/-! ## Sequences -/

section sequences

variable {x : EStateM ε σ α} {f : α → EStateM ε σ β} {s s' : σ}

theorem run_bind_ok {a : α} (h : x.run s = .ok a s') : (x >>= f).run s = (f a).run s' := by
  rw [EStateM.run_bind, h]

theorem run_bind_error {e : ε} (h : x.run s = .error e s') : (x >>= f).run s = .error e s' := by
  rw [EStateM.run_bind, h]

/-- The two halves of a sequence that got through. -/
theorem run_bind_inv {b : β} (h : (x >>= f).run s = .ok b s') :
    ∃ a s₁, x.run s = .ok a s₁ ∧ (f a).run s₁ = .ok b s' := by
  cases hrun : x.run s with
  | ok a s₁ =>
    rw [run_bind_ok hrun] at h
    exact ⟨a, s₁, rfl, h⟩
  | error e s₁ =>
    rw [run_bind_error hrun] at h
    cases h

end sequences

/-! ## When a program ends -/

/-- From a state with `I`, the program ends with `I` where `c` holds, and throws with `J` where it
does not. -/
def Ends (I J : σ → Prop) (m : EStateM ε σ Unit) (c : Prop) : Prop :=
  ∀ s, I s → (c → ∃ s', m.run s = .ok () s' ∧ I s') ∧
    (¬ c → ∃ e s', m.run s = .error e s' ∧ J s')

namespace Ends

variable {m n : EStateM ε σ Unit} {c d : Prop}

theorem congr (h : Ends I J m c) (hcd : c ↔ d) : Ends I J m d := by
  rwa [← propext hcd]

protected theorem pure : Ends I J (pure () : EStateM ε σ Unit) True :=
  fun s hs => ⟨fun _ => ⟨s, rfl, hs⟩, fun h => absurd trivial h⟩

protected theorem modify {f : σ → σ} (hf : ∀ s, I s → I (f s)) :
    Ends I J (modify f : EStateM ε σ Unit) True :=
  fun s hs => ⟨fun _ => ⟨f s, rfl, hf s hs⟩, fun h => absurd trivial h⟩

/-- One program after the other ends where both do. -/
protected theorem seq (hm : Ends I J m c) (hn : Ends I J n d) :
    Ends I J (do m; n) (c ∧ d) := by
  intro s hs
  obtain ⟨hok, herror⟩ := hm s hs
  constructor
  · rintro ⟨hc, hd⟩
    obtain ⟨s', hrun, hs'⟩ := hok hc
    rw [run_bind_ok hrun]
    exact (hn s' hs').1 hd
  · intro hnot
    by_cases hc : c
    · obtain ⟨s', hrun, hs'⟩ := hok hc
      rw [run_bind_ok hrun]
      exact (hn s' hs').2 fun hd => hnot ⟨hc, hd⟩
    · obtain ⟨e, s', hrun, hs'⟩ := herror hc
      exact ⟨e, s', run_bind_error hrun, hs'⟩

/-- A guarded program ends where the guard is false too. -/
protected theorem ite {b : Prop} [Decidable b] (hm : Ends I J m c) :
    Ends I J (if b then m else pure ()) (b → c) := by
  by_cases hb : b
  · simpa [hb] using hm
  · simpa [hb] using Ends.pure

/-- A loop ends where each of its turns does. -/
protected theorem forM {body : ι → EStateM ε σ Unit} {cond : ι → Prop} (xs : List ι)
    (hbody : ∀ x, Ends I J (body x) (cond x)) : Ends I J (xs.forM body) (∀ x ∈ xs, cond x) := by
  induction xs with
  | nil => exact Ends.pure.congr (by simp)
  | cons x xs ih => exact ((hbody x).seq ih).congr (by simp)

end Ends

end checked
