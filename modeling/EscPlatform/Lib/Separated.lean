-- Numbers in decimal with a separator between them. The separator is no
-- digit, so the numbers are read back from the text.
import Mathlib.Algebra.Group.Nat.Defs
import Mathlib.Data.List.Basic

namespace separated

variable {sep c : Char} {n k : Nat} {ns ms : List Nat}

/-- The numbers in decimal, with `sep` between them. -/
def written (sep : Char) (ns : List Nat) : List Char :=
  [sep].intercalate (ns.map (Nat.toDigits 10))

/-- The numbers that a text says. -/
def readBack (sep : Char) (cs : List Char) : List Nat :=
  (cs.splitOn sep).map fun digits => Nat.ofDigitChars 10 digits 0

theorem not_mem_toDigits (h : c.isDigit = false) (n : Nat) : c ∉ Nat.toDigits 10 n := by
  intro hmem
  rw [Nat.isDigit_of_mem_toDigits (by decide) (by decide) hmem] at h
  cases h

theorem toDigits_inj {n m : Nat} (h : Nat.toDigits 10 n = Nat.toDigits 10 m) : n = m := by
  have hread := congrArg (Nat.ofDigitChars 10 · 0) h
  simpa using hread

theorem readBack_written (h : sep.isDigit = false) (hns : ns ≠ []) :
    readBack sep (written sep ns) = ns := by
  have hsplit : (written sep ns).splitOn sep = ns.map (Nat.toDigits 10) := by
    apply List.splitOn_intercalate
    · intro digits hdigits
      obtain ⟨n, -, rfl⟩ := List.mem_map.mp hdigits
      exact not_mem_toDigits h n
    · simpa using hns
  unfold readBack
  rw [hsplit, List.map_map]
  conv_rhs => rw [← List.map_id ns]
  apply List.map_congr_left
  intro n _
  exact Nat.ofDigitChars_ten_toDigits

/-- No other character stands in a text of numbers. -/
theorem not_mem_written (hsep : c ≠ sep) (h : c.isDigit = false) : c ∉ written sep ns := by
  unfold written
  induction ns with
  | nil => simp
  | cons n ns ih =>
    cases ns with
    | nil => simpa using not_mem_toDigits h n
    | cons m ns =>
      rw [List.map_cons, List.map_cons, List.intercalate_cons_cons]
      rw [List.map_cons] at ih
      simp [hsep, not_mem_toDigits h n, ih]

/-- The length of a text whose numbers have at most `k` digits. -/
theorem written_length_lt (hns : ns ≠ []) (hk : 0 < k) (h : ∀ n ∈ ns, n < 10 ^ k) :
    (written sep ns).length < ns.length * (k + 1) := by
  unfold written
  induction ns with
  | nil => exact absurd rfl hns
  | cons n ns ih =>
    obtain ⟨hn, hrest⟩ := List.forall_mem_cons.mp h
    have hdigits := (Nat.length_toDigits_le_iff (show 1 < 10 by omega) hk).mpr hn
    cases ns with
    | nil =>
      simp only [List.map_cons, List.map_nil, List.intercalate_singleton, List.length_cons,
        List.length_nil]
      omega
    | cons m ns =>
      have htail := ih (List.cons_ne_nil m ns) hrest
      rw [List.map_cons, List.map_cons, List.intercalate_cons_cons]
      rw [List.map_cons] at htail
      simp only [List.length_append, List.length_cons, List.length_nil, Nat.add_mul] at htail ⊢
      omega

end separated
