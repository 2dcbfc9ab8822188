-- The reader against the format, one word, string or argument at a time.
-- Where the format has an item at the front of the remaining bytes, the
-- operations of the reader give that item and read nothing behind `fin`.
import EscPlatform.Osc.Format
import Mathlib.Order.Interval.Set.Basic

namespace esc_platform.osc

open bytes traced_reads Traced

variable {mem : Memory} {S : Set Nat} {p fin fuel : Nat}

/-! ## Words -/

theorem readByte_yields (h : p ∈ S) : Yields S (readByte mem p) (mem p) := yields_read mem h

theorem readUInt32_yields (mem : Memory) (h : Set.Ico p (p + 4) ⊆ S) :
    Yields S (readUInt32 mem p) (word32 (slice mem p 4)) := by
  have hin : ∀ i < 4, p + i ∈ S := fun i hi => h ⟨by omega, by omega⟩
  unfold readUInt32
  apply yields_bind (readByte_yields (hin 3 (by omega)))
  apply yields_bind (readByte_yields (hin 2 (by omega)))
  apply yields_bind (readByte_yields (hin 1 (by omega)))
  apply yields_bind (readByte_yields (hin 0 (by omega)))
  exact yields_pure S _

theorem readUInt64_yields (mem : Memory) (h : Set.Ico p (p + 8) ⊆ S) :
    Yields S (readUInt64 mem p) (word64 (slice mem p 8)) := by
  have hin : ∀ i < 8, p + i ∈ S := fun i hi => h ⟨by omega, by omega⟩
  unfold readUInt64
  apply yields_bind (readByte_yields (hin 7 (by omega)))
  apply yields_bind (readByte_yields (hin 6 (by omega)))
  apply yields_bind (readByte_yields (hin 5 (by omega)))
  apply yields_bind (readByte_yields (hin 4 (by omega)))
  apply yields_bind (readByte_yields (hin 3 (by omega)))
  apply yields_bind (readByte_yields (hin 2 (by omega)))
  apply yields_bind (readByte_yields (hin 1 (by omega)))
  apply yields_bind (readByte_yields (hin 0 (by omega)))
  exact yields_pure S _

theorem readBytes_yields {n : Nat} (h : Set.Ico p (p + n) ⊆ S) :
    Yields S (ReceivedMessageArgument.readBytes mem p n) (slice mem p n) := by
  induction n generalizing p with
  | zero => exact yields_pure S _
  | succ n ih =>
    unfold ReceivedMessageArgument.readBytes
    refine yields_bind (readByte_yields (h ⟨by omega, by omega⟩)) ?_
    refine yields_bind (ih fun q hq => h ⟨by have := hq.1; omega, by have := hq.2; omega⟩) ?_
    exact yields_pure S _

/-! ## Strings -/

theorem slice_four (p n : Nat) : slice mem p (n + 4) =
    mem p :: mem (p + 1) :: mem (p + 2) :: mem (p + 3) :: slice mem (p + 4) n := rfl

/-- The checked scan of `k` groups stops at the NUL of the string, or at the last byte. -/
theorem scanStr4Before_yields (mem : Memory) (p fuel : Nat) {k : Nat} (hk : 0 < k)
    (hfuel : k ≤ fuel) :
    ∃ q, Yields (Set.Ico p (p + 4 * k)) (scanStr4Before mem (p + 4 * k - 1) fuel (p + 3)) q ∧
      q + 1 ≤ p + 4 * k ∧ p ≤ q ∧
      (if mem q ≠ 0 then none else some (q + 1)) =
        (splitStr4Tail (slice mem p (4 * k))).map fun (s, _) => p + s.length := by
  induction k generalizing p fuel with
  | zero => omega
  | succ k ih =>
    obtain ⟨fuel, rfl⟩ : ∃ f, fuel = f + 1 := ⟨fuel - 1, by omega⟩
    have hslice : slice mem p (4 * (k + 1)) =
        mem p :: mem (p + 1) :: mem (p + 2) :: mem (p + 3) :: slice mem (p + 4) (4 * k) := rfl
    rw [hslice, splitStr4Tail, scanStr4Before]
    by_cases hlast : k = 0
    · -- the last group: its last byte is `end - 1`, and the loop does not look at it
      subst hlast
      rw [if_neg (by omega)]
      refine ⟨p + 3, yields_pure _ _, by omega, by omega, ?_⟩
      split <;> simp_all [splitStr4Tail]
    · rw [if_pos (by omega)]
      have hread : Yields (Set.Ico p (p + 4 * (k + 1))) (readByte mem (p + 3)) (mem (p + 3)) :=
        readByte_yields ⟨by omega, by omega⟩
      by_cases hnul : mem (p + 3) = 0
      · refine ⟨p + 3, yields_bind hread ?_, by omega, by omega, ?_⟩
        · simp only [hnul, ne_eq, not_true_eq_false, if_false]
          exact yields_pure _ _
        · simp [hnul]
      · obtain ⟨q, hq, hqlt, hpq, heq⟩ := ih (p + 4) fuel (by omega) (by omega)
        have hend : p + 4 * (k + 1) = p + 4 + 4 * k := by omega
        refine ⟨q, yields_bind hread ?_, by omega, by omega, ?_⟩
        · simp only [ne_eq, hnul, not_false_eq_true, if_true, hend]
          exact hq.mono (Set.Ico_subset_Ico_left (by omega))
        · rw [heq, if_neg hnul]
          cases splitStr4Tail (slice mem (p + 4) (4 * k)) with
          | none => rfl
          | some s =>
            simp
            omega

/-- The checked search gives the end of the string at the front, `none` where there is none. -/
theorem findStr4EndBefore_yields (mem : Memory) (hp : p ≤ fin) (hmod : (fin - p) % 4 = 0) :
    Yields (Set.Ico p fin) (findStr4EndBefore mem p fin)
      ((splitStr4 (slice mem p (fin - p))).map fun (s, _) => p + s.length) := by
  obtain ⟨k, hk⟩ : ∃ k, fin = p + 4 * k := ⟨(fin - p) / 4, by omega⟩
  subst hk
  rw [Nat.add_sub_cancel_left, findStr4EndBefore]
  rcases Nat.eq_zero_or_pos k with rfl | hpos
  · rw [if_pos (by omega)]
    exact yields_pure _ _
  · rw [if_neg (by omega), Nat.add_sub_cancel_left]
    obtain ⟨n, rfl⟩ : ∃ n, k = n + 1 := ⟨k - 1, by omega⟩
    have hslice : slice mem p (4 * (n + 1)) =
        mem p :: mem (p + 1) :: mem (p + 2) :: mem (p + 3) :: slice mem (p + 4) (4 * n) := rfl
    refine yields_bind (readByte_yields ⟨by omega, by omega⟩) ?_
    by_cases hnul : mem p = 0
    · rw [if_pos hnul, hslice, hnul]
      exact yields_pure _ _
    · obtain ⟨q, hq, hqlt, hpq, heq⟩ :=
        scanStr4Before_yields mem p (4 * (n + 1)) hpos (by omega)
      have htail : splitStr4 (slice mem p (4 * (n + 1))) =
          splitStr4Tail (slice mem p (4 * (n + 1))) := by
        rw [hslice, splitStr4]
        intro _ _ _ _ h
        exact hnul (List.cons.inj h).1
      rw [if_neg hnul, htail, ← heq]
      apply yields_bind hq
      refine yields_bind (readByte_yields ⟨by omega, by omega⟩) ?_
      split <;> exact yields_pure _ _

/-- The unchecked scan stops at the same NUL. -/
theorem scanStr4_yields {n : Nat} {s rest : List UInt8}
    (h : splitStr4Tail (slice mem p n) = some (s, rest)) (hfuel : s.length ≤ fuel) :
    Yields (Set.Ico p (p + s.length)) (scanStr4 mem fuel (p + 3)) (p + s.length - 1) := by
  induction fuel generalizing p n s with
  | zero =>
    have := (splitStr4Tail_append h).2.2.1
    omega
  | succ fuel ih =>
    obtain ⟨happ, hmod, hpos, -⟩ := splitStr4Tail_append h
    have hlen := congrArg List.length happ
    rw [slice_length, List.length_append] at hlen
    obtain ⟨m, rfl⟩ : ∃ m, n = m + 4 := ⟨n - 4, by omega⟩
    rw [slice_four, splitStr4Tail] at h
    unfold scanStr4
    refine yields_bind (readByte_yields ⟨by omega, by omega⟩) ?_
    by_cases hnul : mem (p + 3) = 0
    · rw [if_pos hnul] at h
      cases h
      rw [if_neg (by simpa using hnul)]
      exact yields_pure _ _
    · rw [if_neg hnul, Option.map_eq_some_iff] at h
      obtain ⟨⟨s', r'⟩, hs, h⟩ := h
      cases h
      have hpos' := (splitStr4Tail_append hs).2.2.1
      simp only [List.length_cons] at hfuel ⊢
      have hend : p + (s'.length + 1 + 1 + 1 + 1) = p + 4 + s'.length := by omega
      rw [if_pos hnul, hend]
      exact (ih hs (by omega)).mono (Set.Ico_subset_Ico_left (by omega))

theorem findStr4End_yields (fuel : Nat) {n : Nat} {s rest : List UInt8}
    (h : splitStr4 (slice mem p n) = some (s, rest)) (hfuel : s.length ≤ fuel) :
    Yields (Set.Ico p (p + s.length)) (findStr4End mem fuel p) (p + s.length) := by
  obtain ⟨happ, hmod, hpos, -⟩ := splitStr4_append h
  have hlen := congrArg List.length happ
  rw [slice_length, List.length_append] at hlen
  obtain ⟨m, rfl⟩ : ∃ m, n = m + 4 := ⟨n - 4, by omega⟩
  unfold findStr4End
  refine yields_bind (readByte_yields ⟨by omega, by omega⟩) ?_
  by_cases hnul : mem p = 0
  · rw [slice_four, hnul, splitStr4] at h
    cases h
    rw [if_pos hnul]
    exact yields_pure _ _
  · rw [if_neg hnul]
    have htail : splitStr4Tail (slice mem p (m + 4)) = some (s, rest) := by
      rw [← h, slice_four, splitStr4]
      intro _ _ _ _ h
      exact hnul (List.cons.inj h).1
    apply yields_bind (scanStr4_yields htail hfuel)
    have hend : p + s.length - 1 + 1 = p + s.length := by omega
    rw [hend]
    exact yields_pure _ _

/-- A C string read stops at the first NUL of a string that has one. -/
theorem readCString_yields (fuel : Nat) {s : List UInt8} (h : slice mem p s.length = s)
    (h0 : (0 : UInt8) ∈ s) (hfuel : s.length ≤ fuel) :
    Yields (Set.Ico p (p + s.length)) (readCString mem fuel p) (cStr s) := by
  induction s generalizing p fuel with
  | nil => cases h0
  | cons c s ih =>
    obtain ⟨fuel, rfl⟩ : ∃ f, fuel = f + 1 := ⟨fuel - 1, by simp at hfuel; omega⟩
    simp only [List.length_cons] at h hfuel ⊢
    obtain ⟨hc, hs⟩ := slice_cons h
    unfold readCString
    refine yields_bind (readByte_yields ⟨by omega, by omega⟩) ?_
    by_cases hnul : c = 0
    · subst hnul
      rw [if_pos hc]
      exact yields_pure _ _
    · have h0' : (0 : UInt8) ∈ s := by
        rcases List.mem_cons.mp h0 with h | h
        · exact absurd h.symm hnul
        · exact h
      have hcstr : cStr (c :: s) = c :: cStr s := by simp [cStr, hnul]
      rw [hc, if_neg hnul, hcstr]
      refine yields_bind ((ih _ hs h0' (by omega)).mono ?_) (yields_pure _ _)
      exact Set.Ico_subset_Ico (by omega) (by omega)

/-! ## The front of the remaining bytes -/

/-- Taking bytes off the front of what remains moves the cursor. -/
theorem takeBytes_slice {n : Nat} {xs rest : List UInt8}
    (h : takeBytes n (slice mem p (fin - p)) = some (xs, rest)) (hp : p ≤ fin) :
    p + n ≤ fin ∧ xs = slice mem p n ∧ rest = slice mem (p + n) (fin - (p + n)) := by
  unfold takeBytes at h
  split at h
  · rename_i hn
    rw [slice_length] at hn
    cases h
    refine ⟨by omega, slice_take hn, ?_⟩
    rw [slice_drop hn, Nat.sub_sub]
  · cases h

theorem splitStr4_slice {s rest : List UInt8}
    (h : splitStr4 (slice mem p (fin - p)) = some (s, rest)) (hp : p ≤ fin) :
    p + s.length ≤ fin ∧ slice mem p s.length = s ∧
      rest = slice mem (p + s.length) (fin - (p + s.length)) := by
  have happ := (splitStr4_append h).1
  have hlen := congrArg List.length happ
  rw [slice_length, List.length_append] at hlen
  obtain ⟨hs, hrest⟩ := slice_append happ
  refine ⟨by omega, hs, ?_⟩
  have : fin - (p + s.length) = rest.length := by omega
  rw [this, hrest]

/-! ## One argument -/

/-- The argument of type `tag` at `a` has `n` bytes and the value `v`. The check of the
constructor, the step of the iterator and the accessor agree on it, and read only the type tag
at `t` and bytes from `a` up to `fin`. -/
structure ArgumentAt (mem : Memory) (fin : Nat) (tag : TypeTag) (a n : Nat) (v : Value) : Prop where
  le : a + n ≤ fin
  mod : n % 4 = 0
  check : Yields (Set.Ico a fin) (checkArgument mem fin tag.byte a) (a + n)
  advance {t fuel : Nat} {S : Set Nat} : mem t = tag.byte → t ∈ S → Set.Ico a fin ⊆ S →
    fin ≤ fuel →
    Yields S (ReceivedMessageArgument.advance mem fuel ⟨some t, a⟩) ⟨some (t + 1), a + n⟩
  value {t fuel : Nat} {S : Set Nat} : mem t = tag.byte → t ∈ S → Set.Ico a fin ⊆ S →
    fin ≤ fuel → Yields S (ReceivedMessageArgument.asTag mem ⟨some t, a⟩ fuel tag) v

open ReceivedMessageArgument

variable {a t : Nat} {tag : TypeTag} {v : Value}

theorem isType_yields (mem : Memory) (a : Nat) (ht : t ∈ S) (b : TypeTag) :
    Yields S (isType mem ⟨some t, a⟩ b) (decide (mem t = b.byte)) :=
  yields_bind (readByte_yields ht) (yields_pure _ _)

theorem asChecked_yields {α : Type} {unchecked : ReadM α} {x : α} (hm : mem t = tag.byte)
    (ht : t ∈ S) (h : Yields S unchecked x) :
    Yields S (asChecked mem ⟨some t, a⟩ tag unchecked) x := by
  apply yields_bind (isType_yields mem a ht tag)
  simpa [hm] using h

theorem asBool_true (hm : mem t = TypeTag.trueTag.byte) (ht : t ∈ S) :
    Yields S (asBool mem ⟨some t, a⟩) true := by
  apply yields_bind (isType_yields mem a ht .trueTag)
  simpa [hm] using yields_pure S true

theorem asBool_false (hm : mem t = TypeTag.falseTag.byte) (ht : t ∈ S) :
    Yields S (asBool mem ⟨some t, a⟩) false := by
  have hne : TypeTag.falseTag.byte ≠ TypeTag.trueTag.byte := by decide
  apply yields_bind (isType_yields mem a ht .trueTag)
  simpa [hm, hne] using asChecked_yields (a := a) hm ht (yields_pure S false)

theorem argumentAt_zero (ha : a ≤ fin)
    (htag : tag = .trueTag ∨ tag = .falseTag ∨ tag = .nil ∨ tag = .infinitum)
    (hv : ∀ {t fuel : Nat} {S : Set Nat}, mem t = tag.byte → t ∈ S →
      Yields S (asTag mem ⟨some t, a⟩ fuel tag) v) :
    ArgumentAt mem fin tag a 0 v where
  le := ha
  mod := rfl
  check := by
    rcases htag with rfl | rfl | rfl | rfl <;> exact yields_pure _ _
  advance hm ht _ _ := by
    apply yields_bind (readByte_yields ht)
    rw [hm, TypeTag.ofByte_byte]
    rcases htag with rfl | rfl | rfl | rfl <;> exact yields_pure _ _
  value hm ht _ _ := hv hm ht

/-- The bytes of a type whose `case` checks the range and adds a constant. -/
def TypeTag.width : TypeTag → Option Nat
  | .int32 | .float | .char | .rgbaColor | .midiMessage => some 4
  | .int64 | .timeTag | .double => some 8
  | _ => none

theorem checkArgument_width (mem : Memory) (fin a : Nat) {n : Nat} (h : tag.width = some n) :
    checkArgument mem fin tag.byte a = (do
      if a = fin then malformed "arguments exceed message size"
      if a + n > fin then malformed "arguments exceed message size"
      return a + n) := by
  unfold checkArgument
  rw [TypeTag.ofByte_byte]
  cases tag <;> cases h <;> rfl

theorem advance_width {n : Nat} (h : tag.width = some n) (hm : mem t = tag.byte) (ht : t ∈ S) :
    Yields S (advance mem fuel ⟨some t, a⟩) ⟨some (t + 1), a + n⟩ := by
  apply yields_bind (readByte_yields ht)
  rw [hm, TypeTag.ofByte_byte]
  cases tag <;> cases h <;> exact yields_pure _ _

theorem argumentAt_width {n : Nat} (h : tag.width = some n) (ha : a + n ≤ fin)
    (hv : ∀ {t fuel : Nat} {S : Set Nat}, mem t = tag.byte → t ∈ S → Set.Ico a (a + n) ⊆ S →
      Yields S (asTag mem ⟨some t, a⟩ fuel tag) v) :
    ArgumentAt mem fin tag a n v := by
  have hn : 0 < n ∧ n % 4 = 0 := by
    cases tag <;> cases h <;> exact ⟨by omega, rfl⟩
  refine ⟨ha, hn.2, ?_, fun hm ht _ _ => advance_width h hm ht, fun hm ht hS _ => hv hm ht ?_⟩
  · rw [checkArgument_width mem fin a h, if_neg (by omega), if_neg (by omega)]
    exact yields_pure _ _
  · exact fun x hx => hS ⟨hx.1, by have := hx.2; omega⟩

theorem argumentAt_str4 {s rest : List UInt8} (ha : a ≤ fin) (hmod : (fin - a) % 4 = 0)
    (hs : splitStr4 (slice mem a (fin - a)) = some (s, rest))
    (htag : tag = .string ∨ tag = .symbol)
    (hv : ∀ {t fuel : Nat} {S : Set Nat}, mem t = tag.byte → t ∈ S → Set.Ico a fin ⊆ S →
      fin ≤ fuel → Yields S (asTag mem ⟨some t, a⟩ fuel tag) v) :
    ArgumentAt mem fin tag a s.length v := by
  obtain ⟨hle, -, -⟩ := splitStr4_slice hs ha
  obtain ⟨-, hsmod, hpos, -⟩ := splitStr4_append hs
  refine ⟨hle, hsmod, ?_, ?_, hv⟩
  · have hfind := findStr4EndBefore_yields mem ha hmod
    rw [hs] at hfind
    rcases htag with rfl | rfl <;>
      simp only [checkArgument, TypeTag.ofByte_byte] <;>
      rw [if_neg (by omega)] <;>
      exact yields_bind hfind (yields_pure _ _)
  · intro t fuel S hm ht hS hfuel
    have hnext := (findStr4End_yields fuel hs (by omega)).mono (T := S)
      fun x hx => hS ⟨hx.1, by have := hx.2; omega⟩
    apply yields_bind (readByte_yields ht)
    rw [hm, TypeTag.ofByte_byte]
    rcases htag with rfl | rfl <;> exact yields_bind hnext (yields_pure _ _)

theorem argumentAt_blob {n : Nat} (hn : n = (word32 (slice mem a 4)).toNat)
    (ha : a + 4 + roundUp4Unsigned n ≤ fin) :
    ArgumentAt mem fin .blob a (4 + roundUp4Unsigned n) (.blob (slice mem (a + 4) n)) := by
  subst hn
  have hround := le_roundUp4Unsigned (word32 (slice mem a 4)).toNat
  have hsize : ∀ {S : Set Nat}, Set.Ico a fin ⊆ S →
      Yields S (readUInt32 mem a) (word32 (slice mem a 4)) :=
    fun hS => readUInt32_yields mem fun x hx => hS ⟨hx.1, by have := hx.2; omega⟩
  refine ⟨by omega, ?_, ?_, ?_, ?_⟩
  · have := roundUp4Unsigned_mod (word32 (slice mem a 4)).toNat
    omega
  · simp only [checkArgument, TypeTag.ofByte_byte]
    apply yields_bind (hsize subset_rfl)
    rw [← Nat.add_assoc]
    exact yields_pure _ _
  · intro t fuel S hm ht hS _
    apply yields_bind (readByte_yields ht)
    rw [hm, TypeTag.ofByte_byte]
    apply yields_bind (hsize hS)
    rw [← Nat.add_assoc]
    exact yields_pure _ _
  · intro t fuel S hm ht hS _
    refine yields_bind (asChecked_yields hm ht ?_) (yields_pure _ _)
    refine yields_bind (hsize hS) (readBytes_yields fun x hx => hS ⟨?_, ?_⟩)
    · have : a + 4 ≤ x := hx.1
      omega
    · have : x < a + 4 + (word32 (slice mem a 4)).toNat := hx.2
      omega

/-- An argument that the format has at the front of the remaining bytes stands at the cursor. -/
theorem parseArg_at {rest : List UInt8} (ha : a ≤ fin) (hmod : (fin - a) % 4 = 0)
    (h : parseArg tag (slice mem a (fin - a)) = some (v, rest)) :
    ∃ n, ArgumentAt mem fin tag a n v ∧ rest = slice mem (a + n) (fin - (a + n)) := by
  cases tag
  case trueTag =>
    cases h
    exact ⟨0, argumentAt_zero ha (by simp) fun hm ht =>
      yields_bind (asBool_true hm ht) (yields_pure _ _), rfl⟩
  case falseTag =>
    cases h
    exact ⟨0, argumentAt_zero ha (by simp) fun hm ht =>
      yields_bind (asBool_false hm ht) (yields_pure _ _), rfl⟩
  case nil | infinitum =>
    cases h
    exact ⟨0, argumentAt_zero ha (by simp) fun _ _ => yields_pure _ _, rfl⟩
  case int32 | float | char | rgbaColor | midiMessage =>
    obtain ⟨⟨w, r⟩, hw, h⟩ := Option.map_eq_some_iff.mp h
    cases h
    obtain ⟨hle, rfl, hrest⟩ := takeBytes_slice hw ha
    refine ⟨4, argumentAt_width rfl hle ?_, hrest⟩
    intro t fuel S hm ht hS
    have hw32 := readUInt32_yields mem hS
    first
    | exact yields_bind (asChecked_yields hm ht hw32) (yields_pure _ _)
    | exact yields_bind (asChecked_yields hm ht (yields_bind hw32 (yields_pure _ _)))
        (yields_pure _ _)
  case int64 | timeTag | double =>
    obtain ⟨⟨w, r⟩, hw, h⟩ := Option.map_eq_some_iff.mp h
    cases h
    obtain ⟨hle, rfl, hrest⟩ := takeBytes_slice hw ha
    refine ⟨8, argumentAt_width rfl hle ?_, hrest⟩
    intro t fuel S hm ht hS
    have hw64 := readUInt64_yields mem hS
    first
    | exact yields_bind (asChecked_yields hm ht hw64) (yields_pure _ _)
    | exact yields_bind (asChecked_yields hm ht (yields_bind hw64 (yields_pure _ _)))
        (yields_pure _ _)
  case string | symbol =>
    obtain ⟨⟨s, r⟩, hs, h⟩ := Option.map_eq_some_iff.mp h
    cases h
    obtain ⟨hle, hsl, hrest⟩ := splitStr4_slice hs ha
    have h0 := (splitStr4_append hs).2.2.2
    refine ⟨s.length, argumentAt_str4 ha hmod hs (by simp) ?_, hrest⟩
    intro t fuel S hm ht hS hfuel
    have hcstr := (readCString_yields fuel hsl h0 (by omega)).mono (T := S)
      fun x hx => hS ⟨hx.1, by have := hx.2; omega⟩
    exact yields_bind (asChecked_yields hm ht hcstr) (yields_pure _ _)
  case blob =>
    obtain ⟨⟨data, r⟩, hb, h⟩ := Option.map_eq_some_iff.mp h
    cases h
    obtain ⟨⟨size, r⟩, hsize, hb⟩ := Option.bind_eq_some_iff.mp hb
    obtain ⟨⟨padded, r'⟩, hpadded, hb⟩ := Option.map_eq_some_iff.mp hb
    cases hb
    obtain ⟨hle, rfl, rfl⟩ := takeBytes_slice hsize ha
    obtain ⟨hle', rfl, hrest⟩ := takeBytes_slice hpadded hle
    rw [slice_take (le_roundUp4Unsigned _)]
    refine ⟨_, argumentAt_blob rfl hle', ?_⟩
    rw [hrest, ← Nat.add_assoc]

end esc_platform.osc
