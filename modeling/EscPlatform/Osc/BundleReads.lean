-- The reader against the format for bundles: the constructor of a bundle
-- accepts exactly the byte lists that its size words tile.
import EscPlatform.Osc.MessageBounds

namespace esc_platform.osc

open bytes traced_reads Traced

variable {mem : Memory} {p fin fuel : Nat}

/-! ## Size words -/

/-- Elements with sizes that are multiples of four, one behind the other, and nothing else. -/
inductive Sized : List UInt8 → Prop
  | nil : Sized []
  | cons {size contents rest : List UInt8} (hsize : size.length = 4)
    (hvalue : beValue size = contents.length) (hmod : contents.length % 4 = 0)
    (hrest : Sized rest) : Sized (size ++ contents ++ rest)

theorem Sized.length_mod {bs : List UInt8} (h : Sized bs) : bs.length % 4 = 0 := by
  induction h with
  | nil => rfl
  | cons hsize hvalue hmod hrest ih =>
    simp only [List.length_append]
    omega

theorem parseMessage_length {bs : List UInt8} {m : Decoded} (h : parseMessage bs = some m) :
    bs.length % 4 = 0 := by
  obtain ⟨hd, -, -, hh, -, -⟩ := parseMessage_some h
  exact (parseHeader_some hh).2.1

theorem Elements.sized {bs : List UInt8} {ms : List Decoded} (h : Elements bs ms) : Sized bs := by
  induction h with
  | nil => exact .nil
  | message hsize hvalue hcontents hm hrest ih =>
    exact .cons hsize hvalue (parseMessage_length hm) ih
  | bundle hsize hvalue htimeTag helements hrest ih ih' =>
    refine .cons hsize hvalue ?_ ih'
    have := ih.length_mod
    have hp : bundlePattern.length = 8 := rfl
    simp only [List.length_append]
    omega

/-- The size word at `p` and the bytes of its element. -/
structure SizeAt (mem : Memory) (p fin : Nat) (contents rest : List UInt8) : Prop where
  size : (word32 (slice mem p 4)).toNat = contents.length
  le : p + 4 + contents.length ≤ fin
  cells : slice mem (p + 4) contents.length = contents
  behind : slice mem (p + 4 + contents.length) (fin - (p + 4 + contents.length)) = rest

theorem word32_toNat {bs : List UInt8} (h : bs.length = 4) : (word32 bs).toNat = beValue bs := by
  have hlt := beValue_lt bs
  rw [h] at hlt
  exact UInt32.toNat_ofNat_of_lt' (by simpa using hlt)

theorem sizeAt {size contents rest : List UInt8} (hp : p ≤ fin)
    (h : slice mem p (fin - p) = size ++ contents ++ rest) (hsize : size.length = 4)
    (hvalue : beValue size = contents.length) : SizeAt mem p fin contents rest := by
  have hlen := congrArg List.length h
  simp only [slice_length, List.length_append] at hlen
  rw [List.append_assoc] at h
  obtain ⟨hs, hcr⟩ := slice_append h
  rw [hsize] at hs hcr
  obtain ⟨hc, hr⟩ := slice_append hcr
  refine ⟨?_, by omega, hc, ?_⟩
  · rw [hs, word32_toNat hsize, hvalue]
  · have : fin - (p + 4 + contents.length) = rest.length := by omega
    rw [this, hr]

theorem readUInt32_result (mem : Memory) (p : Nat) :
    (readUInt32 mem p).result = .ok (word32 (slice mem p 4)) :=
  (readUInt32_yields mem (Set.subset_univ _)).1

theorem toInt_of_lt {w : UInt32} (h : w.toNat < 2 ^ 31) : w.toInt32.toInt = w.toNat := by
  have hbv : w.toInt32.toInt = w.toBitVec.toInt := rfl
  rw [hbv, BitVec.toInt_eq_toNat_of_lt]
  · rfl
  · have : w.toBitVec.toNat = w.toNat := rfl
    omega

/-! ## The loop of the constructor -/

theorem mod_four_iff (w : UInt32) : w % 4 = 0 ↔ w.toNat % 4 = 0 := by
  rw [← UInt32.toNat_inj, UInt32.toNat_mod]
  rfl

theorem four_add_toNat (w : UInt32) : (4 + w).toNat = (4 + w.toNat) % 2 ^ 32 := by
  rw [UInt32.toNat_add]
  rfl

/-- One turn of the loop goes to the next element. -/
theorem countElements_step {contents rest : List UInt8} {count : Nat}
    (h : SizeAt mem p fin contents rest) (hmod : contents.length % 4 = 0)
    (hlt : contents.length < 2 ^ 31) :
    (countElements mem fin (fuel + 1) p count).result =
      (countElements mem fin fuel (p + 4 + contents.length) (count + 1)).result := by
  have hle := h.le
  have hmod4 : word32 (slice mem p 4) % 4 = 0 := by rwa [mod_four_iff, h.size]
  have hnext : p + (4 + word32 (slice mem p 4)).toNat = p + 4 + contents.length := by
    rw [four_add_toNat, h.size]
    omega
  rw [countElements, if_pos (by omega), if_neg (by omega), result_bind, readUInt32_result]
  simp only [Except.bind, hmod4, ne_eq, not_true_eq_false, if_false, hnext]
  rw [if_neg (by omega)]

/-- The loop accepts elements whose sizes tile the bytes up to `fin`. -/
theorem countElements_ok {bs : List UInt8} (count : Nat) (h : Sized bs) (hp : p ≤ fin)
    (hbs : slice mem p (fin - p) = bs) (hlt : fin - p < 2 ^ 31) (hfuel : fin - p < fuel) :
    ∃ n, (countElements mem fin fuel p count).result = .ok n := by
  induction h generalizing p fuel count with
  | nil =>
    obtain ⟨fuel, rfl⟩ : ∃ f, fuel = f + 1 := ⟨fuel - 1, by omega⟩
    have hlen := congrArg List.length hbs
    rw [slice_length, List.length_nil] at hlen
    refine ⟨count, ?_⟩
    rw [countElements, if_neg (by omega), if_neg (by omega)]
    rfl
  | @cons size contents rest hsize hvalue hmod hrest ih =>
    obtain ⟨fuel, rfl⟩ : ∃ f, fuel = f + 1 := ⟨fuel - 1, by omega⟩
    have hat := sizeAt hp hbs hsize hvalue
    have hle := hat.le
    rw [countElements_step hat hmod (by omega)]
    exact ih _ hle hat.behind (by omega) (by omega)

/-- It accepts nothing else. -/
theorem sized_of_countElements {n count : Nat} (hp : p ≤ fin) (hlt : fin < 2 ^ 31)
    (h : (countElements mem fin fuel p count).result = .ok n) : Sized (slice mem p (fin - p)) := by
  induction fuel generalizing p count with
  | zero => cases h
  | succ fuel ih =>
    unfold countElements at h
    by_cases hend : p < fin
    · rw [if_pos hend] at h
      by_cases hshort : p + 4 > fin
      · rw [if_pos hshort] at h
        cases h
      rw [if_neg hshort, result_bind, readUInt32_result] at h
      simp only [Except.bind] at h
      by_cases hmod : word32 (slice mem p 4) % 4 = 0
      · simp only [hmod, ne_eq, not_true_eq_false, if_false] at h
        by_cases hlong : p + (4 + word32 (slice mem p 4)).toNat > fin
        · rw [if_pos hlong] at h
          cases h
        rw [if_neg hlong] at h
        have hrest := ih (by omega) h
        rw [mod_four_iff] at hmod
        have hw := (word32 (slice mem p 4)).toNat_lt
        rw [four_add_toNat] at hlong hrest
        by_cases hwrap : 4 + (word32 (slice mem p 4)).toNat < 2 ^ 32
        · rw [Nat.mod_eq_of_lt hwrap] at hlong hrest
          have hsplit : slice mem p (fin - p) = slice mem p 4 ++
              slice mem (p + 4) (word32 (slice mem p 4)).toNat ++
              slice mem (p + (4 + (word32 (slice mem p 4)).toNat))
                (fin - (p + (4 + (word32 (slice mem p 4)).toNat))) := by
            have hlen : fin - p = 4 + (word32 (slice mem p 4)).toNat +
                (fin - (p + (4 + (word32 (slice mem p 4)).toNat))) := by omega
            rw [hlen, slice_add, slice_add]
          rw [hsplit]
          refine .cons (slice_length p 4) ?_ ?_ hrest
          · rw [slice_length, word32_toNat (slice_length p 4)]
          · rwa [slice_length]
        · -- the sum wraps to zero, and the loop stands at the same element again
          have hzero : (4 + (word32 (slice mem p 4)).toNat) % 2 ^ 32 = 0 := by omega
          rwa [hzero] at hrest
      · simp only [hmod, ne_eq, not_false_eq_true, if_true] at h
        cases h
    · obtain rfl : p = fin := by omega
      rw [Nat.sub_self]
      exact .nil

/-! ## The constructor of a bundle -/

theorem startsWith_result (mem : Memory) (p : Nat) (cs : List UInt8) :
    (startsWith mem p cs).result = .ok (decide (slice mem p cs.length = cs)) := by
  induction cs generalizing p with
  | nil => rfl
  | cons c cs ih =>
    rw [startsWith, result_bind]
    simp only [readByte, result_read, Except.bind, List.length_cons, slice_succ, List.cons.injEq]
    by_cases hc : mem p = c
    · rw [if_neg (by simpa using hc), ih]
      simp [hc]
    · rw [if_pos hc]
      simp [hc]

/-- The constructor accepts a bundle whose elements have their sizes. -/
theorem receivedBundle_ok (fuel : Nat) {n : Nat} {timeTag elements : List UInt8}
    (hbs : slice mem p n = bundlePattern ++ timeTag ++ elements) (htimeTag : timeTag.length = 8)
    (h : Sized elements) (hlt : n < 2 ^ 31) (hfuel : n < fuel) :
    ∃ count, (receivedBundle mem fuel p n).result = .ok ⟨p + 8, p + n, count⟩ ∧
      16 ≤ n ∧ slice mem (p + 16) (p + n - (p + 16)) = elements := by
  have hp : bundlePattern.length = 8 := rfl
  have hlen := congrArg List.length hbs
  simp only [slice_length, List.length_append, hp] at hlen
  rw [List.append_assoc] at hbs
  obtain ⟨hpattern, hrest⟩ := slice_append hbs
  obtain ⟨-, helements⟩ := slice_append hrest
  have hinner : p + n - (p + 16) = elements.length := by omega
  rw [hp, htimeTag, ← hinner] at helements
  obtain ⟨count, hcount⟩ := countElements_ok 0 h (by omega) helements (by omega)
    (show p + n - (p + 16) < fuel by omega)
  have hmod := h.length_mod
  refine ⟨count, ?_, by omega, helements⟩
  unfold receivedBundle
  rw [if_neg (by omega), if_neg (by omega), result_bind, startsWith_result, hpattern]
  simp only [Except.bind, decide_true, Bool.not_true, Bool.false_eq_true, if_false, result_bind,
    Nat.add_assoc, Nat.reduceAdd, hcount]
  rfl

/-- It accepts nothing else. -/
theorem receivedBundle_sized {n : Nat} {b : ReceivedBundle} (hlt : p + n < 2 ^ 31)
    (h : (receivedBundle mem fuel p n).result = .ok b) :
    b.timeTag = p + 8 ∧ b.fin = p + n ∧ 16 ≤ n ∧
      slice mem p n = bundlePattern ++ slice mem (p + 8) 8 ++ slice mem (p + 16) (n - 16) ∧
      Sized (slice mem (p + 16) (p + n - (p + 16))) := by
  have hp : bundlePattern.length = 8 := rfl
  unfold receivedBundle at h
  by_cases hshort : n < 16
  · rw [if_pos hshort] at h
    cases h
  rw [if_neg hshort] at h
  by_cases hmod : n % 4 = 0
  · rw [if_neg (by omega), result_bind, startsWith_result] at h
    by_cases hpattern : slice mem p bundlePattern.length = bundlePattern
    · simp only [Except.bind, hpattern, decide_true, Bool.not_true, Bool.false_eq_true,
        if_false] at h
      obtain ⟨count, hcount, h⟩ := bind_ok.mp h
      cases h
      refine ⟨rfl, rfl, by omega, ?_, sized_of_countElements (by omega) hlt hcount⟩
      obtain ⟨k, rfl⟩ : ∃ k, n = 8 + 8 + k := ⟨n - 16, by omega⟩
      rw [slice_add, slice_add, ← hp, hpattern, hp]
      simp
    · simp only [Except.bind, hpattern, decide_false, Bool.not_false, if_true] at h
      cases h
  · rw [if_pos hmod] at h
    cases h

end esc_platform.osc
