-- Byte words and memory slices. A word of `n` bytes is a number below
-- `256 ^ n`, least significant byte first or last. A memory is a total
-- function from addresses to cells, and a slice of it is a list.
import Mathlib.Data.List.Basic
import Mathlib.Data.UInt
import Mathlib.Tactic.Ring

namespace bytes

/-! ## Words -/

/-- The low `n` bytes of `v`, least significant first. -/
def leBytes : Nat → Nat → List UInt8
  | 0, _ => []
  | n + 1, v => UInt8.ofNat (v % 256) :: leBytes n (v / 256)

/-- The number that a list of bytes spells, least significant first. -/
def leValue : List UInt8 → Nat
  | [] => 0
  | b :: bs => b.toNat + 256 * leValue bs

/-- The low `n` bytes of `v`, most significant first. -/
def beBytes (n v : Nat) : List UInt8 := (leBytes n v).reverse

/-- The number that a list of bytes spells, most significant first. -/
def beValue (bs : List UInt8) : Nat := leValue bs.reverse

@[simp] theorem leBytes_length (n v : Nat) : (leBytes n v).length = n := by
  induction n generalizing v with
  | zero => rfl
  | succ n ih => simp [leBytes, ih]

@[simp] theorem beBytes_length (n v : Nat) : (beBytes n v).length = n := by
  simp [beBytes]

theorem leValue_lt (bs : List UInt8) : leValue bs < 256 ^ bs.length := by
  induction bs with
  | nil => simp [leValue]
  | cons b bs ih =>
    have hb := b.toNat_lt
    simp only [leValue, List.length_cons, Nat.pow_succ]
    omega

theorem beValue_lt (bs : List UInt8) : beValue bs < 256 ^ bs.length := by
  simpa [beValue] using leValue_lt bs.reverse

/-- Written bytes read back as the number, reduced to the width they hold. -/
theorem leValue_leBytes (n v : Nat) : leValue (leBytes n v) = v % 256 ^ n := by
  induction n generalizing v with
  | zero => simp [leBytes, leValue, Nat.mod_one]
  | succ n ih =>
    have hb : (UInt8.ofNat (v % 256)).toNat = v % 256 := by simp
    rw [leBytes, leValue, ih, hb, Nat.pow_succ, Nat.mul_comm (256 ^ n) 256, Nat.mod_mul]

theorem leValue_leBytes_of_lt {n v : Nat} (h : v < 256 ^ n) : leValue (leBytes n v) = v := by
  rw [leValue_leBytes, Nat.mod_eq_of_lt h]

theorem beValue_beBytes_of_lt {n v : Nat} (h : v < 256 ^ n) : beValue (beBytes n v) = v := by
  rw [beValue, beBytes, List.reverse_reverse, leValue_leBytes_of_lt h]

/-- The bytes of a wide word are those of its low part and then those of its high part. -/
theorem leBytes_add (m n v : Nat) : leBytes (m + n) v = leBytes m v ++ leBytes n (v / 256 ^ m) := by
  induction m generalizing v with
  | zero => simp [leBytes]
  | succ m ih =>
    rw [Nat.add_right_comm, leBytes, ih, leBytes, List.cons_append, Nat.div_div_eq_div_mul,
      Nat.pow_succ, Nat.mul_comm 256]

theorem leValue_append (xs ys : List UInt8) :
    leValue (xs ++ ys) = leValue xs + 256 ^ xs.length * leValue ys := by
  induction xs with
  | nil => simp [leValue]
  | cons b bs ih =>
    rw [List.cons_append, leValue, leValue, ih, List.length_cons, Nat.pow_succ]
    ring

/-- A word is written in as many bytes as it is cut to. -/
theorem leBytes_mod (n v : Nat) : leBytes n (v % 256 ^ n) = leBytes n v := by
  induction n generalizing v with
  | zero => rfl
  | succ n ih =>
    have hhead : v % 256 ^ (n + 1) % 256 = v % 256 :=
      Nat.mod_mod_of_dvd v ⟨256 ^ n, by rw [Nat.pow_succ, Nat.mul_comm]⟩
    have htail : v % 256 ^ (n + 1) / 256 = v / 256 % 256 ^ n := by
      rw [Nat.pow_succ, Nat.mul_comm, Nat.mod_mul_right_div_self]
    rw [leBytes, leBytes, hhead, htail, ih]

/-- The low bytes of a wide word spell the word cut to them. -/
theorem leValue_take_mod {bs : List UInt8} (m n : Nat) (h : m ≤ bs.length) :
    leValue (bs.take (m + n)) % 256 ^ m = leValue (bs.take m) := by
  have hlen : (bs.take m).length = m := by
    rw [List.length_take]
    omega
  have hlt := leValue_lt (bs.take m)
  rw [hlen] at hlt
  rw [List.take_add, leValue_append, hlen, Nat.add_mul_mod_self_left, Nat.mod_eq_of_lt hlt]

/-! ## Slices of a memory -/

/-- The `n` cells of `mem` from address `p` on. -/
def slice {α : Type} (mem : Nat → α) : Nat → Nat → List α
  | _, 0 => []
  | p, n + 1 => mem p :: slice mem (p + 1) n

section slices

variable {α : Type} {mem : Nat → α}

@[simp] theorem slice_zero (p : Nat) : slice mem p 0 = [] := rfl

theorem slice_succ (p n : Nat) : slice mem p (n + 1) = mem p :: slice mem (p + 1) n := rfl

@[simp] theorem slice_length (p n : Nat) : (slice mem p n).length = n := by
  induction n generalizing p with
  | zero => rfl
  | succ n ih => simp [slice_succ, ih]

theorem slice_add (p m n : Nat) : slice mem p (m + n) = slice mem p m ++ slice mem (p + m) n := by
  induction m generalizing p with
  | zero => simp
  | succ m ih =>
    rw [Nat.add_right_comm m 1 n, slice_succ, ih, slice_succ]
    simp [Nat.add_assoc, Nat.add_comm 1 m]

theorem slice_take {p n k : Nat} (h : k ≤ n) : (slice mem p n).take k = slice mem p k := by
  obtain ⟨m, rfl⟩ := Nat.exists_eq_add_of_le h
  rw [slice_add, List.take_left' (slice_length p k)]

theorem slice_drop {p n k : Nat} (h : k ≤ n) :
    (slice mem p n).drop k = slice mem (p + k) (n - k) := by
  obtain ⟨m, rfl⟩ := Nat.exists_eq_add_of_le h
  rw [slice_add, List.drop_left' (slice_length p k), Nat.add_sub_cancel_left]

/-- A slice that is two lists in a row is the slice of each of them. -/
theorem slice_append {p n : Nat} {xs ys : List α} (h : slice mem p n = xs ++ ys) :
    slice mem p xs.length = xs ∧ slice mem (p + xs.length) ys.length = ys := by
  have hn : n = xs.length + ys.length := by
    have hlen := congrArg List.length h
    rwa [slice_length, List.length_append] at hlen
  rw [hn, slice_add] at h
  exact List.append_inj h (by simp)

theorem slice_cons {p : Nat} {x : α} {xs : List α} (h : slice mem p (xs.length + 1) = x :: xs) :
    mem p = x ∧ slice mem (p + 1) xs.length = xs := by
  rw [slice_succ] at h
  exact List.cons.inj h

theorem slice_getElem? (p n i : Nat) (h : i < n) : (slice mem p n)[i]? = some (mem (p + i)) := by
  induction n generalizing p i with
  | zero => omega
  | succ n ih =>
    cases i with
    | zero => simp [slice_succ]
    | succ i =>
      rw [slice_succ, List.getElem?_cons_succ, ih (p + 1) i (by omega)]
      congr 2
      omega

/-- The slice of a memory that holds the list `xs` from address 0 on. -/
theorem slice_eq_of_getElem? {xs : List α} (h : ∀ i (hi : i < xs.length), mem i = xs[i]) :
    slice mem 0 xs.length = xs := by
  apply List.ext_getElem?
  intro i
  by_cases hi : i < xs.length
  · rw [slice_getElem? _ _ _ hi, Nat.zero_add, h i hi, List.getElem?_eq_getElem hi]
  · rw [List.getElem?_eq_none (by simp; omega), List.getElem?_eq_none (by omega)]

end slices

/-! ## Overwriting a part of a buffer -/

/-- The buffer with the bytes from offset `p` on replaced by `xs`. -/
def overwrite {α : Type} (buf : List α) (p : Nat) (xs : List α) : List α :=
  buf.take p ++ xs ++ buf.drop (p + xs.length)

/-- A write behind `xs` replaces the next bytes of the buffer. -/
theorem overwrite_after {α : Type} {xs zs ys : List α} {p : Nat} (hp : p = xs.length) :
    overwrite (xs ++ zs) p ys = xs ++ ys ++ zs.drop ys.length := by
  subst hp
  simp [overwrite, List.drop_append]

section overwrites

variable {α : Type} {buf xs ys : List α} {p n : Nat}

theorem overwrite_length (h : p + xs.length ≤ buf.length) :
    (overwrite buf p xs).length = buf.length := by
  simp only [overwrite, List.length_append, List.length_take, List.length_drop]
  omega

/-- What stands before a write stays. -/
theorem overwrite_take (hn : n ≤ p) (hp : p ≤ buf.length) :
    (overwrite buf p xs).take n = buf.take n := by
  have hlen : n ≤ (buf.take p).length := by
    rw [List.length_take]
    omega
  rw [overwrite, List.append_assoc, List.take_append_of_le_length hlen, List.take_take,
    Nat.min_eq_left hn]

/-- What stands behind a write stays. -/
theorem overwrite_drop (hn : p + xs.length ≤ n) (h : p + xs.length ≤ buf.length) :
    (overwrite buf p xs).drop n = buf.drop n := by
  have hlen : (buf.take p ++ xs).length = p + xs.length := by
    rw [List.length_append, List.length_take]
    omega
  rw [overwrite, List.drop_append, List.drop_of_length_le (by omega), List.nil_append,
    List.drop_drop, hlen, Nat.add_sub_cancel' hn]

/-- From the place of a write on, the buffer is the written list and what stands behind it. -/
theorem overwrite_at (hp : p ≤ buf.length) :
    (overwrite buf p xs).drop p = xs ++ buf.drop (p + xs.length) := by
  have hlen : (buf.take p).length = p := by
    rw [List.length_take]
    omega
  rw [overwrite, List.append_assoc, List.drop_left' hlen]

/-- Two writes in a row are one write of both lists. -/
theorem overwrite_overwrite (h : p + xs.length ≤ buf.length) :
    overwrite (overwrite buf p xs) (p + xs.length) ys = overwrite buf p (xs ++ ys) := by
  have hlen : (buf.take p ++ xs).length = p + xs.length := by
    rw [List.length_append, List.length_take]
    omega
  have htake : (overwrite buf p xs).take (p + xs.length) = buf.take p ++ xs := by
    rw [overwrite, List.take_left' hlen]
  have hdrop : (overwrite buf p xs).drop (p + xs.length + ys.length) =
      buf.drop (p + (xs ++ ys).length) := by
    rw [overwrite_drop (by omega) h, List.length_append, Nat.add_assoc]
  rw [overwrite, htake, hdrop, overwrite, List.append_assoc (buf.take p)]

/-- A write that covers the one before it. -/
theorem overwrite_covers (h : xs.length ≤ ys.length) (hp : p + ys.length ≤ buf.length) :
    overwrite (overwrite buf p xs) p ys = overwrite buf p ys := by
  have htake : (overwrite buf p xs).take p = buf.take p := overwrite_take (Nat.le_refl p) (by omega)
  have hdrop : (overwrite buf p xs).drop (p + ys.length) = buf.drop (p + ys.length) :=
    overwrite_drop (by omega) (by omega)
  rw [overwrite, htake, hdrop, overwrite]

end overwrites

end bytes
