-- The element scan of `ReceivedBundle::Init`: where it stands still, that it
-- ends everywhere else, and that the elements of a bundle it accepts tile
-- the packet.
import EscPlatform.Osc.BundleReads

namespace esc_platform.osc

open bytes traced_reads Traced

variable {mem : Memory} {p fin fuel count : Nat}

/-! ## One turn of the scan -/

/-- The value of the size word at `p`. -/
def sizeWord (mem : Memory) (p : Nat) : Nat := beValue (slice mem p 4)

/-- The offsets that `ToUInt32( p )` reads. -/
def wordReads (p : Nat) : List Nat := [p + 3, p + 2, p + 1, p]

/-- The size word whose sum with four is zero. -/
def stallWord : Nat := 2 ^ 32 - 4

theorem sizeWord_eq (mem : Memory) (p : Nat) :
    (word32 (slice mem p 4)).toNat = sizeWord mem p :=
  word32_toNat (slice_length p 4)

theorem sizeWord_lt (mem : Memory) (p : Nat) : sizeWord mem p < 2 ^ 32 := by
  rw [← sizeWord_eq]
  exact UInt32.toNat_lt _

theorem readUInt32_eq (mem : Memory) (p : Nat) :
    readUInt32 mem p = ⟨.ok (word32 (slice mem p 4)), wordReads p⟩ := by
  have h := readUInt32_result mem p
  rw [← h]
  rfl

theorem bind_of_ok {α β : Type} (a : α) (ps : List Nat) (f : α → ReadM β) :
    ((⟨.ok a, ps⟩ : ReadM α) >>= f) = ⟨(f a).result, ps ++ (f a).reads⟩ := rfl

/-- The scan is at the end of the packet. -/
theorem countElements_last (mem : Memory) (fin fuel count : Nat) :
    countElements mem fin (fuel + 1) fin count = pure count := by
  rw [countElements, if_neg (Nat.lt_irrefl fin), if_neg (by simp)]

/-- A turn over an element of the packet. -/
theorem countElements_next (fuel count : Nat) (hmod : sizeWord mem p % 4 = 0)
    (hne : sizeWord mem p ≠ stallWord) (hle : p + 4 + sizeWord mem p ≤ fin) :
    countElements mem fin (fuel + 1) p count =
      ⟨(countElements mem fin fuel (p + 4 + sizeWord mem p) (count + 1)).result,
        wordReads p ++
          (countElements mem fin fuel (p + 4 + sizeWord mem p) (count + 1)).reads⟩ := by
  have hlt := sizeWord_lt mem p
  have hmod4 : word32 (slice mem p 4) % 4 = 0 := by rwa [mod_four_iff, sizeWord_eq]
  have hnext : p + (4 + word32 (slice mem p 4)).toNat = p + 4 + sizeWord mem p := by
    unfold stallWord at hne
    rw [four_add_toNat, sizeWord_eq]
    omega
  rw [countElements, if_pos (by omega), if_neg (by omega), readUInt32_eq,
    bind_of_ok]
  simp only [hmod4, ne_eq, not_true_eq_false, if_false, hnext]
  rw [if_neg (by omega)]

/-- A turn at the word that the sum with four makes zero. -/
theorem countElements_stall (fuel count : Nat) (hfits : p + 4 ≤ fin)
    (h : sizeWord mem p = stallWord) :
    (countElements mem fin (fuel + 1) p count).result =
      (countElements mem fin fuel p (count + 1)).result := by
  have hmod4 : word32 (slice mem p 4) % 4 = 0 := by
    rw [mod_four_iff, sizeWord_eq, h]
    rfl
  have hnext : p + (4 + word32 (slice mem p 4)).toNat = p := by
    rw [four_add_toNat, sizeWord_eq, h]
    rfl
  rw [countElements, if_pos (by omega), if_neg (by omega), readUInt32_eq, bind_of_ok]
  simp only [hmod4, ne_eq, not_true_eq_false, if_false, hnext]
  rw [if_neg (by omega)]

/-- What a turn of the scan can find. -/
inductive Turn (mem : Memory) (p fin : Nat) : Prop
  | last (h : p = fin)
  | refused (what : String) (h : ∀ fuel count,
      (countElements mem fin (fuel + 1) p count).result = .error (.malformedBundle what))
  | stall (hfits : p + 4 ≤ fin) (h : sizeWord mem p = stallWord)
  | next (hmod : sizeWord mem p % 4 = 0) (hne : sizeWord mem p ≠ stallWord)
      (hle : p + 4 + sizeWord mem p ≤ fin)

theorem turn (mem : Memory) (hp : p ≤ fin) : Turn mem p fin := by
  rcases Nat.eq_or_lt_of_le hp with rfl | hend
  · exact .last rfl
  by_cases hfits : p + 4 ≤ fin
  · by_cases hstall : sizeWord mem p = stallWord
    · exact .stall hfits hstall
    by_cases hmod : sizeWord mem p % 4 = 0
    · by_cases hle : p + 4 + sizeWord mem p ≤ fin
      · exact .next hmod hstall hle
      · refine .refused "packet too short for bundle element" fun fuel count => ?_
        have hlt := sizeWord_lt mem p
        have hnext : (4 + word32 (slice mem p 4)).toNat = 4 + sizeWord mem p := by
          unfold stallWord at hstall
          rw [four_add_toNat, sizeWord_eq]
          omega
        have hmod4 : word32 (slice mem p 4) % 4 = 0 := by rwa [mod_four_iff, sizeWord_eq]
        rw [countElements, if_pos hend, if_neg (by omega), readUInt32_eq, bind_of_ok]
        simp only [hmod4, ne_eq, not_true_eq_false, if_false, hnext]
        rw [if_pos (by omega)]
        rfl
    · refine .refused "bundle element size must be multiple of four" fun fuel count => ?_
      have hmod4 : ¬ word32 (slice mem p 4) % 4 = 0 := by rwa [mod_four_iff, sizeWord_eq]
      rw [countElements, if_pos hend, if_neg (by omega), readUInt32_eq, bind_of_ok]
      simp only [hmod4, ne_eq, not_false_eq_true, if_true]
      rfl
  · refine .refused "packet too short for elementSize" fun fuel count => ?_
    rw [countElements, if_pos hend, if_pos (by omega)]
    rfl

/-! ## Where the scan stands still -/

/-- The bytes are whole elements and then the word that the loop cannot step over. -/
def Stalls (bs : List UInt8) : Prop :=
  ∃ elements size rest, Sized elements ∧ bs = elements ++ size ++ rest ∧ size.length = 4 ∧
    beValue size = stallWord

theorem stalls_here (hfits : p + 4 ≤ fin) (h : sizeWord mem p = stallWord) :
    Stalls (slice mem p (fin - p)) := by
  obtain ⟨k, hk⟩ : ∃ k, fin - p = 4 + k := ⟨fin - p - 4, by omega⟩
  refine ⟨[], slice mem p 4, slice mem (p + 4) k, .nil, ?_, slice_length p 4, h⟩
  rw [hk, slice_add]
  rfl

/-- A packet stalls when it does behind its first element. -/
theorem stalls_behind (hmod : sizeWord mem p % 4 = 0) (hle : p + 4 + sizeWord mem p ≤ fin)
    (h : Stalls (slice mem (p + 4 + sizeWord mem p) (fin - (p + 4 + sizeWord mem p)))) :
    Stalls (slice mem p (fin - p)) := by
  obtain ⟨elements, size, rest, helements, hbs, hsize, hvalue⟩ := h
  have hlen : fin - p = 4 + sizeWord mem p + (fin - (p + 4 + sizeWord mem p)) := by omega
  refine ⟨slice mem p 4 ++ slice mem (p + 4) (sizeWord mem p) ++ elements, size, rest, ?_, ?_,
    hsize, hvalue⟩
  · refine .cons (slice_length p 4) ?_ ?_ helements
    · rw [slice_length]
      rfl
    · rwa [slice_length]
  · rw [hlen, slice_add, slice_add, ← Nat.add_assoc, hbs]
    simp

theorem countElements_stalls_here (fuel count : Nat) (hfits : p + 4 ≤ fin)
    (h : sizeWord mem p = stallWord) :
    (countElements mem fin fuel p count).result = .error .outOfFuel := by
  induction fuel generalizing count with
  | zero => rfl
  | succ fuel ih => rw [countElements_stall fuel count hfits h, ih]

/-- The scan of a packet that stalls does not end. -/
theorem countElements_stalls (fuel count : Nat) (hp : p ≤ fin)
    (h : Stalls (slice mem p (fin - p))) :
    (countElements mem fin fuel p count).result = .error .outOfFuel := by
  obtain ⟨elements, word, tail, helements, hbs, hword, hvalue⟩ := h
  induction helements generalizing p fuel count with
  | nil =>
    rw [List.nil_append] at hbs
    have hlen := congrArg List.length hbs
    rw [slice_length, List.length_append, hword] at hlen
    have hslice := (slice_append hbs).1
    rw [hword] at hslice
    apply countElements_stalls_here fuel count (by omega)
    rw [sizeWord, hslice, hvalue]
  | @cons size contents rest hsize hbe hmod hrest ih =>
    rw [List.append_assoc (size ++ contents ++ rest), List.append_assoc (size ++ contents)] at hbs
    have hat := sizeAt hp hbs hsize hbe
    have hle := hat.le
    have hsw := hat.size
    rw [sizeWord_eq] at hsw
    by_cases hne : sizeWord mem p = stallWord
    · exact countElements_stalls_here fuel count (by omega) hne
    · cases fuel with
      | zero => rfl
      | succ fuel =>
        rw [countElements_next fuel count (by omega) hne (by omega)]
        rw [hsw]
        apply ih fuel (count + 1) hle
        rw [hat.behind, List.append_assoc]

/-- Every other scan ends: each turn takes at least four bytes of the packet. -/
theorem countElements_ends (hp : p ≤ fin) (hfuel : fin - p < fuel)
    (h : ¬ Stalls (slice mem p (fin - p))) :
    (countElements mem fin fuel p count).result ≠ .error .outOfFuel := by
  induction fuel generalizing p count with
  | zero => omega
  | succ fuel ih =>
    rcases turn mem hp with rfl | ⟨what, hrefused⟩ | ⟨hfits, hword⟩ | ⟨hmod, hne, hle⟩
    · rw [countElements_last]
      simp
    · rw [hrefused]
      simp
    · exact absurd (stalls_here hfits hword) h
    · rw [countElements_next fuel count hmod hne hle]
      exact ih hle (by omega) fun hstalls => h (stalls_behind hmod hle hstalls)

/-! ## The elements of a bundle that is accepted -/

/-- The size words at `fields` are those of elements that tile the bytes from `first` to
`fin`. -/
structure Tiled (mem : Memory) (first fin : Nat) (fields : List Nat) : Prop where
  /-- The first element stands at `first`, each other one behind the element before it, and
  behind the last one is `fin`. -/
  behind : fields ++ [fin] = first :: fields.map (fun p => p + 4 + sizeWord mem p)
  increasing : fields.Pairwise (· < ·)
  aligned : ∀ p ∈ fields, p % 4 = first % 4
  mod_four : ∀ p ∈ fields, sizeWord mem p % 4 = 0

theorem tiled_nil (mem : Memory) (fin : Nat) : Tiled mem fin fin [] where
  behind := rfl
  increasing := .nil
  aligned := by simp
  mod_four := by simp

theorem Tiled.le {fields : List Nat} (h : Tiled mem p fin fields) : ∀ q ∈ fields, p ≤ q := by
  rcases fields with _ | ⟨q, qs⟩
  · simp
  have hb := h.behind
  rw [List.cons_append, List.map_cons, List.cons.injEq] at hb
  obtain ⟨rfl, -⟩ := hb
  intro r hr
  rcases List.mem_cons.mp hr with rfl | hr
  · exact Nat.le_refl r
  · exact Nat.le_of_lt (List.rel_of_pairwise_cons h.increasing hr)

theorem Tiled.cons {fields : List Nat} (hmod : sizeWord mem p % 4 = 0)
    (h : Tiled mem (p + 4 + sizeWord mem p) fin fields) : Tiled mem p fin (p :: fields) where
  behind := by rw [List.cons_append, h.behind, List.map_cons]
  increasing := by
    refine List.pairwise_cons.mpr ⟨fun q hq => ?_, h.increasing⟩
    have := h.le q hq
    omega
  aligned := by
    intro q hq
    rcases List.mem_cons.mp hq with rfl | hq
    · rfl
    · rw [h.aligned q hq]
      omega
  mod_four := by
    intro q hq
    rcases List.mem_cons.mp hq with rfl | hq
    · exact hmod
    · exact h.mod_four q hq

/-- An accepted scan read the size words of elements that tile the packet, and counted them. -/
theorem countElements_tiled {n : Nat} (hp : p ≤ fin)
    (h : (countElements mem fin fuel p count).result = .ok n) :
    ∃ fields, Tiled mem p fin fields ∧ n = count + fields.length ∧
      (countElements mem fin fuel p count).reads = fields.flatMap wordReads := by
  induction fuel generalizing p count with
  | zero => cases h
  | succ fuel ih =>
    rcases turn mem hp with rfl | ⟨what, hrefused⟩ | ⟨hfits, hword⟩ | ⟨hmod, hne, hle⟩
    · rw [countElements_last] at h ⊢
      cases h
      exact ⟨[], tiled_nil mem p, rfl, rfl⟩
    · rw [hrefused] at h
      cases h
    · rw [countElements_stalls_here (fuel + 1) count hfits hword] at h
      cases h
    · rw [countElements_next fuel count hmod hne hle] at h ⊢
      obtain ⟨fields, htiled, hn, hreads⟩ := ih hle h
      refine ⟨p :: fields, htiled.cons hmod, ?_, ?_⟩
      · rw [hn, List.length_cons]
        omega
      · rw [hreads, List.flatMap_cons]

/-! ## The constructor -/

theorem map_ok {α β : Type} {f : α → β} {r : Except Fault α} {b : β} (h : r.map f = .ok b) :
    ∃ a, r = .ok a ∧ f a = b := by
  rcases r with e | a
  · cases h
  · exact ⟨a, rfl, Except.ok.inj h⟩

theorem map_error {α β : Type} {f : α → β} {r : Except Fault α} {e : Fault}
    (h : r.map f = .error e) : r = .error e := by
  rcases r with e' | a
  · cases h
    rfl
  · cases h

/-- The checks in front of the scan pass. -/
structure HasHeader (mem : Memory) (bundle size : Nat) : Prop where
  long : 16 ≤ size
  mod_four : size % 4 = 0
  pattern : slice mem bundle 8 = bundlePattern

theorem startsWith_matches (cs : List UInt8) (h : slice mem p cs.length = cs) :
    startsWith mem p cs = ⟨.ok true, List.range' p cs.length⟩ := by
  induction cs generalizing p with
  | nil => rfl
  | cons c cs ih =>
    obtain ⟨hc, hcs⟩ := slice_cons h
    have hread : readByte mem p = ⟨.ok (mem p), [p]⟩ := rfl
    rw [startsWith, hread, bind_of_ok, if_neg (by simpa using hc), ih hcs, List.length_cons,
      List.range'_succ]
    rfl

theorem receivedBundle_scans (fuel : Nat) {bundle size : Nat} (h : HasHeader mem bundle size) :
    receivedBundle mem fuel bundle size =
      ⟨(countElements mem (bundle + size) fuel (bundle + 16) 0).result.map
          (fun n => ⟨bundle + 8, bundle + size, n⟩),
        List.range' bundle 8 ++
          (countElements mem (bundle + size) fuel (bundle + 16) 0).reads⟩ := by
  have hlong := h.long
  have hmod := h.mod_four
  have hpattern := startsWith_matches bundlePattern h.pattern
  unfold receivedBundle
  rw [if_neg (by omega), if_neg (by omega), hpattern, bind_of_ok]
  simp only [Bool.not_true, Bool.false_eq_true, if_false, Nat.add_assoc, Nat.reduceAdd]
  rcases countElements mem (bundle + size) fuel (bundle + 16) 0 with ⟨e | n, reads⟩
  · rfl
  · rw [bind_of_ok, reads_pure, List.append_nil]
    rfl

theorem receivedBundle_refused {bundle size : Nat} (h : ¬ HasHeader mem bundle size) :
    ∃ what, ∀ fuel,
      (receivedBundle mem fuel bundle size).result = .error (.malformedBundle what) := by
  unfold receivedBundle
  by_cases hlong : size < 16
  · exact ⟨_, fun fuel => by rw [if_pos hlong]; rfl⟩
  by_cases hmod : size % 4 = 0
  · have hpattern : ¬ slice mem bundle bundlePattern.length = bundlePattern :=
      fun hp => h ⟨by omega, hmod, hp⟩
    refine ⟨"bad bundle address pattern", fun fuel => ?_⟩
    rw [if_neg hlong, if_neg (by omega), result_bind, startsWith_result]
    simp only [Except.bind, hpattern, decide_false, Bool.not_false, if_true]
    rfl
  · exact ⟨_, fun fuel => by rw [if_neg hlong, if_pos hmod]; rfl⟩

/-- `Init` ends, and when it does not throw, it read the size words of elements that tile the
packet from offset 16 to `end_`, and counted the elements. -/
def ScanTiles (mem : Memory) (bundle size : Nat) : Prop :=
  (∃ enough, ∀ fuel ≥ enough, (receivedBundle mem fuel bundle size).result ≠ .error .outOfFuel) ∧
  ∀ fuel b, (receivedBundle mem fuel bundle size).result = .ok b →
    ∃ fields, Tiled mem (bundle + 16) b.fin fields ∧ b.fin = bundle + size ∧
      b.elementCount = fields.length ∧
      (receivedBundle mem fuel bundle size).reads =
        List.range' bundle bundlePattern.length ++ fields.flatMap wordReads

/-- The scan of the bundle does not end. -/
def BundleStalls (mem : Memory) (bundle size : Nat) : Prop :=
  HasHeader mem bundle size ∧ Stalls (slice mem (bundle + 16) (size - 16))

theorem bundleStalls_never_ends {bundle size : Nat} (h : BundleStalls mem bundle size)
    (fuel : Nat) : (receivedBundle mem fuel bundle size).result = .error .outOfFuel := by
  obtain ⟨hheader, hstalls⟩ := h
  have hlong := hheader.long
  have hlen : size - 16 = bundle + size - (bundle + 16) := by omega
  rw [hlen] at hstalls
  rw [receivedBundle_scans fuel hheader, countElements_stalls fuel 0 (by omega) hstalls]
  rfl

/-- The scan ends and tiles exactly when it does not stand at a size word of 2^32 - 4 behind
whole elements. -/
theorem scan_tiles_iff (mem : Memory) (bundle size : Nat) :
    ScanTiles mem bundle size ↔ ¬ BundleStalls mem bundle size := by
  refine ⟨fun ⟨⟨enough, hends⟩, _⟩ hstalls => ?_, fun hno => ?_⟩
  · exact hends enough (Nat.le_refl enough) (bundleStalls_never_ends hstalls enough)
  by_cases hheader : HasHeader mem bundle size
  · have hlong := hheader.long
    have hlen : bundle + size - (bundle + 16) = size - 16 := by omega
    refine ⟨⟨size, fun fuel hfuel => ?_⟩, fun fuel b hb => ?_⟩
    · have hscan : (countElements mem (bundle + size) fuel (bundle + 16) 0).result ≠
          .error .outOfFuel := by
        apply countElements_ends (by omega) (by omega)
        rw [hlen]
        exact fun hstalls => hno ⟨hheader, hstalls⟩
      rw [receivedBundle_scans fuel hheader]
      intro hfuel
      exact hscan (map_error hfuel)
    · rw [receivedBundle_scans fuel hheader] at hb ⊢
      obtain ⟨n, hn, rfl⟩ := map_ok hb
      obtain ⟨fields, htiled, hcount, hreads⟩ := countElements_tiled (by omega) hn
      refine ⟨fields, htiled, rfl, ?_, ?_⟩
      · rw [hcount, Nat.zero_add]
      · rw [hreads]
        rfl
  · obtain ⟨what, hrefused⟩ := receivedBundle_refused hheader
    refine ⟨⟨0, fun fuel _ => ?_⟩, fun fuel b hb => ?_⟩
    · rw [hrefused]
      simp
    · rw [hrefused] at hb
      cases hb

/-- A bundle whose only size word is 0xFFFFFFFC: the constructor does not end. -/
theorem a_size_word_stops_the_scan : ¬ ∀ mem bundle size, ScanTiles mem bundle size := by
  intro h
  have hstalls : BundleStalls
      (fun i => (bundlePattern ++ List.replicate 8 0 ++ [0xFF, 0xFF, 0xFF, 0xFC]).getD i 0) 0 20 :=
    ⟨⟨by decide, by decide, by decide⟩, [], [0xFF, 0xFF, 0xFF, 0xFC], [], .nil, by decide, rfl,
      by decide⟩
  obtain ⟨⟨enough, hends⟩, -⟩ := h _ 0 20
  exact hends enough (Nat.le_refl enough) (bundleStalls_never_ends hstalls enough)

end esc_platform.osc
