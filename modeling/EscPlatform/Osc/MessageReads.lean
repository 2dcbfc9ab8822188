-- The reader against the format for a whole message: the constructor, the
-- walk of the iterator and the argument loop of the listener, over any
-- type tags. A blob that runs past the end is the one case where the
-- constructor accepts what the format does not have.
import EscPlatform.Osc.ArgumentReads
import EscPlatform.Osc.Listener

namespace esc_platform.osc

open bytes traced_reads Traced ReceivedMessageArgument

variable {mem : Memory} {S : Set Nat} {fin a t fuel : Nat} {ts : List UInt8}

/-! ## The type tags in memory -/

/-- The type tags `ts` stand at `t`, and a NUL behind them. -/
structure TagsAt (mem : Memory) (t : Nat) (ts : List UInt8) : Prop where
  cells : slice mem t (ts.length + 1) = ts ++ [0]
  ne_zero : (0 : UInt8) ∉ ts

theorem TagsAt.head {b : UInt8} (h : TagsAt mem t (b :: ts)) : mem t = b := by
  have := h.cells
  simp only [List.length_cons, slice_succ, List.cons_append] at this
  exact (List.cons.inj this).1

theorem TagsAt.tail {b : UInt8} (h : TagsAt mem t (b :: ts)) : TagsAt mem (t + 1) ts where
  cells := by
    have := h.cells
    simp only [List.length_cons, slice_succ t, List.cons_append] at this
    exact (List.cons.inj this).2
  ne_zero h0 := h.ne_zero (List.mem_cons_of_mem b h0)

theorem TagsAt.next (h : TagsAt mem t ts) : mem t = 0 ↔ ts = [] := by
  cases ts with
  | nil =>
    have := h.cells
    simp only [List.length_nil, Nat.zero_add, slice_succ, slice_zero, List.nil_append,
      List.cons.injEq, and_true] at this
    simp [this]
  | cons b ts =>
    have hb := h.head
    have h0 := h.ne_zero
    simp only [List.mem_cons, not_or] at h0
    simp [hb, Ne.symm h0.1]

/-! ## Blobs behind the end -/

/-- The types whose case in the constructor does not throw behind the end of the message. -/
def uncheckedTags : List UInt8 := [ascii 'T', ascii 'F', ascii 'N', ascii 'I', ascii 'b']

/-- A blob runs past the end of the argument bytes `bs`, and no later argument is checked. -/
def Overruns (ts bs : List UInt8) : Prop :=
  ∃ before after vs rest, ts = before ++ ascii 'b' :: after ∧
    parseArgs before bs = some (vs, rest) ∧ takeBlob rest = none ∧
    ∀ b ∈ after, b ∈ uncheckedTags

theorem overruns_cons {b : UInt8} {bs : List UInt8} : Overruns (b :: ts) bs ↔
    (b = ascii 'b' ∧ takeBlob bs = none ∧ ∀ b ∈ ts, b ∈ uncheckedTags) ∨
      ∃ tag v bs', TypeTag.ofByte b = some tag ∧ parseArg tag bs = some (v, bs') ∧
        Overruns ts bs' := by
  constructor
  · rintro ⟨before, after, vs, rest, hts, hargs, hblob, hafter⟩
    cases before with
    | nil =>
      cases hts
      cases hargs
      exact .inl ⟨rfl, hblob, hafter⟩
    | cons b' before =>
      cases hts
      obtain ⟨tag, htag, hargs⟩ := Option.bind_eq_some_iff.mp hargs
      obtain ⟨⟨v, bs'⟩, harg, hargs⟩ := Option.bind_eq_some_iff.mp hargs
      obtain ⟨⟨vs', rest'⟩, hargs, h⟩ := Option.map_eq_some_iff.mp hargs
      cases h
      exact .inr ⟨tag, v, bs', htag, harg, before, after, vs', rest, rfl, hargs, hblob, hafter⟩
  · rintro (⟨rfl, hblob, hafter⟩ | ⟨tag, v, bs', htag, harg, before, after, vs, rest, rfl, hargs,
      hblob, hafter⟩)
    · exact ⟨[], ts, [], bs, rfl, rfl, hblob, hafter⟩
    · refine ⟨b :: before, after, v :: vs, rest, rfl, ?_, hblob, hafter⟩
      simp [parseArgs, htag, harg, hargs]

/-! ## The check of the constructor -/

theorem parseArgs_cons {b : UInt8} {bs rest : List UInt8} {vs : List Value}
    (h : parseArgs (b :: ts) bs = some (vs, rest)) :
    ∃ tag v bs' vs', b = tag.byte ∧ parseArg tag bs = some (v, bs') ∧
      parseArgs ts bs' = some (vs', rest) ∧ vs = v :: vs' := by
  obtain ⟨tag, htag, h⟩ := Option.bind_eq_some_iff.mp h
  obtain ⟨⟨v, bs'⟩, harg, h⟩ := Option.bind_eq_some_iff.mp h
  obtain ⟨⟨vs', rest'⟩, hargs, h⟩ := Option.map_eq_some_iff.mp h
  cases h
  exact ⟨tag, v, bs', vs', (TypeTag.byte_of_ofByte htag).symm, harg, hargs, rfl⟩

/-- One turn of the loop: the argument, and then the next type tag or the end. -/
theorem checkArguments_step {b : UInt8} {next : Nat} (ht : TagsAt mem t (b :: ts))
    (hb : (checkArgument mem fin b a).result = .ok next) :
    (checkArguments mem fin (fuel + 1) t a).result =
      if ts = [] then .ok (t + 1) else (checkArguments mem fin fuel (t + 1) next).result := by
  have hnext := ht.tail.next
  rw [checkArguments, result_bind]
  simp only [readByte, result_read, ht.head, Except.bind, result_bind, hb]
  by_cases hts : ts = []
  · rw [if_pos hts, if_neg (by simpa using hnext.mpr hts)]
    rfl
  · rw [if_neg hts, if_pos (by simpa using mt hnext.mp hts)]

theorem checkArguments_error {b : UInt8} {e : Fault} (ht : TagsAt mem t (b :: ts))
    (hb : (checkArgument mem fin b a).result = .error e) :
    (checkArguments mem fin (fuel + 1) t a).result = .error e := by
  rw [checkArguments, result_bind]
  simp only [readByte, result_read, ht.head, Except.bind, result_bind, hb]

/-- The loop accepts the arguments that the format has, within the message. -/
theorem checkArguments_yields {bs rest : List UInt8} {vs : List Value} (hts : ts ≠ [])
    (ht : TagsAt mem t ts) (htS : Set.Ico t (t + ts.length + 1) ⊆ S) (hS : Set.Ico a fin ⊆ S)
    (ha : a ≤ fin) (hmod : (fin - a) % 4 = 0) (hbs : bs = slice mem a (fin - a))
    (h : parseArgs ts bs = some (vs, rest)) (hfuel : ts.length ≤ fuel) :
    Yields S (checkArguments mem fin fuel t a) (t + ts.length) := by
  induction ts generalizing t a bs vs fuel with
  | nil => exact absurd rfl hts
  | cons b ts ih =>
    obtain ⟨tag, v, bs', vs', rfl, harg, hargs, rfl⟩ := parseArgs_cons h
    subst hbs
    obtain ⟨n, hat, hbs'⟩ := parseArg_at ha hmod harg
    obtain ⟨fuel, rfl⟩ : ∃ f, fuel = f + 1 := ⟨fuel - 1, by simp at hfuel; omega⟩
    simp only [List.length_cons] at htS hfuel ⊢
    unfold checkArguments
    refine yields_bind (readByte_yields (htS ⟨by omega, by omega⟩)) ?_
    rw [ht.head]
    apply yields_bind (hat.check.mono hS)
    refine yields_bind (readByte_yields (htS ⟨by omega, by omega⟩)) ?_
    by_cases hlast : ts = []
    · rw [if_neg (by simpa using ht.tail.next.mpr hlast)]
      subst hlast
      exact yields_pure _ _
    · rw [if_pos (by simpa using mt ht.tail.next.mp hlast), Nat.add_comm ts.length 1,
        ← Nat.add_assoc]
      have hle := hat.le
      have hnmod := hat.mod
      refine ih hlast ht.tail ?_ ?_ hle (by omega) hbs' hargs (by omega)
      · exact (Set.Ico_subset_Ico (by omega) (by omega)).trans htS
      · exact (Set.Ico_subset_Ico_left (by omega)).trans hS

/-- The range check of a word that does not fit throws. -/
theorem checkArgument_short {n : Nat} {k : ReadM Nat} (h : fin < a + n) :
    ∃ what, (do
      if a = fin then malformed "arguments exceed message size"
      if a + n > fin then malformed "arguments exceed message size"
      k : ReadM Nat).result = .error (.malformedMessage what) := by
  refine ⟨"arguments exceed message size", ?_⟩
  by_cases hend : a = fin
  · rw [if_pos hend]
    rfl
  · rw [if_neg hend, if_pos h]
    rfl

theorem checkArgument_unterminated {tag : TypeTag} (htag : tag = .string ∨ tag = .symbol)
    (h : (findStr4EndBefore mem a fin).result = .ok none) :
    ∃ what, (checkArgument mem fin tag.byte a).result = .error (.malformedMessage what) := by
  rcases htag with rfl | rfl <;>
  · simp only [checkArgument, TypeTag.ofByte_byte]
    by_cases hend : a = fin
    · rw [if_pos hend]
      exact ⟨_, rfl⟩
    · rw [if_neg hend, result_bind, h]
      exact ⟨_, rfl⟩

/-- Where the format has no argument of a type other than a blob, the loop throws. -/
theorem checkArgument_malformed {tag : TypeTag} (ha : a ≤ fin) (hmod : (fin - a) % 4 = 0)
    (htag : tag ≠ .blob) (h : parseArg tag (slice mem a (fin - a)) = none) :
    ∃ what, (checkArgument mem fin tag.byte a).result = .error (.malformedMessage what) := by
  have hshort : ∀ n, takeBytes n (slice mem a (fin - a)) = none → fin < a + n := by
    intro n hn
    unfold takeBytes at hn
    split at hn
    · cases hn
    · rename_i hlen
      rw [slice_length] at hlen
      omega
  cases tag
  case trueTag | falseTag | nil | infinitum => cases h
  case int32 | float | char | rgbaColor | midiMessage =>
    rw [checkArgument_width mem fin a rfl]
    exact checkArgument_short (hshort 4 (Option.map_eq_none_iff.mp h))
  case int64 | timeTag | double =>
    rw [checkArgument_width mem fin a rfl]
    exact checkArgument_short (hshort 8 (Option.map_eq_none_iff.mp h))
  case string | symbol =>
    have hfind := (findStr4EndBefore_yields mem ha hmod).1
    rw [Option.map_eq_none_iff.mp h] at hfind
    exact checkArgument_unterminated (by simp) hfind
  case blob => exact absurd rfl htag

/-- The case of a blob adds what the size word says, whatever it says. -/
theorem checkArgument_blob_ok : (checkArgument mem fin (ascii 'b') a).result =
    .ok (a + 4 + roundUp4Unsigned (word32 (slice mem a 4)).toNat) := by
  have hsize := (readUInt32_yields mem (p := a) (Set.subset_univ _)).1
  have htag : TypeTag.ofByte (ascii 'b') = some .blob := TypeTag.ofByte_byte .blob
  simp only [checkArgument, htag, result_bind, hsize]
  rfl

/-- A blob that the format does not have moves the cursor behind the end. -/
theorem blob_behind (ha : a ≤ fin) (h : takeBlob (slice mem a (fin - a)) = none) :
    fin < a + 4 + roundUp4Unsigned (word32 (slice mem a 4)).toNat := by
  by_contra hle
  have hsize : 4 ≤ (slice mem a (fin - a)).length := by
    rw [slice_length]
    omega
  rw [takeBlob, takeBytes, if_pos hsize, Option.bind_some] at h
  rw [slice_length] at hsize
  simp only [slice_take hsize] at h
  rw [takeBytes, if_pos] at h
  · cases h
  · rw [List.length_drop, slice_length]
    omega

/-- Behind the end of the message, only the unchecked types do not throw. -/
theorem checkArgument_behind (mem : Memory) (b : UInt8) (ha : fin < a) :
    if b ∈ uncheckedTags then
      ∃ next, fin < next ∧ (checkArgument mem fin b a).result = .ok next
    else ∃ what, (checkArgument mem fin b a).result = .error (.malformedMessage what) := by
  cases htag : TypeTag.ofByte b with
  | none =>
    have hb : b ∉ uncheckedTags := by
      intro hb
      simp only [uncheckedTags, List.mem_cons, List.not_mem_nil, or_false] at hb
      rcases hb with rfl | rfl | rfl | rfl | rfl <;> exact absurd htag (by decide)
    rw [if_neg hb]
    simp only [checkArgument, htag]
    exact ⟨_, rfl⟩
  | some tag =>
    obtain rfl := TypeTag.byte_of_ofByte htag
    cases tag
    case trueTag | falseTag | nil | infinitum =>
      rw [if_pos (by decide)]
      exact ⟨a, ha, rfl⟩
    case blob =>
      rw [if_pos (by decide)]
      exact ⟨_, by omega, checkArgument_blob_ok⟩
    case int32 | float | char | rgbaColor | midiMessage | int64 | timeTag | double =>
      rw [if_neg (by decide), checkArgument_width mem fin a rfl]
      exact checkArgument_short (by omega)
    case string | symbol =>
      rw [if_neg (by decide)]
      apply checkArgument_unterminated (by simp)
      rw [findStr4EndBefore, if_pos (by omega)]
      rfl

theorem checkArguments_behind (ha : fin < a) (hts : ts ≠ []) (ht : TagsAt mem t ts)
    (hfuel : ts.length ≤ fuel) :
    ((∀ b ∈ ts, b ∈ uncheckedTags) →
      (checkArguments mem fin fuel t a).result = .ok (t + ts.length)) ∧
    ((¬ ∀ b ∈ ts, b ∈ uncheckedTags) →
      ∃ what, (checkArguments mem fin fuel t a).result = .error (.malformedMessage what)) := by
  induction ts generalizing t a fuel with
  | nil => exact absurd rfl hts
  | cons b ts ih =>
    obtain ⟨fuel, rfl⟩ : ∃ f, fuel = f + 1 := ⟨fuel - 1, by simp at hfuel; omega⟩
    simp only [List.length_cons] at hfuel
    have hb := checkArgument_behind mem b ha
    simp only [List.forall_mem_cons]
    by_cases hmem : b ∈ uncheckedTags
    · rw [if_pos hmem] at hb
      obtain ⟨next, hnext, hb⟩ := hb
      rw [checkArguments_step ht hb]
      by_cases hlast : ts = []
      · subst hlast
        simp [hmem]
      · simp only [hmem, true_and, if_neg hlast, List.length_cons, Nat.add_comm ts.length 1,
          ← Nat.add_assoc]
        exact ih hnext hlast ht.tail (by omega)
    · rw [if_neg hmem] at hb
      obtain ⟨what, hb⟩ := hb
      exact ⟨fun hall => absurd hall.1 hmem, fun _ => ⟨what, checkArguments_error ht hb⟩⟩

/-- The loop throws where the format has no arguments, unless a blob overruns. -/
theorem checkArguments_malformed {bs : List UInt8} (ht : TagsAt mem t ts) (ha : a ≤ fin)
    (hmod : (fin - a) % 4 = 0) (hbs : bs = slice mem a (fin - a)) (h : parseArgs ts bs = none)
    (hno : ¬ Overruns ts bs) (hfuel : ts.length ≤ fuel) :
    ∃ what, (checkArguments mem fin fuel t a).result = .error (.malformedMessage what) := by
  induction ts generalizing t a bs fuel with
  | nil => cases h
  | cons b ts ih =>
    obtain ⟨fuel, rfl⟩ : ∃ f, fuel = f + 1 := ⟨fuel - 1, by simp at hfuel; omega⟩
    simp only [List.length_cons] at hfuel
    rw [overruns_cons, not_or] at hno
    obtain ⟨hblob, hrest⟩ := hno
    cases htag : TypeTag.ofByte b with
    | none =>
      have hb : (checkArgument mem fin b a).result =
          .error (.malformedMessage "unknown type tag") := by
        simp only [checkArgument, htag]
        rfl
      exact ⟨_, checkArguments_error ht hb⟩
    | some tag =>
      obtain rfl := TypeTag.byte_of_ofByte htag
      subst hbs
      cases harg : parseArg tag (slice mem a (fin - a)) with
      | none =>
        by_cases htagb : tag = .blob
        · subst htagb
          have hnone := Option.map_eq_none_iff.mp harg
          have hsome : ¬ ∀ b ∈ ts, b ∈ uncheckedTags := fun h => hblob ⟨rfl, hnone, h⟩
          have hts : ts ≠ [] := by
            rintro rfl
            exact hsome (by simp)
          obtain ⟨-, hthrows⟩ := checkArguments_behind (blob_behind ha hnone) hts ht.tail
            (Nat.le_of_succ_le_succ hfuel)
          rw [checkArguments_step ht checkArgument_blob_ok, if_neg hts]
          exact hthrows hsome
        · obtain ⟨what, hb⟩ := checkArgument_malformed ha hmod htagb harg
          exact ⟨what, checkArguments_error ht hb⟩
      | some arg =>
        obtain ⟨v, bs'⟩ := arg
        obtain ⟨n, hat, hbs'⟩ := parseArg_at ha hmod harg
        have hle := hat.le
        have hnmod := hat.mod
        have hargs : parseArgs ts bs' = none := by
          simpa [parseArgs, harg] using h
        have hts : ts ≠ [] := by
          rintro rfl
          cases hargs
        rw [checkArguments_step ht hat.check.1, if_neg hts]
        exact ih ht.tail hle (by omega) hbs' hargs
          (fun h => hrest ⟨tag, v, bs', htag, harg, h⟩) (by omega)

/-- The loop accepts the type tags of a blob that overruns. -/
theorem checkArguments_overruns {bs : List UInt8} (ht : TagsAt mem t ts) (ha : a ≤ fin)
    (hmod : (fin - a) % 4 = 0) (hbs : bs = slice mem a (fin - a)) (h : Overruns ts bs)
    (hfuel : ts.length ≤ fuel) :
    (checkArguments mem fin fuel t a).result = .ok (t + ts.length) := by
  induction ts generalizing t a bs fuel with
  | nil =>
    obtain ⟨before, after, -, -, hts, -⟩ := h
    simp at hts
  | cons b ts ih =>
    obtain ⟨fuel, rfl⟩ : ∃ f, fuel = f + 1 := ⟨fuel - 1, by simp at hfuel; omega⟩
    simp only [List.length_cons] at hfuel ⊢
    subst hbs
    rcases overruns_cons.mp h with ⟨rfl, hnone, hafter⟩ | ⟨tag, v, bs', htag, harg, hover⟩
    · rw [checkArguments_step ht checkArgument_blob_ok]
      by_cases hts : ts = []
      · subst hts
        rfl
      · obtain ⟨hok, -⟩ := checkArguments_behind (blob_behind ha hnone) hts ht.tail
          (Nat.le_of_succ_le_succ hfuel)
        rw [if_neg hts, hok hafter, Nat.add_comm ts.length 1, Nat.add_assoc]
    · obtain rfl := TypeTag.byte_of_ofByte htag
      obtain ⟨n, hat, hbs'⟩ := parseArg_at ha hmod harg
      have hle := hat.le
      have hnmod := hat.mod
      have hts : ts ≠ [] := by
        rintro rfl
        obtain ⟨before, after, -, -, hts, -⟩ := hover
        simp at hts
      rw [checkArguments_step ht hat.check.1, if_neg hts, Nat.add_comm ts.length 1, ← Nat.add_assoc]
      exact ih ht.tail hle (by omega) hbs' hover (by omega)

/-! ## The walk of the iterator -/

theorem typeTag_ne (t n : Nat) : some t ≠ some (t + (n + 1)) := by
  intro h
  have := Option.some.inj h
  omega

/-- A loop over the arguments up to the type tag at `q`. `hturn` is one turn of it, which makes an
`x` of an argument; the induction is over the type tags. -/
theorem argumentLoop_yields {β : Type} {loop : Nat → ReceivedMessageArgument → ReadM (List β)}
    {q : Nat} (toValue : β → Value) (hend : ∀ fuel a, Yields S (loop (fuel + 1) ⟨some q, a⟩) [])
    (hturn : ∀ {t a n fuel : Nat} {tag : TypeTag} {bs bs' : List UInt8} {x : β} {xs : List β},
      t ≠ q → parseArg tag bs = some (toValue x, bs') → ArgumentAt mem fin tag a n (toValue x) →
      mem t = tag.byte → t ∈ S → Set.Ico a fin ⊆ S → fin ≤ fuel →
      Yields S (loop fuel ⟨some (t + 1), a + n⟩) xs →
      Yields S (loop (fuel + 1) ⟨some t, a⟩) (x :: xs))
    {bs rest : List UInt8} {xs : List β} (ht : TagsAt mem t ts) (hq : q = t + ts.length)
    (htS : Set.Ico t (q + 1) ⊆ S) (hS : Set.Ico a fin ⊆ S) (ha : a ≤ fin)
    (hmod : (fin - a) % 4 = 0) (hbs : bs = slice mem a (fin - a))
    (h : parseArgs ts bs = some (xs.map toValue, rest)) (hfuel : fin + ts.length < fuel) :
    Yields S (loop fuel ⟨some t, a⟩) xs := by
  obtain ⟨fuel, rfl⟩ : ∃ f, fuel = f + 1 := ⟨fuel - 1, by omega⟩
  induction ts generalizing t a bs xs fuel with
  | nil =>
    rw [parseArgs, Option.some.injEq, Prod.mk.injEq] at h
    obtain rfl := List.map_eq_nil_iff.mp h.1.symm
    obtain rfl : q = t := hq
    exact hend fuel a
  | cons b ts ih =>
    obtain ⟨tag, v, bs', vs', rfl, harg, hargs, hvs⟩ := parseArgs_cons h
    obtain ⟨x, xs', rfl, rfl, rfl⟩ := List.map_eq_cons_iff.mp hvs
    subst hbs
    obtain ⟨n, hat, hbs'⟩ := parseArg_at ha hmod harg
    simp only [List.length_cons] at hq hfuel
    have hle := hat.le
    have hnmod := hat.mod
    refine hturn (by omega) harg hat ht.head (htS ⟨by omega, by omega⟩) hS (by omega) ?_
    obtain ⟨fuel, rfl⟩ : ∃ f, fuel = f + 1 := ⟨fuel - 1, by omega⟩
    refine ih ht.tail (by omega) ?_ ?_ hle (by omega) hbs' hargs fuel (by omega)
    · exact (Set.Ico_subset_Ico_left (by omega)).trans htS
    · exact (Set.Ico_subset_Ico_left (by omega)).trans hS

/-- The walk gives the arguments that the format has, and reads them within the message. -/
theorem walk_yields {bs rest : List UInt8} {vs : List Value} (ht : TagsAt mem t ts)
    (htS : Set.Ico t (t + ts.length + 1) ⊆ S) (hS : Set.Ico a fin ⊆ S) (ha : a ≤ fin)
    (hmod : (fin - a) % 4 = 0) (hbs : bs = slice mem a (fin - a))
    (h : parseArgs ts bs = some (vs, rest)) (hfuel : fin + ts.length < fuel) :
    Yields S (walk mem ⟨some (t + ts.length), 0⟩ fuel ⟨some t, a⟩) vs := by
  apply argumentLoop_yields id _ _ ht rfl htS hS ha hmod hbs (by simpa using h) hfuel
  · intro fuel a
    rw [walk, if_pos rfl]
    exact yields_pure S _
  · intro t a n fuel tag bs bs' x xs hne _ hat hm htin hS hfuel hrest
    rw [walk, if_neg (by simpa using hne)]
    apply yields_bind (readByte_yields htin)
    rw [hm, TypeTag.ofByte_byte]
    apply yields_bind (hat.value hm htin hS hfuel)
    apply yields_bind (hat.advance hm htin hS hfuel)
    exact yields_bind hrest (yields_pure S _)

theorem readBytes_reads {p n q : Nat} (h : q ∈ Set.Ico p (p + n)) :
    q ∈ (readBytes mem p n).reads := by
  induction n generalizing p with
  | zero => exact absurd (lt_of_le_of_lt h.1 h.2) (lt_irrefl p)
  | succ n ih =>
    unfold readBytes
    by_cases hq : q = p
    · exact mem_reads_bind.mpr (.inl (by simp [readByte, hq]))
    · have hin : q ∈ (readBytes mem (p + 1) n).reads :=
        ih ⟨by have := h.1; omega, by have := h.2; omega⟩
      exact mem_reads_bind.mpr (.inr ⟨mem p, rfl, mem_reads_bind.mpr (.inl hin)⟩)

/-- A blob that runs past the end: its accessor shows a byte behind the end. -/
theorem asBlob_reads_behind (fuel : Nat) (ha : a ≤ fin) (hmod : (fin - a) % 4 = 0)
    (h : takeBlob (slice mem a (fin - a)) = none) (hm : mem t = ascii 'b') :
    ∃ q ≥ fin, q ∈ (asTag mem ⟨some t, a⟩ fuel .blob).reads := by
  have hbehind := blob_behind ha h
  have htype : (isType mem ⟨some t, a⟩ .blob).result = .ok true := by
    have := (isType_yields mem a (Set.mem_univ t) .blob).1
    rw [this, hm]
    rfl
  have hblob : ∀ q ∈ (asBlobUnchecked mem ⟨some t, a⟩).reads,
      q ∈ (asTag mem ⟨some t, a⟩ fuel .blob).reads := fun q hq =>
    mem_reads_bind.mpr (.inl (mem_reads_bind.mpr (.inr ⟨true, htype, hq⟩)))
  by_cases hsize : a + 4 ≤ fin
  · -- the size word is inside, and the data reach the byte at `fin`
    refine ⟨fin, le_rfl, hblob fin (mem_reads_bind.mpr (.inr ⟨word32 (slice mem a 4), ?_, ?_⟩))⟩
    · exact (readUInt32_yields mem (Set.subset_univ _)).1
    · refine readBytes_reads ⟨hsize, ?_⟩
      change fin < a + 4 + _
      unfold roundUp4Unsigned at hbehind
      split at hbehind <;> omega
  · refine ⟨a + 3, by omega, hblob _ (mem_reads_bind.mpr (.inl ?_))⟩
    exact mem_reads_bind.mpr (.inl (by simp [readByte]))

/-- The walk reads a byte behind the end where a blob overruns. -/
theorem walk_overruns (fuel : Nat) {bs : List UInt8} (ht : TagsAt mem t ts) (ha : a ≤ fin)
    (hmod : (fin - a) % 4 = 0) (hbs : bs = slice mem a (fin - a)) (h : Overruns ts bs)
    (hfuel : fin + ts.length < fuel) :
    ∃ q ≥ fin, q ∈ (walk mem ⟨some (t + ts.length), 0⟩ fuel ⟨some t, a⟩).reads := by
  obtain ⟨fuel, rfl⟩ : ∃ f, fuel = f + 1 := ⟨fuel - 1, by omega⟩
  induction ts generalizing t a bs fuel with
  | nil =>
    obtain ⟨before, after, -, -, hts, -⟩ := h
    simp at hts
  | cons b ts ih =>
    subst hbs
    simp only [List.length_cons] at hfuel ⊢
    rw [walk, if_neg (typeTag_ne t ts.length)]
    rcases overruns_cons.mp h with ⟨rfl, hnone, -⟩ | ⟨tag, v, bs', htag, harg, hover⟩
    · obtain ⟨q, hq, hin⟩ := asBlob_reads_behind fuel ha hmod hnone ht.head
      have htag : TypeTag.ofByte (mem t) = some .blob := by
        rw [ht.head]
        exact TypeTag.ofByte_byte .blob
      refine ⟨q, hq, mem_reads_bind.mpr (.inr ⟨mem t, rfl, ?_⟩)⟩
      rw [htag]
      exact mem_reads_bind.mpr (.inl hin)
    · obtain rfl := TypeTag.byte_of_ofByte htag
      obtain ⟨n, hat, hbs'⟩ := parseArg_at ha hmod harg
      have hle := hat.le
      have hnmod := hat.mod
      have hsub : Set.Ico a fin ⊆ Set.univ := Set.subset_univ _
      obtain ⟨fuel, rfl⟩ : ∃ f, fuel = f + 1 := ⟨fuel - 1, by omega⟩
      obtain ⟨q, hq, hin⟩ := ih ht.tail hle (by omega) hbs' hover fuel (by omega)
      refine ⟨q, hq, mem_reads_bind.mpr (.inr ⟨mem t, rfl, ?_⟩)⟩
      rw [ht.head, TypeTag.ofByte_byte]
      refine mem_reads_bind.mpr
        (.inr ⟨v, (hat.value ht.head (Set.mem_univ t) hsub (by omega)).1, ?_⟩)
      refine mem_reads_bind.mpr
        (.inr ⟨_, (hat.advance ht.head (Set.mem_univ t) hsub (by omega)).1, ?_⟩)
      rw [Nat.add_comm ts.length 1, ← Nat.add_assoc]
      exact mem_reads_bind.mpr (.inl hin)

/-! ## The argument loop of the listener -/

theorem parseArg_typeTag {tag : TypeTag} {bs rest : List UInt8} {arg : Arg}
    (h : parseArg tag bs = some (arg.toValue, rest)) : tag = arg.typeTag := by
  cases arg <;> cases tag <;> simp [parseArg, Arg.toValue, Option.map_eq_some_iff] at h <;> rfl

/-- What a checked accessor gives, its unchecked one gives too. -/
theorem unchecked_yields {α : Type} {tag : TypeTag} {unchecked : ReadM α} {x : α}
    (hm : mem t = tag.byte) (h : Yields S (asChecked mem ⟨some t, a⟩ tag unchecked) x) :
    Yields S unchecked x := by
  obtain ⟨b, hb, hx⟩ := h.of_bind
  have htype := (isType_yields mem a (Set.mem_univ t) tag).1
  rw [hb.1, hm] at htype
  cases htype
  simpa using hx

/-- The test of the loop on the type tag at `t`. -/
theorem isType_eq {arg : Arg} (hm : mem t = arg.typeTag.byte) (ht : t ∈ S) (tag : TypeTag) :
    Yields S (isType mem ⟨some t, a⟩ tag) (decide (arg.typeTag = tag)) := by
  have h := isType_yields mem a ht tag
  rw [hm] at h
  simpa only [TypeTag.byte_injective.eq_iff] using h

/-- One turn of the loop takes an argument of one of the three types. -/
theorem addArg_yields {arg : Arg} {n : Nat} (hat : ArgumentAt mem fin arg.typeTag a n arg.toValue)
    (hm : mem t = arg.typeTag.byte) (ht : t ∈ S) (hS : Set.Ico a fin ⊆ S) (hfuel : fin ≤ fuel) :
    Yields S (addArg mem fuel ⟨some t, a⟩) arg := by
  have hvalue := hat.value hm ht hS hfuel
  unfold addArg
  apply yields_bind (isType_eq hm ht .int32)
  cases arg with
  | int32 value =>
    obtain ⟨x, hx, heq⟩ := hvalue.of_bind
    cases heq.1
    exact yields_bind (unchecked_yields hm hx) (yields_pure S _)
  | float bits =>
    apply yields_bind (isType_eq hm ht .float)
    obtain ⟨x, hx, heq⟩ := hvalue.of_bind
    cases heq.1
    exact yields_bind (unchecked_yields hm hx) (yields_pure S _)
  | string value =>
    apply yields_bind (isType_eq hm ht .float)
    apply yields_bind (isType_eq hm ht .string)
    obtain ⟨x, hx, heq⟩ := hvalue.of_bind
    cases heq.1
    exact yields_bind (unchecked_yields hm hx) (yields_pure S _)

/-- The loop builds the arguments that the format has. -/
theorem addArgs_yields {bs rest : List UInt8} {args : List Arg} (ht : TagsAt mem t ts)
    (htS : Set.Ico t (t + ts.length + 1) ⊆ S) (hS : Set.Ico a fin ⊆ S) (ha : a ≤ fin)
    (hmod : (fin - a) % 4 = 0) (hbs : bs = slice mem a (fin - a))
    (h : parseArgs ts bs = some (args.map Arg.toValue, rest)) (hfuel : fin + ts.length < fuel) :
    Yields S (addArgs mem ⟨some (t + ts.length), 0⟩ fuel ⟨some t, a⟩) args := by
  apply argumentLoop_yields Arg.toValue _ _ ht rfl htS hS ha hmod hbs h hfuel
  · intro fuel a
    rw [addArgs, if_pos rfl]
    exact yields_pure S _
  · intro t a n fuel tag bs bs' arg args hne harg hat hm htin hS hfuel hrest
    obtain rfl := parseArg_typeTag harg
    rw [addArgs, if_neg (by simpa using hne)]
    apply yields_bind (addArg_yields hat hm htin hS hfuel)
    apply yields_bind (hat.advance hm htin hS hfuel)
    exact yields_bind hrest (yields_pure S _)

/-- The types that the listener takes. -/
def listenerTags : List UInt8 := [ascii 'i', ascii 'f', ascii 's']

/-- Any other type fails the assertion. -/
theorem addArg_ok {arg : Arg} (h : (addArg mem fuel ⟨some t, a⟩).result = .ok arg) :
    mem t ∈ listenerTags := by
  by_contra hmem
  simp only [listenerTags, List.mem_cons, List.not_mem_nil, or_false, not_or] at hmem
  obtain ⟨hi, hf, hs⟩ := hmem
  have htype := fun tag => (isType_yields mem a (Set.mem_univ t) tag).1
  have hint : (isInt32 mem ⟨some t, a⟩).result = .ok false := by
    rw [isInt32, htype]
    exact congrArg _ (decide_eq_false hi)
  have hfloat : (isFloat mem ⟨some t, a⟩).result = .ok false := by
    rw [isFloat, htype]
    exact congrArg _ (decide_eq_false hf)
  have hstring : (isString mem ⟨some t, a⟩).result = .ok false := by
    rw [isString, htype]
    exact congrArg _ (decide_eq_false hs)
  rw [addArg, result_bind, hint] at h
  simp only [Except.bind, Bool.false_eq_true, if_false, result_bind, hfloat, hstring,
    result_fail] at h
  cases h

theorem advance_listenerTags {next : ReceivedMessageArgument} (hm : mem t ∈ listenerTags)
    (h : (advance mem fuel ⟨some t, a⟩).result = .ok next) : next.typeTag = some (t + 1) := by
  simp only [listenerTags, List.mem_cons, List.not_mem_nil, or_false] at hm
  have hi : TypeTag.ofByte (ascii 'i') = some .int32 := TypeTag.ofByte_byte .int32
  have hf : TypeTag.ofByte (ascii 'f') = some .float := TypeTag.ofByte_byte .float
  have hs : TypeTag.ofByte (ascii 's') = some .string := TypeTag.ofByte_byte .string
  obtain ⟨b, hb, h⟩ := bind_ok.mp h
  cases hb
  rcases hm with hm | hm | hm
  · rw [hm, hi] at h
    cases h
    rfl
  · rw [hm, hf] at h
    cases h
    rfl
  · rw [hm, hs] at h
    obtain ⟨q, -, h⟩ := bind_ok.mp h
    cases h
    rfl

/-- The loop ends only when each type tag is one of those. -/
theorem addArgs_ok {args : List Arg} (ht : TagsAt mem t ts)
    (h : (addArgs mem ⟨some (t + ts.length), 0⟩ fuel ⟨some t, a⟩).result = .ok args) :
    ∀ b ∈ ts, b ∈ listenerTags := by
  induction ts generalizing t a fuel args with
  | nil => simp
  | cons b ts ih =>
    cases fuel with
    | zero => cases h
    | succ fuel =>
      simp only [List.length_cons] at h
      rw [addArgs, if_neg (typeTag_ne t ts.length)] at h
      obtain ⟨arg, harg, h⟩ := bind_ok.mp h
      obtain ⟨next, hnext, h⟩ := bind_ok.mp h
      obtain ⟨rest, hrest, h⟩ := bind_ok.mp h
      have hm := addArg_ok harg
      obtain ⟨typeTag, argument⟩ := next
      obtain rfl : typeTag = some (t + 1) := advance_listenerTags hm hnext
      rw [Nat.add_comm ts.length 1, ← Nat.add_assoc] at hrest
      rw [ht.head] at hm
      exact List.forall_mem_cons.mpr ⟨hm, ih ht.tail hrest⟩

end esc_platform.osc
