-- Where the reads of a message stand: the constructor either throws or
-- finds the parts of a message that the format has, except for a blob that
-- runs past the end.
import EscPlatform.Osc.MessageReads

namespace esc_platform.osc

open bytes traced_reads Traced ReceivedMessageArgument

variable {mem : Memory} {p n fuel : Nat}

/-! ## The header -/

/-- What the constructor finds for a header with type tags: they stand inside the message, in
front of the argument bytes. -/
structure HeaderAt (mem : Memory) (p n : Nat) (h : Header) (t a : Nat) : Prop where
  tags : TagsAt mem t h.tags
  tags_in : Set.Ico t (t + h.tags.length + 1) ⊆ Set.Ico p (p + n)
  args_in : Set.Ico a (p + n) ⊆ Set.Ico p (p + n)
  args_le : a ≤ p + n
  args_mod : (p + n - a) % 4 = 0
  args : h.args = slice mem a (p + n - a)

theorem parseHeader_some {bs : List UInt8} {h : Header} (hh : parseHeader bs = some h) :
    bs ≠ [] ∧ bs.length % 4 = 0 ∧ ∃ s rest, splitStr4 bs = some (s, rest) ∧
      parseTypeTags (cStr s) rest = some h := by
  unfold parseHeader at hh
  split at hh
  · cases hh
  · rename_i hne
    simp only [not_or, not_not] at hne
    obtain ⟨⟨s, rest⟩, hs, hh⟩ := Option.bind_eq_some_iff.mp hh
    exact ⟨hne.1, hne.2, s, rest, hs, hh⟩

theorem parseTypeTags_address {address bs : List UInt8} {h : Header}
    (hh : parseTypeTags address bs = some h) : h.address = address := by
  unfold parseTypeTags at hh
  split at hh
  · cases hh
    rfl
  · split at hh
    · cases hh
    · split at hh
      · cases hh
        rfl
      · obtain ⟨-, -, rfl⟩ := Option.map_eq_some_iff.mp hh
        rfl

theorem address_yields {h : Header} (hh : parseHeader (slice mem p n) = some h) (hfuel : n ≤ fuel) :
    Yields (Set.Ico p (p + n)) (readCString mem fuel p) h.address := by
  obtain ⟨-, -, s, rest, hs, hh⟩ := parseHeader_some hh
  have hs' : splitStr4 (slice mem p (p + n - p)) = some (s, rest) := by
    rwa [Nat.add_sub_cancel_left]
  obtain ⟨hle, hsl, -⟩ := splitStr4_slice hs' (by omega)
  rw [parseTypeTags_address hh]
  apply (readCString_yields _ hsl (splitStr4_append hs).2.2.2 (by omega)).mono
  exact fun x hx => ⟨hx.1, by have := hx.2; omega⟩

section type_tags

variable {b : Nat} {address : List UInt8}

/-- Behind the address there is nothing left, or at least one group of four bytes. -/
theorem typeTags_cases (mem : Memory) (hb : b ≤ p + n) (hmod : (p + n - b) % 4 = 0) :
    b = p + n ∨ b + 4 ≤ p + n ∧ ∃ k, slice mem b (p + n - b) =
      mem b :: mem (b + 1) :: slice mem (b + 2) k := by
  by_cases hend : b = p + n
  · exact .inl hend
  · obtain ⟨k, hk⟩ : ∃ k, p + n - b = k + 2 := ⟨p + n - b - 2, by omega⟩
    refine .inr ⟨by omega, k, ?_⟩
    rw [hk]
    rfl

/-- The parts of the type tag string `tags` at `b`. -/
theorem typeTags_at (address : List UInt8) {tags args : List UInt8} (hpb : p ≤ b) (hb : b ≤ p + n)
    (hmod : (p + n - b) % 4 = 0) (hcomma : mem b = ascii ',')
    (hs : splitStr4 (slice mem b (p + n - b)) = some (tags, args)) :
    HeaderAt mem p n ⟨address, (cStr tags).tail, args⟩ (b + 1) (b + tags.length) := by
  obtain ⟨hle, hcells, hargs⟩ := splitStr4_slice hs hb
  obtain ⟨-, htmod, hpos, h0⟩ := splitStr4_append hs
  obtain ⟨c, tags, rfl⟩ := List.exists_cons_of_length_pos hpos
  obtain ⟨hc, htcells⟩ := slice_cons hcells
  rw [hcomma] at hc
  subst hc
  have hne : ascii ',' ≠ 0 := by decide
  have h0' : (0 : UInt8) ∈ tags := by simpa [hne.symm] using h0
  have htail : (cStr (ascii ',' :: tags)).tail = cStr tags := by simp [cStr, hne]
  obtain ⟨junk, hjunk⟩ := cStr_split h0'
  have hlen := congrArg List.length hjunk
  simp only [List.length_append, List.length_cons] at hlen hle htmod hargs ⊢
  refine ⟨?_, ?_, ?_, hle, by omega, hargs⟩
  · refine ⟨?_, ?_⟩
    · have hsplit : slice mem (b + 1) tags.length = (cStr tags ++ [0]) ++ junk := by
        rw [htcells, List.append_assoc]
        exact hjunk
      have := (slice_append hsplit).1
      rwa [htail, ← List.length_singleton (a := (0 : UInt8)), ← List.length_append]
    · rw [htail]
      exact zero_not_mem_cStr tags
  · simp only [htail]
    exact Set.Ico_subset_Ico (by omega) (by omega)
  · exact Set.Ico_subset_Ico_left (by omega)

theorem initTypeTags_malformed (hb : b ≤ p + n) (hmod : (p + n - b) % 4 = 0)
    (h : parseTypeTags address (slice mem b (p + n - b)) = none) :
    ∃ what, (initTypeTags mem p n b).result = .error (.malformedMessage what) := by
  rcases typeTags_cases mem hb hmod with rfl | ⟨hle, k, hk⟩
  · rw [Nat.sub_self] at h
    cases h
  · have hfind := (findStr4EndBefore_yields mem hb hmod).1
    simp only [initTypeTags, if_neg (by omega : ¬ b = p + n)]
    by_cases hcomma : mem b = ascii ','
    · by_cases hnul : mem (b + 1) = 0
      · rw [hk, parseTypeTags, if_neg (by simpa using hcomma), if_pos (by simp [hnul])] at h
        cases h
      · have hnone : splitStr4 (slice mem b (p + n - b)) = none := by
          rw [hk, parseTypeTags, if_neg (by simpa using hcomma), if_neg (by simpa using hnul)] at h
          rw [hk]
          exact Option.map_eq_none_iff.mp h
        rw [hnone] at hfind
        refine ⟨"type tags were not terminated before end of message", ?_⟩
        simp [result_bind, readByte, Except.bind, hcomma, hnul, hfind, malformed_result]
    · refine ⟨"type tags not present", ?_⟩
      simp [result_bind, readByte, Except.bind, hcomma, malformed_result]

theorem initTypeTags_no_tags {h : Header} (hpb : p ≤ b) (hb : b ≤ p + n)
    (hmod : (p + n - b) % 4 = 0) (hh : parseTypeTags address (slice mem b (p + n - b)) = some h)
    (htags : h.tags = []) :
    Yields (Set.Ico p (p + n)) (initTypeTags mem p n b) ⟨p, none, none, 0⟩ := by
  rcases typeTags_cases mem hb hmod with rfl | ⟨hle, k, hk⟩
  · simp only [initTypeTags, if_true]
    exact yields_pure _ _
  · simp only [initTypeTags, if_neg (by omega : ¬ b = p + n)]
    refine yields_bind (readByte_yields ⟨by omega, by omega⟩) ?_
    by_cases hcomma : mem b = ascii ','
    · rw [if_neg (by simpa using hcomma)]
      refine yields_bind (readByte_yields ⟨by omega, by omega⟩) ?_
      by_cases hnul : mem (b + 1) = 0
      · rw [if_pos hnul]
        exact yields_pure _ _
      · -- with a first type tag there are type tags
        exfalso
        rw [hk, parseTypeTags, if_neg (by simpa using hcomma), if_neg (by simpa using hnul),
          ← hk] at hh
        obtain ⟨⟨tags, args⟩, hs, rfl⟩ := Option.map_eq_some_iff.mp hh
        have := (typeTags_at address hpb hb hmod hcomma hs).tags.next
        exact hnul (this.mpr htags)
    · rw [hk, parseTypeTags, if_pos (by simpa using hcomma)] at hh
      cases hh

theorem initTypeTags_tags {h : Header} (hpb : p ≤ b) (hb : b ≤ p + n)
    (hmod : (p + n - b) % 4 = 0) (hh : parseTypeTags address (slice mem b (p + n - b)) = some h)
    (htags : h.tags ≠ []) : ∃ t a, HeaderAt mem p n h t a ∧
      Reaches (Set.Ico p (p + n)) (initTypeTags mem p n b) (do
        let typeTagsEnd ← checkArguments mem (p + n) n t a
        return ⟨p, some t, some typeTagsEnd, a⟩) := by
  rcases typeTags_cases mem hb hmod with rfl | ⟨hle, k, hk⟩
  · rw [Nat.sub_self] at hh
    cases hh
    exact absurd rfl htags
  · have hcomma : mem b = ascii ',' := by
      by_contra hcomma
      rw [hk, parseTypeTags, if_pos (by simpa using hcomma)] at hh
      cases hh
    have hnul : mem (b + 1) ≠ 0 := by
      intro hnul
      rw [hk, parseTypeTags, if_neg (by simpa using hcomma), if_pos (by simp [hnul])] at hh
      cases hh
      exact htags rfl
    rw [hk, parseTypeTags, if_neg (by simpa using hcomma), if_neg (by simpa using hnul), ← hk] at hh
    obtain ⟨⟨tags, args⟩, hs, rfl⟩ := Option.map_eq_some_iff.mp hh
    have hfind := findStr4EndBefore_yields mem hb hmod
    rw [hs] at hfind
    refine ⟨b + 1, b + tags.length, typeTags_at address hpb hb hmod hcomma hs, ?_⟩
    simp only [initTypeTags, if_neg (by omega : ¬ b = p + n)]
    refine reaches_bind (readByte_yields ⟨by omega, by omega⟩) ?_
    rw [if_neg (by simpa using hcomma)]
    refine reaches_bind (readByte_yields ⟨by omega, by omega⟩) ?_
    rw [if_neg hnul]
    exact reaches_bind (hfind.mono (Set.Ico_subset_Ico_left (by omega))) (reaches_rfl _ _)

end type_tags

/-- Up to the end of the address pattern, the constructor stays inside the message. -/
theorem receivedMessage_reaches {s rest : List UInt8} (hne : slice mem p n ≠ [])
    (hmod : n % 4 = 0) (hs : splitStr4 (slice mem p n) = some (s, rest)) :
    Reaches (Set.Ico p (p + n)) (receivedMessage mem p n)
      (initTypeTags mem p n (p + s.length)) := by
  have hn : n ≠ 0 := by
    rintro rfl
    exact hne rfl
  have hfind := findStr4EndBefore_yields mem (Nat.le_add_right p n)
    (by rwa [Nat.add_sub_cancel_left])
  rw [Nat.add_sub_cancel_left, hs] at hfind
  unfold receivedMessage
  rw [if_neg hn, if_neg (by simpa using hmod)]
  exact reaches_bind hfind (reaches_rfl _ _)

/-- What stands behind the address pattern. -/
theorem address_rest {s rest : List UInt8} (hmod : n % 4 = 0)
    (hs : splitStr4 (slice mem p n) = some (s, rest)) :
    p + s.length ≤ p + n ∧ (p + n - (p + s.length)) % 4 = 0 ∧
      rest = slice mem (p + s.length) (p + n - (p + s.length)) := by
  have hs' : splitStr4 (slice mem p (p + n - p)) = some (s, rest) := by
    rwa [Nat.add_sub_cancel_left]
  obtain ⟨hle, -, hrest⟩ := splitStr4_slice hs' (by omega)
  have hsmod := (splitStr4_append hs).2.1
  exact ⟨hle, by omega, hrest⟩

/-- The constructor throws where the format has no header. -/
theorem receivedMessage_no_header (hh : parseHeader (slice mem p n) = none) :
    ∃ what, (receivedMessage mem p n).result = .error (.malformedMessage what) := by
  by_cases hn : n = 0
  · refine ⟨"zero length messages not permitted", ?_⟩
    unfold receivedMessage
    rw [if_pos hn]
    rfl
  by_cases hmod : n % 4 = 0
  · have hne : slice mem p n ≠ [] := by
      intro h
      exact hn (by simpa using congrArg List.length h)
    rw [parseHeader, if_neg (by simp [hne, hmod])] at hh
    cases hs : splitStr4 (slice mem p n) with
    | none =>
      have hfind := (findStr4EndBefore_yields mem (Nat.le_add_right p n)
        (by rwa [Nat.add_sub_cancel_left])).1
      rw [Nat.add_sub_cancel_left, hs] at hfind
      refine ⟨"unterminated address pattern", ?_⟩
      unfold receivedMessage
      rw [if_neg hn, if_neg (by simpa using hmod), result_bind, hfind]
      rfl
    | some s =>
      obtain ⟨s, rest⟩ := s
      obtain ⟨hle, hrmod, rfl⟩ := address_rest hmod hs
      rw [hs, Option.bind_some] at hh
      rw [(receivedMessage_reaches hne hmod hs).result]
      exact initTypeTags_malformed hle hrmod hh
  · refine ⟨"message size must be multiple of four", ?_⟩
    unfold receivedMessage
    rw [if_neg hn, if_pos (by simpa using hmod)]
    rfl

/-- A message without type tags. -/
theorem receivedMessage_no_tags {h : Header} (hh : parseHeader (slice mem p n) = some h)
    (htags : h.tags = []) :
    Yields (Set.Ico p (p + n)) (receivedMessage mem p n) ⟨p, none, none, 0⟩ := by
  obtain ⟨hne, hmod, s, rest, hs, hh⟩ := parseHeader_some hh
  rw [slice_length] at hmod
  obtain ⟨hle, hrmod, rfl⟩ := address_rest hmod hs
  exact (receivedMessage_reaches hne hmod hs).yields
    (initTypeTags_no_tags (by omega) hle hrmod hh htags)

/-- A message with type tags: all that is left is the argument loop. -/
theorem receivedMessage_tags {h : Header} (hh : parseHeader (slice mem p n) = some h)
    (htags : h.tags ≠ []) : ∃ t a, HeaderAt mem p n h t a ∧
      Reaches (Set.Ico p (p + n)) (receivedMessage mem p n) (do
        let typeTagsEnd ← checkArguments mem (p + n) n t a
        return ⟨p, some t, some typeTagsEnd, a⟩) := by
  obtain ⟨hne, hmod, s, rest, hs, hh⟩ := parseHeader_some hh
  rw [slice_length] at hmod
  obtain ⟨hle, hrmod, rfl⟩ := address_rest hmod hs
  obtain ⟨t, a, hat, hreaches⟩ := initTypeTags_tags (by omega) hle hrmod hh htags
  exact ⟨t, a, hat, (receivedMessage_reaches hne hmod hs).trans hreaches⟩

/-! ## The outcomes of the constructor -/

/-- A blob in the message runs past its end, and no later argument is checked. -/
def BlobOverruns (bs : List UInt8) : Prop :=
  ∃ h, parseHeader bs = some h ∧ Overruns h.tags h.args

theorem parseMessage_some {bs : List UInt8} {m : Decoded} (h : parseMessage bs = some m) :
    ∃ hd vs rest, parseHeader bs = some hd ∧ parseArgs hd.tags hd.args = some (vs, rest) ∧
      m = ⟨hd.address, vs⟩ := by
  obtain ⟨hd, hh, h⟩ := Option.bind_eq_some_iff.mp h
  obtain ⟨⟨vs, rest⟩, hargs, h⟩ := Option.map_eq_some_iff.mp h
  exact ⟨hd, vs, rest, hh, hargs, h.symm⟩

/-- How the object that the constructor makes shows the message `m`. -/
structure MessageAt (mem : Memory) (p n : Nat) (r : ReceivedMessage) (m : Decoded) : Prop where
  address {fuel : Nat} : n ≤ fuel →
    Yields (Set.Ico p (p + n)) (readCString mem fuel r.addressPattern) m.address
  walk {fuel : Nat} : p + 2 * n < fuel →
    Yields (Set.Ico p (p + n)) (walk mem r.argumentsEnd fuel r.argumentsBegin) m.args
  addArgs {fuel : Nat} {args : List Arg} : p + 2 * n < fuel → m.args = args.map Arg.toValue →
    Yields (Set.Ico p (p + n)) (addArgs mem r.argumentsEnd fuel r.argumentsBegin) args

theorem HeaderAt.tags_length {h : Header} {t a : Nat} (hat : HeaderAt mem p n h t a) :
    h.tags.length < n := by
  have hfirst : t ∈ Set.Ico p (p + n) := hat.tags_in ⟨le_rfl, by omega⟩
  have hlast : t + h.tags.length ∈ Set.Ico p (p + n) := hat.tags_in ⟨by omega, by omega⟩
  have := hfirst.1
  have := hlast.2
  omega

/-- The constructor accepts every message of the format. -/
theorem receivedMessage_decodes {m : Decoded} (h : parseMessage (slice mem p n) = some m) :
    ∃ r, Yields (Set.Ico p (p + n)) (receivedMessage mem p n) r ∧ MessageAt mem p n r m := by
  obtain ⟨hd, vs, rest, hh, hargs, rfl⟩ := parseMessage_some h
  by_cases htags : hd.tags = []
  · refine ⟨_, receivedMessage_no_tags hh htags, address_yields hh, ?_, ?_⟩
    · intro fuel hfuel
      obtain ⟨fuel, rfl⟩ : ∃ f, fuel = f + 1 := ⟨fuel - 1, by omega⟩
      rw [htags] at hargs
      cases hargs
      exact yields_pure _ _
    · intro fuel args hfuel heq
      obtain ⟨fuel, rfl⟩ : ∃ f, fuel = f + 1 := ⟨fuel - 1, by omega⟩
      rw [htags] at hargs
      cases hargs
      obtain rfl := List.map_eq_nil_iff.mp heq.symm
      exact yields_pure _ _
  · obtain ⟨t, a, hat, hreaches⟩ := receivedMessage_tags hh htags
    have hlen := hat.tags_length
    have hcheck := checkArguments_yields htags hat.tags hat.tags_in hat.args_in hat.args_le
      hat.args_mod hat.args hargs (Nat.le_of_lt hlen)
    refine ⟨_, hreaches.yields (yields_bind hcheck (yields_pure _ _)), address_yields hh, ?_, ?_⟩
    · intro fuel hfuel
      exact walk_yields hat.tags hat.tags_in hat.args_in hat.args_le hat.args_mod hat.args hargs
        (by omega)
    · intro fuel args hfuel heq
      simp only at heq
      rw [heq] at hargs
      exact addArgs_yields hat.tags hat.tags_in hat.args_in hat.args_le hat.args_mod hat.args hargs
        (by omega)

/-- It throws on every other bytes, unless a blob overruns. -/
theorem receivedMessage_malformed (h : parseMessage (slice mem p n) = none)
    (hno : ¬ BlobOverruns (slice mem p n)) :
    ∃ what, (receivedMessage mem p n).result = .error (.malformedMessage what) := by
  cases hh : parseHeader (slice mem p n) with
  | none => exact receivedMessage_no_header hh
  | some hd =>
    have hargs : parseArgs hd.tags hd.args = none := by
      rw [parseMessage, hh, Option.bind_some] at h
      exact Option.map_eq_none_iff.mp h
    have htags : hd.tags ≠ [] := by
      intro htags
      rw [htags] at hargs
      cases hargs
    obtain ⟨t, a, hat, hreaches⟩ := receivedMessage_tags hh htags
    obtain ⟨what, hwhat⟩ := checkArguments_malformed hat.tags hat.args_le hat.args_mod hat.args
      hargs (fun hover => hno ⟨hd, hh, hover⟩) (Nat.le_of_lt hat.tags_length)
    refine ⟨what, ?_⟩
    rw [hreaches.result, result_bind, hwhat]
    rfl

/-- It accepts a message with a blob that overruns. -/
theorem receivedMessage_overruns {hd : Header} (hh : parseHeader (slice mem p n) = some hd)
    (hover : Overruns hd.tags hd.args) : ∃ t a, HeaderAt mem p n hd t a ∧
      (receivedMessage mem p n).result = .ok ⟨p, some t, some (t + hd.tags.length), a⟩ := by
  have htags : hd.tags ≠ [] := by
    intro htags
    obtain ⟨before, after, -, -, hts, -⟩ := hover
    simp [htags] at hts
  obtain ⟨t, a, hat, hreaches⟩ := receivedMessage_tags hh htags
  refine ⟨t, a, hat, ?_⟩
  rw [hreaches.result, result_bind, checkArguments_overruns hat.tags hat.args_le hat.args_mod
    hat.args hover (Nat.le_of_lt hat.tags_length)]
  rfl

/-! ## The reads of a message stay inside it -/

/-- A message element is made and walked from `ArgumentsBegin()` to `ArgumentsEnd()`, each
argument through the accessor of its type. -/
def constructAndWalk (mem : Memory) (fuel message size : Nat) : ReadM (List Value) := do
  let m ← receivedMessage mem message size
  walk mem m.argumentsEnd fuel m.argumentsBegin

/-- The constructor throws, or the whole walk ends and reads only bytes of the element. -/
def StaysInside (mem : Memory) (message size : Nat) : Prop :=
  (∃ what, (receivedMessage mem message size).result = .error (.malformedMessage what)) ∨
    ∃ n, ∀ fuel ≥ n, ∃ vs,
      Yields (Set.Ico message (message + size)) (constructAndWalk mem fuel message size) vs

/-- A walk over a blob that overruns leaves the element. -/
theorem blobOverruns_leaves (h : BlobOverruns (slice mem p n)) : ¬ StaysInside mem p n := by
  obtain ⟨hd, hh, hover⟩ := h
  obtain ⟨t, a, hat, hok⟩ := receivedMessage_overruns hh hover
  rintro (⟨what, hwhat⟩ | ⟨N, hN⟩)
  · rw [hok] at hwhat
    cases hwhat
  · obtain ⟨q, hq, hin⟩ := walk_overruns (N + (p + n) + n) hat.tags hat.args_le
      hat.args_mod hat.args hover (by have := hat.tags_length; omega)
    obtain ⟨vs, hvs⟩ := hN (N + (p + n) + n) (by omega)
    have := (hvs.2 q (mem_reads_bind.mpr (.inr ⟨_, hok, hin⟩))).2
    omega

/-- The reads of a message element stay inside it, except when a blob runs past its end and
only types without a range check follow. -/
theorem reads_stay_inside_iff (mem : Memory) (message size : Nat) :
    StaysInside mem message size ↔ ¬ BlobOverruns (slice mem message size) := by
  refine ⟨fun h hover => blobOverruns_leaves hover h, fun hno => ?_⟩
  cases hm : parseMessage (slice mem message size) with
  | none => exact .inl (receivedMessage_malformed hm hno)
  | some m =>
    obtain ⟨r, hr, hat⟩ := receivedMessage_decodes hm
    exact .inr ⟨message + 2 * size + 1, fun fuel hfuel =>
      ⟨m.args, yields_bind hr (hat.walk (by omega))⟩⟩

/-- The element `"/a\0\0,b\0\0"` has a blob and no bytes for it. -/
theorem reads_leave_a_message : ¬ ∀ mem message size, StaysInside mem message size := by
  intro h
  have hover : BlobOverruns (slice (fun i => [47, 97, 0, 0, 44, 98, 0, 0].getD i 0) 0 8) := by
    refine ⟨⟨[47, 97], [98], []⟩, by decide, [], [], [], [], rfl, rfl, rfl, ?_⟩
    simp
  exact blobOverruns_leaves hover (h _ 0 8)

end esc_platform.osc
