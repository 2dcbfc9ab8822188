-- A packet stream under any sequence of operations: where its pointers
-- stand, what its size slots point at, what becomes of the type tags, and
-- that an operation which throws does nothing.
import EscPlatform.Osc.StreamOperations
import EscPlatform.Osc.StreamWrites
import EscPlatform.Lib.Runs

namespace esc_platform.osc

open bytes checked

/-! ## The chain of open elements -/

/-- The open elements from `e` outwards. Each size slot ends within the first `c` bytes of the
buffer and keeps the offset of its parent's slot, which ends before it. The outermost element
has the offset 0 and no slot. -/
inductive ParentChain (buffer : List UInt8) : Nat → Option Nat → Prop
  | ready {c : Nat} : ParentChain buffer c none
  | outermost {c : Nat} (written : 0 < c) : ParentChain buffer c (some 0)
  | inner {c slot : Nat} (positive : 0 < slot) (written : slot + 4 ≤ c)
      (parent : ParentChain buffer slot (some (leValue ((buffer.drop slot).take 4)))) :
      ParentChain buffer c (some slot)

variable {buffer buffer' : List UInt8} {c c' : Nat} {e : Option Nat}
variable {s s' : OutboundPacketStream}

/-- The slots see the first `c` bytes only. -/
theorem ParentChain.frame (h : ParentChain buffer c e) (hc : c ≤ c')
    (hb : buffer'.take c = buffer.take c) : ParentChain buffer' c' e := by
  induction h generalizing buffer' c' with
  | ready => exact .ready
  | outermost written => exact .outermost (by omega)
  | @inner c slot positive written parent ih =>
    have hslot : (buffer'.drop slot).take 4 = (buffer.drop slot).take 4 := by
      have hdrop := congrArg (fun l => (l.drop slot).take 4) hb
      simpa only [List.drop_take, List.take_take, Nat.min_eq_left (show 4 ≤ c - slot by omega)]
        using hdrop
    have htake : buffer'.take slot = buffer.take slot := by
      have htake := congrArg (List.take slot) hb
      simpa only [List.take_take, Nat.min_eq_left (show slot ≤ c by omega)] using htake
    refine .inner positive (by omega) ?_
    rw [hslot]
    exact ih (Nat.le_refl slot) htake

theorem ParentChain.lt (h : ParentChain buffer c e) {p : Nat} (hp : e = some p) : p < c := by
  cases h with
  | ready => cases hp
  | outermost written =>
    cases hp
    exact written
  | inner positive written _ =>
    cases hp
    omega

/-- An element opens at the cursor: its slot holds the offset of the parent's. -/
theorem beginElement_chain (hcap : s.capacity < 2 ^ 30)
    (h : ParentChain s.buffer s.messageCursor s.elementSizePtr)
    (hroom : s.messageCursor + s.slotSize ≤ s.capacity) :
    ∃ buffer slot, (beginElement 4 s.messageCursor).run s =
        .ok (s.messageCursor + s.slotSize)
          { s with buffer := buffer, elementSizePtr := some slot } ∧
      buffer.length = s.buffer.length ∧
      ∀ buffer' c, s.messageCursor + s.slotSize < c →
        buffer'.take (s.messageCursor + s.slotSize) = buffer.take (s.messageCursor + s.slotSize) →
        ParentChain buffer' c (some slot) := by
  cases he : s.elementSizePtr with
  | none =>
    have hslot : s.slotSize = 0 := by
      simp [OutboundPacketStream.slotSize, OutboundPacketStream.elementSizeSlotRequired, he]
    refine ⟨s.buffer, 0, ?_, rfl, fun _ c hc _ => .outermost (by omega)⟩
    simp only [beginElement, EStateM.run_bind, EStateM.run_get, he, EStateM.run_set,
      EStateM.run_pure, hslot, Nat.add_zero]
  | some parent =>
    have hslot : s.slotSize = 4 := by
      simp [OutboundPacketStream.slotSize, OutboundPacketStream.elementSizeSlotRequired, he]
    have hparent := h.lt he
    rw [hslot] at hroom ⊢
    have hstore : s.messageCursor + (leBytes 4 parent).length ≤ s.buffer.length := by
      rw [leBytes_length]
      exact hroom.trans s.capacity_le
    refine ⟨overwrite s.buffer s.messageCursor (leBytes 4 parent), s.messageCursor, ?_,
      overwrite_length hstore, fun buffer' c hc hb => ?_⟩
    · simp only [beginElement, EStateM.run_bind, EStateM.run_get, he, store_run hstore,
        EStateM.run_modify, EStateM.run_pure]
    · have hback : leValue (leBytes 4 parent) = parent := leValue_leBytes_of_lt (by omega)
      have hinner : ParentChain (overwrite s.buffer s.messageCursor (leBytes 4 parent))
          (s.messageCursor + 4) (some s.messageCursor) := by
        refine .inner (by omega) (Nat.le_refl _) ?_
        rw [overwrite_at (by omega), List.take_left' (leBytes_length 4 parent), hback, ← he]
        exact h.frame (Nat.le_refl _) (overwrite_take (Nat.le_refl _) (by omega))
      exact hinner.frame (by omega) hb

/-- An element closes: the load and the store hit its own slot, and the parent is the open
element again. The bytes from `c` on stay. -/
theorem endElement_chain (endPtr : Nat) (h : ParentChain s.buffer c s.elementSizePtr)
    (hc : c ≤ s.buffer.length) (hopen : s.elementSizePtr ≠ none) :
    ∃ buffer e,
      (endElement 4 endPtr).run s = .ok () { s with buffer := buffer, elementSizePtr := e } ∧
      buffer.length = s.buffer.length ∧ ParentChain buffer c e ∧
      buffer.drop c = s.buffer.drop c := by
  generalize he : s.elementSizePtr = e at h hopen
  cases h with
  | ready => exact absurd rfl hopen
  | outermost written =>
    refine ⟨s.buffer, none, ?_, rfl, .ready, rfl⟩
    simp only [endElement, EStateM.run_bind, EStateM.run_get, he, EStateM.run_set]
  | @inner _ slot positive written parent =>
    have hload : slot + 4 ≤ s.buffer.length := by omega
    have hstore : slot + (beBytes 4 (endPtr - slot - 4)).length ≤ s.buffer.length := by
      rw [beBytes_length]
      exact hload
    obtain ⟨n, rfl⟩ : ∃ n, slot = n + 1 := ⟨slot - 1, by omega⟩
    refine ⟨overwrite s.buffer (n + 1) (beBytes 4 (endPtr - (n + 1) - 4)),
      some (leValue ((s.buffer.drop (n + 1)).take 4)), ?_, overwrite_length hstore,
      parent.frame (by omega) (overwrite_take (Nat.le_refl _) (by omega)),
      overwrite_drop (by rw [beBytes_length]; omega) hstore⟩
    simp only [endElement, EStateM.run_bind, EStateM.run_get, he, load_run hload, fromUInt32,
      store_run hstore, EStateM.run_modify]

/-! ## Sound streams -/

def argumentTags (args : List StreamArgument) : List UInt8 := args.map fun a => a.typeTag.byte

def argumentBytes (args : List StreamArgument) : List UInt8 := args.flatMap StreamArgument.bytes

/-- The pointers are in order and the open elements form a chain. While a message is open, `args`
are its arguments so far: their tags stand at the end of the buffer and their bytes behind the
cursor. -/
structure Sound (s : OutboundPacketStream) (args : List StreamArgument) : Prop where
  cursor_le : s.messageCursor ≤ s.argumentCurrent
  argument_le : s.argumentCurrent ≤ s.capacity
  typeTags_le : s.typeTagsCurrent ≤ s.buffer.length
  chain : ParentChain s.buffer s.messageCursor s.elementSizePtr
  message : s.messageIsInProgress = true → s.elementSizePtr ≠ none ∧
    InMessage s s.capacity s.elementSizePtr (s.buffer.take s.messageCursor)
      (argumentBytes args) (argumentTags args)

/-- The operation throws and does nothing, or it ends with a sound stream. -/
def KeepsSound (op : StreamM Unit) (s : OutboundPacketStream) (args : List StreamArgument) : Prop :=
  (∃ ex, op.run s = .error ex s ∧ ex ≠ .outsideBuffer ∧ ex ≠ .assertElementSizePtr) ∨
    ∃ s', op.run s = .ok () s' ∧ s'.buffer.length = s.buffer.length ∧ Sound s' args

theorem new_sound (buffer : List UInt8) : Sound (OutboundPacketStream.new buffer) [] where
  cursor_le := Nat.le_refl 0
  argument_le := Nat.zero_le _
  typeTags_le := Nat.le_refl _
  chain := .ready
  message := fun h => by cases h

variable {args : List StreamArgument}

/-- The size is the same sum for a message that is open and for one that has ended. -/
theorem Sound.size_open (h : Sound s args) (hopen : s.messageIsInProgress = true) :
    s.size = s.argumentCurrent + roundUp4 ((argumentTags args).length + 2) := by
  have htags := (h.message hopen).2.typeTags
  have hfits := (h.message hopen).2.fits
  have hcap := s.capacity_lt
  have hcount : s.typeTagsCount = (argumentTags args).length := by
    unfold OutboundPacketStream.typeTagsCount
    omega
  rw [← (h.message hopen).2.argument] at hfits
  rw [OutboundPacketStream.size, if_pos hopen, hcount, Nat.mod_eq_of_lt (by omega)]

theorem Sound.size_le (h : Sound s args) : s.size ≤ s.capacity := by
  by_cases hopen : s.messageIsInProgress = true
  · have hin := (h.message hopen).2
    rw [h.size_open hopen, hin.argument]
    exact hin.fits
  · rw [OutboundPacketStream.size, if_neg hopen]
    exact (Nat.mod_le _ _).trans h.argument_le

theorem Sound.argumentCurrent_le_size (h : Sound s args) : s.argumentCurrent ≤ s.size := by
  by_cases hopen : s.messageIsInProgress = true
  · rw [h.size_open hopen]
    omega
  · have hargument := h.argument_le
    have hcap := s.capacity_lt
    rw [OutboundPacketStream.size, if_neg hopen, Nat.mod_eq_of_lt (by omega)]

theorem slotSize_le (s : OutboundPacketStream) : s.slotSize ≤ 4 := by
  unfold OutboundPacketStream.slotSize
  split <;> omega

/-! ## The checks in front of an operation -/

theorem keepsSound_of_throw {op : StreamM Unit} (ex : OscException) (h : op.run s = .error ex s)
    (hout : ex ≠ .outsideBuffer) (hassert : ex ≠ .assertElementSizePtr) : KeepsSound op s args :=
  .inl ⟨ex, h, hout, hassert⟩

/-- A bundle or a message does not open inside a message. -/
theorem noMessage_sound {body : StreamM Unit}
    (hbody : s.messageIsInProgress = false → KeepsSound body s args) :
    KeepsSound (do
      if (← get).messageIsInProgress then throw .messageInProgress
      body) s args := by
  cases hopen : s.messageIsInProgress with
  | true =>
    apply keepsSound_of_throw .messageInProgress _ (by simp) (by simp)
    simp only [EStateM.run_bind, EStateM.run_get, hopen, if_true]
    rfl
  | false =>
    have hskip : (do
        if (← get).messageIsInProgress then throw .messageInProgress
        body : StreamM Unit).run s = body.run s := by
      simp only [EStateM.run_bind, EStateM.run_get, hopen, Bool.false_eq_true, if_false]
    unfold KeepsSound
    rw [hskip]
    exact hbody hopen

/-- A space check throws before anything is written. -/
theorem spaceCheck_sound {check body : StreamM Unit} {required : Nat}
    (hcheck : check.run s =
      if required > s.capacity then .error .outOfBufferMemory s else .ok () s)
    (hbody : required ≤ s.capacity →
      ∃ s', body.run s = .ok () s' ∧ s'.buffer.length = s.buffer.length ∧ Sound s' args) :
    KeepsSound (do check; body) s args := by
  by_cases hroom : required ≤ s.capacity
  · right
    rw [if_neg (by omega)] at hcheck
    rw [run_bind_ok hcheck]
    exact hbody hroom
  · rw [if_pos (by omega)] at hcheck
    exact keepsSound_of_throw _ (run_bind_error hcheck) (by simp) (by simp)

theorem bundleSpace_run (s : OutboundPacketStream) : checkForAvailableBundleSpace.run s =
    if (s.size + s.slotSize + 16) % 2 ^ 32 > s.capacity then .error .outOfBufferMemory s
    else .ok () s := by
  simp only [checkForAvailableBundleSpace, EStateM.run_bind, EStateM.run_get]
  split <;> rfl

theorem messageSpace_run (s : OutboundPacketStream) (addressPattern : List UInt8) :
    (checkForAvailableMessageSpace addressPattern).run s =
      if (s.size + s.slotSize) % 2 ^ 32 + roundUp4 ((cStr addressPattern).length + 1) + 4 >
        s.capacity then .error .outOfBufferMemory s else .ok () s := by
  simp only [checkForAvailableMessageSpace, EStateM.run_bind, EStateM.run_get]
  split <;> rfl

/-! ## What each operation keeps -/

theorem clear_sound (s : OutboundPacketStream) (args : List StreamArgument) :
    KeepsSound clear s args := by
  right
  refine ⟨_, EStateM.run_modify _ s, rfl, ?_⟩
  exact {
    cursor_le := Nat.le_refl 0
    argument_le := Nat.zero_le _
    typeTags_le := Nat.le_refl _
    chain := .ready
    message := fun h => by cases h }

/-- An element opens at the cursor, and its first bytes `xs` and `ys` are written where they fit. -/
theorem openElement_run (xs ys : List UInt8) (next : Nat → Nat) (k : Nat → StreamM Unit)
    (hnext : ∀ c, next c = c + xs.length) (hpos : 0 < (xs ++ ys).length)
    (hcap : s.capacity < 2 ^ 30) (h : Sound s args)
    (hroom : s.argumentCurrent + s.slotSize + (xs ++ ys).length ≤ s.capacity) :
    ∃ c buffer slot, c = s.messageCursor + s.slotSize ∧ (do
        let c ← beginElement 4 (← get).messageCursor
        store c xs
        store (next c) ys
        k c : StreamM Unit).run s =
          (k c).run { s with buffer := buffer, elementSizePtr := some slot } ∧
      buffer.length = s.buffer.length ∧ c + (xs ++ ys).length ≤ s.capacity ∧
      ParentChain buffer (c + (xs ++ ys).length) (some slot) := by
  have hcursor := h.cursor_le
  obtain ⟨buffer, slot, hbegin, hlen, hchain⟩ := beginElement_chain hcap h.chain (by omega)
  obtain ⟨c, hc⟩ : ∃ c, c = s.messageCursor + s.slotSize := ⟨_, rfl⟩
  rw [← hc] at hbegin hchain
  have hfits : c + (xs ++ ys).length ≤ buffer.length := by
    have hcapacity := s.capacity_le
    omega
  refine ⟨c, overwrite buffer c (xs ++ ys), slot, hc, ?_, (overwrite_length hfits).trans hlen,
    by omega, hchain _ _ (by omega) (overwrite_take (Nat.le_refl _) (by omega))⟩
  rw [run_bind_ok (EStateM.run_get s), run_bind_ok hbegin, hnext,
    store_store _ (by rwa [List.length_append, ← Nat.add_assoc] at hfits),
    run_bind_ok (store_run hfits)]

theorem bundleInitiator_sound (timeTag : Nat) (hcap : s.capacity < 2 ^ 30) (h : Sound s args) :
    KeepsSound (bundleInitiator 4 timeTag) s args := by
  apply noMessage_sound
  intro hidle
  apply spaceCheck_sound (bundleSpace_run s)
  intro hroom
  have hsize := h.argumentCurrent_le_size
  have hsize_le := h.size_le
  have hslot := slotSize_le s
  have hlength : (bundlePattern ++ beBytes 8 timeTag).length = 16 := by
    rw [List.length_append, beBytes_length]
    rfl
  obtain ⟨c, buffer, slot, -, hrun, hlen, hfits, hchain⟩ := openElement_run bundlePattern
    (beBytes 8 timeTag) (fun c => c + 8)
    (fun c => modify fun s => { s with messageCursor := c + 16, argumentCurrent := c + 16 })
    (fun _ => rfl) (by omega) hcap h (by omega)
  rw [hlength] at hfits hchain
  refine ⟨_, hrun, hlen, ?_⟩
  exact {
    cursor_le := Nat.le_refl _
    argument_le := Nat.le_trans hfits (OutboundPacketStream.capacity_congr hlen).ge
    typeTags_le := Nat.le_trans h.typeTags_le hlen.ge
    chain := hchain
    message := fun hopen => by simp [hidle] at hopen }

theorem beginMessage_sound (addressPattern : List UInt8) (hcap : s.capacity < 2 ^ 30)
    (h : Sound s args) : KeepsSound (beginMessage 4 addressPattern) s [] := by
  apply noMessage_sound
  intro hidle
  apply spaceCheck_sound (messageSpace_run s addressPattern)
  intro hroom
  have hsize := h.argumentCurrent_le_size
  have hsize_le := h.size_le
  have hslot := slotSize_le s
  have hround := le_roundUp4 ((cStr addressPattern).length + 1)
  have hlength :
      ((cStr addressPattern ++ [0]) ++ zeroPad ((cStr addressPattern).length + 1)).length =
        roundUp4 ((cStr addressPattern).length + 1) := by
    simp only [List.length_append, List.length_singleton, zeroPad_length]
    omega
  obtain ⟨c, buffer, slot, hc, hrun, hlen, hfits, hchain⟩ := openElement_run
    (cStr addressPattern ++ [0])
    (zeroPad ((cStr addressPattern).length + 1)) (fun c => c + (cStr addressPattern).length + 1)
    (fun c => modify fun s =>
      { s with
        messageCursor := c + roundUp4 ((cStr addressPattern).length + 1)
        argumentCurrent := c + roundUp4 ((cStr addressPattern).length + 1)
        typeTagsCurrent := s.buffer.length
        messageIsInProgress := true })
    (fun c => by rw [List.length_append, List.length_singleton, Nat.add_assoc]) (by omega) hcap h
    (by omega)
  rw [hlength] at hfits hchain
  have hcursor := h.cursor_le
  have hcapacity := s.capacity_le
  have htake : (buffer.take (c + roundUp4 ((cStr addressPattern).length + 1))).length =
      c + roundUp4 ((cStr addressPattern).length + 1) := by
    rw [List.length_take]
    omega
  refine ⟨_, hrun, hlen, ?_⟩
  exact {
    cursor_le := Nat.le_refl _
    argument_le := Nat.le_trans hfits (OutboundPacketStream.capacity_congr hlen).ge
    typeTags_le := Nat.le_refl _
    chain := hchain
    message := fun _ => ⟨by simp, {
      written := ⟨buffer.drop (c + roundUp4 ((cStr addressPattern).length + 1)), by
        simp [argumentBytes, argumentTags]⟩
      capacity := rfl
      cursor := htake.symm
      argument := htake.symm
      typeTags := rfl
      slot := rfl
      inProgress := rfl
      fits := by
        rw [htake]
        have hfour : roundUp4 ((argumentTags []).length + 2) = 4 := rfl
        have hsame : buffer.length % 2 ^ 32 = s.capacity := congrArg (· % 2 ^ 32) hlen
        simp only [argumentBytes, List.flatMap_nil, List.length_nil, hfour,
          OutboundPacketStream.capacity, hsame]
        omega }⟩ }

theorem bundleTerminator_sound (h : Sound s args) : KeepsSound (bundleTerminator 4) s args := by
  unfold bundleTerminator
  cases he : s.elementSizePtr with
  | none =>
    apply keepsSound_of_throw .bundleNotInProgress _ (by simp) (by simp)
    simp only [EStateM.run_bind, EStateM.run_get, OutboundPacketStream.isBundleInProgress, he,
      Option.isSome_none, Bool.not_false, if_true]
    rfl
  | some slot =>
    cases hopen : s.messageIsInProgress with
    | true =>
      apply keepsSound_of_throw .messageInProgress _ (by simp) (by simp)
      simp only [EStateM.run_bind, EStateM.run_get, OutboundPacketStream.isBundleInProgress, he,
        Option.isSome_some, Bool.not_true, Bool.false_eq_true, if_false, hopen, if_true]
      rfl
    | false =>
      right
      have hcursor := h.cursor_le
      have hargument := h.argument_le
      have hcapacity := s.capacity_le
      obtain ⟨buffer, e, hend, hlen, hchain, -⟩ :=
        endElement_chain s.messageCursor h.chain (by omega) (by simp [he])
      refine ⟨{ s with buffer := buffer, elementSizePtr := e }, ?_, hlen, ?_⟩
      · simp only [EStateM.run_bind, EStateM.run_get, OutboundPacketStream.isBundleInProgress, he,
          Option.isSome_some, Bool.not_true, Bool.false_eq_true, if_false, hopen]
        simpa only [hopen] using hend
      · exact {
          cursor_le := hcursor
          argument_le := Nat.le_trans hargument (OutboundPacketStream.capacity_congr hlen).ge
          typeTags_le := Nat.le_trans h.typeTags_le hlen.ge
          chain := hchain
          message := fun hm => by simp [hopen] at hm }

theorem withArgument_length (t : TypeTag) (bs : List UInt8) (hpos : 0 < s.typeTagsCurrent)
    (hle : s.typeTagsCurrent ≤ s.buffer.length)
    (hroom : s.argumentCurrent + bs.length ≤ s.buffer.length) :
    (s.withArgument t bs).buffer.length = s.buffer.length := by
  have hlen := overwrite_length (typeTag_fits t hpos hle)
  exact (overwrite_length (Nat.le_trans hroom hlen.ge)).trans hlen

/-- The bytes below the cursor are those of the elements that ended before. -/
theorem withArgument_take (t : TypeTag) (bs : List UInt8) (hpos : 0 < s.typeTagsCurrent)
    (hle : s.typeTagsCurrent ≤ s.buffer.length)
    (hroom : s.argumentCurrent + bs.length ≤ s.buffer.length)
    (hcursor : s.messageCursor ≤ s.argumentCurrent) (hbelow : s.messageCursor < s.typeTagsCurrent) :
    (s.withArgument t bs).buffer.take s.messageCursor = s.buffer.take s.messageCursor := by
  have hlen := overwrite_length (typeTag_fits t hpos hle)
  calc (s.withArgument t bs).buffer.take s.messageCursor
      = (overwrite s.buffer (s.typeTagsCurrent - 1) [t.byte]).take s.messageCursor :=
        overwrite_take hcursor (by omega)
    _ = s.buffer.take s.messageCursor := overwrite_take (by omega) (by omega)

theorem InMessage.withArgument {cap : Nat} {e : Option Nat} {W A tags : List UInt8}
    (h : InMessage s cap e W A tags) (t : TypeTag) (bs : List UInt8)
    (hroom : W.length + A.length + bs.length + roundUp4 (tags.length + 3) ≤ cap) :
    InMessage (s.withArgument t bs) cap e W (A ++ bs) (tags ++ [t.byte]) := by
  have hround := le_roundUp4 (tags.length + 3)
  have htc := h.typeTags
  have hcap := s.capacity_le
  rw [h.capacity] at hcap
  have hac := h.argument
  obtain ⟨s₁, hr₁, h₁⟩ := pushTypeTag_run t h (by omega)
  rw [pushTypeTag_ok t (by omega) (by omega)] at hr₁
  obtain ⟨s₂, hr₂, h₂⟩ := pushArgument_run bs h₁ (by simpa using hroom)
  cases hr₁
  have hlen := overwrite_length (typeTag_fits (s := s) t (by omega) (by omega))
  rw [pushArgument_ok (by
    simp only [hlen]
    omega)] at hr₂
  cases hr₂
  exact h₂

theorem argument_sound (rhs : StreamArgument) (h : Sound s args) :
    KeepsSound rhs.stream s (args ++ [rhs]) := by
  have hrun := rhs.stream_run h.typeTags_le
  have hcursor := h.cursor_le
  have htypeTags := h.typeTags_le
  have hcount : s.typeTagsCount = s.buffer.length - s.typeTagsCurrent := rfl
  have hcapacity_le := s.capacity_le
  have hround := le_roundUp4 (s.typeTagsCount + 3)
  by_cases hroom :
      s.argumentCurrent + rhs.bytes.length + roundUp4 (s.typeTagsCount + 3) ≤ s.capacity
  · rw [if_pos hroom] at hrun
    have hlen := withArgument_length (s := s) rhs.typeTag rhs.bytes (by omega) htypeTags
      (by omega)
    have hcapacity := OutboundPacketStream.capacity_congr hlen
    have htake := withArgument_take (s := s) rhs.typeTag rhs.bytes (by omega) htypeTags (by omega)
      hcursor (by omega)
    refine .inr ⟨_, hrun, hlen, ?_⟩
    exact {
      cursor_le := Nat.le_add_right_of_le hcursor
      argument_le := by
        rw [hcapacity]
        change s.argumentCurrent + rhs.bytes.length ≤ _
        omega
      typeTags_le := by
        rw [hlen]
        change s.typeTagsCurrent - 1 ≤ _
        omega
      chain := h.chain.frame (Nat.le_refl _) htake
      message := fun hopen => by
        obtain ⟨helement, hin⟩ := h.message hopen
        refine ⟨helement, ?_⟩
        have htags := hin.typeTags
        rw [hcapacity]
        change InMessage _ _ s.elementSizePtr (List.take s.messageCursor _) _ _
        rw [htake]
        have hnext := hin.withArgument rhs.typeTag rhs.bytes (by
          rw [← hin.argument, show (argumentTags args).length = s.typeTagsCount by omega]
          exact hroom)
        simpa [argumentBytes, argumentTags] using hnext }
  · rw [if_neg hroom] at hrun
    exact keepsSound_of_throw _ hrun (by simp) (by simp)

/-- `EndMessage` of an open message: the type tags and the arguments stand behind the address,
and the size stays. -/
theorem messageTerminator_open (h : Sound s args) (hopen : s.messageIsInProgress = true)
    (args' : List StreamArgument) :
    ∃ s', (messageTerminator 4).run s = .ok () s' ∧ s'.buffer.length = s.buffer.length ∧
      Sound s' args' ∧ s'.size = s.size ∧
      (s'.buffer.drop s.messageCursor).take (s'.messageCursor - s.messageCursor) =
        encTypeTags (argumentTags args) ++ argumentBytes args := by
  obtain ⟨helement, hin⟩ := h.message hopen
  have hsize := h.size_open hopen
  have hsize_le := h.size_le
  have hcapacity := s.capacity_lt
  have hcursor := hin.cursor
  have hargument := hin.argument
  have hnone : argumentTags args = [] → argumentBytes args = [] := by
    intro htags
    simp [argumentBytes, List.map_eq_nil_iff.mp htags]
  have hlength : (s.buffer.take s.messageCursor).length = s.messageCursor := hcursor.symm
  obtain ⟨R, tc, hR, htc, hrun⟩ := messageTerminator_writes 4 hin hnone
  generalize htags : encTypeTags (argumentTags args) = T at hR hrun
  have hT : T.length = roundUp4 ((argumentTags args).length + 2) := by
    rw [← htags, encTypeTags_length]
  generalize hA : argumentBytes args = A at hR hrun hargument
  generalize hX : s.buffer.take s.messageCursor = X at hR hrun hlength hargument
  have hfits : X.length ≤ (X ++ T ++ A ++ R).length := by
    simp only [List.length_append]
    omega
  have hc : (X ++ T ++ A).length = s.messageCursor + T.length + A.length := by
    simp only [List.length_append]
    omega
  generalize hspan : (X ++ T ++ A).length = c at hR hrun hc
  -- the slots stand before the message, so closing its element leaves its contents alone
  obtain ⟨buffer, e, hend, hlen, hchain, hdrop⟩ := endElement_chain
    (s := ⟨X ++ T ++ A ++ R, tc, c, c, s.elementSizePtr, true⟩)
    c (h.chain.frame (Nat.le_refl _) (by
      rw [hX, ← hlength, List.append_assoc, List.append_assoc, List.take_left]))
    (by rw [← hlength]; exact hfits) helement
  have hsame : buffer.length = s.buffer.length := by
    rw [hlen, List.length_append, hspan]
    exact hR
  have hc_size : c = s.size := by omega
  refine ⟨⟨buffer, tc, c, c, e, false⟩,
    hrun.trans (by rw [run_bind_ok hend, EStateM.run_modify]), hsame, ?_, ?_, ?_⟩
  · exact {
      cursor_le := Nat.le_refl c
      argument_le := by
        rw [OutboundPacketStream.capacity_congr (s := s) hsame]
        exact hc_size.trans_le hsize_le
      typeTags_le := Nat.le_trans htc hsame.ge
      chain := hchain.frame (by simp only [hc]; omega) rfl
      message := fun hm => by cases hm }
  · rw [OutboundPacketStream.size, if_neg (by simp)]
    change c % 2 ^ 32 = _
    omega
  · change (buffer.drop s.messageCursor).take (c - s.messageCursor) = T ++ A
    have hcontents : buffer.drop s.messageCursor = T ++ A ++ R := by
      rw [hdrop, ← hlength]
      simp only [List.append_assoc, List.drop_left]
    have hlast : c - s.messageCursor = (T ++ A).length := by
      rw [List.length_append]
      omega
    rw [hcontents, hlast, List.take_left]

theorem messageTerminator_sound (h : Sound s args) : KeepsSound (messageTerminator 4) s args := by
  cases hopen : s.messageIsInProgress with
  | true =>
    obtain ⟨s', hrun, hcap, hsound, -, -⟩ := messageTerminator_open h hopen args
    exact .inr ⟨s', hrun, hcap, hsound⟩
  | false =>
    apply keepsSound_of_throw .messageNotInProgress _ (by simp) (by simp)
    simp only [messageTerminator, EStateM.run_bind, EStateM.run_get, hopen, Bool.not_false, if_true]
    rfl

/-! ## Runs -/

/-- The arguments of the open message after an operation that ended normally. -/
def StreamOperation.argumentsAfter (args : List StreamArgument) :
    StreamOperation → List StreamArgument
  | .beginMessage _ => []
  | .argument rhs => args ++ [rhs]
  | _ => args

/-- One operation of a run. The caller catches what it throws and goes on. -/
def OutboundPacketStream.step (w : Nat) (s : OutboundPacketStream) (op : StreamOperation) :
    OutboundPacketStream :=
  match (op.perform w).run s with
  | .ok _ s' => s'
  | .error _ s' => s'

/-- The monitor of a run that remembers the arguments of the open message. -/
def seeArguments (w : Nat) (args : List StreamArgument) (s : OutboundPacketStream)
    (op : StreamOperation) (_ : OutboundPacketStream) : List StreamArgument :=
  match (op.perform w).run s with
  | .ok _ _ => op.argumentsAfter args
  | .error _ _ => args

/-- The stream over `buffer` after the operations `ops`, with the arguments of its open message. -/
def streamAfter (w : Nat) (buffer : List UInt8) (ops : List StreamOperation) :
    OutboundPacketStream × List StreamArgument :=
  runs.run (runs.monitored (OutboundPacketStream.step w) (seeArguments w))
    (OutboundPacketStream.new buffer, []) ops

theorem perform_sound (op : StreamOperation) (hcap : s.capacity < 2 ^ 30) (h : Sound s args) :
    KeepsSound (op.perform 4) s (op.argumentsAfter args) := by
  cases op with
  | clear => exact clear_sound s args
  | bundleInitiator timeTag => exact bundleInitiator_sound timeTag.toNat hcap h
  | bundleTerminator => exact bundleTerminator_sound h
  | beginMessage addressPattern => exact beginMessage_sound addressPattern hcap h
  | messageTerminator => exact messageTerminator_sound h
  | argument rhs => exact argument_sound rhs h

theorem streamAfter_sound (buffer : List UInt8) (hcap : buffer.length < 2 ^ 30)
    (ops : List StreamOperation) :
    (streamAfter 4 buffer ops).1.buffer.length = buffer.length ∧
      Sound (streamAfter 4 buffer ops).1 (streamAfter 4 buffer ops).2 := by
  apply runs.run_inv (I := fun r : OutboundPacketStream × List StreamArgument =>
    r.1.buffer.length = buffer.length ∧ Sound r.1 r.2) _ ⟨rfl, new_sound buffer⟩
  rintro ⟨s, args⟩ op ⟨hlen, h⟩
  simp only [runs.monitored, OutboundPacketStream.step, seeArguments]
  have hsmall : s.capacity < 2 ^ 30 := s.capacity_le.trans_lt (hlen.trans_lt hcap)
  rcases perform_sound op hsmall h with ⟨ex, hrun, -, -⟩ | ⟨s', hrun, hsame, hsound⟩
  · rw [hrun]
    exact ⟨hlen, h⟩
  · rw [hrun]
    exact ⟨hsame.trans hlen, hsound⟩

/-! ## The law -/

/-- What a stream promises between two operations, when `args` are the arguments of its open
message. -/
structure Intact (s : OutboundPacketStream) (args : List StreamArgument) : Prop where
  cursor_le : s.messageCursor ≤ s.argumentCurrent
  argument_le : s.argumentCurrent ≤ s.capacity
  size_le : s.size ≤ s.capacity
  chain : ParentChain s.buffer s.messageCursor s.elementSizePtr
  /-- The type tags of the open message stand at the end of the buffer, the last one first. -/
  typeTags : s.messageIsInProgress = true →
    s.buffer.drop s.typeTagsCurrent = (argumentTags args).reverse
  /-- No operation reads or writes outside the buffer, or fails its assertion. An operation that
  throws changes nothing. -/
  throws : ∀ (op : StreamOperation) (ex : OscException) (s' : OutboundPacketStream),
    (op.perform 4).run s = .error ex s' →
      s' = s ∧ ex ≠ .outsideBuffer ∧ ex ≠ .assertElementSizePtr
  /-- `EndMessage` keeps the size, and puts all the type tags and all the arguments of the message
  behind its address. -/
  endMessage : ∀ s' : OutboundPacketStream, (messageTerminator 4).run s = .ok () s' →
    s'.size = s.size ∧
      (s'.buffer.drop s.messageCursor).take (s'.messageCursor - s.messageCursor) =
        encTypeTags (argumentTags args) ++ argumentBytes args

/-- A stream with less than 2^30 bytes is intact after any operations in any order. -/
theorem a_stream_stays_intact (buffer : List UInt8) (hcap : buffer.length < 2 ^ 30)
    (ops : List StreamOperation) :
    (streamAfter 4 buffer ops).1.capacity = buffer.length ∧
      Intact (streamAfter 4 buffer ops).1 (streamAfter 4 buffer ops).2 := by
  obtain ⟨hlen, h⟩ := streamAfter_sound buffer hcap ops
  generalize streamAfter 4 buffer ops = r at hlen h
  obtain ⟨s, args⟩ := r
  have hcapacity : s.capacity = buffer.length :=
    (OutboundPacketStream.capacity_eq (by simp only at hlen; omega)).trans hlen
  refine ⟨hcapacity, ?_⟩
  exact {
    cursor_le := h.cursor_le
    argument_le := h.argument_le
    size_le := h.size_le
    chain := h.chain
    typeTags := by
      intro hopen
      have hin := (h.message hopen).2
      obtain ⟨G, hG⟩ := hin.written
      have hlength := congrArg List.length hG
      have htags : s.typeTagsCurrent + (argumentTags args).length = s.buffer.length := hin.typeTags
      simp only [List.length_append, List.length_reverse] at hlength
      rw [hG, List.drop_left' (by simp only [List.length_append]; omega)]
    throws := by
      intro op ex s' hrun
      rcases perform_sound op (hcapacity ▸ hcap) h with
        ⟨ex', hrun', hout, hassert⟩ | ⟨_, hrun', -, -⟩
      · rw [hrun'] at hrun
        cases hrun
        exact ⟨rfl, hout, hassert⟩
      · rw [hrun'] at hrun
        cases hrun
    endMessage := by
      intro s' hrun
      cases hopen : s.messageIsInProgress with
      | true =>
        obtain ⟨s₁, hrun₁, -, -, hsize, hcontents⟩ := messageTerminator_open h hopen args
        rw [hrun₁] at hrun
        cases hrun
        exact ⟨hsize, hcontents⟩
      | false =>
        simp only [messageTerminator, EStateM.run_bind, EStateM.run_get, hopen, Bool.not_false,
          if_true] at hrun
        cases hrun }

/-- A bundle, a stray argument, an end without a message, and then a message whose second
argument does not fit. -/
theorem a_stream_stays_intact_full :
    let ops := [.bundleInitiator 1, .argument .nil, .messageTerminator, .beginMessage [47],
      .argument (.int32 7), .argument (.blob [1, 2, 3])]
    (streamAfter 4 (List.replicate 38 1) ops).2 = [.int32 7] ∧
      Intact (streamAfter 4 (List.replicate 38 1) ops).1
        (streamAfter 4 (List.replicate 38 1) ops).2 :=
  ⟨by decide +kernel, (a_stream_stays_intact (List.replicate 38 1) (by simp) _).2⟩

end esc_platform.osc
