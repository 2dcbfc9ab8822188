-- The packet stream carries out the draft. Whatever the operations are and
-- whichever of them throw, the buffer holds the bytes of the draft, the size
-- slots of the open bundles included, and every operation throws exactly
-- what the draft says.
import EscPlatform.Osc.Drafts

namespace esc_platform.osc

open bytes checked bracketed simulation

variable {s : OutboundPacketStream} {d : Draft} {cap : Nat} {e : Option Nat}
variable {W A : List UInt8} {n : Nat}

/-! ## The bytes of a draft -/

/-- Closed elements in a row, inside the element with the slot `e`. -/
def levelBytes (e : Option Nat) (es : List PacketElement) : List UInt8 :=
  es.flatMap fun x => closed e (encodeElement x)

/-- The bytes up to the elements of the innermost open bundle, and the slot of that bundle. -/
def openBytes : List (UInt64 × List PacketElement) → List UInt8 × Option Nat
  | [] => ([], none)
  | (timeTag, before) :: outer =>
    let e := (openBytes outer).2
    let W := (openBytes outer).1 ++ levelBytes e before
    (W ++ slotBytes e ++ (bundlePattern ++ beBytes 8 timeTag.toNat), some (slotOf e W))

def Draft.innerSlot (d : Draft) : Option Nat := (openBytes d.elements.outer).2

/-- The bytes in front of the open message. -/
def Draft.written (d : Draft) : List UInt8 :=
  (openBytes d.elements.outer).1 ++ levelBytes d.innerSlot d.elements.trees

theorem levelBytes_append (e : Option Nat) (xs ys : List PacketElement) :
    levelBytes e (xs ++ ys) = levelBytes e xs ++ levelBytes e ys := List.flatMap_append

theorem levelBytes_singleton (e : Option Nat) (x : PacketElement) :
    levelBytes e [x] = closed e (encodeElement x) := by
  simp [levelBytes]

theorem encodeElements_eq (slot : Nat) (es : List PacketElement) :
    encodeElements es = levelBytes (some slot) es := by
  induction es with
  | nil => rfl
  | cons e es ih =>
    unfold encodeElements
    rw [ih]
    rfl

theorem encodePackets_eq (es : List PacketElement) : encodePackets es = levelBytes none es := rfl

theorem slotBytes_openBytes (outer : List (UInt64 × List PacketElement)) :
    (slotBytes (openBytes outer).2).length = Draft.sizeSlot outer := by
  cases outer with
  | nil => rfl
  | cons frame outer =>
    obtain ⟨timeTag, before⟩ := frame
    simp [openBytes, slotBytes, Draft.sizeSlot]

theorem slotBytes_innerSlot (d : Draft) : (slotBytes d.innerSlot).length = d.slot :=
  slotBytes_openBytes d.elements.outer

theorem levelBytes_length (outer : List (UInt64 × List PacketElement)) (es : List PacketElement) :
    (levelBytes (openBytes outer).2 es).length = Draft.levelSize outer es := by
  induction es with
  | nil => rfl
  | cons x es ih =>
    have hx := closed_length (openBytes outer).2 (encodeElement x)
    have hslot := slotBytes_openBytes outer
    unfold levelBytes Draft.levelSize at ih ⊢
    rw [List.flatMap_cons, List.length_append, List.map_cons, List.sum_cons, ih, hx, hslot]

theorem openBytes_length (outer : List (UInt64 × List PacketElement)) :
    (openBytes outer).1.length = Draft.openSize outer := by
  have hpattern : bundlePattern.length = 8 := rfl
  induction outer with
  | nil => rfl
  | cons frame outer ih =>
    obtain ⟨timeTag, before⟩ := frame
    have hlevel := levelBytes_length outer before
    have hslot := slotBytes_openBytes outer
    simp only [openBytes, Draft.openSize, List.length_append, hpattern, beBytes_length]
    omega

theorem written_length (d : Draft) : d.written.length = d.cursor := by
  unfold Draft.written Draft.cursor
  rw [List.length_append, openBytes_length]
  congr 1
  exact levelBytes_length _ _

/-- The slot of the innermost open bundle stands inside the written bytes. -/
theorem openBytes_slot_lt (outer : List (UInt64 × List PacketElement)) :
    ∀ p, (openBytes outer).2 = some p → p < (openBytes outer).1.length := by
  induction outer with
  | nil =>
    intro p hp
    cases hp
  | cons frame outer ih =>
    obtain ⟨timeTag, before⟩ := frame
    apply slotOf_lt
    · intro p hp
      have := ih p hp
      rw [List.length_append]
      omega
    · simp [bundlePattern]

theorem innerSlot_lt (d : Draft) : ∀ p, d.innerSlot = some p → p < d.written.length := by
  intro p hp
  have := openBytes_slot_lt d.elements.outer p hp
  unfold Draft.written
  rw [List.length_append]
  omega

theorem innerSlot_eq_none (d : Draft) : d.innerSlot = none ↔ d.elements.outer = [] := by
  unfold Draft.innerSlot
  cases h : d.elements.outer with
  | nil => simp [openBytes]
  | cons frame outer => simp [openBytes]

/-! ## A stream with no open message -/

/-- No message is open: behind the written bytes `W` stand the argument bytes `A`, which no
message has, and the buffer ends with `n` type tags of that kind. -/
structure Idling (s : OutboundPacketStream) (cap : Nat) (e : Option Nat) (W A : List UInt8)
    (n : Nat) : Prop where
  written : ∃ R, s.buffer = W ++ A ++ R
  capacity : s.capacity = cap
  fits : W.length + A.length ≤ cap
  cursor : s.messageCursor = W.length
  argument : s.argumentCurrent = W.length + A.length
  typeTags : s.typeTagsCurrent + n = s.buffer.length
  slot : s.elementSizePtr = e
  idle : s.messageIsInProgress = false

theorem Idling.eq (h : Idling s cap e W A n) : ∃ R tc,
    s = ⟨W ++ A ++ R, tc, W.length, W.length + A.length, e, false⟩ ∧
      tc + n = W.length + A.length + R.length ∧
      (W.length + A.length + R.length) % 2 ^ 32 = cap := by
  obtain ⟨⟨R, hR⟩, hcap, -, hc, ha, ht, hs, hi⟩ := h
  obtain ⟨buffer, tc, mc, ac, slot, open_⟩ := s
  simp only at hR hc ha ht hs hi
  subst hR hc ha hs hi
  simp only [OutboundPacketStream.capacity, List.length_append] at hcap ht
  exact ⟨R, tc, rfl, ht, hcap⟩

theorem Idling.of_eq {buffer R : List UInt8} {tc mc ac : Nat} (hbuffer : buffer = W ++ A ++ R)
    (hmc : mc = W.length) (hac : ac = W.length + A.length)
    (htc : tc + n = W.length + A.length + R.length)
    (hcap : (W.length + A.length + R.length) % 2 ^ 32 = cap)
    (hfits : W.length + A.length ≤ cap) :
    Idling ⟨buffer, tc, mc, ac, e, false⟩ cap e W A n where
  written := ⟨R, hbuffer⟩
  capacity := by
    simp only [OutboundPacketStream.capacity, hbuffer, List.length_append]
    omega
  fits := hfits
  cursor := hmc
  argument := hac
  typeTags := by
    simp only [hbuffer, List.length_append]
    omega
  slot := rfl
  idle := rfl

theorem Idling.cap_lt (h : Idling s cap e W A n) : cap < 2 ^ 32 := h.capacity ▸ s.capacity_lt

theorem Idling.size (h : Idling s cap e W A n) : s.size = W.length + A.length := by
  have hfits := h.fits
  have hcap := h.cap_lt
  rw [OutboundPacketStream.size, if_neg (by simp [h.idle]), h.argument]
  exact Nat.mod_eq_of_lt (by omega)

theorem Idling.typeTagsCount (h : Idling s cap e W A n) : s.typeTagsCount = n := by
  have htags := h.typeTags
  unfold OutboundPacketStream.typeTagsCount
  omega

theorem new_idling (buffer : List UInt8) :
    Idling (OutboundPacketStream.new buffer) (OutboundPacketStream.new buffer).capacity none
      [] [] 0 :=
  .of_eq rfl rfl rfl (by simp) (by
    simp [OutboundPacketStream.new, OutboundPacketStream.capacity]) (Nat.zero_le _)

theorem clear_idling (hcap : s.capacity = cap) : ∃ s', clear.run s = .ok () s' ∧
    Idling s' cap none [] [] 0 :=
  ⟨_, EStateM.run_modify _ s, .of_eq rfl rfl rfl (by simp) (by
    simpa [OutboundPacketStream.capacity] using hcap) (Nat.zero_le _)⟩

/-! ## Bundles -/

/-- Where a bundle fits, it opens behind the written bytes. The stray arguments are overwritten,
their type tags stay. -/
theorem bundleInitiator_idling (timeTag : Nat) (h : Idling s cap e W A n)
    (hroom : W.length + A.length + (slotBytes e).length + 16 ≤ cap) :
    ∃ s', (bundleInitiator 4 timeTag).run s = .ok () s' ∧
      Idling s' cap (some (slotOf e W)) (W ++ slotBytes e ++ (bundlePattern ++ beBytes 8 timeTag))
        [] n := by
  have hcheck := bundleSpace_run s
  rw [h.size, slotSize_eq, h.slot, h.capacity, if_neg (by omega)] at hcheck
  obtain ⟨R, tc, rfl, htc, hR⟩ := h.eq
  have hp : bundlePattern.length = 8 := rfl
  unfold bundleInitiator
  rw [run_bind_ok (EStateM.run_get _), if_neg (by simp), run_bind_ok hcheck,
    run_bind_ok (EStateM.run_get _)]
  simp only [List.append_assoc W A R]
  rw [run_bind_ok (beginElement_run rfl (by rw [List.length_append]; omega)),
    run_bind_ok (store_after rfl (by simp [hp]; omega)), fromUInt64,
    run_bind_ok (store_after (by simp [hp]; omega) (by simp [hp]; omega)), EStateM.run_modify]
  refine ⟨_, rfl, .of_eq
    (R := (((A ++ R).drop (slotBytes e).length).drop bundlePattern.length).drop
      (beBytes 8 timeTag).length) ?_ (by simp [hp]; omega) (by simp [hp]; omega) ?_ ?_ ?_⟩
  · rw [List.append_nil, List.append_assoc (W ++ slotBytes e)]
  · simp [hp]
    omega
  · rw [← hR]
    congr 1
    simp [hp]
    omega
  · simp [hp]
    omega

/-- The innermost bundle closes behind its elements `contents`. -/
theorem bundleTerminator_idling {contents : List UInt8}
    (hlt : ∀ p, e = some p → p < W.length)
    (h : Idling s cap (some (slotOf e W)) (W ++ slotBytes e ++ contents) A n) :
    ∃ s', (bundleTerminator 4).run s = .ok () s' ∧
      Idling s' cap e (W ++ closed e contents) A n := by
  have hcap := h.cap_lt
  have hfits := h.fits
  obtain ⟨R, tc, rfl, htc, hR⟩ := h.eq
  have hlen := closed_length e contents
  simp only [List.length_append] at hR hfits htc
  unfold bundleTerminator
  rw [run_bind_ok (EStateM.run_get _)]
  simp only [OutboundPacketStream.isBundleInProgress, Option.isSome_some, Bool.not_true,
    Bool.false_eq_true, if_false]
  rw [List.append_assoc _ A R, endElement_run hlt rfl (by omega)]
  refine ⟨_, rfl, .of_eq (List.append_assoc _ A R).symm ?_ ?_ ?_ ?_ ?_⟩ <;>
    simp only [List.length_append, hlen] <;> omega

/-! ## Messages -/

/-- Where the address and an empty type tag string fit, a message opens. -/
theorem beginMessage_idling (addressPattern : List UInt8) (h : Idling s cap e W A n)
    (hroom : W.length + A.length + (slotBytes e).length + (encString addressPattern).length + 4 ≤
      cap) :
    ∃ s', (beginMessage 4 addressPattern).run s = .ok () s' ∧
      InMessage s' cap (some (slotOf e W)) (W ++ slotBytes e ++ encString addressPattern)
        [] [] := by
  have hcheck := messageSpace_run s addressPattern
  rw [h.size, slotSize_eq, h.slot, h.capacity, ← encString_length, if_neg (by omega)] at hcheck
  obtain ⟨R, tc, rfl, htc, hR⟩ := h.eq
  unfold beginMessage
  rw [run_bind_ok (EStateM.run_get _), if_neg (by simp), run_bind_ok hcheck,
    run_bind_ok (EStateM.run_get _)]
  simp only [List.append_assoc W A R]
  rw [run_bind_ok (beginElement_run rfl (by rw [List.length_append]; omega))]
  apply writeAddress_run addressPattern rfl
  · simp only [List.length_append, List.length_drop]
    omega
  · simp only [List.length_append]
    omega

section type_tags

variable {s s' : OutboundPacketStream}

/-- What an operation on the buffer leaves: the type tag pointer and the length. -/
def KeepsTypeTags {α : Type} (op : StreamM α) : Prop :=
  ∀ s s' a, op.run s = .ok a s' →
    s'.typeTagsCurrent = s.typeTagsCurrent ∧ s'.buffer.length = s.buffer.length

theorem store_keepsTypeTags (p : Nat) (bs : List UInt8) : KeepsTypeTags (store p bs) := by
  intro s s' a h
  by_cases hroom : p + bs.length ≤ s.buffer.length
  · rw [store_run hroom] at h
    cases h
    exact ⟨rfl, overwrite_length hroom⟩
  · simp [store, EStateM.run_bind, hroom, EStateM.run_throw] at h

theorem load_keepsTypeTags (p n : Nat) : KeepsTypeTags (load p n) := by
  intro s s' a h
  by_cases hroom : p + n ≤ s.buffer.length
  · rw [load_run hroom] at h
    cases h
    exact ⟨rfl, rfl⟩
  · simp [load, EStateM.run_bind, hroom] at h
    cases h

theorem keepsTypeTags_bind {α β : Type} {x : StreamM α} {f : α → StreamM β}
    (hx : KeepsTypeTags x) (hf : ∀ a, KeepsTypeTags (f a)) : KeepsTypeTags (x >>= f) := by
  intro s s' b h
  obtain ⟨a, s₁, h₁, h₂⟩ := run_bind_inv h
  obtain ⟨htags, hcap⟩ := hx s s₁ a h₁
  obtain ⟨htags', hcap'⟩ := hf a s₁ s' b h₂
  exact ⟨htags'.trans htags, hcap'.trans hcap⟩

theorem endElement_keepsTypeTags (w p : Nat) : KeepsTypeTags (endElement w p) := by
  intro s s' a h
  unfold endElement at h
  rw [run_bind_ok (EStateM.run_get s)] at h
  rcases he : s.elementSizePtr with _ | _ | slot
  · simp only [he] at h
    cases h
  · simp only [he] at h
    cases h
    exact ⟨rfl, rfl⟩
  · simp only [he] at h
    refine keepsTypeTags_bind (load_keepsTypeTags (slot + 1) w) (fun bs => ?_) s s' a h
    apply keepsTypeTags_bind (store_keepsTypeTags _ _)
    intro _ s s' a h
    cases h
    exact ⟨rfl, rfl⟩

/-- `EndMessage` takes all type tags off the end of the buffer. -/
theorem messageTerminator_typeTags (w : Nat) (hle : s.typeTagsCurrent ≤ s.buffer.length)
    (h : (messageTerminator w).run s = .ok () s') : s'.typeTagsCurrent = s'.buffer.length := by
  unfold messageTerminator at h
  rw [run_bind_ok (EStateM.run_get s)] at h
  cases hopen : s.messageIsInProgress with
  | false =>
    simp only [hopen, Bool.not_false, if_true] at h
    cases h
  | true =>
    -- behind the type tags, nothing moves their pointer again
    have htail : ∀ s₁ s₂ : OutboundPacketStream, s₁.typeTagsCurrent = s₁.buffer.length →
        (do
          modify fun s => { s with argumentCurrent := s.messageCursor }
          endElement w (← get).messageCursor
          modify fun s => { s with messageIsInProgress := false } : StreamM Unit).run s₁ =
            .ok () s₂ → s₂.typeTagsCurrent = s₂.buffer.length := by
      intro s₁ s₂ hs₁ hrun
      rw [run_bind_ok (EStateM.run_modify _ _), run_bind_ok (EStateM.run_get _)] at hrun
      obtain ⟨_, s₃, hend, hlast⟩ := run_bind_inv hrun
      obtain ⟨htags, hcap⟩ := endElement_keepsTypeTags _ _ _ _ _ hend
      cases hlast
      exact htags.trans (hs₁.trans hcap.symm)
    simp only [hopen, Bool.not_true, Bool.false_eq_true, if_false] at h
    by_cases hcount : s.typeTagsCount = 0
    · rw [if_neg (by simpa using hcount)] at h
      have htags : s.typeTagsCurrent = s.buffer.length := by
        unfold OutboundPacketStream.typeTagsCount at hcount
        omega
      obtain ⟨_, s₁, hstore, h⟩ := run_bind_inv h
      obtain ⟨htags₁, hcap₁⟩ := store_keepsTypeTags _ _ _ _ _ hstore
      rw [run_bind_ok (EStateM.run_modify _ _)] at h
      apply htail _ _ _ h
      exact htags₁.trans (htags.trans hcap₁.symm)
    · rw [if_pos (by simpa using hcount)] at h
      obtain ⟨_, s₁, -, h⟩ := run_bind_inv h
      obtain ⟨_, s₂, -, h⟩ := run_bind_inv h
      obtain ⟨_, s₃, -, h⟩ := run_bind_inv h
      obtain ⟨_, s₄, -, h⟩ := run_bind_inv h
      obtain ⟨_, s₅, -, h⟩ := run_bind_inv h
      obtain ⟨_, s₆, hstore, h⟩ := run_bind_inv h
      rw [run_bind_ok (EStateM.run_modify _ _)] at h
      exact htail _ _ rfl h

end type_tags

/-- The open message closes behind its type tags and arguments. -/
theorem messageTerminator_idling {address tags : List UInt8}
    (hlt : ∀ p, e = some p → p < W.length)
    (h : InMessage s cap (some (slotOf e W)) (W ++ slotBytes e ++ address) A tags)
    (hA : tags = [] → A = []) :
    ∃ s', (messageTerminator 4).run s = .ok () s' ∧
      Idling s' cap e (W ++ closed e (address ++ encTypeTags tags ++ A)) [] 0 := by
  have htags := h.typeTags
  obtain ⟨s', hrun, hidle⟩ := messageTerminator_run hlt h hA
  have hlast := messageTerminator_typeTags 4 (by omega) hrun
  obtain ⟨R, hR⟩ := hidle.written
  refine ⟨s', hrun, ?_⟩
  exact {
    written := ⟨R, by rw [hR, List.append_nil]⟩
    capacity := hidle.capacity
    fits := hidle.fits
    cursor := hidle.cursor
    argument := hidle.argument
    typeTags := hlast
    slot := hidle.slot
    idle := hidle.idle }

/-! ## Arguments of no message -/

theorem stray_run (rhs : StreamArgument) (h : Idling s cap e W A n) :
    rhs.stream.run s =
      if W.length + A.length + rhs.bytes.length + roundUp4 (n + 3) ≤ cap
      then .ok () (s.withArgument rhs.typeTag rhs.bytes) else .error .outOfBufferMemory s := by
  have htags := h.typeTags
  have hcap := h.capacity
  rw [rhs.stream_run (by omega), h.argument, h.typeTagsCount, hcap]

/-- The type tag goes to the end of the buffer, far behind the bytes of the argument. -/
theorem stray_idling (rhs : StreamArgument) (h : Idling s cap e W A n)
    (hroom : W.length + A.length + rhs.bytes.length + roundUp4 (n + 3) ≤ cap) :
    Idling (s.withArgument rhs.typeTag rhs.bytes) cap e W (A ++ rhs.bytes) (n + 1) := by
  have hround := le_roundUp4 (n + 3)
  have htags := h.typeTags
  have hcap := h.capacity
  have hcap_le := s.capacity_le
  have hac := h.argument
  have hlen := withArgument_length (s := s) rhs.typeTag rhs.bytes (by omega) (by omega) (by omega)
  obtain ⟨R, hR⟩ := h.written
  have hbefore : (overwrite s.buffer (s.typeTagsCurrent - 1) [rhs.typeTag.byte]).take
      s.argumentCurrent = W ++ A := by
    rw [overwrite_take (by omega) (by omega), hR, hac, ← List.length_append, List.take_left]
  exact {
    written := ⟨_, by
      change overwrite _ s.argumentCurrent rhs.bytes = _
      unfold overwrite at hbefore ⊢
      rw [hbefore, List.append_assoc W A]⟩
    capacity := (OutboundPacketStream.capacity_congr hlen).trans hcap
    fits := by
      rw [List.length_append]
      omega
    cursor := h.cursor
    argument := by
      change s.argumentCurrent + rhs.bytes.length = _
      rw [hac, List.length_append, Nat.add_assoc]
    typeTags := by
      rw [hlen]
      change s.typeTagsCurrent - 1 + (n + 1) = _
      omega
    slot := h.slot
    idle := h.idle }

/-! ## The stream shows the draft -/

/-- What the stream holds where the draft is `d`. -/
structure Shows (cap : Nat) (s : OutboundPacketStream) (d : Draft) : Prop where
  idle : d.message = none → Idling s cap d.innerSlot d.written d.strayBytes d.strayTags
  message : ∀ m, d.message = some m →
    InMessage s cap (some (slotOf d.innerSlot d.written))
      (d.written ++ slotBytes d.innerSlot ++ encString m.addressPattern)
      (argumentBytes m.args) (argumentTags m.args)

theorem new_shows {buffer : List UInt8} (hcap : buffer.length < 2 ^ 32) :
    Shows buffer.length (.new buffer) {} where
  idle _ := by
    have hnew := new_idling buffer
    rw [OutboundPacketStream.new_capacity hcap] at hnew
    exact hnew
  message m hm := by cases hm

theorem Shows.of_idle (hm : d.message = none)
    (h : Idling s cap d.innerSlot d.written d.strayBytes d.strayTags) : Shows cap s d where
  idle _ := h
  message m hm' := by
    rw [hm] at hm'
    cases hm'

theorem Shows.of_message {m : StreamMessage} (hm : d.message = some m)
    (h : InMessage s cap (some (slotOf d.innerSlot d.written))
      (d.written ++ slotBytes d.innerSlot ++ encString m.addressPattern)
      (argumentBytes m.args) (argumentTags m.args)) : Shows cap s d where
  idle hm' := by
    rw [hm] at hm'
    cases hm'
  message m' hm' := by
    rw [hm] at hm'
    cases hm'
    exact h

theorem StreamMessage.encode_length (m : StreamMessage) : m.encode.length =
    (encString m.addressPattern).length + roundUp4 ((argumentTags m.args).length + 2) +
      (argumentBytes m.args).length := by
  unfold StreamMessage.encode
  rw [List.length_append, List.length_append, encTypeTags_length]

theorem inMessage_size {e : Option Nat} {X A tags : List UInt8} (h : InMessage s cap e X A tags) :
    s.size = X.length + A.length + roundUp4 (tags.length + 2) := by
  have htags := h.typeTags
  have hcap := h.capacity
  have hcount : s.typeTagsCount = tags.length := by
    unfold OutboundPacketStream.typeTagsCount
    omega
  have hfits := h.fits
  have hlt := s.capacity_lt
  rw [OutboundPacketStream.size, if_pos h.inProgress, h.argument, hcount]
  exact Nat.mod_eq_of_lt (by omega)

/-- The stream has the capacity, the size and the flags of the draft. -/
theorem Shows.observed (h : Shows cap s d) : s.capacity = cap ∧ s.size = d.size ∧
    s.isReady = d.isReady ∧ s.messageIsInProgress = d.message.isSome ∧
    s.isBundleInProgress = d.isBundleInProgress := by
  have hwritten := written_length d
  have hslot := slotBytes_innerSlot d
  cases hm : d.message with
  | none =>
    have hidle := h.idle hm
    have hsome : s.isBundleInProgress = !d.elements.outer.isEmpty := by
      have hnone := innerSlot_eq_none d
      unfold OutboundPacketStream.isBundleInProgress
      rw [hidle.slot]
      cases houter : d.elements.outer with
      | nil => rw [hnone.mpr houter]; rfl
      | cons frame outer =>
        rw [houter] at hnone
        cases hs : d.innerSlot with
        | none => exact absurd (hnone.mp hs) (by simp)
        | some slot => rfl
    refine ⟨hidle.capacity, ?_, ?_, hidle.idle, ?_⟩
    · rw [hidle.size, hwritten, Draft.size, hm]
    · simp only [OutboundPacketStream.isReady, hidle.idle, hsome, Draft.isReady, hm]
      simp
    · rw [hsome, Draft.isBundleInProgress, hm]
      rfl
  | some m =>
    have hin := h.message m hm
    refine ⟨hin.capacity, ?_, ?_, hin.inProgress, ?_⟩
    · rw [inMessage_size hin, Draft.size, hm]
      simp only [Draft.sizeWith, m.encode_length, List.length_append]
      omega
    · simp [OutboundPacketStream.isReady, hin.inProgress, Draft.isReady, hm]
    · simp [OutboundPacketStream.isBundleInProgress, hin.slot, Draft.isBundleInProgress, hm]

/-! ## One operation -/

/-- The stream throws what the draft throws, or both do the operation and the stream shows the
draft again. -/
def Agrees (cap : Nat) (s : OutboundPacketStream) (d : Draft) (op : StreamOperation) : Prop :=
  (s.answer 4 op).1 = (d.answer cap op).1 ∧ Shows cap (s.answer 4 op).2 (d.answer cap op).2

theorem agrees_error (op : StreamOperation) (ex : OscException) (h : Shows cap s d)
    (hs : (op.perform 4).run s = .error ex s) (hd : d.perform cap op = .error ex) :
    Agrees cap s d op := by
  unfold Agrees OutboundPacketStream.answer Draft.answer
  rw [hs, hd]
  exact ⟨rfl, h⟩

theorem agrees_ok (op : StreamOperation) (d' : Draft) {s' : OutboundPacketStream}
    (hs : (op.perform 4).run s = .ok () s') (hd : d.perform cap op = .ok d')
    (h : Shows cap s' d') : Agrees cap s d op := by
  unfold Agrees OutboundPacketStream.answer Draft.answer
  rw [hs, hd]
  exact ⟨rfl, h⟩

theorem clear_agrees (h : Shows cap s d) : Agrees cap s d .clear := by
  obtain ⟨s', hrun, hidle⟩ := clear_idling h.observed.1
  exact agrees_ok .clear {} hrun rfl (.of_idle rfl hidle)

/-- While a message is open, no bundle opens or closes and no other message opens. -/
theorem inProgress_agrees (h : Shows cap s d) {m : StreamMessage} (hm : d.message = some m)
    (hop : (∃ timeTag, op = .bundleInitiator timeTag) ∨ op = .bundleTerminator ∨
      ∃ addressPattern, op = .beginMessage addressPattern) : Agrees cap s d op := by
  have hin := h.message m hm
  apply agrees_error op .messageInProgress h
  · rcases hop with ⟨timeTag, rfl⟩ | rfl | ⟨addressPattern, rfl⟩
    · simp only [StreamOperation.perform, bundleInitiator, EStateM.run_bind, EStateM.run_get,
        hin.inProgress, if_true]
      rfl
    · simp only [StreamOperation.perform, bundleTerminator, EStateM.run_bind, EStateM.run_get,
        OutboundPacketStream.isBundleInProgress, hin.slot, Option.isSome_some, Bool.not_true,
        Bool.false_eq_true, if_false, hin.inProgress, if_true]
      rfl
    · simp only [StreamOperation.perform, beginMessage, EStateM.run_bind, EStateM.run_get,
        hin.inProgress, if_true]
      rfl
  · rcases hop with ⟨timeTag, rfl⟩ | rfl | ⟨addressPattern, rfl⟩ <;> simp [Draft.perform, hm]

theorem bundleInitiator_agrees (hcap : cap < 2 ^ 30) (h : Shows cap s d) (timeTag : UInt64)
    (hm : d.message = none) : Agrees cap s d (.bundleInitiator timeTag) := by
  have hidle := h.idle hm
  have hfits := hidle.fits
  have hle := slotBytes_length_le d.innerSlot
  have hwritten := written_length d
  have hslot := slotBytes_innerSlot d
  have hsize : d.size = d.cursor + d.strayBytes.length := by rw [Draft.size, hm]
  by_cases hroom : d.size + d.slot + 16 ≤ cap
  · obtain ⟨s', hrun, hnext⟩ := bundleInitiator_idling timeTag.toNat hidle (by omega)
    refine agrees_ok (.bundleInitiator timeTag)
      { d with elements := d.elements.enter timeTag, strayBytes := [] } hrun ?_ (.of_idle hm ?_)
    · simp only [Draft.perform, hm, Option.isSome_none, Bool.false_eq_true, if_false]
      rw [if_neg (by omega)]
    · have hempty : levelBytes (some (slotOf d.innerSlot d.written)) [] = [] := rfl
      unfold Draft.innerSlot Draft.written at hnext ⊢
      simpa [Builder.enter, openBytes, Draft.innerSlot, Draft.written, levelBytes] using hnext
  · have hcheck := bundleSpace_run s
    rw [hidle.size, slotSize_eq, hidle.slot, hidle.capacity, if_pos (by omega)] at hcheck
    apply agrees_error (.bundleInitiator timeTag) .outOfBufferMemory h
    · unfold StreamOperation.perform bundleInitiator
      rw [run_bind_ok (EStateM.run_get s), if_neg (by simp [hidle.idle])]
      exact run_bind_error hcheck
    · simp only [Draft.perform, hm, Option.isSome_none, Bool.false_eq_true, if_false]
      rw [if_pos (by omega)]

theorem bundleTerminator_agrees (h : Shows cap s d) (hm : d.message = none) :
    Agrees cap s d .bundleTerminator := by
  have hidle := h.idle hm
  cases houter : d.elements.outer with
  | nil =>
    have hslot := (innerSlot_eq_none d).mpr houter
    apply agrees_error .bundleTerminator .bundleNotInProgress h
    · simp only [StreamOperation.perform, bundleTerminator, EStateM.run_bind, EStateM.run_get,
        OutboundPacketStream.isBundleInProgress, hidle.slot, hslot, Option.isSome_none,
        Bool.not_false, if_true]
      rfl
    · simp [Draft.perform, hm, Builder.leave, houter]
  | cons frame outer =>
    obtain ⟨timeTag, before⟩ := frame
    -- the bundle around the innermost elements, and what stands in front of it
    obtain ⟨d', hd'⟩ : ∃ d' : Draft, d' =
        { d with elements := ⟨before ++ [.node timeTag d.elements.trees], outer⟩ } := ⟨_, rfl⟩
    generalize hW : (openBytes outer).1 ++ levelBytes (openBytes outer).2 before = W
    generalize he : (openBytes outer).2 = e at hW
    have hslot : d.innerSlot = some (slotOf e W) := by
      unfold Draft.innerSlot
      rw [houter]
      simp only [openBytes, he, hW]
    have hwritten : d.written = W ++ slotBytes e ++
        encodeElement (.node timeTag d.elements.trees) := by
      unfold Draft.written
      rw [hslot, houter, encodeElement, encodeElements_eq (slotOf e W)]
      simp only [openBytes, he, hW, List.append_assoc]
    have hwritten' :
        d'.written = W ++ closed e (encodeElement (.node timeTag d.elements.trees)) := by
      subst hd'
      unfold Draft.written Draft.innerSlot
      simp only
      rw [levelBytes_append, levelBytes_singleton, ← List.append_assoc, he, hW]
    have hslot' : d'.innerSlot = e := by
      subst hd'
      exact he
    have hlt : ∀ p, e = some p → p < W.length := by
      intro p hp
      have := openBytes_slot_lt outer p (he.trans hp)
      rw [← hW, List.length_append]
      omega
    rw [hslot, hwritten] at hidle
    obtain ⟨s', hrun, hnext⟩ := bundleTerminator_idling hlt hidle
    refine agrees_ok .bundleTerminator d' hrun ?_ (.of_idle (by rw [hd']; exact hm) ?_)
    · simp only [Draft.perform, hm, Option.isSome_none, Bool.false_eq_true, if_false,
        Builder.leave, houter, hd']
    · rw [hslot', hwritten', hd']
      exact hnext

theorem beginMessage_agrees (hcap : cap < 2 ^ 30) (h : Shows cap s d)
    (addressPattern : List UInt8) (hm : d.message = none) :
    Agrees cap s d (.beginMessage addressPattern) := by
  have hidle := h.idle hm
  have hfits := hidle.fits
  have hle := slotBytes_length_le d.innerSlot
  have hwritten := written_length d
  have hslot := slotBytes_innerSlot d
  have hsize : d.size = d.cursor + d.strayBytes.length := by rw [Draft.size, hm]
  by_cases hroom : d.size + d.slot + (encString addressPattern).length + 4 ≤ cap
  · obtain ⟨s', hrun, hnext⟩ := beginMessage_idling addressPattern hidle (by omega)
    apply agrees_ok (.beginMessage addressPattern)
      { elements := d.elements, message := some ⟨addressPattern, []⟩ } hrun
    · simp only [Draft.perform, hm, Option.isSome_none, Bool.false_eq_true, if_false]
      rw [if_neg (by omega)]
    · exact .of_message rfl hnext
  · have hcheck := messageSpace_run s addressPattern
    rw [hidle.size, slotSize_eq, hidle.slot, hidle.capacity, ← encString_length,
      if_pos (by omega)] at hcheck
    apply agrees_error (.beginMessage addressPattern) .outOfBufferMemory h
    · unfold StreamOperation.perform beginMessage
      rw [run_bind_ok (EStateM.run_get s), if_neg (by simp [hidle.idle])]
      exact run_bind_error hcheck
    · simp only [Draft.perform, hm, Option.isSome_none, Bool.false_eq_true, if_false]
      rw [if_pos (by omega)]

theorem messageTerminator_agrees (h : Shows cap s d) :
    Agrees cap s d .messageTerminator := by
  cases hm : d.message with
  | none =>
    have hidle := h.idle hm
    apply agrees_error .messageTerminator .messageNotInProgress h
    · simp only [StreamOperation.perform, messageTerminator, EStateM.run_bind, EStateM.run_get,
        hidle.idle, Bool.not_false, if_true]
      rfl
    · simp [Draft.perform, hm]
  | some m =>
    have hnone : argumentTags m.args = [] → argumentBytes m.args = [] := by
      intro htags
      simp [argumentBytes, List.map_eq_nil_iff.mp htags]
    obtain ⟨s', hrun, hnext⟩ :=
      messageTerminator_idling (innerSlot_lt d) (h.message m hm) hnone
    apply agrees_ok .messageTerminator { elements := d.elements.leaf m } hrun
    · simp only [Draft.perform, hm]
    · apply Shows.of_idle rfl
      have hencode : encString m.addressPattern ++ encTypeTags (argumentTags m.args) ++
          argumentBytes m.args = encodeElement (.leaf m) := rfl
      unfold Draft.written at hnext ⊢
      rw [hencode, List.append_assoc, ← levelBytes_singleton, ← levelBytes_append] at hnext
      exact hnext

theorem argument_agrees (h : Shows cap s d) (rhs : StreamArgument) :
    Agrees cap s d (.argument rhs) := by
  have hwritten := written_length d
  have hslot := slotBytes_innerSlot d
  cases hm : d.message with
  | none =>
    have hidle := h.idle hm
    have hrun := stray_run rhs hidle
    have hsize : d.size = d.cursor + d.strayBytes.length := by rw [Draft.size, hm]
    by_cases hroom : d.size + rhs.bytes.length + roundUp4 (d.strayTags + 3) ≤ cap
    · rw [if_pos (by omega)] at hrun
      have hnext := stray_idling rhs hidle (by omega)
      apply agrees_ok (.argument rhs) { d with
        strayTags := d.strayTags + 1
        strayBytes := d.strayBytes ++ rhs.bytes } hrun
      · simp only [Draft.perform, Draft.withArgument, hm]
        rw [if_neg (by omega)]
      · exact .of_idle hm hnext
    · rw [if_neg (by omega)] at hrun
      apply agrees_error (.argument rhs) .outOfBufferMemory h hrun
      simp only [Draft.perform, Draft.withArgument, hm]
      rw [if_pos (by omega)]
  | some m =>
    have hin := h.message m hm
    have htags := hin.typeTags
    have hcap := hin.capacity
    have hcount : s.typeTagsCount = (argumentTags m.args).length := by
      unfold OutboundPacketStream.typeTagsCount
      omega
    have hrun := rhs.stream_run (s := s) (by omega)
    rw [hin.argument, hcount, hcap] at hrun
    have hbytes : argumentBytes (m.args ++ [rhs]) = argumentBytes m.args ++ rhs.bytes := by
      simp [argumentBytes]
    have htags' : argumentTags (m.args ++ [rhs]) = argumentTags m.args ++ [rhs.typeTag.byte] := by
      simp [argumentTags]
    have hsize : d.sizeWith { m with args := m.args ++ [rhs] } = d.cursor + d.slot +
        (encString m.addressPattern).length + (argumentBytes m.args).length + rhs.bytes.length +
          roundUp4 ((argumentTags m.args).length + 3) := by
      have hthree : roundUp4 ((argumentTags m.args).length + 1 + 2) =
          roundUp4 ((argumentTags m.args).length + 3) := rfl
      rw [Draft.sizeWith, StreamMessage.encode_length]
      simp only [hbytes, htags', List.length_append, List.length_singleton, hthree]
      omega
    simp only [List.length_append] at hrun
    by_cases hroom : d.sizeWith { m with args := m.args ++ [rhs] } ≤ cap
    · rw [if_pos (by omega)] at hrun
      apply agrees_ok (.argument rhs)
        { d with message := some { m with args := m.args ++ [rhs] } } hrun
      · simp only [Draft.perform, Draft.withArgument, hm]
        rw [if_neg (by omega)]
      · apply Shows.of_message rfl
        rw [hbytes, htags']
        exact hin.withArgument rhs.typeTag rhs.bytes (by
          simp only [List.length_append]
          omega)
    · rw [if_neg (by omega)] at hrun
      apply agrees_error (.argument rhs) .outOfBufferMemory h hrun
      simp only [Draft.perform, Draft.withArgument, hm]
      rw [if_pos (by omega)]

theorem operation_agrees (hcap : cap < 2 ^ 30) (h : Shows cap s d) (op : StreamOperation) :
    Agrees cap s d op := by
  cases hm : d.message with
  | none =>
    cases op with
    | clear => exact clear_agrees h
    | bundleInitiator timeTag => exact bundleInitiator_agrees hcap h timeTag hm
    | bundleTerminator => exact bundleTerminator_agrees h hm
    | beginMessage addressPattern => exact beginMessage_agrees hcap h addressPattern hm
    | messageTerminator => exact messageTerminator_agrees h
    | argument rhs => exact argument_agrees h rhs
  | some m =>
    cases op with
    | clear => exact clear_agrees h
    | bundleInitiator timeTag => exact inProgress_agrees h hm (.inl ⟨timeTag, rfl⟩)
    | bundleTerminator => exact inProgress_agrees h hm (.inr (.inl rfl))
    | beginMessage addressPattern =>
      exact inProgress_agrees h hm (.inr (.inr ⟨addressPattern, rfl⟩))
    | messageTerminator => exact messageTerminator_agrees h
    | argument rhs => exact argument_agrees h rhs

/-! ## Runs -/

theorem stream_simulates (hcap : cap < 2 ^ 30) :
    Simulates (Shows cap) (OutboundPacketStream.answer 4) (Draft.answer cap) :=
  fun _ _ op h => operation_agrees hcap h op

/-- The draft after operations over a buffer of `capacity` bytes. -/
def draftAfter (capacity : Nat) (ops : List StreamOperation) : Draft :=
  last (Draft.answer capacity) {} ops

/-- The stream over `buffer` after operations whose exceptions the caller catches. -/
def packetStreamAfter (buffer : List UInt8) (ops : List StreamOperation) : OutboundPacketStream :=
  last (OutboundPacketStream.answer 4) (.new buffer) ops

/-- The stream carries out the draft: whatever the operations are, each of them throws what the
draft says, and the size and the flags are those of the draft behind each of them. -/
theorem a_stream_carries_out_its_draft (buffer : List UInt8) (hcap : buffer.length < 2 ^ 30)
    (ops : List StreamOperation) :
    answers (OutboundPacketStream.answer 4) (.new buffer) ops =
        answers (Draft.answer buffer.length) {} ops ∧
      (packetStreamAfter buffer ops).capacity = buffer.length ∧
      (packetStreamAfter buffer ops).size = (draftAfter buffer.length ops).size ∧
      (packetStreamAfter buffer ops).isReady = (draftAfter buffer.length ops).isReady ∧
      (packetStreamAfter buffer ops).messageIsInProgress =
        (draftAfter buffer.length ops).message.isSome ∧
      (packetStreamAfter buffer ops).isBundleInProgress =
        (draftAfter buffer.length ops).isBundleInProgress := by
  obtain ⟨hanswers, hlast⟩ := (stream_simulates hcap).run (new_shows (by omega)) ops
  exact ⟨hanswers, hlast.observed⟩

/-- A message in a bundle, an end too many, and an argument of no message that does not fit. -/
theorem a_stream_carries_out_its_draft_full :
    let ops := [.bundleInitiator 1, .beginMessage [47], .bundleTerminator, .argument (.int32 7),
      .messageTerminator, .bundleTerminator, .bundleTerminator, .argument (.int64 1)]
    answers (OutboundPacketStream.answer 4) (.new (List.replicate 38 1)) ops =
        [none, none, some .messageInProgress, none, none, none, some .bundleNotInProgress,
          some .outOfBufferMemory] ∧
      (packetStreamAfter (List.replicate 38 1) ops).size = 32 := by
  have h := a_stream_carries_out_its_draft (List.replicate 38 1) (by simp)
    [.bundleInitiator 1, .beginMessage [47], .bundleTerminator, .argument (.int32 7),
      .messageTerminator, .bundleTerminator, .bundleTerminator, .argument (.int64 1)]
  exact ⟨h.1.trans (by decide), h.2.2.1.trans (by decide)⟩

end esc_platform.osc
