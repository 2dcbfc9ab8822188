-- The packet writer of a build whose `uint32` has eight bytes: the offset
-- of the parent's slot takes eight bytes, and its slot has four. What
-- `sendMessage` makes of that depends on the address of the message.
import EscPlatform.Osc.StreamWrites

namespace esc_platform.osc

open bytes checked

variable {s : OutboundPacketStream} {cap w : Nat} {W A tags : List UInt8}

/-! ## The outermost element -/

/-- The outermost element has no slot, so it is opened and closed in the same way on every
build. -/
theorem beginElement_outermost (h : Idle s cap none W) :
    (beginElement w s.messageCursor).run s = (beginElement 4 s.messageCursor).run s := by
  simp only [beginElement, EStateM.run_bind, EStateM.run_get, h.slot]

theorem bundleInitiator_outermost (timeTag : Nat) (h : Idle s cap none W)
    (hroom : W.length + 16 ≤ cap) :
    (bundleInitiator w timeTag).run s = (bundleInitiator 4 timeTag).run s := by
  have hcap := h.cap_lt
  have hcheck := checkForAvailableBundleSpace_run h (by simp [slotBytes]; omega)
  rw [if_pos (by simpa [slotBytes] using hroom)] at hcheck
  simp only [bundleInitiator, EStateM.run_bind, EStateM.run_get, h.idle, Bool.false_eq_true,
    if_false, hcheck, beginElement_outermost h]

theorem bundleTerminator_outermost (hslot : s.elementSizePtr = some 0)
    (hidle : s.messageIsInProgress = false) :
    (bundleTerminator w).run s = .ok () { s with elementSizePtr := none } := by
  simp only [bundleTerminator, endElement, EStateM.run_bind, EStateM.run_get,
    OutboundPacketStream.isBundleInProgress, hslot, Option.isSome_some, Bool.not_true,
    Bool.false_eq_true, if_false, hidle, EStateM.run_set]

/-! ## A message in a bundle -/

/-- The high half of the offset is written where the address goes next. -/
theorem beginMessage_wide (addressPattern : List UInt8) {parent : Nat}
    (h : Idle s cap (some parent) W)
    (hroom : W.length + 4 + (encString addressPattern).length + 4 ≤ cap) :
    ∃ s', (beginMessage 8 addressPattern).run s = .ok () s' ∧
      InMessage s' cap (some W.length) (W ++ leBytes 4 parent ++ encString addressPattern)
        [] [] := by
  have hcap := h.cap_lt
  have hcheck := checkForAvailableMessageSpace_run addressPattern h (by simp [slotBytes]; omega)
  rw [if_pos (by simpa [slotBytes] using hroom)] at hcheck
  obtain ⟨R, tc, rfl, hR⟩ := h.eq
  have haddress := four_le_encString_length addressPattern
  have hwide : leBytes 8 parent = leBytes 4 parent ++ leBytes 4 (parent / 256 ^ 4) :=
    leBytes_add 4 4 parent
  have hbegin : (beginElement 8 W.length).run ⟨W ++ R, tc, W.length, W.length, some parent, false⟩ =
      .ok (W.length + 4) ⟨W ++ leBytes 4 parent ++ (leBytes 4 (parent / 256 ^ 4) ++ R.drop 8), tc,
        W.length, W.length, some W.length, false⟩ := by
    have hstore : (store W.length (leBytes 8 parent)).run
        ⟨W ++ R, tc, W.length, W.length, some parent, false⟩ =
          .ok () ⟨W ++ leBytes 8 parent ++ R.drop (leBytes 8 parent).length, tc, W.length, W.length,
            some parent, false⟩ :=
      store_after rfl (by rw [leBytes_length]; omega)
    simp only [beginElement, EStateM.run_bind, EStateM.run_get, hstore, EStateM.run_modify,
      EStateM.run_pure, leBytes_length]
    simp only [hwide, List.append_assoc]
  unfold beginMessage
  rw [run_bind_ok (EStateM.run_get _), if_neg (by simp), run_bind_ok hcheck,
    run_bind_ok (EStateM.run_get _), run_bind_ok hbegin]
  apply writeAddress_run addressPattern (by simp)
  · simp only [List.length_append, leBytes_length, List.length_drop]
    omega
  · simpa only [List.length_append, leBytes_length] using hroom

/-- The slot keeps the low half of the offset, and the first bytes of the contents stand where its
high half was. -/
theorem endElement_wide (parent tc mc ac : Nat) {p : Nat} {contents R : List UInt8} {b : Bool}
    (hW : W ≠ []) (hparent : parent < 2 ^ 32) (hcontents : 4 ≤ contents.length)
    (hp : p = (W ++ leBytes 4 parent ++ contents).length) :
    (endElement 8 p).run ⟨W ++ leBytes 4 parent ++ contents ++ R, tc, mc, ac, some W.length, b⟩ =
      .ok () ⟨W ++ beBytes 4 contents.length ++ contents ++ R, tc, mc, ac,
        some (parent + 2 ^ 32 * leValue (contents.take 4)), b⟩ := by
  have hpos : 0 < W.length := List.length_pos_iff.mpr hW
  obtain ⟨n, hn⟩ : ∃ n, W.length = n + 1 := ⟨W.length - 1, by omega⟩
  have hsize : p - W.length - 4 = contents.length := by
    simp only [hp, List.length_append, leBytes_length]
    omega
  have hvalue : leValue (leBytes 4 parent ++ contents.take 4) =
      parent + 2 ^ 32 * leValue (contents.take 4) := by
    rw [leValue_append, leValue_leBytes_of_lt hparent, leBytes_length]
    norm_num
  have hload : (load W.length 8).run ⟨W ++ leBytes 4 parent ++ contents ++ R, tc, mc, ac,
      some W.length, b⟩ = .ok (leBytes 4 parent ++ contents.take 4)
        ⟨W ++ leBytes 4 parent ++ contents ++ R, tc, mc, ac, some W.length, b⟩ := by
    apply load_between (X := W) (R := contents.drop 4 ++ R) _ rfl
    · simp only [List.length_append, leBytes_length, List.length_take]
      omega
    · simp only [List.append_assoc, ← List.append_assoc (contents.take 4), List.take_append_drop]
  have hstore : (store W.length (beBytes 4 contents.length)).run
      ⟨W ++ leBytes 4 parent ++ (contents ++ R), tc, mc, ac, some W.length, b⟩ =
        .ok () ⟨W ++ beBytes 4 contents.length ++ (contents ++ R), tc, mc, ac, some W.length, b⟩ :=
    store_between rfl (by simp)
  rw [List.append_assoc _ contents R] at hload ⊢
  rw [List.append_assoc _ contents R]
  simp only [endElement, EStateM.run_bind, EStateM.run_get]
  rw [hn] at hload hstore hsize ⊢
  simp only [hload, fromUInt32, hsize, hstore, hvalue, EStateM.run_bind, EStateM.run_modify]

/-- The stream of `sendMessage` before it ends its bundle. The saved offset of the bundle is 0, and
the first four bytes behind the address pointer are read as its high half. -/
theorem appendMessage_wide (m : Message) (buffer : List UInt8)
    (hroom : 20 + (encMessage m).length ≤ (OutboundPacketStream.new buffer).capacity) :
    ∃ s, (do beginBundleImmediate 8; appendMessage 8 m : StreamM Unit).run
        (OutboundPacketStream.new buffer) = .ok () s ∧
      s.elementSizePtr = some (2 ^ 32 * leValue ((encString m.address).take 4)) ∧
      s.messageIsInProgress = false ∧
      (s.buffer.drop 16).take 4 = beBytes 4 (encMessage m).length := by
  have hnew := new_idle buffer
  have hbytes : (encMessage m).length = (encString m.address).length +
      roundUp4 ((typeTags m.args).length + 2) + (encArgs m.args).length := by
    simp only [encMessage, List.length_append, encTypeTags_length]
  have hle := le_roundUp4 ((typeTags m.args).length + 2)
  have hmod := roundUp4_mod ((typeTags m.args).length + 2)
  have hp : bundlePattern.length = 8 := rfl
  obtain ⟨s₁, hr₁, h₁⟩ := bundleInitiator_fits 1 hnew (by simp [slotBytes]; omega)
  rw [← bundleInitiator_outermost (w := 8) 1 hnew (by simp; omega)] at hr₁
  simp only [slotBytes, slotOf, List.nil_append] at h₁
  generalize hW : bundlePattern ++ beBytes 8 1 = W at h₁
  have hWlen : W.length = 16 := by
    rw [← hW, List.length_append, beBytes_length, hp]
  obtain ⟨s₂, hr₂, h₂⟩ := beginMessage_wide m.address h₁ (by omega)
  obtain ⟨s₃, hr₃, h₃⟩ := (appendArgs_run m.args h₂).1 (by
    simp only [List.length_append, leBytes_length, List.length_nil, List.nil_append]
    omega)
  have hnone : typeTags m.args = [] → encArgs m.args = [] := by
    intro htags
    simp [encArgs, List.map_eq_nil_iff.mp htags]
  obtain ⟨R, tc, hR, -, hr₄⟩ := messageTerminator_writes 8 h₃ hnone
  have haddress := four_le_encString_length m.address
  have hcontents : W ++ leBytes 4 0 ++ encString m.address ++ encTypeTags (typeTags m.args) ++
      encArgs m.args = W ++ leBytes 4 0 ++ encMessage m := by
    simp only [encMessage, List.append_assoc]
  have hfirst : (encMessage m).take 4 = (encString m.address).take 4 := by
    rw [encMessage, List.append_assoc, List.take_append_of_le_length haddress]
  simp only [List.nil_append] at hr₄
  rw [hcontents] at hr₄
  have hend := endElement_wide 0 tc (W ++ leBytes 4 0 ++ encMessage m).length
    (W ++ leBytes 4 0 ++ encMessage m).length (R := R) (b := true)
    (show W ≠ [] by rintro rfl; cases hWlen) (by omega)
    (show 4 ≤ (encMessage m).length by omega) rfl
  rw [run_bind_ok hend, EStateM.run_modify, hfirst, Nat.zero_add] at hr₄
  have hrun : (do beginBundleImmediate 8; appendMessage 8 m : StreamM Unit).run
      (OutboundPacketStream.new buffer) = (messageTerminator 8).run s₃ := by
    unfold beginBundleImmediate appendMessage
    rw [run_bind_ok hr₁, run_bind_ok hr₂, run_bind_ok hr₃]
  refine ⟨_, hrun.trans hr₄, rfl, rfl, ?_⟩
  rw [← hWlen, List.append_assoc, List.append_assoc, List.drop_left,
    List.take_left' (beBytes_length 4 _)]

/-! ## The law -/

/-- What `sendMessage` should do to the element sizes: the end of the message restores the slot
of the bundle, which is the start of the buffer, the end of the bundle leaves the stream ready,
and the slot of the message, behind the 16 bytes of the bundle header, holds its length. -/
def KeepsElementSizes (w : Nat) (m : Message) (buffer : List UInt8) : Prop :=
  ∃ s s', (do beginBundleImmediate w; appendMessage w m : StreamM Unit).run
      (OutboundPacketStream.new buffer) = .ok () s ∧
    s.elementSizePtr = some 0 ∧
    (bundleTerminator w).run s = .ok () s' ∧
    s'.isReady = true ∧
    (s'.buffer.drop 16).take 4 = beBytes 4 (encMessage m).length

/-- The first bytes of the address are zero where there is no address only. -/
theorem leValue_encString (s : List UInt8) : leValue ((encString s).take 4) = 0 ↔ cStr s = [] := by
  constructor
  · intro h
    cases hs : cStr s with
    | nil => rfl
    | cons c cs =>
      have hc : c ≠ 0 := by
        rintro rfl
        exact zero_not_mem_cStr s (by simp [hs])
      have hpos : 0 < c.toNat := by
        rcases Nat.eq_zero_or_pos c.toNat with h0 | h0
        · exact absurd (UInt8.toNat_inj.mp h0) hc
        · exact h0
      simp only [encString, hs, List.cons_append, List.take_succ_cons, leValue] at h
      omega
  · intro h
    simp only [encString, h]
    decide

/-- On a build with eight byte words, and where the packet fits in the capacity that the stream
reports, `sendMessage` keeps the element sizes of exactly the messages that have an empty
address. -/
theorem wide_words_need_an_empty_address (m : Message) (buffer : List UInt8)
    (hroom : 20 + (encMessage m).length ≤ (OutboundPacketStream.new buffer).capacity) :
    KeepsElementSizes 8 m buffer ↔ cStr m.address = [] := by
  obtain ⟨s, hrun, hslot, hidle, hsize⟩ := appendMessage_wide m buffer hroom
  rw [← leValue_encString]
  constructor
  · rintro ⟨s₁, s₂, hrun₁, hslot₁, -⟩
    rw [hrun] at hrun₁
    cases hrun₁
    rw [hslot, Option.some.injEq] at hslot₁
    omega
  · intro hzero
    rw [hzero, Nat.mul_zero] at hslot
    refine ⟨s, _, hrun, hslot, bundleTerminator_outermost hslot hidle, ?_, hsize⟩
    simp [OutboundPacketStream.isReady, OutboundPacketStream.isBundleInProgress, hidle]

theorem wide_words_need_an_empty_address_int :
    KeepsElementSizes 8 { address := [], args := [.int32 1] } (List.replicate 32 0) :=
  (wide_words_need_an_empty_address { address := [], args := [.int32 1] } (List.replicate 32 0)
    (by decide)).mpr (by decide)

/-- The address `/a` fits, and then the end of the bundle reads its slot outside the buffer. -/
theorem wide_words_break_an_address :
    20 + (encMessage { address := [47, 97], args := [] }).length ≤
        (OutboundPacketStream.new (List.replicate 32 0)).capacity ∧
      ¬ KeepsElementSizes 8 { address := [47, 97], args := [] } (List.replicate 32 0) ∧
      ∃ s, (sendMessageStream 8 { address := [47, 97], args := [] }).run
        (OutboundPacketStream.new (List.replicate 32 0)) = .error .outsideBuffer s := by
  have hroom : 20 + (encMessage { address := [47, 97], args := [] }).length ≤
      (OutboundPacketStream.new (List.replicate 32 0)).capacity := by decide
  refine ⟨hroom, ?_, ⟨_, rfl⟩⟩
  rintro ⟨s, s', hrun, hslot, -⟩
  obtain ⟨s₁, hrun₁, hslot₁, -, -⟩ := appendMessage_wide _ _ hroom
  rw [hrun] at hrun₁
  cases hrun₁
  rw [hslot] at hslot₁
  revert hslot₁
  decide

end esc_platform.osc
