-- Each operation of the packet stream, and then `appendBundle`, appends
-- exactly its own bytes.
import EscPlatform.Osc.Encoding
import EscPlatform.Lib.Checked

namespace esc_platform.osc

open bytes checked

variable {s : OutboundPacketStream} {cap : Nat} {e : Option Nat} {W A tags : List UInt8}

/-! ## Bundles -/

theorem checkForAvailableBundleSpace_run (h : Idle s cap e W)
    (hsum : W.length + (slotBytes e).length + 16 < 2 ^ 32) :
    checkForAvailableBundleSpace.run s =
      if W.length + (slotBytes e).length + 16 ≤ cap then .ok () s
      else .error .outOfBufferMemory s := by
  have hslot : s.slotSize = (slotBytes e).length := by rw [slotSize_eq, h.slot]
  simp only [checkForAvailableBundleSpace, EStateM.run_bind, EStateM.run_get, h.size, hslot,
    h.capacity, Nat.mod_eq_of_lt hsum]
  split <;> split <;> first | rfl | omega

theorem slotOf_lt (hW : ∀ p, e = some p → p < W.length) {X : List UInt8} (hX : 0 < X.length) :
    ∀ p, some (slotOf e W) = some p → p < (W ++ slotBytes e ++ X).length := by
  intro p hp
  cases hp
  cases e <;> simp [slotOf] <;> omega

theorem bundleInitiator_fits (t : Nat) (h : Idle s cap e W)
    (hroom : W.length + (slotBytes e).length + 16 ≤ cap) :
    ∃ s', (bundleInitiator 4 t).run s = .ok () s' ∧
      Idle s' cap (some (slotOf e W)) (W ++ slotBytes e ++ (bundlePattern ++ beBytes 8 t)) := by
  have hcap := h.cap_lt
  have hcheck := checkForAvailableBundleSpace_run h (by omega)
  rw [if_pos hroom] at hcheck
  obtain ⟨R, tc, rfl, hR⟩ := h.eq
  have hp : bundlePattern.length = 8 := rfl
  simp only [bundleInitiator, fromUInt64, EStateM.run_bind, EStateM.run_get, Bool.false_eq_true,
    if_false, hcheck]
  rw [beginElement_run rfl (by omega)]
  simp only
  rw [store_after rfl (by simp [hp]; omega)]
  simp only
  rw [store_after (by simp [hp]; omega) (by simp [hp]; omega)]
  simp only [EStateM.run_modify]
  refine ⟨_, rfl, ?_⟩
  rw [List.append_assoc (W ++ slotBytes e)]
  exact Idle.of_eq (by simp [hp]; omega) (by simp [hp]; omega) (by simp [hp]; omega)
    (slotOf_lt h.slot_lt (by simp [hp]))

theorem bundleInitiator_full (t : Nat) (h : Idle s cap e W)
    (hfull : cap < W.length + (slotBytes e).length + 16)
    (hsum : W.length + (slotBytes e).length + 16 < 2 ^ 32) :
    (bundleInitiator 4 t).run s = .error .outOfBufferMemory s := by
  have hcheck := checkForAvailableBundleSpace_run h hsum
  rw [if_neg (by omega)] at hcheck
  simp [bundleInitiator, EStateM.run_bind, h.idle, hcheck]

theorem bundleTerminator_run {contents : List UInt8} (hW : ∀ p, e = some p → p < W.length)
    (h : Idle s cap (some (slotOf e W)) (W ++ slotBytes e ++ contents)) :
    ∃ s', (bundleTerminator 4).run s = .ok () s' ∧ Idle s' cap e (W ++ closed e contents) := by
  have hcap := h.cap_lt
  have hfits := h.fits
  obtain ⟨R, tc, rfl, hR⟩ := h.eq
  have hlen := closed_length e contents
  simp only [List.length_append] at hR hfits
  simp only [bundleTerminator, EStateM.run_bind, EStateM.run_get,
    OutboundPacketStream.isBundleInProgress, Option.isSome_some, Bool.not_true, Bool.false_eq_true,
    if_false]
  rw [endElement_run hW rfl (by omega)]
  refine ⟨_, rfl, Idle.of_eq (by simp [hlen]) (by simp [hlen]; omega) (by simp [hlen]; omega) ?_⟩
  intro p hp
  have := hW p hp
  simp only [List.length_append]
  omega

/-! ## Messages -/

theorem checkForAvailableMessageSpace_run (addressPattern : List UInt8) (h : Idle s cap e W)
    (hsum : W.length + (slotBytes e).length < 2 ^ 32) :
    (checkForAvailableMessageSpace addressPattern).run s =
      if W.length + (slotBytes e).length + (encString addressPattern).length + 4 ≤ cap then .ok () s
      else .error .outOfBufferMemory s := by
  have hslot : s.slotSize = (slotBytes e).length := by rw [slotSize_eq, h.slot]
  simp only [checkForAvailableMessageSpace, EStateM.run_bind, EStateM.run_get, h.size, hslot,
    h.capacity, encString_length, Nat.mod_eq_of_lt hsum]
  split <;> split <;> first | rfl | omega

/-- The address goes behind the slot of its element, and the message is open. -/
theorem writeAddress_run (addressPattern : List UInt8) {R : List UInt8} {tc mc ac c : Nat}
    {slot : Option Nat} {b : Bool} (hc : c = W.length) (hcap : (W.length + R.length) % 2 ^ 32 = cap)
    (hroom : W.length + (encString addressPattern).length + 4 ≤ cap) :
    ∃ s', (do
        store c (cStr addressPattern ++ [0])
        store (c + (cStr addressPattern).length + 1) (zeroPad ((cStr addressPattern).length + 1))
        modify fun s =>
          { s with
            messageCursor := c + roundUp4 ((cStr addressPattern).length + 1)
            argumentCurrent := c + roundUp4 ((cStr addressPattern).length + 1)
            typeTagsCurrent := s.buffer.length
            messageIsInProgress := true } : StreamM Unit).run ⟨W ++ R, tc, mc, ac, slot, b⟩ =
        .ok () s' ∧
      InMessage s' cap slot (W ++ encString addressPattern) [] [] := by
  have hle := le_roundUp4 ((cStr addressPattern).length + 1)
  rw [encString_length] at hroom
  rw [run_bind_ok (store_after hc (by simp; omega)),
    run_bind_ok (store_after (by simp; omega) (by simp; omega)), EStateM.run_modify]
  refine ⟨_, rfl, ⟨⟨_, by simp [encString]; rfl⟩, ?_, ?_, ?_, ?_, rfl, rfl, ?_⟩⟩
  · simp [OutboundPacketStream.capacity]
    omega
  · simp
    omega
  · simp
    omega
  · simp
  · have htwo : roundUp4 2 = 4 := rfl
    simp [htwo]
    omega

theorem beginMessage_fits (addressPattern : List UInt8) (h : Idle s cap e W)
    (hroom : W.length + (slotBytes e).length + (encString addressPattern).length + 4 ≤ cap) :
    ∃ s', (beginMessage 4 addressPattern).run s = .ok () s' ∧
      InMessage s' cap (some (slotOf e W)) (W ++ slotBytes e ++ encString addressPattern)
        [] [] := by
  have hcap := h.cap_lt
  have hcheck := checkForAvailableMessageSpace_run addressPattern h (by omega)
  rw [if_pos hroom] at hcheck
  obtain ⟨R, tc, rfl, hR⟩ := h.eq
  unfold beginMessage
  rw [run_bind_ok (EStateM.run_get _), if_neg (by simp), run_bind_ok hcheck,
    run_bind_ok (EStateM.run_get _), run_bind_ok (beginElement_run rfl (by omega))]
  apply writeAddress_run addressPattern rfl
  · simp only [List.length_append, List.length_drop]
    omega
  · simpa only [List.length_append] using hroom

theorem beginMessage_full (addressPattern : List UInt8) (h : Idle s cap e W)
    (hfull : cap < W.length + (slotBytes e).length + (encString addressPattern).length + 4)
    (hsum : W.length + (slotBytes e).length < 2 ^ 32) :
    (beginMessage 4 addressPattern).run s = .error .outOfBufferMemory s := by
  have hcheck := checkForAvailableMessageSpace_run addressPattern h hsum
  rw [if_neg (by omega)] at hcheck
  simp [beginMessage, EStateM.run_bind, h.idle, hcheck]

/-! ## Arguments -/

theorem InMessage.of_eq {tc mc ac : Nat} {G : List UInt8} (hmc : mc = W.length)
    (hac : ac = W.length + A.length) (htc : tc = W.length + A.length + G.length)
    (hcap : (W.length + A.length + G.length + tags.length) % 2 ^ 32 = cap)
    (hfits : W.length + A.length + roundUp4 (tags.length + 2) ≤ cap) :
    InMessage ⟨W ++ A ++ G ++ tags.reverse, tc, mc, ac, e, true⟩ cap e W A tags where
  written := ⟨G, rfl⟩
  capacity := by
    simp only [OutboundPacketStream.capacity, List.length_append, List.length_reverse]
    omega
  cursor := hmc
  argument := hac
  typeTags := by
    simp only [List.length_append, List.length_reverse]
    omega
  slot := rfl
  inProgress := rfl
  fits := hfits

theorem checkForAvailableArgumentSpace_run (n : Nat) (h : InMessage s cap e W A tags) :
    (checkForAvailableArgumentSpace n).run s =
      if W.length + A.length + n + roundUp4 (tags.length + 3) ≤ cap then .ok () s
      else .error .outOfBufferMemory s := by
  have htags : s.typeTagsCount = tags.length := by
    have := h.typeTags
    unfold OutboundPacketStream.typeTagsCount
    omega
  simp only [checkForAvailableArgumentSpace, EStateM.run_bind, EStateM.run_get, htags, h.argument,
    h.capacity]
  split <;> split <;> first | rfl | omega

theorem pushTypeTag_run (t : TypeTag) (h : InMessage s cap e W A tags)
    (hroom : W.length + A.length + roundUp4 (tags.length + 3) ≤ cap) :
    ∃ s', (pushTypeTag t).run s = .ok () s' ∧ InMessage s' cap e W A (tags ++ [t.byte]) := by
  obtain ⟨G, tc, rfl, htc, hcap⟩ := h.eq
  have hle := le_roundUp4 (tags.length + 3)
  rcases List.eq_nil_or_concat G with rfl | ⟨G, x, rfl⟩
  · simp only [List.length_nil] at hcap
    omega
  · rw [List.concat_eq_append] at htc hcap ⊢
    rw [List.length_append, List.length_singleton] at htc hcap
    have hpos : tc ≠ 0 := by omega
    simp only [pushTypeTag, EStateM.run_bind, EStateM.run_get, hpos, if_false]
    rw [← List.append_assoc (W ++ A) G [x], store_between (by simp; omega) (by simp)]
    simp only [EStateM.run_modify]
    refine ⟨_, rfl, ?_⟩
    have hstack : W ++ A ++ G ++ [t.byte] ++ tags.reverse =
        W ++ A ++ G ++ (tags ++ [t.byte]).reverse := by simp
    rw [hstack]
    apply InMessage.of_eq rfl rfl (by omega) (by simp; omega)
    simpa using hroom

theorem pushArgument_run (bs : List UInt8) (h : InMessage s cap e W A tags)
    (hroom : W.length + A.length + bs.length + roundUp4 (tags.length + 2) ≤ cap) :
    ∃ s', (pushArgument bs).run s = .ok () s' ∧ InMessage s' cap e W (A ++ bs) tags := by
  obtain ⟨G, tc, rfl, htc, hcap⟩ := h.eq
  have hle := le_roundUp4 (tags.length + 2)
  simp only [pushArgument, EStateM.run_bind, EStateM.run_get]
  rw [List.append_assoc (W ++ A), store_after (by simp) (by simp; omega)]
  simp only [EStateM.run_modify]
  refine ⟨_, rfl, ?_⟩
  have hdrop : (G ++ tags.reverse).drop bs.length = G.drop bs.length ++ tags.reverse :=
    List.drop_append_of_le_length (by omega)
  rw [hdrop, ← List.append_assoc, List.append_assoc W A bs]
  apply InMessage.of_eq rfl (by simp; omega) (by simp; omega) (by simp; omega)
  simp only [List.length_append]
  omega

/-- What every argument operation does: the space check, the tag, and then the bytes `bs`. -/
theorem streamArgument_run (op : StreamM Unit) (bs : List UInt8) (t : TypeTag)
    (h : InMessage s cap e W A tags)
    (hop : ∀ s₁ : OutboundPacketStream, InMessage s₁ cap e W A (tags ++ [t.byte]) →
      W.length + A.length + bs.length + roundUp4 ((tags ++ [t.byte]).length + 2) ≤ cap →
      ∃ s₂, op.run s₁ = .ok () s₂ ∧ InMessage s₂ cap e W (A ++ bs) (tags ++ [t.byte])) :
    (W.length + A.length + bs.length + roundUp4 (tags.length + 3) ≤ cap →
      ∃ s', (do checkForAvailableArgumentSpace bs.length; pushTypeTag t; op : StreamM Unit).run s =
        .ok () s' ∧ InMessage s' cap e W (A ++ bs) (tags ++ [t.byte])) ∧
    (cap < W.length + A.length + bs.length + roundUp4 (tags.length + 3) →
      (do checkForAvailableArgumentSpace bs.length; pushTypeTag t; op : StreamM Unit).run s =
        .error .outOfBufferMemory s) := by
  have hcheck := checkForAvailableArgumentSpace_run bs.length h
  constructor
  · intro hroom
    rw [if_pos hroom] at hcheck
    obtain ⟨s₁, hr₁, hm₁⟩ := pushTypeTag_run t h (by omega)
    obtain ⟨s₂, hr₂, hm₂⟩ := hop s₁ hm₁ (by simpa using hroom)
    exact ⟨s₂, by rw [run_bind_ok hcheck, run_bind_ok hr₁, hr₂], hm₂⟩
  · intro hfull
    rw [if_neg (by omega)] at hcheck
    rw [run_bind_error hcheck]

theorem appendArg_run (arg : Arg) (h : InMessage s cap e W A tags) :
    (W.length + A.length + (encArg arg).length + roundUp4 (tags.length + 3) ≤ cap →
      ∃ s', (appendArg arg).run s = .ok () s' ∧
        InMessage s' cap e W (A ++ encArg arg) (tags ++ [arg.typeTag.byte])) ∧
    (cap < W.length + A.length + (encArg arg).length + roundUp4 (tags.length + 3) →
      (appendArg arg).run s = .error .outOfBufferMemory s) := by
  cases arg with
  | int32 value =>
    exact streamArgument_run _ _ .int32 h fun s₁ h₁ hroom => pushArgument_run _ h₁ hroom
  | float bits =>
    exact streamArgument_run _ _ .float h fun s₁ h₁ hroom => pushArgument_run _ h₁ hroom
  | string value =>
    have hlen := encString_length value
    have hle := le_roundUp4 ((cStr value).length + 1)
    have hspec := streamArgument_run
      (do pushArgument (cStr value ++ [0]); pushArgument (zeroPad ((cStr value).length + 1)))
      (encString value) .string h (by
        intro s₁ h₁ hroom
        rw [hlen] at hroom
        obtain ⟨s₂, hr₂, h₂⟩ := pushArgument_run (cStr value ++ [0]) h₁ (by
          rw [List.length_append, List.length_singleton]; omega)
        obtain ⟨s₃, hr₃, h₃⟩ := pushArgument_run (zeroPad ((cStr value).length + 1)) h₂ (by
          rw [List.length_append, List.length_append, List.length_singleton, zeroPad_length]; omega)
        refine ⟨s₃, by rw [run_bind_ok hr₂, hr₃], ?_⟩
        simpa [encString] using h₃)
    rw [hlen] at hspec
    simpa only [appendArg, streamString, encArg, hlen, Arg.typeTag] using hspec

/-- The arguments of a message, one after the other. When they do not fit, some argument
operation throws. -/
theorem appendArgs_run (args : List Arg) (h : InMessage s cap e W A tags) :
    (W.length + A.length + (encArgs args).length +
        roundUp4 ((tags ++ typeTags args).length + 2) ≤ cap →
      ∃ s', (appendArgs args).run s = .ok () s' ∧
        InMessage s' cap e W (A ++ encArgs args) (tags ++ typeTags args)) ∧
    (cap < W.length + A.length + (encArgs args).length +
        roundUp4 ((tags ++ typeTags args).length + 2) →
      ∃ s', (appendArgs args).run s = .error .outOfBufferMemory s') := by
  induction args generalizing s A tags with
  | nil =>
    simp only [encArgs, typeTags, List.flatMap_nil, List.map_nil, List.append_nil, List.length_nil]
    refine ⟨fun _ => ⟨s, rfl, h⟩, fun hfull => ?_⟩
    have := h.fits
    omega
  | cons arg args ih =>
    have hbytes : encArgs (arg :: args) = encArg arg ++ encArgs args := by simp [encArgs]
    have htags : typeTags (arg :: args) = [arg.typeTag.byte] ++ typeTags args := by
      simp [typeTags]
    obtain ⟨ok, full⟩ := appendArg_run arg h
    rw [hbytes, htags, ← List.append_assoc, ← List.append_assoc, List.length_append]
    -- the check of one argument is the size of the message up to it, so it fails only when the
    -- whole message is too long
    have hmono : roundUp4 (tags.length + 3) ≤
        roundUp4 ((tags ++ [arg.typeTag.byte] ++ typeTags args).length + 2) :=
      roundUp4_mono (by simp)
    by_cases hroom : W.length + A.length + (encArg arg).length + roundUp4 (tags.length + 3) ≤ cap
    · obtain ⟨s₁, hr₁, h₁⟩ := ok hroom
      obtain ⟨ok₁, full₁⟩ := ih h₁
      have hlen : (A ++ encArg arg).length = A.length + (encArg arg).length := List.length_append
      simp only [hlen, ← Nat.add_assoc] at ok₁ full₁ ⊢
      simp only [appendArgs, run_bind_ok hr₁]
      exact ⟨ok₁, full₁⟩
    · refine ⟨fun hfits => by omega, fun _ => ⟨s, ?_⟩⟩
      simp only [appendArgs, run_bind_error (full (by omega))]

/-! ## The end of a message -/

section terminator

variable {X G R Z contents address : List UInt8} {tc mc ac : Nat} {slot : Option Nat} {b : Bool}

/-- The comma, the type tags and the zeros go over the bytes `Z`. -/
theorem writeTypeTags_run {α : Type} (k : StreamM α)
    (hZ : Z.length = roundUp4 (tags.length + 2)) :
    (do
        store X.length [ascii ',']
        store (X.length + 1) tags
        store (X.length + 1 + tags.length)
          (List.replicate (roundUp4 (tags.length + 2) - (tags.length + 1)) 0)
        k : StreamM α).run ⟨X ++ Z ++ R, tc, mc, ac, slot, b⟩ =
      k.run ⟨X ++ encTypeTags tags ++ R, tc, mc, ac, slot, b⟩ := by
  have hle := le_roundUp4 (tags.length + 2)
  have hzeros :
      (tags.length + 1) + (roundUp4 (tags.length + 2) - (tags.length + 1)) = Z.length := by
    omega
  simp only [EStateM.run_bind]
  rw [List.append_assoc, store_after rfl (by simp; omega)]
  simp only
  rw [store_after (by simp) (by simp; omega)]
  simp only
  rw [store_after (by simp; omega) (by simp; omega)]
  simp only [List.drop_drop, List.length_replicate, List.length_singleton,
    Nat.add_comm 1 tags.length]
  rw [hzeros, List.drop_left]
  simp [encTypeTags]

/-- The type tags move in front of the arguments, in their own order, and then the element of the
message closes. A message with no type tags has no arguments. -/
theorem messageTerminator_writes (w : Nat) (h : InMessage s cap e X A tags)
    (hA : tags = [] → A = []) :
    ∃ R tc, (X ++ encTypeTags tags ++ A).length + R.length = s.buffer.length ∧
      tc ≤ s.buffer.length ∧ (messageTerminator w).run s =
        (do
            endElement w (X ++ encTypeTags tags ++ A).length
            modify fun s => { s with messageIsInProgress := false } : StreamM Unit).run
          ⟨X ++ encTypeTags tags ++ A ++ R, tc, (X ++ encTypeTags tags ++ A).length,
            (X ++ encTypeTags tags ++ A).length, e, true⟩ := by
  have hfits := h.fits
  have hcap := s.capacity_le
  rw [h.capacity] at hcap
  obtain ⟨G, tc, rfl, htc, -⟩ := h.eq
  have hlen : (X ++ A ++ G ++ tags.reverse).length =
      X.length + A.length + G.length + tags.length := by
    simp only [List.length_append, List.length_reverse]
  rw [hlen] at hcap
  have hle := le_roundUp4 (tags.length + 2)
  have hcount : (⟨X ++ A ++ G ++ tags.reverse, tc, X.length, X.length + A.length,
      e, true⟩ : OutboundPacketStream).typeTagsCount = tags.length := by
    simp only [OutboundPacketStream.typeTagsCount, hlen]
    omega
  rw [hlen]
  unfold messageTerminator
  rw [EStateM.run_bind, EStateM.run_get]
  simp only [hcount, Bool.not_true, Bool.false_eq_true, if_false]
  by_cases hnil : tags = []
  · -- the comma and three zeros
    subst hnil
    obtain rfl := hA rfl
    have henc : [ascii ',', 0, 0, 0] = encTypeTags [] := rfl
    have hfour : (encTypeTags []).length = 4 := rfl
    have hpad : roundUp4 (([] : List UInt8).length + 2) = 4 := rfl
    simp only [hpad, List.length_nil, List.append_nil, List.reverse_nil, Nat.add_zero] at *
    refine ⟨G.drop 4, tc, by simp [hfour]; omega, by omega, ?_⟩
    rw [if_neg (by simp), henc]
    simp only [EStateM.run_bind]
    rw [store_after rfl (by omega)]
    simp only [EStateM.run_modify, hfour, List.length_append, EStateM.run_get]
  · rw [if_pos (by simpa using hnil)]
    have htags : (load tc tags.length).run ⟨X ++ A ++ G ++ tags.reverse, tc, X.length,
        X.length + A.length, e, true⟩ = .ok tags.reverse
          ⟨X ++ A ++ G ++ tags.reverse, tc, X.length, X.length + A.length, e, true⟩ :=
      load_between (List.append_nil _).symm (by simp; omega) (by simp)
    have hargs : (load X.length A.length).run ⟨X ++ A ++ G ++ tags.reverse, tc, X.length,
        X.length + A.length, e, true⟩ = .ok A
          ⟨X ++ A ++ G ++ tags.reverse, tc, X.length, X.length + A.length, e, true⟩ :=
      load_between (List.append_assoc _ G tags.reverse) rfl rfl
    -- `Z` is the type tag slot and `T` the rest of the buffer
    obtain ⟨Z, T, hZT, hZ⟩ : ∃ Z T, A ++ G ++ tags.reverse = Z ++ T ∧
        Z.length = roundUp4 (tags.length + 2) :=
      ⟨_, _, (List.take_append_drop (roundUp4 (tags.length + 2)) _).symm, by simp; omega⟩
    have hT : Z.length + T.length = A.length + G.length + tags.length := by
      have := congrArg List.length hZT
      simp only [List.length_append, List.length_reverse] at this
      omega
    have hbuf : X ++ A ++ G ++ tags.reverse = X ++ Z ++ T := by
      rw [List.append_assoc X Z T, ← hZT]
      simp only [List.append_assoc]
    rw [run_bind_ok htags, Nat.add_sub_cancel_left, run_bind_ok hargs, hbuf, EStateM.run_bind,
      store_after (by simp [hZ]) (by omega)]
    simp only [List.reverse_reverse]
    have hend : (X ++ encTypeTags tags ++ A).length + (T.drop A.length).length =
        X.length + A.length + G.length + tags.length := by
      simp only [List.length_append, encTypeTags_length, List.length_drop]
      omega
    have hcursor : X.length + roundUp4 (tags.length + 2) + A.length =
        (X ++ encTypeTags tags ++ A).length := by
      simp only [List.length_append, encTypeTags_length]
    refine ⟨T.drop A.length, _, hend, Nat.le_refl _, ?_⟩
    rw [List.append_assoc (X ++ Z), writeTypeTags_run _ hZ]
    simp only [EStateM.run_bind, EStateM.run_modify, EStateM.run_get, hcursor,
      ← List.append_assoc]
    rw [@List.length_append _ (X ++ encTypeTags tags ++ A), hend]

/-- The end of a message whose element opened behind `W`. -/
theorem messageTerminator_run (hW : ∀ p, e = some p → p < W.length)
    (h : InMessage s cap (some (slotOf e W)) (W ++ slotBytes e ++ address) A tags)
    (hA : tags = [] → A = []) :
    ∃ s', (messageTerminator 4).run s = .ok () s' ∧
      Idle s' cap e (W ++ closed e (address ++ encTypeTags tags ++ A)) := by
  have hlen := closed_length e (address ++ encTypeTags tags ++ A)
  have hfits := h.fits
  have hcap : s.buffer.length % 2 ^ 32 = cap := h.capacity
  obtain ⟨R, tc, hR, -, hrun⟩ := messageTerminator_writes 4 h hA
  rw [← hR] at hcap
  have hcontents : W ++ slotBytes e ++ address ++ encTypeTags tags ++ A =
      W ++ slotBytes e ++ (address ++ encTypeTags tags ++ A) := by
    simp only [List.append_assoc]
  rw [hcontents] at hcap hrun
  simp only [List.length_append] at hfits
  rw [hrun, run_bind_ok (endElement_run hW rfl (by omega)), EStateM.run_modify]
  refine ⟨_, rfl, Idle.of_eq ?_ ?_ ?_ ?_⟩
  · simp only [List.length_append, hlen, Nat.add_assoc]
  · simp only [List.length_append, hlen] at hcap ⊢
    omega
  · simp only [List.length_append, encTypeTags_length, hlen]
    omega
  · intro p hp
    have := hW p hp
    simp only [List.length_append]
    omega

end terminator

/-! ## Whole messages and bundles -/

theorem appendMessage_appends (message : Message) (e : Option Nat) :
    Appends (appendMessage 4 message) cap e (closed e (encMessage message)) := by
  intro s W h
  have hlen := closed_length e (encMessage message)
  have hbytes : (encMessage message).length = (encString message.address).length +
      roundUp4 ((typeTags message.args).length + 2) + (encArgs message.args).length := by
    simp only [encMessage, List.length_append, encTypeTags_length]
  have hmono : roundUp4 (0 + 2) ≤ roundUp4 ((typeTags message.args).length + 2) :=
    roundUp4_mono (by omega)
  have hfour : roundUp4 (0 + 2) = 4 := rfl
  unfold appendMessage
  by_cases hbegin : W.length + (slotBytes e).length + (encString message.address).length + 4 ≤ cap
  · obtain ⟨s₁, hr₁, h₁⟩ := beginMessage_fits message.address h hbegin
    obtain ⟨ok, full⟩ := appendArgs_run message.args h₁
    simp only [List.nil_append, List.length_append, List.length_nil] at ok full
    rw [run_bind_ok hr₁]
    constructor
    · intro hroom
      obtain ⟨s₂, hr₂, h₂⟩ := ok (by omega)
      have hA : typeTags message.args = [] → encArgs message.args = [] := by
        intro htags
        simp [encArgs, List.map_eq_nil_iff.mp htags]
      rw [run_bind_ok hr₂]
      exact messageTerminator_run h.slot_lt h₂ hA
    · intro hfull _
      obtain ⟨s₂, hr₂⟩ := full (by omega)
      exact ⟨s₂, run_bind_error hr₂⟩
  · have hfits := h.fits
    have hslot := slotBytes_length_le e
    refine ⟨fun hroom => by omega, fun _ hsum => ⟨s, run_bind_error ?_⟩⟩
    exact beginMessage_full message.address h (by omega) (by omega)

theorem appendMessages_appends (messages : List Message) (slot : Nat) :
    Appends (appendMessages 4 messages) cap (some slot) (encMessages messages) := by
  induction messages with
  | nil => exact appends_pure cap (some slot)
  | cons message messages ih =>
    have := appends_seq (appendMessage_appends message (some slot)) ih
    simpa [appendMessages, encMessages, closed] using this

/-- A bundle that opens, writes its elements and closes. -/
theorem bundle_appends {body : StreamM Unit} {elements : List UInt8}
    (hbody : ∀ slot, Appends body cap (some slot) elements) (e : Option Nat) :
    Appends (do beginBundleImmediate 4; body; bundleTerminator 4) cap e
      (closed e (bundlePattern ++ beBytes 8 1 ++ elements)) := by
  intro s W h
  have hlen := closed_length e (bundlePattern ++ beBytes 8 1 ++ elements)
  have hp : bundlePattern.length = 8 := rfl
  simp only [List.length_append, beBytes_length, hp] at hlen
  unfold beginBundleImmediate
  by_cases hbegin : W.length + (slotBytes e).length + 16 ≤ cap
  · obtain ⟨s₁, hr₁, h₁⟩ := bundleInitiator_fits 1 h hbegin
    obtain ⟨ok, full⟩ := hbody (slotOf e W) s₁ _ h₁
    simp only [List.length_append, beBytes_length, hp] at ok full
    rw [run_bind_ok hr₁]
    constructor
    · intro hroom
      obtain ⟨s₂, hr₂, h₂⟩ := ok (by omega)
      rw [run_bind_ok hr₂]
      apply bundleTerminator_run h.slot_lt
      simpa only [List.append_assoc] using h₂
    · intro hfull hsum
      obtain ⟨s₂, hr₂⟩ := full (by omega) (by omega)
      exact ⟨s₂, run_bind_error hr₂⟩
  · have hfits := h.fits
    have hslot := slotBytes_length_le e
    refine ⟨fun hroom => by omega, fun _ hsum => ⟨s, run_bind_error ?_⟩⟩
    exact bundleInitiator_full 1 h (by omega) (by omega)

mutual

/-- `appendBundle` appends the bytes of the bundle, with a size slot where it is an element. -/
theorem appendBundle_appends :
    ∀ (b : Bundle) (e : Option Nat), Appends (appendBundle 4 b) cap e (closed e (encBundle b))
  | .mk messages bundles, e => by
    have := bundle_appends (fun slot => appends_seq (appendBundles_appends bundles slot)
      (appendMessages_appends messages slot)) e
    simpa only [appendBundle, encBundle, bind_assoc] using this

theorem appendBundles_appends :
    ∀ (bs : List Bundle) (slot : Nat),
      Appends (appendBundles 4 bs) cap (some slot) (encBundles bs)
  | [], slot => appends_pure cap (some slot)
  | b :: bs, slot => by
    have := appends_seq (appendBundle_appends b (some slot))
      (appendBundles_appends bs slot)
    simpa only [appendBundles, encBundles, closed] using this

end

end esc_platform.osc
