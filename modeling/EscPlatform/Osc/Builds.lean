-- The builds with words of eight and of four bytes: when the wide build
-- gets through the operations of the sender, the narrow build gets through
-- them too and writes the same bytes.
import EscPlatform.Osc.StreamOperations

namespace esc_platform.osc

open bytes checked

/-! ## The low half of the slot pointer -/

/-- The stream as a build with words of four bytes has it. -/
def OutboundPacketStream.narrow (s : OutboundPacketStream) : OutboundPacketStream :=
  { s with elementSizePtr := s.elementSizePtr.map (· % 2 ^ 32) }

section narrow

variable (s : OutboundPacketStream)

@[simp] theorem narrow_buffer : s.narrow.buffer = s.buffer := rfl

@[simp] theorem narrow_capacity : s.narrow.capacity = s.capacity := rfl

@[simp] theorem narrow_messageCursor : s.narrow.messageCursor = s.messageCursor := rfl

@[simp] theorem narrow_messageIsInProgress :
    s.narrow.messageIsInProgress = s.messageIsInProgress := rfl

@[simp] theorem narrow_size : s.narrow.size = s.size := rfl

@[simp] theorem narrow_isBundleInProgress : s.narrow.isBundleInProgress = s.isBundleInProgress := by
  simp [OutboundPacketStream.isBundleInProgress, OutboundPacketStream.narrow]

@[simp] theorem narrow_slotSize : s.narrow.slotSize = s.slotSize := by
  cases h : s.elementSizePtr <;>
    simp [OutboundPacketStream.slotSize, OutboundPacketStream.elementSizeSlotRequired,
      OutboundPacketStream.narrow, h]

end narrow

/-! ## The simulation -/

/-- Where `wide` gets through, `narrow` gets through with the same result, and the streams agree up
to the high half of the slot pointer. -/
def Narrows {α : Type} (wide narrow : StreamM α) : Prop :=
  ∀ s a s', s.buffer.length < 2 ^ 32 → wide.run s = .ok a s' →
    s'.buffer.length = s.buffer.length ∧ narrow.run s.narrow = .ok a s'.narrow

variable {α β : Type} {m m' : StreamM α} {f f' : α → StreamM β}

theorem narrows_pure (a : α) : Narrows (pure a) (pure a) := by
  intro s a' s' _ h
  cases h
  exact ⟨rfl, rfl⟩

theorem narrows_throw (ex : OscException) : Narrows (throw ex : StreamM α) m' := by
  intro s a s' _ h
  cases h

theorem narrows_bind (hm : Narrows m m') (hf : ∀ a, Narrows (f a) (f' a)) :
    Narrows (m >>= f) (m' >>= f') := by
  intro s b s' hcap h
  obtain ⟨a, s₁, hrun, h⟩ := run_bind_inv h
  obtain ⟨hcap₁, hrun₁⟩ := hm s a s₁ hcap hrun
  obtain ⟨hcap₂, hrun₂⟩ := hf a s₁ b s' (by omega) h
  exact ⟨hcap₂.trans hcap₁, by rw [run_bind_ok hrun₁, hrun₂]⟩

/-- What reads the stream first may use all of it but the high half of the slot pointer. -/
theorem narrows_get {f f' : OutboundPacketStream → StreamM α}
    (h : ∀ s, Narrows (f s) (f' s.narrow)) : Narrows (get >>= f) (get >>= f') := by
  intro s a s' hcap hrun
  rw [run_bind_ok (EStateM.run_get s)] at hrun
  rw [run_bind_ok (EStateM.run_get s.narrow)]
  exact h s s a s' hcap hrun

theorem narrows_modify {f : OutboundPacketStream → OutboundPacketStream}
    (hcap : ∀ s, (f s).buffer.length = s.buffer.length) (h : ∀ s, f s.narrow = (f s).narrow) :
    Narrows (modify f) (modify f) := by
  intro s a s' _ hrun
  rw [EStateM.run_modify] at hrun
  cases hrun
  exact ⟨hcap s, by rw [EStateM.run_modify, h]⟩

theorem narrows_ite {c : Prop} [Decidable c] {n n' : StreamM α} (hm : Narrows m m')
    (hn : Narrows n n') : Narrows (if c then m else n) (if c then m' else n') := by
  split
  · exact hm
  · exact hn

/-- What a store that got through did. -/
theorem store_inv {s s' : OutboundPacketStream} {p : Nat} {bs : List UInt8} {a : Unit}
    (h : (store p bs).run s = .ok a s') :
    p + bs.length ≤ s.buffer.length ∧ s' = { s with buffer := overwrite s.buffer p bs } := by
  by_cases hroom : p + bs.length ≤ s.buffer.length
  · rw [store_run hroom] at h
    cases h
    exact ⟨hroom, rfl⟩
  · simp only [store, EStateM.run_bind, EStateM.run_get, hroom, if_false] at h
    cases h

theorem narrows_store (p : Nat) (bs : List UInt8) : Narrows (store p bs) (store p bs) := by
  intro s a s' _ h
  obtain ⟨hroom, rfl⟩ := store_inv h
  exact ⟨overwrite_length hroom, store_run (s := s.narrow) hroom⟩

theorem narrows_load (p n : Nat) : Narrows (load p n) (load p n) := by
  intro s a s' _ h
  by_cases hroom : p + n ≤ s.buffer.length
  · rw [load_run hroom] at h
    cases h
    exact ⟨rfl, load_run (s := s.narrow) hroom⟩
  · simp only [load, EStateM.run_bind, EStateM.run_get, hroom, if_false] at h
    cases h

/-! ## Elements -/

/-- The high half of the offset goes under the contents. -/
theorem overwrite_wide {buf zs : List UInt8} {p : Nat} (parent : Nat) (hzs : 4 ≤ zs.length)
    (hfits : p + 4 + zs.length ≤ buf.length) :
    overwrite (overwrite buf p (leBytes 8 parent)) (p + 4) zs =
      overwrite (overwrite buf p (leBytes 4 (parent % 2 ^ 32))) (p + 4) zs := by
  have hlow : leBytes 4 (parent % 2 ^ 32) = leBytes 4 parent := leBytes_mod 4 parent
  have hhalves : leBytes 8 parent = leBytes 4 parent ++ leBytes 4 (parent / 256 ^ 4) :=
    leBytes_add 4 4 parent
  have hstart : p + 4 = p + (leBytes 4 parent).length := by rw [leBytes_length]
  have hlen : (overwrite buf p (leBytes 4 parent)).length = buf.length :=
    overwrite_length (by rw [leBytes_length]; omega)
  rw [hlow, hhalves, ← overwrite_overwrite (by rw [leBytes_length]; omega), ← hstart,
    overwrite_covers (by rw [leBytes_length]; exact hzs) (by omega)]

/-- An element opens and its first bytes are written: they cover the high half of the offset. -/
theorem narrows_open (p : Nat) (xs ys : List UInt8) (next : Nat → Nat) {k k' : Nat → StreamM α}
    (hnext : ∀ c, next c = c + xs.length) (hlen : 4 ≤ (xs ++ ys).length)
    (hk : ∀ c, Narrows (k c) (k' c)) :
    Narrows (do let c ← beginElement 8 p; store c xs; store (next c) ys; k c)
      (do let c ← beginElement 4 p; store c xs; store (next c) ys; k' c) := by
  intro s a s' hcap h
  cases he : s.elementSizePtr with
  | none =>
    have hn : s.narrow.elementSizePtr = none := by simp [OutboundPacketStream.narrow, he]
    have hwide : (beginElement 8 p).run s = .ok p { s with elementSizePtr := some 0 } := by
      simp only [beginElement, EStateM.run_bind, EStateM.run_get, he, EStateM.run_set,
        EStateM.run_pure]
    have hnarrow : (beginElement 4 p).run s.narrow =
        .ok p { s.narrow with elementSizePtr := some 0 } := by
      simp only [beginElement, EStateM.run_bind, EStateM.run_get, hn, EStateM.run_set,
        EStateM.run_pure]
    rw [run_bind_ok hwide] at h
    rw [run_bind_ok hnarrow]
    have hrest : Narrows (do store p xs; store (next p) ys; k p)
        (do store p xs; store (next p) ys; k' p) :=
      narrows_bind (narrows_store p xs) fun _ => narrows_bind (narrows_store _ ys) fun _ => hk p
    exact hrest { s with elementSizePtr := some 0 } a s' hcap h
  | some parent =>
    have hn : s.narrow.elementSizePtr = some (parent % 2 ^ 32) := by
      simp [OutboundPacketStream.narrow, he]
    obtain ⟨c, s₁, hbegin, h⟩ := run_bind_inv h
    simp only [beginElement] at hbegin
    rw [run_bind_ok (EStateM.run_get s)] at hbegin
    simp only [he] at hbegin
    obtain ⟨_, s₀, hstore, hbegin⟩ := run_bind_inv hbegin
    obtain ⟨hroom, rfl⟩ := store_inv hstore
    rw [leBytes_length] at hroom
    cases hbegin
    obtain ⟨_, s₂, hxs, h⟩ := run_bind_inv h
    obtain ⟨hroomx, rfl⟩ := store_inv hxs
    obtain ⟨_, s₃, hys, h⟩ := run_bind_inv h
    obtain ⟨hroomy, rfl⟩ := store_inv hys
    have hlow : p % 2 ^ 32 = p := Nat.mod_eq_of_lt (by omega)
    have hlen8 : (overwrite s.buffer p (leBytes 8 parent)).length = s.buffer.length :=
      overwrite_length (by rw [leBytes_length]; exact hroom)
    have hlen4 : (overwrite s.buffer p (leBytes 4 (parent % 2 ^ 32))).length = s.buffer.length :=
      overwrite_length (by rw [leBytes_length]; exact Nat.le_trans (by omega) hroom)
    have hx : p + 4 + xs.length ≤ s.buffer.length := hlen8 ▸ hroomx
    have hlenx : (overwrite (overwrite s.buffer p (leBytes 8 parent)) (p + 4) xs).length =
        (overwrite s.buffer p (leBytes 8 parent)).length := overwrite_length (hlen8 ▸ hx)
    rw [hnext] at hroomy h
    have hxy : p + 4 + (xs ++ ys).length ≤ s.buffer.length := by
      rw [List.length_append, ← Nat.add_assoc]
      exact hlen8 ▸ hlenx ▸ hroomy
    have hbuf : overwrite (overwrite (overwrite s.buffer p (leBytes 8 parent)) (p + 4) xs)
        (p + 4 + xs.length) ys =
          overwrite (overwrite s.buffer p (leBytes 4 (parent % 2 ^ 32))) (p + 4) (xs ++ ys) := by
      rw [overwrite_overwrite (hlen8 ▸ hx), overwrite_wide parent hlen hxy]
    simp only [hbuf] at h
    obtain ⟨hcapacity, hrun⟩ := hk (p + 4) _ a s' (by
      rwa [overwrite_length (hlen4 ▸ hxy), hlen4]) h
    refine ⟨hcapacity.trans ((overwrite_length (hlen4 ▸ hxy)).trans hlen4), ?_⟩
    have hnarrow : (beginElement 4 p).run s.narrow = .ok (p + 4) { s.narrow with
        buffer := overwrite s.buffer p (leBytes 4 (parent % 2 ^ 32))
        elementSizePtr := some p } := by
      simp only [beginElement, EStateM.run_bind, EStateM.run_get, hn, store_run (s := s.narrow)
        (show p + (leBytes 4 (parent % 2 ^ 32)).length ≤ s.buffer.length by
          rw [leBytes_length]; omega), EStateM.run_modify, EStateM.run_pure, narrow_buffer]
    have hfits : p + 4 + (xs ++ ys).length ≤
        (overwrite s.buffer p (leBytes 4 (parent % 2 ^ 32))).length := Nat.le_trans hxy hlen4.ge
    rw [run_bind_ok hnarrow, hnext,
      store_store _ (by rwa [List.length_append, ← Nat.add_assoc] at hfits),
      run_bind_ok (store_run hfits)]
    simpa only [OutboundPacketStream.narrow, Option.map_some, hlow] using hrun

/-- An element closes: a slot pointer with a high half reads outside the buffer, so a run that gets
through has none here. -/
theorem narrows_endElement (p : Nat) : Narrows (endElement 8 p) (endElement 4 p) := by
  intro s a s' hcap h
  cases he : s.elementSizePtr with
  | none =>
    simp only [endElement, EStateM.run_bind, EStateM.run_get, he] at h
    cases h
  | some slot =>
    cases slot with
    | zero =>
      have hn : s.narrow.elementSizePtr = some 0 := by simp [OutboundPacketStream.narrow, he]
      simp only [endElement, EStateM.run_bind, EStateM.run_get, he, EStateM.run_set] at h
      cases h
      refine ⟨rfl, ?_⟩
      simp only [endElement, EStateM.run_bind, EStateM.run_get, hn, EStateM.run_set]
      rfl
    | succ n =>
      by_cases hroom : n + 1 + 8 ≤ s.buffer.length
      · have hn : s.narrow.elementSizePtr = some (n + 1) := by
          simp [OutboundPacketStream.narrow, he]
          omega
        have hstore : n + 1 + (beBytes 4 (p - (n + 1) - 4)).length ≤ s.buffer.length := by
          rw [beBytes_length]
          omega
        simp only [endElement, EStateM.run_bind, EStateM.run_get, he, load_run hroom, fromUInt32,
          store_run hstore, EStateM.run_modify] at h
        cases h
        refine ⟨overwrite_length hstore, ?_⟩
        simp only [endElement, EStateM.run_bind, EStateM.run_get, hn,
          load_run (s := s.narrow) (show n + 1 + 4 ≤ s.buffer.length by omega), fromUInt32,
          store_run (s := s.narrow) hstore, EStateM.run_modify]
        have hlow : leValue ((s.buffer.drop (n + 1)).take 8) % 2 ^ 32 =
            leValue ((s.buffer.drop (n + 1)).take 4) :=
          leValue_take_mod 4 4 (by
            rw [List.length_drop]
            omega)
        simp only [OutboundPacketStream.narrow, Option.map_some, hlow]
      · simp only [endElement, EStateM.run_bind, EStateM.run_get, he, load, hroom, if_false] at h
        cases h

/-! ## The operations of the sender -/

theorem narrows_checkForAvailableArgumentSpace (n : Nat) :
    Narrows (checkForAvailableArgumentSpace n) (checkForAvailableArgumentSpace n) :=
  narrows_get fun _ => narrows_ite (narrows_throw _) (narrows_pure ())

theorem narrows_pushTypeTag (tag : TypeTag) : Narrows (pushTypeTag tag) (pushTypeTag tag) :=
  narrows_get fun _ => narrows_ite (narrows_throw _)
    (narrows_bind (narrows_store _ _) fun _ => narrows_modify (fun _ => rfl) fun _ => rfl)

theorem narrows_pushArgument (bs : List UInt8) : Narrows (pushArgument bs) (pushArgument bs) :=
  narrows_get fun _ =>
    narrows_bind (narrows_store _ bs) fun _ => narrows_modify (fun _ => rfl) fun _ => rfl

theorem narrows_appendArg (arg : Arg) : Narrows (appendArg arg) (appendArg arg) := by
  cases arg with
  | int32 value =>
    exact narrows_bind (narrows_checkForAvailableArgumentSpace 4) fun _ =>
      narrows_bind (narrows_pushTypeTag .int32) fun _ => narrows_pushArgument _
  | float bits =>
    exact narrows_bind (narrows_checkForAvailableArgumentSpace 4) fun _ =>
      narrows_bind (narrows_pushTypeTag .float) fun _ => narrows_pushArgument _
  | string value =>
    exact narrows_bind (narrows_checkForAvailableArgumentSpace _) fun _ =>
      narrows_bind (narrows_pushTypeTag .string) fun _ =>
        narrows_bind (narrows_pushArgument _) fun _ => narrows_pushArgument _

theorem narrows_appendArgs (args : List Arg) : Narrows (appendArgs args) (appendArgs args) := by
  induction args with
  | nil => exact narrows_pure ()
  | cons arg args ih => exact narrows_bind (narrows_appendArg arg) fun _ => ih

theorem narrows_checkForAvailableBundleSpace :
    Narrows checkForAvailableBundleSpace checkForAvailableBundleSpace := by
  apply narrows_get
  intro s
  rw [narrow_size, narrow_slotSize, narrow_capacity]
  exact narrows_ite (narrows_throw _) (narrows_pure ())

theorem narrows_checkForAvailableMessageSpace (addressPattern : List UInt8) :
    Narrows (checkForAvailableMessageSpace addressPattern)
      (checkForAvailableMessageSpace addressPattern) := by
  apply narrows_get
  intro s
  rw [narrow_size, narrow_slotSize, narrow_capacity]
  exact narrows_ite (narrows_throw _) (narrows_pure ())

theorem narrows_bundleInitiator (timeTag : Nat) :
    Narrows (bundleInitiator 8 timeTag) (bundleInitiator 4 timeTag) := by
  apply narrows_get
  intro s
  apply narrows_ite (narrows_throw _)
  apply narrows_bind narrows_checkForAvailableBundleSpace
  intro _
  apply narrows_get
  intro s
  have hlen : 4 ≤ (bundlePattern ++ beBytes 8 timeTag).length := by
    rw [List.length_append, beBytes_length]
    omega
  exact narrows_open s.messageCursor bundlePattern (beBytes 8 timeTag) (fun c => c + 8)
    (fun _ => rfl) hlen fun c => narrows_modify (fun _ => rfl) fun _ => rfl

theorem narrows_beginMessage (addressPattern : List UInt8) :
    Narrows (beginMessage 8 addressPattern) (beginMessage 4 addressPattern) := by
  apply narrows_get
  intro s
  apply narrows_ite (narrows_throw _)
  apply narrows_bind (narrows_checkForAvailableMessageSpace addressPattern)
  intro _
  apply narrows_get
  intro s
  have hround := le_roundUp4 ((cStr addressPattern).length + 1)
  have hmod := roundUp4_mod ((cStr addressPattern).length + 1)
  have hlen : 4 ≤ ((cStr addressPattern ++ [0]) ++
      zeroPad ((cStr addressPattern).length + 1)).length := by
    simp only [List.length_append, List.length_singleton, zeroPad_length]
    omega
  exact narrows_open s.messageCursor (cStr addressPattern ++ [0])
    (zeroPad ((cStr addressPattern).length + 1)) (fun c => c + (cStr addressPattern).length + 1)
    (fun c => by rw [List.length_append, List.length_singleton, Nat.add_assoc]) hlen
    fun c => narrows_modify (fun _ => rfl) fun _ => rfl

theorem narrows_messageTerminator : Narrows (messageTerminator 8) (messageTerminator 4) := by
  have hend : Narrows (do
        modify fun s => { s with argumentCurrent := s.messageCursor }
        endElement 8 (← get).messageCursor
        modify fun s => { s with messageIsInProgress := false } : StreamM Unit)
      (do
        modify fun s => { s with argumentCurrent := s.messageCursor }
        endElement 4 (← get).messageCursor
        modify fun s => { s with messageIsInProgress := false } : StreamM Unit) := by
    exact narrows_bind (narrows_modify (fun _ => rfl) fun _ => rfl) fun _ =>
      narrows_get fun s => narrows_bind (narrows_endElement s.messageCursor) fun _ =>
        narrows_modify (fun _ => rfl) fun _ => rfl
  apply narrows_get
  intro s
  apply narrows_ite (narrows_throw _)
  apply narrows_ite
  · apply narrows_bind (narrows_load _ _)
    intro tempTypeTags
    apply narrows_bind (narrows_load _ _)
    intro arguments
    apply narrows_bind (narrows_store _ _)
    intro _
    apply narrows_bind (narrows_store _ _)
    intro _
    apply narrows_bind (narrows_store _ _)
    intro _
    apply narrows_bind (narrows_store _ _)
    intro _
    exact narrows_bind (narrows_modify (fun _ => rfl) fun _ => rfl) fun _ => hend
  · apply narrows_bind (narrows_store _ _)
    intro _
    exact narrows_bind (narrows_modify (fun _ => rfl) fun _ => rfl) fun _ => hend

theorem narrows_bundleTerminator : Narrows (bundleTerminator 8) (bundleTerminator 4) := by
  apply narrows_get
  intro s
  rw [narrow_isBundleInProgress, narrow_messageIsInProgress, narrow_messageCursor]
  exact narrows_ite (narrows_throw _) (narrows_ite (narrows_throw _) (narrows_endElement _))

theorem narrows_appendMessage (message : Message) :
    Narrows (appendMessage 8 message) (appendMessage 4 message) :=
  narrows_bind (narrows_beginMessage message.address) fun _ =>
    narrows_bind (narrows_appendArgs message.args) fun _ => narrows_messageTerminator

theorem narrows_appendMessages (messages : List Message) :
    Narrows (appendMessages 8 messages) (appendMessages 4 messages) := by
  induction messages with
  | nil => exact narrows_pure ()
  | cons message messages ih => exact narrows_bind (narrows_appendMessage message) fun _ => ih

mutual

/-- A bundle that the wide build gets through, the narrow build gets through. -/
theorem narrows_appendBundle : ∀ b : Bundle, Narrows (appendBundle 8 b) (appendBundle 4 b)
  | .mk messages bundles => by
    unfold appendBundle
    exact narrows_bind (narrows_bundleInitiator 1) fun _ =>
      narrows_bind (narrows_appendBundles bundles) fun _ =>
        narrows_bind (narrows_appendMessages messages) fun _ => narrows_bundleTerminator

theorem narrows_appendBundles :
    ∀ bs : List Bundle, Narrows (appendBundles 8 bs) (appendBundles 4 bs)
  | [] => by
    unfold appendBundles
    exact narrows_pure ()
  | b :: bs => by
    unfold appendBundles
    exact narrows_bind (narrows_appendBundle b) fun _ => narrows_appendBundles bs

end

end esc_platform.osc
