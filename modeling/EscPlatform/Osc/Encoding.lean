-- What the packet stream writes. The bytes of a bundle are a pure function
-- of the bundle, and each stream operation appends its own bytes: it ends
-- normally when they fit, and throws `OutOfBufferMemoryException` when they
-- do not.
import EscPlatform.Osc.Sender

namespace esc_platform.osc

open bytes

/-! ## The pure encoding -/

/-- A string, its NUL, and zeros up to the next multiple of four. -/
def encString (s : List UInt8) : List UInt8 := cStr s ++ 0 :: zeroPad ((cStr s).length + 1)

def encArg : Arg → List UInt8
  | .int32 value => beBytes 4 value.toUInt32.toNat
  | .float bits => beBytes 4 bits.toNat
  | .string value => encString value

def encArgs (args : List Arg) : List UInt8 := args.flatMap encArg

def typeTags (args : List Arg) : List UInt8 := args.map (fun a => a.typeTag.byte)

/-- The comma, the tags, and zeros up to the next multiple of four, at least one. -/
def encTypeTags (tags : List UInt8) : List UInt8 :=
  ascii ',' :: tags ++ List.replicate (roundUp4 (tags.length + 2) - (tags.length + 1)) 0

def encMessage (m : Message) : List UInt8 :=
  encString m.address ++ encTypeTags (typeTags m.args) ++ encArgs m.args

/-- An element of a bundle: its size, then its contents. -/
def encElement (contents : List UInt8) : List UInt8 := beBytes 4 contents.length ++ contents

def encMessages (messages : List Message) : List UInt8 :=
  messages.flatMap (fun m => encElement (encMessage m))

mutual

def encBundle : Bundle → List UInt8
  | .mk messages bundles =>
    bundlePattern ++ beBytes 8 1 ++ (encBundles bundles ++ encMessages messages)

def encBundles : List Bundle → List UInt8
  | [] => []
  | b :: bs => encElement (encBundle b) ++ encBundles bs

end

/-! ## Lengths -/

theorem le_roundUp4 (x : Nat) : x ≤ roundUp4 x := by
  unfold roundUp4; split <;> omega

theorem roundUp4_mod (x : Nat) : roundUp4 x % 4 = 0 := by
  unfold roundUp4; split <;> omega

theorem roundUp4_mono {x y : Nat} (h : x ≤ y) : roundUp4 x ≤ roundUp4 y := by
  unfold roundUp4; split <;> split <;> omega

@[simp] theorem zeroPad_length (i : Nat) : (zeroPad i).length = roundUp4 i - i := by
  simp [zeroPad]

@[simp] theorem encString_length (s : List UInt8) :
    (encString s).length = roundUp4 ((cStr s).length + 1) := by
  have := le_roundUp4 ((cStr s).length + 1)
  simp [encString]
  omega

theorem four_le_encString_length (s : List UInt8) : 4 ≤ (encString s).length := by
  have hle := le_roundUp4 ((cStr s).length + 1)
  have hmod := roundUp4_mod ((cStr s).length + 1)
  rw [encString_length]
  omega

@[simp] theorem encTypeTags_length (tags : List UInt8) :
    (encTypeTags tags).length = roundUp4 (tags.length + 2) := by
  have := le_roundUp4 (tags.length + 2)
  simp [encTypeTags]
  omega

/-! ## The shape of a stream -/

/-- No message is open: the written bytes are `W`, and `e` is the slot of the open element. They
fit in the capacity that the stream reports. -/
structure Idle (s : OutboundPacketStream) (cap : Nat) (e : Option Nat) (W : List UInt8) : Prop where
  written : ∃ R, s.buffer = W ++ R
  capacity : s.capacity = cap
  fits : W.length ≤ cap
  cursor : s.messageCursor = W.length
  argument : s.argumentCurrent = W.length
  slot : s.elementSizePtr = e
  slot_lt : ∀ p, e = some p → p < W.length
  idle : s.messageIsInProgress = false

/-- A message is open: behind the written bytes `W` stand its argument bytes `A`, and its type
tags stand at the end of the buffer in reverse order. -/
structure InMessage (s : OutboundPacketStream) (cap : Nat) (e : Option Nat)
    (W A tags : List UInt8) : Prop where
  written : ∃ G, s.buffer = W ++ A ++ G ++ tags.reverse
  capacity : s.capacity = cap
  cursor : s.messageCursor = W.length
  argument : s.argumentCurrent = W.length + A.length
  typeTags : s.typeTagsCurrent + tags.length = s.buffer.length
  slot : s.elementSizePtr = e
  inProgress : s.messageIsInProgress = true
  /-- The message would fit with the type tag string that it has so far. -/
  fits : W.length + A.length + roundUp4 (tags.length + 2) ≤ cap

/-- From a stream with no open message, `op` appends the bytes `bs` when they fit, and runs out
of buffer memory when they do not. The sums of the checks do not wrap then, as the capacity or
the size is small enough. -/
def Appends (op : StreamM Unit) (cap : Nat) (e : Option Nat) (bs : List UInt8) : Prop :=
  ∀ s W, Idle s cap e W →
    (W.length + bs.length ≤ cap → ∃ s', op.run s = .ok () s' ∧ Idle s' cap e (W ++ bs)) ∧
    (cap < W.length + bs.length → cap + 20 < 2 ^ 32 ∨ W.length + bs.length < 2 ^ 32 →
      ∃ s', op.run s = .error .outOfBufferMemory s')

theorem appends_pure (cap : Nat) (e : Option Nat) : Appends (pure ()) cap e [] := by
  intro s W h
  refine ⟨fun _ => ⟨s, rfl, by simpa using h⟩, fun hfull => ?_⟩
  have := h.fits
  simp only [List.length_nil] at hfull
  omega

/-- Two operations append their bytes in order. -/
theorem appends_seq {op₁ op₂ : StreamM Unit} {cap : Nat} {e : Option Nat} {xs ys : List UInt8}
    (h₁ : Appends op₁ cap e xs) (h₂ : Appends op₂ cap e ys) :
    Appends (op₁ >>= fun _ => op₂) cap e (xs ++ ys) := by
  intro s W h
  obtain ⟨ok₁, full₁⟩ := h₁ s W h
  by_cases hx : W.length + xs.length ≤ cap
  · obtain ⟨s₁, hr₁, hi₁⟩ := ok₁ hx
    obtain ⟨ok₂, full₂⟩ := h₂ s₁ (W ++ xs) hi₁
    simp only [EStateM.run_bind, hr₁]
    simp only [List.length_append, List.append_assoc, ← Nat.add_assoc] at ok₂ full₂ ⊢
    exact ⟨ok₂, full₂⟩
  · rw [List.length_append]
    refine ⟨fun _ => by omega, fun _ hsize => ?_⟩
    obtain ⟨s₁, hr₁⟩ := full₁ (by omega) (by omega)
    exact ⟨s₁, by simp only [EStateM.run_bind, hr₁]⟩

theorem Idle.eq {s : OutboundPacketStream} {cap : Nat} {e : Option Nat} {W : List UInt8}
    (h : Idle s cap e W) : ∃ R tc, s = ⟨W ++ R, tc, W.length, W.length, e, false⟩ ∧
      (W.length + R.length) % 2 ^ 32 = cap := by
  obtain ⟨⟨R, hR⟩, hcap, -, hc, ha, hs, -, hi⟩ := h
  obtain ⟨buffer, tc, mc, ac, slot, open_⟩ := s
  simp only at hR hc ha hs hi
  subst hR hc ha hs hi
  exact ⟨R, tc, rfl, by simpa [OutboundPacketStream.capacity] using hcap⟩

theorem new_idle (buffer : List UInt8) :
    Idle (OutboundPacketStream.new buffer) (OutboundPacketStream.new buffer).capacity none [] :=
  ⟨⟨buffer, rfl⟩, rfl, Nat.zero_le _, rfl, rfl, rfl, by simp, rfl⟩

theorem Idle.cap_lt {s : OutboundPacketStream} {cap : Nat} {e : Option Nat} {W : List UInt8}
    (h : Idle s cap e W) : cap < 2 ^ 32 := h.capacity ▸ s.capacity_lt

theorem Idle.size {s : OutboundPacketStream} {cap : Nat} {e : Option Nat} {W : List UInt8}
    (h : Idle s cap e W) : s.size = W.length := by
  have hfits := h.fits
  have hcap := h.cap_lt
  rw [OutboundPacketStream.size, if_neg (by simp [h.idle]), h.argument]
  exact Nat.mod_eq_of_lt (by omega)

theorem Idle.of_eq {cap tc c : Nat} {e : Option Nat} {W R : List UInt8}
    (hc : c = W.length) (hcap : (W.length + R.length) % 2 ^ 32 = cap) (hfits : W.length ≤ cap)
    (hlt : ∀ p, e = some p → p < W.length) :
    Idle ⟨W ++ R, tc, c, c, e, false⟩ cap e W where
  written := ⟨R, rfl⟩
  capacity := by simpa [OutboundPacketStream.capacity] using hcap
  fits := hfits
  cursor := hc
  argument := hc
  slot := rfl
  slot_lt := hlt
  idle := rfl

theorem InMessage.eq {s : OutboundPacketStream} {cap : Nat} {e : Option Nat}
    {W A tags : List UInt8} (h : InMessage s cap e W A tags) :
    ∃ G tc, s = ⟨W ++ A ++ G ++ tags.reverse, tc, W.length, W.length + A.length, e, true⟩ ∧
      tc = W.length + A.length + G.length ∧
      (W.length + A.length + G.length + tags.length) % 2 ^ 32 = cap := by
  obtain ⟨⟨G, hG⟩, hcap, hc, ha, htc, hs, hi, -⟩ := h
  obtain ⟨buffer, tc, mc, ac, slot, open_⟩ := s
  simp only at hG hc ha htc hs hi
  subst hG hc ha hs hi
  simp only [OutboundPacketStream.capacity, List.length_append, List.length_reverse] at hcap htc
  exact ⟨G, tc, rfl, by omega, hcap⟩

/-! ## Loads and stores -/

section memory

variable {X old R bs : List UInt8} {p n tc mc ac : Nat} {e : Option Nat} {b : Bool}

/-- A store behind the bytes `X`. -/
theorem store_after (hp : p = X.length) (hr : bs.length ≤ R.length) :
    (store p bs).run ⟨X ++ R, tc, mc, ac, e, b⟩ =
      .ok () ⟨X ++ bs ++ R.drop bs.length, tc, mc, ac, e, b⟩ := by
  have hroom : p + bs.length ≤ X.length + R.length := by omega
  simp [store, EStateM.run_bind, hroom, overwrite_after hp]

/-- A store over the bytes `old` between `X` and `R`. -/
theorem store_between (hp : p = X.length) (hl : old.length = bs.length) :
    (store p bs).run ⟨X ++ old ++ R, tc, mc, ac, e, b⟩ =
      .ok () ⟨X ++ bs ++ R, tc, mc, ac, e, b⟩ := by
  rw [List.append_assoc X old R, store_after hp (by simp; omega), ← hl, List.drop_left]

/-- A load of the bytes `old` between `X` and `R`. -/
theorem load_between {s : OutboundPacketStream} (hs : s.buffer = X ++ old ++ R)
    (hp : p = X.length) (hn : n = old.length) : (load p n).run s = .ok old s := by
  have hroom : p + n ≤ X.length + (old.length + R.length) := by omega
  subst hp hn
  simp [load, EStateM.run_bind, hs, hroom]

end memory

/-! ## Elements -/

/-- What an open element keeps in its size slot: the offset of its parent's slot. The outermost
element has no slot. -/
def slotBytes (e : Option Nat) : List UInt8 :=
  match e with
  | none => []
  | some parent => leBytes 4 parent

theorem slotBytes_length_le (e : Option Nat) : (slotBytes e).length ≤ 4 := by
  cases e <;> simp [slotBytes]

/-- A closed element with its size slot, where it has one. -/
def closed (e : Option Nat) (contents : List UInt8) : List UInt8 :=
  match e with
  | none => contents
  | some _ => encElement contents

/-- The slot pointer of an element that opens behind the bytes `W`. -/
def slotOf (e : Option Nat) (W : List UInt8) : Nat :=
  match e with
  | none => 0
  | some _ => W.length

theorem slotSize_eq (s : OutboundPacketStream) :
    s.slotSize = (slotBytes s.elementSizePtr).length := by
  cases h : s.elementSizePtr <;>
    simp [OutboundPacketStream.slotSize, OutboundPacketStream.elementSizeSlotRequired, h, slotBytes]

theorem closed_length (e : Option Nat) (contents : List UInt8) :
    (closed e contents).length = (slotBytes e).length + contents.length := by
  cases e <;> simp [closed, slotBytes, encElement]

section elements

variable {W contents R : List UInt8} {p tc mc ac : Nat} {e : Option Nat} {b : Bool}

theorem beginElement_run (hp : p = W.length) (hroom : (slotBytes e).length ≤ R.length) :
    (beginElement 4 p).run ⟨W ++ R, tc, mc, ac, e, b⟩ =
      .ok (W ++ slotBytes e).length
        ⟨W ++ slotBytes e ++ R.drop (slotBytes e).length, tc, mc, ac, some (slotOf e W), b⟩ := by
  cases e with
  | none =>
    simp only [beginElement, EStateM.run_bind, EStateM.run_get, EStateM.run_set, EStateM.run_pure]
    simp [slotBytes, slotOf, hp]
  | some parent =>
    simp only [slotBytes] at hroom
    simp only [beginElement, EStateM.run_bind, EStateM.run_get, store_after hp hroom,
      EStateM.run_modify, EStateM.run_pure]
    simp [slotBytes, slotOf, hp]

/-- An element that opened behind `W` closes: its slot gets the size of its contents, and the
parent's slot is the open one again. -/
theorem endElement_run (hW : ∀ p, e = some p → p < W.length)
    (hp : p = (W ++ slotBytes e ++ contents).length) (hcap : W.length < 2 ^ 32) :
    (endElement 4 p).run ⟨W ++ slotBytes e ++ contents ++ R, tc, mc, ac, some (slotOf e W), b⟩ =
      .ok () ⟨W ++ closed e contents ++ R, tc, mc, ac, e, b⟩ := by
  subst hp
  cases e with
  | none =>
    simp only [endElement, EStateM.run_bind, EStateM.run_get, slotOf, EStateM.run_set]
    simp [slotBytes, closed]
  | some parent =>
    have hparent := hW parent rfl
    obtain ⟨n, hn⟩ : ∃ n, W.length = n + 1 := ⟨W.length - 1, by omega⟩
    have hsize : (W ++ leBytes 4 parent ++ contents).length - W.length - 4 = contents.length := by
      simp only [List.length_append, leBytes_length]
      omega
    have hback : leValue (leBytes 4 parent) = parent := leValue_leBytes_of_lt (by omega)
    have hload : (load W.length 4).run ⟨W ++ leBytes 4 parent ++ contents ++ R, tc, mc, ac,
        some W.length, b⟩ = .ok (leBytes 4 parent)
          ⟨W ++ leBytes 4 parent ++ contents ++ R, tc, mc, ac, some W.length, b⟩ :=
      load_between (List.append_assoc _ contents R) rfl (leBytes_length 4 parent).symm
    have hstore : (store W.length (beBytes 4 contents.length)).run
        ⟨W ++ leBytes 4 parent ++ (contents ++ R), tc, mc, ac, some W.length, b⟩ =
          .ok () ⟨W ++ beBytes 4 contents.length ++ (contents ++ R), tc, mc, ac, some W.length,
            b⟩ :=
      store_between rfl (by simp)
    simp only [slotBytes, slotOf, closed, encElement, ← List.append_assoc] at hload hstore ⊢
    simp only [endElement, EStateM.run_bind, EStateM.run_get]
    rw [hn] at hload hstore hsize ⊢
    simp only [hload, fromUInt32, hsize, hstore, hback, EStateM.run_bind, EStateM.run_modify]

end elements

end esc_platform.osc
