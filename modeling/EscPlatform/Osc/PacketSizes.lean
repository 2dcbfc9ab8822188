-- The sizes of the packets that the sender makes, against the buffer that it
-- writes them to and the buffer that the receiving thread has for them.
import EscPlatform.Osc.Builds
import EscPlatform.Osc.Listener
import EscPlatform.Osc.RoundTrip

namespace esc_platform.osc

open bytes

/-! ## Sizes -/

/-- The bytes that a string takes with its NUL and its padding. -/
def stringSize (s : List UInt8) : Nat := roundUp4 ((cStr s).length + 1)

def argSize : Arg → Nat
  | .int32 _ => 4
  | .float _ => 4
  | .string value => stringSize value

/-- The address, the type tags with their comma and a NUL, and the arguments. -/
def messageSize (m : Message) : Nat :=
  stringSize m.address + roundUp4 (m.args.length + 2) + (m.args.map argSize).sum

mutual

/-- The header of a bundle, and its elements with four bytes for the size of each. -/
def bundleSize : Bundle → Nat
  | .mk messages bundles =>
    16 + bundlesSize bundles + (messages.map fun m => 4 + messageSize m).sum

def bundlesSize : List Bundle → Nat
  | [] => 0
  | b :: bs => 4 + bundleSize b + bundlesSize bs

end

theorem encArg_length (arg : Arg) : (encArg arg).length = argSize arg := by
  cases arg <;> simp [encArg, argSize, stringSize]

theorem encMessage_length (m : Message) : (encMessage m).length = messageSize m := by
  have hargs : (encArgs m.args).length = (m.args.map argSize).sum := by
    simp only [encArgs, List.length_flatMap, encArg_length]
  simp only [encMessage, List.length_append, encString_length, encTypeTags_length, typeTags,
    List.length_map, hargs, messageSize, stringSize]

theorem encMessages_length (ms : List Message) :
    (encMessages ms).length = (ms.map fun m => 4 + messageSize m).sum := by
  simp only [encMessages, List.length_flatMap, encElement, List.length_append, beBytes_length,
    encMessage_length]

mutual

theorem encBundle_length : ∀ b : Bundle, (encBundle b).length = bundleSize b
  | .mk messages bundles => by
    have hp : bundlePattern.length = 8 := rfl
    simp only [encBundle, List.length_append, beBytes_length, hp, encBundles_length bundles,
      encMessages_length, bundleSize]
    omega

theorem encBundles_length : ∀ bs : List Bundle, (encBundles bs).length = bundlesSize bs
  | [] => rfl
  | b :: bs => by
    simp only [encBundles, encElement, List.length_append, beBytes_length, encBundle_length b,
      encBundles_length bs, bundlesSize]

end

/-! ## What is sent -/

theorem datagramOf_inv {op : StreamM Unit} {buffer packet : List UInt8}
    (h : datagramOf op buffer = .ok packet) :
    ∃ s, op.run (OutboundPacketStream.new buffer) = .ok () s ∧ s.packet = packet := by
  unfold datagramOf at h
  cases hrun : op.run (OutboundPacketStream.new buffer) with
  | error ex s =>
    rw [hrun] at h
    cases h
  | ok a s =>
    rw [hrun] at h
    cases h
    exact ⟨s, rfl, rfl⟩

/-- On either build, a bundle that gets through is sent as its encoding. -/
theorem appendBundle_datagram {w : Nat} (hw : w = 4 ∨ w = 8) {buffer packet : List UInt8}
    {b : Bundle} (hcap : buffer.length < 2 ^ 30)
    (h : datagramOf (appendBundle w b) buffer = .ok packet) : packet = encBundle b := by
  obtain ⟨s, hrun, rfl⟩ := datagramOf_inv h
  rcases hw with rfl | rfl
  · exact (appendBundle_packet hcap hrun).2.1
  · have hwide : (OutboundPacketStream.new buffer).buffer.length < 2 ^ 32 := by
      change buffer.length < 2 ^ 32
      omega
    obtain ⟨-, hnarrow⟩ := narrows_appendBundle b _ _ _ hwide hrun
    exact (appendBundle_packet hcap hnarrow).2.1

theorem sendBundle_packet {w : Nat} (hw : w = 4 ∨ w = 8) {buffer : OutputBuffer 32768} {b : Bundle}
    {packet : List UInt8} (h : sendBundle w buffer b = .ok packet) :
    packet.length = bundleSize b := by
  rw [appendBundle_datagram hw (by rw [buffer.property]; omega) h, encBundle_length]

theorem sendMessage_packet {w : Nat} (hw : w = 4 ∨ w = 8) {buffer : OutputBuffer 16384}
    {m : Message} {packet : List UInt8} (h : sendMessage w buffer m = .ok packet) :
    packet.length = 20 + messageSize m := by
  unfold sendMessage at h
  rw [sendMessageStream_eq] at h
  rw [appendBundle_datagram hw (by rw [buffer.property]; omega) h, encBundle_length]
  simp only [bundleSize, bundlesSize, List.map_cons, List.map_nil, List.sum_cons, List.sum_nil]
  omega

theorem datagramOf_ok {op : StreamM Unit} {buffer : List UInt8} {s : OutboundPacketStream}
    (h : op.run (OutboundPacketStream.new buffer) = .ok () s) :
    datagramOf op buffer = .ok s.packet := by
  rw [datagramOf, h]

theorem sendBundle_fits (buffer : OutputBuffer 32768) (b : Bundle) (h : bundleSize b ≤ 32768) :
    ∃ packet, sendBundle 4 buffer b = .ok packet := by
  have hlen := buffer.property
  obtain ⟨s, hrun⟩ := appendBundle_fits buffer.val b (by omega) (by rw [encBundle_length]; omega)
  exact ⟨s.packet, datagramOf_ok hrun⟩

theorem sendMessage_fits (buffer : OutputBuffer 16384) (m : Message)
    (h : 20 + messageSize m ≤ 16384) : ∃ packet, sendMessage 4 buffer m = .ok packet := by
  have hlen := buffer.property
  have hsize : bundleSize (.mk [m] []) = 20 + messageSize m := by
    simp only [bundleSize, bundlesSize, List.map_cons, List.map_nil, List.sum_cons, List.sum_nil]
    omega
  obtain ⟨s, hrun⟩ := appendBundle_fits buffer.val (.mk [m] []) (by omega)
    (by rw [encBundle_length]; omega)
  rw [← sendMessageStream_eq] at hrun
  exact ⟨s.packet, datagramOf_ok hrun⟩

/-! ## What the sender refuses -/

/-- The next multiple of four. -/
def pad4 (x : Nat) : Nat := (x + 3) / 4 * 4

def encSizeArg : Arg → Nat
  | .int32 _ => 4
  | .float _ => 4
  | .string value => pad4 (value.length + 1)

def encSizeMessage (m : Message) : Nat :=
  pad4 (m.address.length + 1) + pad4 (m.args.length + 2) + (m.args.map encSizeArg).sum

mutual

/-- The size of the packet of a bundle, from its strings alone. -/
def encSize : Bundle → Nat
  | .mk messages bundles =>
    16 + encSizeAll bundles + (messages.map fun m => 4 + encSizeMessage m).sum

def encSizeAll : List Bundle → Nat
  | [] => 0
  | b :: bs => 4 + encSize b + encSizeAll bs

end

/-- No address and no string argument has a NUL. -/
structure Message.NulFree (m : Message) : Prop where
  address : 0 ∉ m.address
  args : ∀ arg ∈ m.args, arg.Clean

def Bundle.NulFree (b : Bundle) : Prop := ∀ m ∈ flatten b, m.NulFree

theorem pad4_eq_roundUp4 {x : Nat} (h : 0 < x) : pad4 x = roundUp4 x := by
  unfold pad4 roundUp4
  split <;> omega

theorem stringSize_eq {s : List UInt8} (h : 0 ∉ s) : stringSize s = pad4 (s.length + 1) := by
  rw [stringSize, cStr_eq_self h, pad4_eq_roundUp4 (Nat.succ_pos _)]

theorem messageSize_eq {m : Message} (h : m.NulFree) : messageSize m = encSizeMessage m := by
  have hargs : m.args.map argSize = m.args.map encSizeArg := by
    apply List.map_congr_left
    intro arg harg
    cases arg with
    | int32 value => rfl
    | float bits => rfl
    | string value => exact stringSize_eq (h.args _ harg)
  have htags : pad4 (m.args.length + 2) = roundUp4 (m.args.length + 2) :=
    pad4_eq_roundUp4 (Nat.succ_pos _)
  rw [messageSize, encSizeMessage, hargs, htags, stringSize_eq h.address]

mutual

theorem bundleSize_eq : ∀ b : Bundle, b.NulFree → bundleSize b = encSize b
  | .mk messages bundles, h => by
    simp only [Bundle.NulFree, flatten, List.mem_append] at h
    have hmessages : messages.map (fun m => 4 + messageSize m) =
        messages.map fun m => 4 + encSizeMessage m := by
      apply List.map_congr_left
      intro m hm
      rw [messageSize_eq (h m (.inr hm))]
    rw [bundleSize, encSize, hmessages, bundlesSize_eq bundles fun m hm => h m (.inl hm)]

theorem bundlesSize_eq :
    ∀ bs : List Bundle, (∀ m ∈ flattenAll bs, m.NulFree) → bundlesSize bs = encSizeAll bs
  | [], _ => rfl
  | b :: bs, h => by
    simp only [flattenAll, List.mem_append] at h
    rw [bundlesSize, encSizeAll, bundleSize_eq b fun m hm => h m (.inl hm),
      bundlesSize_eq bs fun m hm => h m (.inr hm)]

end

/-- On a fresh stream `appendBundle` runs out of buffer memory where the packet is longer than the
capacity that the stream reports, and otherwise ends with the size of the packet. -/
theorem appendBundle_refused_iff {b : Bundle} (hb : b.NulFree) (hsize : encSize b < 2 ^ 32)
    (buffer : List UInt8) :
    ((∃ s, (appendBundle 4 b).run (OutboundPacketStream.new buffer) =
        .error .outOfBufferMemory s) ↔ encSize b > (OutboundPacketStream.new buffer).capacity) ∧
      (encSize b ≤ (OutboundPacketStream.new buffer).capacity →
        ∃ s, (appendBundle 4 b).run (OutboundPacketStream.new buffer) = .ok () s ∧
          s.size = encSize b) := by
  obtain ⟨ok, full⟩ := appendBundle_appends b none _ [] (new_idle buffer)
  simp only [closed, encBundle_length, bundleSize_eq b hb, List.length_nil, Nat.zero_add] at ok full
  refine ⟨⟨fun ⟨s, hs⟩ => ?_, fun hlong => full hlong (.inr hsize)⟩, fun hfits => ?_⟩
  · by_contra hfits
    obtain ⟨s', hs', -⟩ := ok (by omega)
    rw [hs] at hs'
    cases hs'
  · obtain ⟨s, hs, h⟩ := ok hfits
    refine ⟨s, hs, ?_⟩
    rw [h.size, List.nil_append, encBundle_length, bundleSize_eq b hb]

/-- No bundle that fits in the buffer is refused, and none that does not fit is written. -/
def RefusesWhatIsTooLong (b : Bundle) (buffer : List UInt8) : Prop :=
  ((∃ s, (appendBundle 4 b).run (OutboundPacketStream.new buffer) =
      .error .outOfBufferMemory s) ↔ encSize b > buffer.length) ∧
    (encSize b ≤ buffer.length →
      ∃ s, (appendBundle 4 b).run (OutboundPacketStream.new buffer) = .ok () s ∧
        s.size = encSize b)

/-- The constructor takes the capacity as an `unsigned long` and `Capacity()` gives the low 32 bits
of it. So the checks are right exactly where nothing is cut, or where the packet fits in what is
left. -/
theorem a_bundle_is_refused_when_too_long_iff (b : Bundle) (hb : b.NulFree)
    (hsize : encSize b < 2 ^ 30) (buffer : List UInt8) :
    RefusesWhatIsTooLong b buffer ↔
      buffer.length < 2 ^ 32 ∨ encSize b ≤ buffer.length % 2 ^ 32 := by
  obtain ⟨hrefused, hwritten⟩ := appendBundle_refused_iff hb (by omega) buffer
  have hcapacity : (OutboundPacketStream.new buffer).capacity = buffer.length % 2 ^ 32 := rfl
  rw [hcapacity] at hrefused hwritten
  unfold RefusesWhatIsTooLong
  rw [hrefused]
  constructor
  · rintro ⟨hiff, -⟩
    omega
  · intro hcut
    refine ⟨by omega, fun hfits => hwritten (by omega)⟩

/-- A message of twelve bytes in a bundle of 32: it is written in 32 bytes, and refused in 31. -/
theorem a_bundle_is_refused_a_byte_short :
    RefusesWhatIsTooLong (.mk [⟨[47], [.int32 7], "", 0⟩] []) (List.replicate 31 0) ∧
      RefusesWhatIsTooLong (.mk [⟨[47], [.int32 7], "", 0⟩] []) (List.replicate 32 0) ∧
      encSize (.mk [⟨[47], [.int32 7], "", 0⟩] []) = 32 := by
  have hfree : Bundle.NulFree (.mk [⟨[47], [.int32 7], "", 0⟩] []) := by
    intro m hm
    simp only [flatten, flattenAll, List.nil_append, List.mem_singleton] at hm
    subst hm
    exact ⟨by decide, by simp [Arg.Clean]⟩
  exact ⟨(a_bundle_is_refused_when_too_long_iff _ hfree (by decide) _).mpr (.inl (by simp)),
    (a_bundle_is_refused_when_too_long_iff _ hfree (by decide) _).mpr (.inl (by simp)), by decide⟩

/-- A stream over 2^32 bytes reports the capacity 0 and refuses the 16 bytes of the empty bundle. -/
theorem an_empty_bundle_is_refused_in_four_gigabytes :
    Bundle.NulFree (.mk [] []) ∧ encSize (.mk [] []) = 16 ∧
      ¬ RefusesWhatIsTooLong (.mk [] []) (List.replicate (2 ^ 32) 0) := by
  have hfree : Bundle.NulFree (.mk [] []) := by simp [Bundle.NulFree, flatten, flattenAll]
  have hsize : encSize (.mk [] []) = 16 := rfl
  refine ⟨hfree, hsize, ?_⟩
  obtain ⟨buffer, hbuffer⟩ : ∃ buffer : List UInt8, buffer = List.replicate (2 ^ 32) 0 := ⟨_, rfl⟩
  have hlength : buffer.length = 2 ^ 32 := by rw [hbuffer, List.length_replicate]
  rw [← hbuffer]
  rintro ⟨hiff, -⟩
  have hcapacity : (OutboundPacketStream.new buffer).capacity = 0 := by
    rw [OutboundPacketStream.capacity, OutboundPacketStream.new, hlength, Nat.mod_self]
  have hrefused := (appendBundle_refused_iff hfree (by decide) buffer).1.mpr (by
    rw [hcapacity, hsize]
    decide)
  have htoo := hiff.mp hrefused
  omega

/-! ## What is received -/

/-- The bytes that `Run` calls `ProcessPacket` with, for a datagram that arrives whole. `data` is
the receive buffer with what is left of earlier datagrams. -/
def processedPacket (data : Memory) (d : Datagram) : Option (List UInt8) :=
  if (receiveFrom data d).2 > 0 then
    some (slice (receiveFrom data d).1 0 (receiveFrom data d).2)
  else none

variable {data : Memory} {remoteEndpoint : IpEndpointName} {packet : List UInt8}

/-- A packet is processed as it was sent where it fits in the receive buffer. -/
theorem processedPacket_eq (h : packet ≠ []) :
    processedPacket data ⟨packet, remoteEndpoint⟩ = some packet ↔
      packet.length ≤ maxBufferSize := by
  have hslice := receiveFrom_slice data ⟨packet, remoteEndpoint⟩
  have hpos : (receiveFrom data ⟨packet, remoteEndpoint⟩).2 > 0 := by
    have hlen := List.length_pos_iff.mpr h
    change (packet.take maxBufferSize).length > 0
    rw [List.length_take]
    exact Nat.lt_min.mpr ⟨by decide, hlen⟩
  rw [processedPacket, if_pos hpos]
  change some (slice _ 0 (Datagram.received ⟨packet, remoteEndpoint⟩).length) = _ ↔ _
  rw [hslice, Option.some.injEq]
  exact List.take_eq_self_iff packet

theorem processedPacket_sized {size : Nat} (hlen : packet.length = size) (hpos : 0 < size) :
    processedPacket data ⟨packet, remoteEndpoint⟩ = some packet ↔ size ≤ maxBufferSize := by
  have hne : packet ≠ [] := by
    rw [← List.length_pos_iff, hlen]
    exact hpos
  rw [processedPacket_eq hne, hlen]

/-- The receiving thread hands the processed bytes and their length to `ProcessPacket`. -/
theorem runSocket_processes {fuel : Nat} {d : Datagram} {ds : List Datagram} {l : OscListener}
    (h : processedPacket data d = some packet) :
    slice (receiveFrom data d).1 0 packet.length = packet ∧
      (runSocket fuel data (d :: ds)).run l = (do
        processPacket (receiveFrom data d).1 d.remoteEndpoint
          (processMessage (receiveFrom data d).1 fuel) fuel packet.length
        runSocket fuel (receiveFrom data d).1 ds).run l := by
  unfold processedPacket at h
  split at h
  · rename_i hpos
    have hreceived : d.received.length > 0 := hpos
    have hslice := Option.some.inj h
    have hlen : packet.length = (receiveFrom data d).2 := by
      rw [← hslice, slice_length]
    rw [hlen]
    refine ⟨hslice, ?_⟩
    simp only [runSocket_step, hreceived, if_true]
    rfl
  · cases h

/-! ## The law -/

/-- A packet that the sender finished reaches `ProcessPacket` whole exactly where its size is at
most the 4098 bytes of the receive buffer. The sender has room for up to 16384 and 32768. -/
theorem the_receiver_takes_short_packets (w : Nat) (hw : w = 4 ∨ w = 8) (data : Memory)
    (remoteEndpoint : IpEndpointName) :
    (∀ buffer m packet, sendMessage w buffer m = .ok packet →
      (processedPacket data ⟨packet, remoteEndpoint⟩ = some packet ↔ 20 + messageSize m ≤ 4098)) ∧
    (∀ buffer b packet, sendBundle w buffer b = .ok packet →
      (processedPacket data ⟨packet, remoteEndpoint⟩ = some packet ↔ bundleSize b ≤ 4098)) := by
  constructor
  · intro buffer m packet h
    exact processedPacket_sized (sendMessage_packet hw h) (by omega)
  · intro buffer b packet h
    have hpos : 16 ≤ bundleSize b := by
      obtain ⟨messages, bundles⟩ := b
      simp only [bundleSize]
      omega
    exact processedPacket_sized (sendBundle_packet hw h) (by omega)

/-- An array of zeros. -/
def zeroBuffer (size : Nat) : OutputBuffer size := ⟨List.replicate size 0, List.length_replicate⟩

theorem the_receiver_takes_short_packets_int :
    (∃ packet, sendMessage 4 (zeroBuffer 16384) ⟨[47], [.int32 7], "", 0⟩ = .ok packet ∧
      processedPacket (fun _ => 0) ⟨packet, ⟨0, 0⟩⟩ = some packet) ∧
    ∃ packet, sendBundle 4 (zeroBuffer 32768) (.mk [] [.mk [] []]) = .ok packet ∧
      processedPacket (fun _ => 0) ⟨packet, ⟨0, 0⟩⟩ = some packet := by
  have hlaw := the_receiver_takes_short_packets 4 (.inl rfl) (fun _ => 0) ⟨0, 0⟩
  constructor
  · obtain ⟨packet, h⟩ := sendMessage_fits (zeroBuffer 16384)
      ⟨[47], [.int32 7], "", 0⟩ (by decide)
    exact ⟨packet, h, (hlaw.1 _ _ _ h).mpr (by decide)⟩
  · obtain ⟨packet, h⟩ := sendBundle_fits (zeroBuffer 32768) (.mk [] [.mk [] []])
      (by decide)
    exact ⟨packet, h, (hlaw.2 _ _ _ h).mpr (by decide)⟩

/-- A message with a string of 5000 bytes is sent, and is not received as it was sent. -/
theorem a_long_string_is_cut : ∃ packet,
    sendMessage 4 (zeroBuffer 16384)
      ⟨[47, 97], [.string (List.replicate 5000 97)], "", 0⟩ = .ok packet ∧
    processedPacket (fun _ => 0) ⟨packet, ⟨0, 0⟩⟩ ≠ some packet := by
  have hclean : cStr (List.replicate 5000 97) = List.replicate 5000 97 :=
    cStr_eq_self fun h => absurd (List.eq_of_mem_replicate h) (by decide)
  have hsize : messageSize ⟨[47, 97], [.string (List.replicate 5000 97)], "", 0⟩ = 5012 := by
    simp only [messageSize, argSize, stringSize, List.map_cons, List.map_nil, hclean,
      List.length_replicate]
    rfl
  obtain ⟨packet, h⟩ := sendMessage_fits (zeroBuffer 16384)
    ⟨[47, 97], [.string (List.replicate 5000 97)], "", 0⟩ (by omega)
  have hlen := sendMessage_packet (.inl rfl) h
  refine ⟨packet, h, ?_⟩
  rw [ne_eq, processedPacket_sized hlen (by omega), hsize]
  decide

end esc_platform.osc
