-- From the sender to the listener: the bytes that `appendBundle` writes are
-- a packet of the format, so the listener queues the messages of the bundle.
import EscPlatform.Osc.StreamWrites
import EscPlatform.Osc.ListenerLaws

namespace esc_platform.osc

open bytes traced_reads

/-! ## What may be sent -/

/-- A string argument without a NUL. -/
def Arg.Clean : Arg → Prop
  | .string value => (0 : UInt8) ∉ value
  | _ => True

/-- An address without a NUL that does not look like a bundle, and clean arguments. -/
structure Message.Clean (m : Message) : Prop where
  address : (0 : UInt8) ∉ m.address
  head : m.address.head? ≠ some (ascii '#')
  args : ∀ arg ∈ m.args, arg.Clean

def Bundle.Clean (b : Bundle) : Prop := ∀ m ∈ flatten b, m.Clean

/-! ## Strings and arguments -/

theorem zeroPad_add_four (i : Nat) (hi : 0 < i) : zeroPad (i + 4) = zeroPad i := by
  unfold zeroPad
  congr 1
  unfold roundUp4
  rw [if_neg (by omega), if_neg (by omega)]
  omega

/-- The string block that starts with the bytes `s` ends at its padding. -/
theorem splitStr4Tail_padded (s rest : List UInt8) (h : (0 : UInt8) ∉ s) :
    splitStr4Tail (s ++ 0 :: zeroPad (s.length + 1) ++ rest) =
      some (s ++ 0 :: zeroPad (s.length + 1), rest) := by
  induction s using splitStr4Tail.induct with
  | case1 a b c rest' => simp at h
  | case2 a b c d s hd ih =>
    have hs : (0 : UInt8) ∉ s := by
      intro h0
      exact h (by simp [h0])
    have hpad : zeroPad ((a :: b :: c :: d :: s).length + 1) = zeroPad (s.length + 1) := by
      rw [← zeroPad_add_four (s.length + 1) (by omega)]
      rfl
    rw [hpad]
    simp only [List.cons_append, splitStr4Tail, if_neg hd] at ih ⊢
    rw [ih hs]
    rfl
  | case3 s hs =>
    -- fewer than four bytes
    rcases s with _ | ⟨a, _ | ⟨b, _ | ⟨c, _ | ⟨d, s⟩⟩⟩⟩
    · simp [zeroPad, roundUp4, splitStr4Tail, List.replicate]
    · simp [zeroPad, roundUp4, splitStr4Tail, List.replicate]
    · simp [zeroPad, roundUp4, splitStr4Tail]
    · simp [zeroPad, roundUp4, splitStr4Tail]
    · exact absurd rfl (hs a b c d s)

theorem encString_eq {s : List UInt8} (h : (0 : UInt8) ∉ s) :
    encString s = s ++ 0 :: zeroPad (s.length + 1) := by
  rw [encString, cStr_eq_self h]

theorem splitStr4_encString {s : List UInt8} (h : (0 : UInt8) ∉ s) (rest : List UInt8) :
    splitStr4 (encString s ++ rest) = some (encString s, rest) := by
  rw [encString_eq h]
  cases s with
  | nil => rfl
  | cons c s =>
    have hc : c ≠ 0 := by
      rintro rfl
      exact h List.mem_cons_self
    rw [← splitStr4Tail_padded (c :: s) rest h, splitStr4]
    intro _ _ _ _ heq
    exact hc (List.cons.inj heq).1

theorem cStr_encString {s : List UInt8} (h : (0 : UInt8) ∉ s) : cStr (encString s) = s := by
  rw [encString_eq h]
  exact cStr_append_zero h _

theorem takeBytes_append_self (xs rest : List UInt8) :
    takeBytes xs.length (xs ++ rest) = some (xs, rest) := by
  simp [takeBytes]

theorem word32_beBytes (w : UInt32) : word32 (beBytes 4 w.toNat) = w := by
  have hlt : w.toNat < 256 ^ 4 := by
    have := w.toNat_lt
    omega
  rw [word32, beValue_beBytes_of_lt hlt, UInt32.ofNat_toNat]

theorem parseArg_encArg (arg : Arg) (h : arg.Clean) (rest : List UInt8) :
    parseArg arg.typeTag (encArg arg ++ rest) = some (arg.toValue, rest) := by
  cases arg with
  | int32 value =>
    have := takeBytes_append_self (beBytes 4 value.toUInt32.toNat) rest
    rw [beBytes_length] at this
    simp [parseArg, Arg.typeTag, encArg, this, word32_beBytes, Arg.toValue]
  | float bits =>
    have := takeBytes_append_self (beBytes 4 bits.toNat) rest
    rw [beBytes_length] at this
    simp [parseArg, Arg.typeTag, encArg, this, word32_beBytes, Arg.toValue]
  | string value =>
    simp [parseArg, Arg.typeTag, encArg, splitStr4_encString h, cStr_encString h, Arg.toValue]

theorem parseArgs_encArgs (args : List Arg) (h : ∀ arg ∈ args, arg.Clean) (rest : List UInt8) :
    parseArgs (typeTags args) (encArgs args ++ rest) = some (args.map Arg.toValue, rest) := by
  induction args with
  | nil => rfl
  | cons arg args ih =>
    obtain ⟨harg, hargs⟩ := List.forall_mem_cons.mp h
    have htags : typeTags (arg :: args) = arg.typeTag.byte :: typeTags args := rfl
    have hbytes : encArgs (arg :: args) ++ rest = encArg arg ++ (encArgs args ++ rest) := by
      simp [encArgs]
    rw [htags, hbytes, parseArgs, TypeTag.ofByte_byte, Option.bind_some, parseArg_encArg arg harg,
      Option.bind_some]
    simp only [ih hargs]
    rfl

theorem encArg_length_mod (arg : Arg) : (encArg arg).length % 4 = 0 := by
  cases arg with
  | int32 value => simp [encArg]
  | float bits => simp [encArg]
  | string value =>
    simp only [encArg, encString_length]
    exact roundUp4_mod _

theorem encArgs_length_mod (args : List Arg) : (encArgs args).length % 4 = 0 := by
  induction args with
  | nil => rfl
  | cons arg args ih =>
    have := encArg_length_mod arg
    have hcons : encArgs (arg :: args) = encArg arg ++ encArgs args := rfl
    rw [hcons, List.length_append]
    omega

/-! ## Messages -/

theorem zero_not_mem_typeTags (args : List Arg) : (0 : UInt8) ∉ typeTags args := by
  intro h
  obtain ⟨arg, -, h⟩ := List.mem_map.mp h
  exact arg.typeTag.byte_ne_zero h

/-- The type tag string is the string of a comma and the type tags. -/
theorem encTypeTags_eq {tags : List UInt8} (h : (0 : UInt8) ∉ tags) :
    encTypeTags tags = encString (ascii ',' :: tags) := by
  have hcomma : ascii ',' ≠ 0 := by decide
  have hle := le_roundUp4 (tags.length + 2)
  rw [encString_eq (by simp [h, hcomma.symm]), encTypeTags]
  congr 1
  rw [zeroPad, List.length_cons, ← List.replicate_succ]
  congr 1
  have htwo : roundUp4 (tags.length + 1 + 1) = roundUp4 (tags.length + 2) := rfl
  omega

theorem parseTypeTags_encTypeTags {address tags args : List UInt8} (h : (0 : UInt8) ∉ tags)
    (hargs : tags = [] → args = []) :
    parseTypeTags address (encTypeTags tags ++ args) = some ⟨address, tags, args⟩ := by
  have hcomma : ascii ',' ≠ 0 := by decide
  cases tags with
  | nil =>
    obtain rfl := hargs rfl
    rfl
  | cons t ts =>
    have ht : t ≠ 0 := by
      rintro rfl
      exact h List.mem_cons_self
    have hsplit := splitStr4_encString (s := ascii ',' :: t :: ts) (by simp [h, hcomma.symm]) args
    rw [← encTypeTags_eq h] at hsplit
    have hcstr : cStr (encTypeTags (t :: ts)) = ascii ',' :: t :: ts := by
      rw [encTypeTags_eq h]
      exact cStr_encString (by simp [h, hcomma.symm])
    have hcons : ∃ r, encTypeTags (t :: ts) ++ args = ascii ',' :: t :: r := ⟨_, rfl⟩
    obtain ⟨r, hr⟩ := hcons
    rw [hr] at hsplit ⊢
    rw [parseTypeTags, if_neg (by simp), if_neg (by simpa using ht), hsplit]
    simp [hcstr]

/-- The encoding of a clean message says the message. -/
theorem parseMessage_encMessage (m : Message) (h : m.Clean) :
    parseMessage (encMessage m) = some m.decoded := by
  have hmod : (encMessage m).length % 4 = 0 := by
    have h1 := roundUp4_mod ((cStr m.address).length + 1)
    have h2 := roundUp4_mod ((typeTags m.args).length + 2)
    have h3 := encArgs_length_mod m.args
    simp only [encMessage, List.length_append, encString_length, encTypeTags_length]
    omega
  have hne : encMessage m ≠ [] := by
    have := le_roundUp4 ((cStr m.address).length + 1)
    intro hnil
    have hlen := congrArg List.length hnil
    simp only [encMessage, List.length_append, encString_length, List.length_nil] at hlen
    omega
  have hnil : typeTags m.args = [] → encArgs m.args = [] := by
    intro htags
    simp [encArgs, List.map_eq_nil_iff.mp htags]
  have hhead : parseHeader (encMessage m) = some ⟨m.address, typeTags m.args, encArgs m.args⟩ := by
    rw [parseHeader, if_neg (by simp [hne, hmod]), encMessage, List.append_assoc,
      splitStr4_encString h.address, Option.bind_some]
    simp only [cStr_encString h.address]
    exact parseTypeTags_encTypeTags (zero_not_mem_typeTags m.args) hnil
  have hargs := parseArgs_encArgs m.args h.args []
  rw [List.append_nil] at hargs
  rw [parseMessage, hhead, Option.bind_some, hargs]
  rfl

/-- No clean message looks like a bundle. -/
theorem encMessage_head (m : Message) (h : m.Clean) :
    (encMessage m).head? ≠ some (ascii '#') := by
  have hhash : (0 : UInt8) ≠ ascii '#' := by decide
  rw [encMessage, encString_eq h.address]
  cases haddr : m.address with
  | nil => simpa using hhash
  | cons c cs => simpa [haddr] using h.head

/-! ## Bundles -/

theorem elements_append {xs ys : List UInt8} {ds ds' : List Decoded} (hx : Elements xs ds)
    (hy : Elements ys ds') : Elements (xs ++ ys) (ds ++ ds') := by
  induction hx with
  | nil => exact hy
  | message hsize hvalue hcontents hm hrest ih =>
    rw [List.append_assoc]
    exact .message hsize hvalue hcontents hm ih
  | @bundle size timeTag elements rest ms ms' hsize hvalue htimeTag helements hrest ih ih' =>
    rw [List.append_assoc _ rest ys, List.append_assoc ms]
    exact .bundle hsize hvalue htimeTag helements ih'

theorem encMessages_elements (ms : List Message) (h : ∀ m ∈ ms, m.Clean)
    (hlt : (encMessages ms).length < 2 ^ 32) :
    Elements (encMessages ms) (ms.map Message.decoded) := by
  induction ms with
  | nil => exact .nil
  | cons m ms ih =>
    obtain ⟨hm, hms⟩ := List.forall_mem_cons.mp h
    have hcons : encMessages (m :: ms) = beBytes 4 (encMessage m).length ++ encMessage m ++
        encMessages ms := by
      simp [encMessages, encElement]
    rw [hcons] at hlt ⊢
    simp only [List.length_append, beBytes_length] at hlt
    exact .message (beBytes_length _ _) (beValue_beBytes_of_lt (by omega)) (encMessage_head m hm)
      (parseMessage_encMessage m hm) (ih hms (by omega))

mutual

/-- The encoding of a bundle is a header and elements that say the flattened bundle. -/
theorem encBundle_elements : ∀ (b : Bundle), b.Clean → (encBundle b).length < 2 ^ 32 →
    ∃ elements, encBundle b = bundlePattern ++ beBytes 8 1 ++ elements ∧
      Elements elements ((flatten b).map Message.decoded)
  | .mk messages bundles, h, hlt => by
    simp only [Bundle.Clean, flatten, List.mem_append] at h
    simp only [encBundle, List.length_append] at hlt
    refine ⟨_, rfl, ?_⟩
    rw [flatten, List.map_append]
    exact elements_append
      (encBundles_elements bundles (fun m hm => h m (.inl hm)) (by omega))
      (encMessages_elements messages (fun m hm => h m (.inr hm)) (by omega))

theorem encBundles_elements : ∀ (bs : List Bundle), (∀ m ∈ flattenAll bs, m.Clean) →
    (encBundles bs).length < 2 ^ 32 →
    Elements (encBundles bs) ((flattenAll bs).map Message.decoded)
  | [], _, _ => .nil
  | b :: bs, h, hlt => by
    simp only [flattenAll, List.mem_append] at h
    simp only [encBundles, encElement, List.length_append, beBytes_length] at hlt
    obtain ⟨elements, heq, helements⟩ :=
      encBundle_elements b (fun m hm => h m (.inl hm)) (by omega)
    have hbs := encBundles_elements bs (fun m hm => h m (.inr hm)) (by omega)
    rw [flattenAll, List.map_append, encBundles, encElement]
    rw [heq] at hlt ⊢
    exact .bundle (beBytes_length _ _) (beValue_beBytes_of_lt (by omega)) (beBytes_length _ _)
      helements hbs

end

/-! ## The round trip -/

/-- A run of `appendBundle` that throws nothing leaves the stream ready, with the encoding of the
bundle as its packet. -/
theorem appendBundle_packet {buffer : List UInt8} {b : Bundle} {s : OutboundPacketStream}
    (hcap : buffer.length < 2 ^ 30)
    (hrun : (appendBundle 4 b).run (OutboundPacketStream.new buffer) = .ok () s) :
    s.isReady = true ∧ s.packet = encBundle b ∧ (encBundle b).length < 2 ^ 30 := by
  obtain ⟨ok, full⟩ := appendBundle_appends b none _ [] (new_idle buffer)
  rw [OutboundPacketStream.new_capacity (by omega)] at ok full
  by_cases hfits : ([] : List UInt8).length + (closed none (encBundle b)).length ≤ buffer.length
  · obtain ⟨s', hs', h⟩ := ok hfits
    rw [hrun] at hs'
    cases hs'
    obtain ⟨R, hR⟩ := h.written
    have hsize : s.size = (encBundle b).length := h.size
    refine ⟨?_, ?_, ?_⟩
    · simp [OutboundPacketStream.isReady, OutboundPacketStream.isBundleInProgress, h.idle, h.slot]
    · rw [OutboundPacketStream.packet, hsize, hR]
      simp [closed]
    · simp only [List.length_nil, closed] at hfits
      omega
  · obtain ⟨s', hs'⟩ := full (by omega) (.inl (by omega))
    rw [hrun] at hs'
    cases hs'

/-- A bundle that fits in the buffer is written without an exception. -/
theorem appendBundle_fits (buffer : List UInt8) (b : Bundle) (hcap : buffer.length < 2 ^ 30)
    (hfits : (encBundle b).length ≤ buffer.length) :
    ∃ s, (appendBundle 4 b).run (OutboundPacketStream.new buffer) = .ok () s := by
  obtain ⟨s, hs, -⟩ := (appendBundle_appends b none _ [] (new_idle buffer)).1
    (by rw [OutboundPacketStream.new_capacity (by omega)]; simpa [closed] using hfits)
  exact ⟨s, hs⟩

/-- A message sent by `sendMessage` is a bundle of one message. -/
theorem sendMessageStream_eq (w : Nat) (m : Message) :
    sendMessageStream w m = appendBundle w (.mk [m] []) := by
  simp [sendMessageStream, appendBundle, appendBundles, appendMessages]

/-- What the sender writes, the listener queues: a bundle that `appendBundle` writes without an
exception leaves the stream ready, and its packet makes a listener without callback enqueue the
flattened bundle, each message with its address and its arguments. The packet of `sendMessage`
is the one of a bundle with one message. -/
theorem bundle_round_trip (b : Bundle) (hb : b.Clean) (buffer : List UInt8)
    (hcap : buffer.length < 2 ^ 30) (s : OutboundPacketStream)
    (hrun : (appendBundle 4 b).run (OutboundPacketStream.new buffer) = .ok () s) :
    s.isReady = true ∧
      (∀ m, b = .mk [m] [] →
        (sendMessageStream 4 m).run (OutboundPacketStream.new buffer) = .ok () s) ∧
      ∀ (mem : Memory) (ep : IpEndpointName) (l : OscListener),
        slice mem 0 s.packet.length = s.packet → l.mCallbackFn = false →
        ∃ n, ∀ fuel ≥ n,
          (processPacket mem ep (processMessage mem fuel) fuel s.packet.length).run l =
            .ok () { l with mMessages := l.mMessages ++
              (flatten b).map (·.setRemoteEndpoint ep.addressAsString ep.port) } := by
  obtain ⟨hready, hpacket, hlt⟩ := appendBundle_packet hcap hrun
  refine ⟨hready, ?_, fun mem ep l hmem hl => ⟨2 * s.packet.length + 1, fun fuel hfuel => ?_⟩⟩
  · rintro m rfl
    rwa [sendMessageStream_eq]
  rw [hpacket] at hmem hfuel ⊢
  obtain ⟨elements, heq, helements⟩ := encBundle_elements b hb (by omega)
  have hformat : Packet (encBundle b) ((flatten b).map Message.decoded) := by
    rw [heq]
    exact .bundle (beBytes_length _ _) helements
  rw [processPacket_run hformat hmem (by omega) (by omega) (by omega),
    deliverAll_queue ep (flatten b) hl]

/-- A bundle with a sub-bundle, an empty argument list and an empty string. -/
theorem bundle_round_trip_nested : ∃ s n,
    (appendBundle 4 (.mk [⟨[47, 97], [.int32 (-1), .string []], "", 0⟩]
      [.mk [⟨[47], [], "", 0⟩] []])).run (OutboundPacketStream.new (List.replicate 96 0)) =
        .ok () s ∧ s.isReady = true ∧
    ∀ fuel ≥ n,
      (processPacket (fun i => s.packet.getD i 0) ⟨0xFFFFFFFF, 7000⟩
        (processMessage (fun i => s.packet.getD i 0) fuel) fuel s.packet.length).run {} =
          .ok () { mMessages := [⟨[47], [], "<any>", 7000⟩,
            ⟨[47, 97], [.int32 (-1), .string []], "<any>", 7000⟩] } := by
  have hclean : Bundle.Clean (.mk [⟨[47, 97], [.int32 (-1), .string []], "", 0⟩]
      [.mk [⟨[47], [], "", 0⟩] []]) := by
    intro m hm
    simp only [flatten, flattenAll, List.append_nil, List.nil_append, List.cons_append,
      List.mem_cons, List.not_mem_nil, or_false] at hm
    rcases hm with rfl | rfl
    · exact ⟨by decide, by decide, by simp⟩
    · exact ⟨by decide, by decide, by simp [Arg.Clean]⟩
  obtain ⟨s, hs⟩ := appendBundle_fits (List.replicate 96 0)
    (.mk [⟨[47, 97], [.int32 (-1), .string []], "", 0⟩] [.mk [⟨[47], [], "", 0⟩] []])
    (by simp) (by decide)
  obtain ⟨hready, -, hrun⟩ := bundle_round_trip _ hclean _ (by simp) s hs
  have hmem : slice (fun i => s.packet.getD i 0) 0 s.packet.length = s.packet :=
    slice_eq_of_getElem? fun i hi => by simp [hi]
  obtain ⟨n, hn⟩ := hrun _ ⟨0xFFFFFFFF, 7000⟩ {} hmem rfl
  exact ⟨s, n, hs, hready, hn⟩

end esc_platform.osc
