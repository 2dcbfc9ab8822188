-- From the trees that a stream writes to what the accessors of the reader
-- show: every kind of argument, the time tags, the counts and the nesting.
import EscPlatform.Osc.PacketPrograms
import EscPlatform.Osc.RoundTrip

namespace esc_platform.osc

open bytes traced_reads Traced bracketed ReceivedMessageArgument

/-! ## What the accessors show -/

structure ShownMessage where
  addressPattern : List UInt8
  argumentCount : Nat
  args : List Value
  deriving DecidableEq, Repr

structure ShownBundle where
  timeTag : UInt64
  elementCount : Nat
  deriving DecidableEq, Repr

abbrev ShownElement := Tree ShownBundle ShownMessage

section accessors

variable (mem : Memory) (f : Nat)

/-- `AddressPattern`, `ArgumentCount` and the arguments of a message. -/
def showMessage (m : ReceivedMessage) : ReadM ShownMessage := do
  let addressPattern ← readCString mem f m.addressPattern
  let args ← walk mem m.argumentsEnd f m.argumentsBegin
  return ⟨addressPattern, m.argumentCount, args⟩

/-- `TimeTag`, `ElementCount` and the elements of the bundles from the element `i` to
`ElementsEnd()`. -/
def showElements (fin : Nat) : Nat → Nat → ReadM (List ShownElement)
  | 0, _ => Traced.fail .outOfFuel
  | fuel + 1, i => do
    if i = fin then return []
    let size ← elementSize mem i
    if ← isBundle mem (i + 4) size.toInt then
      let b ← receivedBundle mem fuel (i + 4) (unsignedLong size)
      let timeTag ← readUInt64 mem b.timeTag
      let elements ← showElements b.fin fuel (b.timeTag + 8)
      let rest ← showElements fin fuel (advanceElement i size)
      return .node ⟨timeTag, b.elementCount⟩ elements :: rest
    else
      let m ← receivedMessage mem (i + 4) (unsignedLong size)
      let message ← showMessage mem f m
      let rest ← showElements fin fuel (advanceElement i size)
      return .leaf message :: rest

/-- A whole packet of `size` bytes. -/
def showPacket (fuel size : Nat) : ReadM ShownElement := do
  if ← isBundle mem 0 size then
    let b ← receivedBundle mem fuel 0 size
    let timeTag ← readUInt64 mem b.timeTag
    let elements ← showElements mem f b.fin fuel (b.timeTag + 8)
    return .node ⟨timeTag, b.elementCount⟩ elements
  else
    let m ← receivedMessage mem 0 size
    let message ← showMessage mem f m
    return .leaf message

end accessors

/-! ## What was written -/

/-- The argument as its accessor gives it back. A string ends at its first NUL. -/
def StreamArgument.value : StreamArgument → Value
  | .bool rhs => .bool rhs
  | .nil => .nil
  | .infinitum => .infinitum
  | .int32 rhs => .int32 rhs
  | .float rhs => .float rhs
  | .char rhs => .char rhs.toUInt8
  | .rgbaColor rhs => .rgbaColor rhs
  | .midiMessage rhs => .midiMessage rhs
  | .int64 rhs => .int64 rhs
  | .timeTag rhs => .timeTag rhs
  | .double rhs => .double rhs
  | .string rhs => .string (cStr rhs)
  | .symbol rhs => .symbol (cStr rhs)
  | .blob data => .blob data

def StreamMessage.shown (m : StreamMessage) : ShownMessage :=
  ⟨cStr m.addressPattern, m.args.length, m.args.map StreamArgument.value⟩

mutual

def shown : PacketElement → ShownElement
  | .leaf m => .leaf m.shown
  | .node timeTag es => .node ⟨timeTag, es.length⟩ (shownAll es)

def shownAll : List PacketElement → List ShownElement
  | [] => []
  | e :: es => shown e :: shownAll es

end

/-- The address does not start like a bundle. -/
def StreamMessage.NoBundle (m : StreamMessage) : Prop :=
  (cStr m.addressPattern).head? ≠ some (ascii '#')

/-! ## Arguments -/

theorem cStr_cStr (s : List UInt8) : cStr (cStr s) = cStr s := cStr_eq_self (zero_not_mem_cStr s)

theorem encString_cStr (s : List UInt8) : encString (cStr s) = encString s := by
  unfold encString
  rw [cStr_cStr]

theorem splitStr4_encoded (s rest : List UInt8) :
    splitStr4 (encString s ++ rest) = some (encString s, rest) := by
  have h := splitStr4_encString (zero_not_mem_cStr s) rest
  rwa [encString_cStr] at h

theorem cStr_encoded (s : List UInt8) : cStr (encString s) = cStr s := by
  have h := cStr_encString (zero_not_mem_cStr s)
  rwa [encString_cStr] at h

theorem takeBytes_beBytes (n v : Nat) (rest : List UInt8) :
    takeBytes n (beBytes n v ++ rest) = some (beBytes n v, rest) := by
  have h := takeBytes_append_self (beBytes n v) rest
  rwa [beBytes_length] at h

theorem word64_beBytes (w : UInt64) : word64 (beBytes 8 w.toNat) = w := by
  have hlt : w.toNat < 256 ^ 8 := by
    have := w.toNat_lt
    omega
  rw [word64, beValue_beBytes_of_lt hlt, UInt64.ofNat_toNat]

theorem roundUp4Unsigned_eq (n : Nat) : roundUp4Unsigned n = roundUp4 n := by
  unfold roundUp4Unsigned roundUp4
  split <;> split <;> omega

/-- A blob of less than 2^32 bytes is read back. -/
theorem takeBlob_encoded (data rest : List UInt8) (hlt : data.length < 2 ^ 32) :
    takeBlob (beBytes 4 data.length ++ data ++ zeroPad data.length ++ rest) =
      some (data, rest) := by
  have hle := le_roundUp4 data.length
  have hsize : (word32 (beBytes 4 data.length)).toNat = data.length := by
    rw [word32_toNat (beBytes_length _ _), beValue_beBytes_of_lt (by omega)]
  have hpadded := takeBytes_append_self (data ++ zeroPad data.length) rest
  have hlen : (data ++ zeroPad data.length).length = roundUp4 data.length := by
    rw [List.length_append, zeroPad_length]
    omega
  rw [hlen] at hpadded
  unfold takeBlob
  rw [List.append_assoc, List.append_assoc, takeBytes_beBytes, Option.bind_some]
  simp only
  rw [hsize, roundUp4Unsigned_eq, ← List.append_assoc, hpadded]
  simp

/-- A character is widened to an `int32` and cut back. -/
theorem char_value (rhs : Int8) : rhs.toInt32.toUInt32.toUInt8 = rhs.toUInt8 := by
  apply UInt8.toBitVec_inj.mp
  have hwide : rhs.toInt32.toUInt32.toUInt8.toBitVec =
      (rhs.toBitVec.signExtend 32).setWidth 8 := rfl
  rw [hwide]
  ext i hi
  have hlow : i < 8 := hi
  rw [BitVec.getElem_setWidth, BitVec.getLsbD_signExtend, if_pos hlow,
    BitVec.getLsbD_eq_getElem hlow]
  simp [show i < 32 by omega]

theorem parseArg_bytes (rhs : StreamArgument) (rest : List UInt8)
    (hlt : rhs.bytes.length < 2 ^ 32) :
    parseArg rhs.typeTag (rhs.bytes ++ rest) = some (rhs.value, rest) := by
  cases rhs with
  | bool rhs => cases rhs <;> rfl
  | nil => rfl
  | infinitum => rfl
  | int32 rhs | float rhs | rgbaColor rhs | midiMessage rhs =>
    simp [parseArg, StreamArgument.typeTag, StreamArgument.bytes, takeBytes_beBytes,
      word32_beBytes, StreamArgument.value]
  | char rhs =>
    simp [parseArg, StreamArgument.typeTag, StreamArgument.bytes, takeBytes_beBytes,
      word32_beBytes, StreamArgument.value, char_value]
  | int64 rhs | timeTag rhs | double rhs =>
    simp [parseArg, StreamArgument.typeTag, StreamArgument.bytes, takeBytes_beBytes,
      word64_beBytes, StreamArgument.value]
  | string rhs | symbol rhs =>
    simp [parseArg, StreamArgument.typeTag, StreamArgument.bytes, splitStr4_encoded,
      cStr_encoded, StreamArgument.value]
  | blob data =>
    have hdata : data.length < 2 ^ 32 := by
      simp only [StreamArgument.bytes, List.length_append] at hlt
      omega
    simp only [parseArg, StreamArgument.typeTag, StreamArgument.bytes,
      takeBlob_encoded data rest hdata]
    rfl

theorem argumentBytes_cons (rhs : StreamArgument) (args : List StreamArgument) :
    argumentBytes (rhs :: args) = rhs.bytes ++ argumentBytes args := rfl

theorem parseArgs_bytes (args : List StreamArgument) (rest : List UInt8)
    (hlt : (argumentBytes args).length < 2 ^ 32) :
    parseArgs (argumentTags args) (argumentBytes args ++ rest) =
      some (args.map StreamArgument.value, rest) := by
  induction args with
  | nil => rfl
  | cons rhs args ih =>
    rw [argumentBytes_cons, List.length_append] at hlt
    have htags : argumentTags (rhs :: args) = rhs.typeTag.byte :: argumentTags args := rfl
    rw [htags, argumentBytes_cons, List.append_assoc, parseArgs, TypeTag.ofByte_byte,
      Option.bind_some, parseArg_bytes rhs _ (by omega), Option.bind_some]
    simp only [ih (by omega)]
    rfl

theorem bytes_length_mod (rhs : StreamArgument) : rhs.bytes.length % 4 = 0 := by
  cases rhs with
  | bool rhs | nil | infinitum => rfl
  | string rhs | symbol rhs =>
    simp only [StreamArgument.bytes, encString_length]
    exact roundUp4_mod _
  | blob data =>
    have hle := le_roundUp4 data.length
    have hmod := roundUp4_mod data.length
    simp only [StreamArgument.bytes, List.length_append, beBytes_length, zeroPad_length]
    omega
  | _ => simp [StreamArgument.bytes]

theorem argumentBytes_length_mod (args : List StreamArgument) :
    (argumentBytes args).length % 4 = 0 := by
  induction args with
  | nil => rfl
  | cons rhs args ih =>
    have := bytes_length_mod rhs
    rw [argumentBytes_cons, List.length_append]
    omega

/-! ## Messages -/

theorem zero_not_mem_argumentTags (args : List StreamArgument) :
    (0 : UInt8) ∉ argumentTags args := by
  intro h
  obtain ⟨rhs, -, h⟩ := List.mem_map.mp h
  exact rhs.typeTag.byte_ne_zero h

theorem encode_length_mod (m : StreamMessage) : m.encode.length % 4 = 0 := by
  have h1 := roundUp4_mod ((cStr m.addressPattern).length + 1)
  have h2 := roundUp4_mod ((argumentTags m.args).length + 2)
  have h3 := argumentBytes_length_mod m.args
  rw [m.encode_length, encString_length]
  omega

/-- The encoding of a message says the message. -/
theorem parseMessage_encode (m : StreamMessage) (hlt : m.encode.length < 2 ^ 32) :
    parseMessage m.encode =
      some ⟨cStr m.addressPattern, m.args.map StreamArgument.value⟩ := by
  have hmod := encode_length_mod m
  have hfour := four_le_encString_length m.addressPattern
  have hlen := m.encode_length
  have hne : m.encode ≠ [] := by
    intro hnil
    rw [hnil, List.length_nil] at hlen
    omega
  have hnil : argumentTags m.args = [] → argumentBytes m.args = [] := by
    intro htags
    simp [argumentBytes, List.map_eq_nil_iff.mp htags]
  have hhead : parseHeader m.encode =
      some ⟨cStr m.addressPattern, argumentTags m.args, argumentBytes m.args⟩ := by
    rw [parseHeader, if_neg (by simp [hne, hmod]), StreamMessage.encode, List.append_assoc,
      splitStr4_encoded, Option.bind_some]
    simp only [cStr_encoded]
    exact parseTypeTags_encTypeTags (zero_not_mem_argumentTags m.args) hnil
  have hargs := parseArgs_bytes m.args [] (by omega)
  rw [List.append_nil] at hargs
  rw [parseMessage, hhead, Option.bind_some, hargs]
  rfl

theorem encode_head (m : StreamMessage) (h : m.NoBundle) :
    m.encode.head? ≠ some (ascii '#') := by
  have hhash : (0 : UInt8) ≠ ascii '#' := by decide
  unfold StreamMessage.encode encString
  unfold StreamMessage.NoBundle at h
  cases haddr : cStr m.addressPattern with
  | nil => simpa using hhash
  | cons c cs => simpa [haddr] using h

theorem parseArgs_length {ts bs rest : List UInt8} {vs : List Value}
    (h : parseArgs ts bs = some (vs, rest)) : vs.length = ts.length := by
  induction ts generalizing bs vs with
  | nil =>
    cases h
    rfl
  | cons t ts ih =>
    obtain ⟨tag, v, bs', vs', -, -, hargs, rfl⟩ := parseArgs_cons h
    rw [List.length_cons, List.length_cons, ih hargs]

/-- `ArgumentCount` is the number of arguments. -/
theorem argumentCount_eq {mem : Memory} {p n : Nat} {r : ReceivedMessage} {m : Decoded}
    (hr : (receivedMessage mem p n).result = .ok r)
    (hm : parseMessage (slice mem p n) = some m) : r.argumentCount = m.args.length := by
  obtain ⟨hd, vs, rest, hh, hargs, rfl⟩ := parseMessage_some hm
  have hlength := parseArgs_length hargs
  by_cases htags : hd.tags = []
  · have h := (receivedMessage_no_tags hh htags).1
    rw [hr] at h
    cases h
    simp [ReceivedMessage.argumentCount, hlength, htags]
  · obtain ⟨t, a, hat, hreaches⟩ := receivedMessage_tags hh htags
    have hcheck := checkArguments_yields htags hat.tags hat.tags_in hat.args_in hat.args_le
      hat.args_mod hat.args hargs (Nat.le_of_lt hat.tags_length)
    have h := hreaches.result
    rw [hr, result_bind, hcheck.1] at h
    cases h
    simp [ReceivedMessage.argumentCount, hlength]

variable {mem : Memory} {p i fin fuel f : Nat}

/-- The reader shows an encoded message as it was written. -/
theorem showMessage_encode (m : StreamMessage) (h : slice mem p m.encode.length = m.encode)
    (hlt : m.encode.length < 2 ^ 31) (hf : p + 2 * m.encode.length < f) :
    ∃ r, (receivedMessage mem p m.encode.length).result = .ok r ∧
      (showMessage mem f r).result = .ok m.shown := by
  have hm := parseMessage_encode m (by omega)
  nth_rewrite 1 [← h] at hm
  obtain ⟨r, hr, hat⟩ := receivedMessage_decodes hm
  have hcount := argumentCount_eq hr.1 hm
  refine ⟨r, hr.1, ?_⟩
  unfold showMessage
  refine bind_ok.mpr ⟨_, (hat.address (by omega)).1, bind_ok.mpr ⟨_, (hat.walk hf).1, ?_⟩⟩
  rw [hcount, List.length_map]
  rfl

/-! ## Bundles -/

mutual

theorem encodeElement_length_mod : ∀ e : PacketElement, (encodeElement e).length % 4 = 0
  | .leaf m => encode_length_mod m
  | .node timeTag es => by
    have hpattern : bundlePattern.length = 8 := rfl
    have h := encodeElements_length_mod es
    simp only [encodeElement, List.length_append, hpattern, beBytes_length]
    omega

theorem encodeElements_length_mod : ∀ es : List PacketElement, (encodeElements es).length % 4 = 0
  | [] => rfl
  | e :: es => by
    have h := encodeElement_length_mod e
    have h' := encodeElements_length_mod es
    simp only [encodeElements, encElement, List.length_append, beBytes_length]
    omega

end

theorem encodeElements_cons (e : PacketElement) (es : List PacketElement) :
    encodeElements (e :: es) =
      beBytes 4 (encodeElement e).length ++ encodeElement e ++ encodeElements es := rfl

/-- The first element of a bundle, and the bytes behind it. -/
theorem firstElement_at {e : PacketElement} {es : List PacketElement} (hi : i ≤ fin)
    (hbs : slice mem i (fin - i) = encodeElements (e :: es)) (hlt : fin < 2 ^ 31) :
    SizeAt mem i fin (encodeElement e) (encodeElements es) := by
  have hlen := congrArg List.length hbs
  rw [slice_length, encodeElements_cons] at hlen
  simp only [List.length_append] at hlen
  exact sizeAt hi hbs (beBytes_length _ _) (beValue_beBytes_of_lt (by omega))

/-- The constructor counts the elements. -/
theorem countElements_encode (es : List PacketElement) (count : Nat) (hi : i ≤ fin)
    (hbs : slice mem i (fin - i) = encodeElements es) (hlt : fin < 2 ^ 31)
    (hfuel : fin - i < fuel) :
    (countElements mem fin fuel i count).result = .ok (count + es.length) := by
  induction es generalizing i fuel count with
  | nil =>
    obtain ⟨fuel, rfl⟩ : ∃ k, fuel = k + 1 := ⟨fuel - 1, by omega⟩
    have hlen := congrArg List.length hbs
    rw [slice_length, encodeElements, List.length_nil] at hlen
    rw [countElements, if_neg (by omega), if_neg (by omega)]
    rfl
  | cons e es ih =>
    obtain ⟨fuel, rfl⟩ : ∃ k, fuel = k + 1 := ⟨fuel - 1, by omega⟩
    have hat := firstElement_at hi hbs hlt
    have hle := hat.le
    rw [countElements_step hat (encodeElement_length_mod e) (by omega),
      ih (count + 1) hle hat.behind (by omega), List.length_cons]
    congr 1
    omega

/-- The constructor takes an encoded bundle and finds its time tag, its elements and their
number. -/
theorem receivedBundle_encode (timeTag : UInt64) (es : List PacketElement) {n : Nat}
    (hbs : slice mem p n = encodeElement (.node timeTag es)) (hlt : p + n < 2 ^ 31)
    (hfuel : n < fuel) :
    (receivedBundle mem fuel p n).result = .ok ⟨p + 8, p + n, es.length⟩ ∧
      (readUInt64 mem (p + 8)).result = .ok timeTag ∧
      slice mem (p + 8 + 8) (p + n - (p + 8 + 8)) = encodeElements es ∧ 16 ≤ n := by
  have hp : bundlePattern.length = 8 := rfl
  have hlen := congrArg List.length hbs
  simp only [slice_length, encodeElement, List.length_append, hp, beBytes_length] at hlen
  have hmod := encodeElements_length_mod es
  rw [encodeElement, List.append_assoc] at hbs
  obtain ⟨hpattern, hrest⟩ := slice_append hbs
  rw [hp] at hpattern hrest
  obtain ⟨htimeTag, helements⟩ := slice_append hrest
  rw [beBytes_length] at htimeTag helements
  have hinner : p + n - (p + 8 + 8) = (encodeElements es).length := by omega
  rw [← hinner] at helements
  have hcount := countElements_encode es 0 (by omega) helements hlt
    (show p + n - (p + 8 + 8) < fuel by omega)
  refine ⟨?_, ?_, helements, by omega⟩
  · unfold receivedBundle
    rw [if_neg (by omega), if_neg (by omega), result_bind, startsWith_result, hp, hpattern]
    simp only [Except.bind, decide_true, Bool.not_true, Bool.false_eq_true, if_false, result_bind,
      hcount, Nat.zero_add]
    rfl
  · rw [(readUInt64_yields mem (Set.subset_univ _)).1, htimeTag, word64_beBytes]

/-- One turn of the walk over a message. -/
theorem showElements_message {r : ReceivedMessage} {m : ShownMessage} {es : List ShownElement}
    {contents rest : List UInt8} (hat : SizeAt mem i fin contents rest)
    (hlt : contents.length < 2 ^ 31) (hhead : contents.head? ≠ some (ascii '#'))
    (hr : (receivedMessage mem (i + 4) contents.length).result = .ok r)
    (hm : (showMessage mem f r).result = .ok m)
    (hrest : (showElements mem f fin fuel (i + 4 + contents.length)).result = .ok es) :
    (showElements mem f fin (fuel + 1) i).result = .ok (.leaf m :: es) := by
  obtain ⟨size, hsize, hint, hlong, hnext⟩ := elementSize_result hat hlt
  have hle := hat.le
  have hbundle := isBundle_contents hat.cells
  rw [← hint, decide_eq_false hhead] at hbundle
  unfold showElements
  rw [if_neg (by omega)]
  refine bind_ok.mpr ⟨size, hsize, bind_ok.mpr ⟨false, hbundle, ?_⟩⟩
  rw [if_neg (by simp), hlong, hnext]
  exact bind_ok.mpr ⟨r, hr, bind_ok.mpr ⟨m, hm, bind_ok.mpr ⟨es, hrest, rfl⟩⟩⟩

/-- One turn of the walk over a bundle. -/
theorem showElements_bundle {b : ReceivedBundle} {timeTag : UInt64} {inner es : List ShownElement}
    {contents rest : List UInt8} (hat : SizeAt mem i fin contents rest)
    (hlt : contents.length < 2 ^ 31) (hhead : contents.head? = some (ascii '#'))
    (hb : (receivedBundle mem fuel (i + 4) contents.length).result = .ok b)
    (htimeTag : (readUInt64 mem b.timeTag).result = .ok timeTag)
    (hinner : (showElements mem f b.fin fuel (b.timeTag + 8)).result = .ok inner)
    (hrest : (showElements mem f fin fuel (i + 4 + contents.length)).result = .ok es) :
    (showElements mem f fin (fuel + 1) i).result =
      .ok (.node ⟨timeTag, b.elementCount⟩ inner :: es) := by
  obtain ⟨size, hsize, hint, hlong, hnext⟩ := elementSize_result hat hlt
  have hle := hat.le
  have hbundle := isBundle_contents hat.cells
  rw [← hint, decide_eq_true hhead] at hbundle
  unfold showElements
  rw [if_neg (by omega)]
  refine bind_ok.mpr ⟨size, hsize, bind_ok.mpr ⟨true, hbundle, ?_⟩⟩
  rw [if_pos rfl, hlong, hnext]
  exact bind_ok.mpr ⟨b, hb, bind_ok.mpr ⟨timeTag, htimeTag, bind_ok.mpr ⟨inner, hinner,
    bind_ok.mpr ⟨es, hrest, rfl⟩⟩⟩⟩

/-- The walk shows encoded elements as they were written. The induction is over the fuel, which
counts elements of any depth. -/
theorem showElements_encode (es : List PacketElement) (hes : AllLeavesIn StreamMessage.NoBundle es)
    (hi : i ≤ fin) (hbs : slice mem i (fin - i) = encodeElements es) (hlt : fin < 2 ^ 31)
    (hfuel : fin - i < fuel) (hf : 2 * fin < f) :
    (showElements mem f fin fuel i).result = .ok (shownAll es) := by
  induction fuel generalizing i fin es with
  | zero => omega
  | succ fuel ih =>
    cases es with
    | nil =>
      have hlen := congrArg List.length hbs
      rw [slice_length, encodeElements, List.length_nil] at hlen
      unfold showElements
      rw [if_pos (by omega)]
      rfl
    | cons e es =>
      have hat := firstElement_at hi hbs hlt
      have hle := hat.le
      have hrest := ih es hes.2 hle hat.behind hlt (by omega) hf
      have hcells := hat.cells
      cases e with
      | leaf m =>
        obtain ⟨r, hr, hm⟩ := showMessage_encode (f := f) m hcells
          (by rw [encodeElement] at hle; omega) (by rw [encodeElement] at hle; omega)
        exact showElements_message hat (by omega) (encode_head m hes.1) hr hm hrest
      | node timeTag inner =>
        obtain ⟨hb, htimeTag, hinner, hsixteen⟩ := receivedBundle_encode timeTag inner hcells
          (show i + 4 + (encodeElement (.node timeTag inner)).length < 2 ^ 31 by omega)
          (show _ < fuel by omega)
        have hshown : (showElements mem f (i + 4 + (encodeElement (.node timeTag inner)).length)
            fuel (i + 4 + 8 + 8)).result = .ok (shownAll inner) :=
          ih inner hes.1 (by omega) hinner (by omega) (by omega) (by omega)
        exact showElements_bundle hat (by omega) rfl hb htimeTag hshown hrest

/-- The reader shows an encoded packet as it was written. -/
theorem showPacket_encode (e : PacketElement) (he : e.AllLeaves StreamMessage.NoBundle)
    (hbs : slice mem 0 (encodeElement e).length = encodeElement e)
    (hlt : (encodeElement e).length < 2 ^ 31) (hfuel : (encodeElement e).length < fuel)
    (hf : 2 * (encodeElement e).length < f) :
    (showPacket mem f fuel (encodeElement e).length).result = .ok (shown e) := by
  have hbundle := isBundle_contents hbs
  unfold showPacket
  cases e with
  | leaf m =>
    have hhead : (encodeElement (.leaf m)).head? ≠ some (ascii '#') := encode_head m he
    rw [decide_eq_false hhead] at hbundle
    obtain ⟨r, hr, hm⟩ := showMessage_encode (f := f) m hbs hlt
      (by rw [encodeElement] at hf; omega)
    refine bind_ok.mpr ⟨false, hbundle, ?_⟩
    rw [if_neg (by simp)]
    exact bind_ok.mpr ⟨r, hr, bind_ok.mpr ⟨m.shown, hm, rfl⟩⟩
  | node timeTag es =>
    have hhead : (encodeElement (.node timeTag es)).head? = some (ascii '#') := rfl
    rw [decide_eq_true hhead] at hbundle
    obtain ⟨hb, htimeTag, hinner, hsixteen⟩ := receivedBundle_encode timeTag es hbs
      (by rw [Nat.zero_add]; exact hlt) hfuel
    have hshown : (showElements mem f (0 + (encodeElement (.node timeTag es)).length) fuel
        (0 + 8 + 8)).result = .ok (shownAll es) :=
      showElements_encode es he (by omega) hinner (by omega) (by omega) (by omega)
    refine bind_ok.mpr ⟨true, hbundle, ?_⟩
    rw [if_pos rfl]
    exact bind_ok.mpr ⟨_, hb, bind_ok.mpr ⟨timeTag, htimeTag, bind_ok.mpr ⟨_, hshown, rfl⟩⟩⟩

/-! ## From the stream to the reader -/

/-- What a program writes, the accessors give back: a tree whose encoding fits is written without
an exception, and a reader of the packet shows its time tags, its counts, its addresses and all
its arguments, of any kind and at any depth. -/
theorem a_tree_is_read_back (e : PacketElement) (he : e.AllLeaves StreamMessage.NoBundle)
    (buffer : List UInt8) (hcap : buffer.length < 2 ^ 30)
    (hfits : (encodeElement e).length ≤ buffer.length) (before : List StreamOperation)
    (hfresh : before = [] ∨ before.getLast? = some .clear) :
    simulation.AllAccepted (OutboundPacketStream.answer 4) (packetStreamAfter buffer before)
        (packetProgram [e]) ∧
      (packetStreamAfter buffer (before ++ packetProgram [e])).isReady = true ∧
      ∀ (mem : Memory) (size : Nat),
        slice mem 0 size = (packetStreamAfter buffer (before ++ packetProgram [e])).packet →
        ∃ n, ∀ fuel ≥ n, ∀ f ≥ n, (showPacket mem f fuel size).result = .ok (shown e) := by
  have hone : encodePackets [e] = encodeElement e := by simp [encodePackets]
  have hshows := fresh_shows buffer hcap before hfresh
  have hafter : packetStreamAfter buffer (before ++ packetProgram [e]) =
      simulation.last (OutboundPacketStream.answer 4) (packetStreamAfter buffer before)
        (packetProgram [e]) := simulation.last_append before _
  have hroom : (encodePackets [e]).length ≤ buffer.length := by rwa [hone]
  obtain ⟨hready, hpacket⟩ := program_packet hcap hshows [e] hroom
  rw [hafter]
  refine ⟨(program_accepted_iff hcap hshows [e]).mpr hroom, hready, fun mem size hmem => ?_⟩
  rw [hpacket, hone] at hmem
  have hsize := congrArg List.length hmem
  rw [slice_length] at hsize
  subst hsize
  exact ⟨2 * (encodeElement e).length + 1, fun fuel hfuel f hf =>
    showPacket_encode e he hmem (by omega) (by omega) (by omega)⟩

/-- A bundle with a message in it, read back behind a cleared message. -/
theorem a_tree_is_read_back_cleared :
    let before : List StreamOperation := [.beginMessage [35], .clear]
    let e : PacketElement := .node 1 [.leaf ⟨[47], [.int32 7, .string [97, 0, 98]]⟩]
    ∃ n, ∀ fuel ≥ n, ∀ f ≥ n,
      (showPacket (fun i => (packetStreamAfter (List.replicate 40 9)
        (before ++ packetProgram [e])).packet.getD i 0) f fuel 36).result =
        .ok (.node ⟨1, 1⟩ [.leaf ⟨[47], 2, [.int32 7, .string [97]]⟩]) := by
  have h := a_tree_is_read_back (.node 1 [.leaf ⟨[47], [.int32 7, .string [97, 0, 98]]⟩])
    ⟨by unfold Tree.AllLeaves StreamMessage.NoBundle; decide, trivial⟩
    (List.replicate 40 9) (by simp) (by decide) [.beginMessage [35], .clear] (.inr rfl)
  exact h.2.2 _ 36 (by decide)

end esc_platform.osc
