-- The operations of a packet stream one by one: what each of them does to a
-- stream whose pointers are in order, with or without an open message, and
-- when it throws.
import EscPlatform.Osc.Encoding
import EscPlatform.Lib.Checked

namespace esc_platform.osc

open bytes checked

/-! ## The operations -/

/-- The right-hand side of an argument `operator<<`. A `float` and a `double` are the bits of
their representation. -/
inductive StreamArgument
  | bool (rhs : Bool)
  | nil
  | infinitum
  | int32 (rhs : Int32)
  | float (rhs : UInt32)
  | char (rhs : Int8)
  | rgbaColor (rhs : UInt32)
  | midiMessage (rhs : UInt32)
  | int64 (rhs : Int64)
  | timeTag (rhs : UInt64)
  | double (rhs : UInt64)
  | string (rhs : List UInt8)
  | symbol (rhs : List UInt8)
  | blob (data : List UInt8)
  deriving DecidableEq, Repr

namespace StreamArgument

def stream : StreamArgument → StreamM Unit
  | .bool rhs => streamBool rhs
  | .nil => streamNil
  | .infinitum => streamInfinitum
  | .int32 rhs => streamInt32 rhs
  | .float rhs => streamFloat rhs
  | .char rhs => streamChar rhs
  | .rgbaColor rhs => streamRgbaColor rhs
  | .midiMessage rhs => streamMidiMessage rhs
  | .int64 rhs => streamInt64 rhs
  | .timeTag rhs => streamTimeTag rhs
  | .double rhs => streamDouble rhs
  | .string rhs => streamString rhs
  | .symbol rhs => streamSymbol rhs
  | .blob data => streamBlob data

def typeTag : StreamArgument → TypeTag
  | .bool rhs => if rhs then .trueTag else .falseTag
  | .nil => .nil
  | .infinitum => .infinitum
  | .int32 _ => .int32
  | .float _ => .float
  | .char _ => .char
  | .rgbaColor _ => .rgbaColor
  | .midiMessage _ => .midiMessage
  | .int64 _ => .int64
  | .timeTag _ => .timeTag
  | .double _ => .double
  | .string _ => .string
  | .symbol _ => .symbol
  | .blob _ => .blob

/-- The bytes that the argument adds behind the others of its message. -/
def bytes : StreamArgument → List UInt8
  | .bool _ | .nil | .infinitum => []
  | .int32 rhs => beBytes 4 rhs.toUInt32.toNat
  | .float rhs | .rgbaColor rhs | .midiMessage rhs => beBytes 4 rhs.toNat
  | .char rhs => beBytes 4 rhs.toInt32.toUInt32.toNat
  | .int64 rhs => beBytes 8 rhs.toUInt64.toNat
  | .timeTag rhs | .double rhs => beBytes 8 rhs.toNat
  | .string rhs | .symbol rhs => encString rhs
  | .blob data => beBytes 4 data.length ++ data ++ zeroPad data.length

end StreamArgument

inductive StreamOperation
  | clear
  | bundleInitiator (timeTag : UInt64)
  | bundleTerminator
  | beginMessage (addressPattern : List UInt8)
  | messageTerminator
  | argument (rhs : StreamArgument)
  deriving DecidableEq, Repr

def StreamOperation.perform (w : Nat) : StreamOperation → StreamM Unit
  | .clear => osc.clear
  | .bundleInitiator timeTag => osc.bundleInitiator w timeTag.toNat
  | .bundleTerminator => osc.bundleTerminator w
  | .beginMessage addressPattern => osc.beginMessage w addressPattern
  | .messageTerminator => osc.messageTerminator w
  | .argument rhs => rhs.stream

variable {s : OutboundPacketStream} {p n : Nat} {bs xs ys : List UInt8}

/-! ## Loads and stores inside the buffer -/

theorem store_run (h : p + bs.length ≤ s.buffer.length) :
    (store p bs).run s = .ok () { s with buffer := overwrite s.buffer p bs } := by
  simp [store, EStateM.run_bind, h]

theorem load_run (h : p + n ≤ s.buffer.length) :
    (load p n).run s = .ok ((s.buffer.drop p).take n) s := by
  simp [load, EStateM.run_bind, h]

/-- Two stores in a row are one store of both. -/
theorem store_store {α : Type} (k : StreamM α) (h : p + xs.length + ys.length ≤ s.buffer.length) :
    (do store p xs; store (p + xs.length) ys; k : StreamM α).run s =
      (do store p (xs ++ ys); k : StreamM α).run s := by
  have hx : p + xs.length ≤ s.buffer.length := by omega
  have hxy : p + (xs ++ ys).length ≤ s.buffer.length := by
    rw [List.length_append]
    omega
  have hlen : (overwrite s.buffer p xs).length = s.buffer.length := overwrite_length hx
  rw [run_bind_ok (store_run hx), run_bind_ok (store_run (by rwa [hlen])),
    run_bind_ok (store_run hxy)]
  simp only [overwrite_overwrite hx]

/-! ## Arguments -/

/-- The stream with one more type tag at its end and the bytes `bs` behind its arguments. -/
def OutboundPacketStream.withArgument (s : OutboundPacketStream) (tag : TypeTag)
    (bs : List UInt8) : OutboundPacketStream :=
  { s with
    buffer := overwrite (overwrite s.buffer (s.typeTagsCurrent - 1) [tag.byte]) s.argumentCurrent bs
    typeTagsCurrent := s.typeTagsCurrent - 1
    argumentCurrent := s.argumentCurrent + bs.length }

/-- There is a byte for the next type tag. -/
theorem typeTag_fits (tag : TypeTag) (hpos : 0 < s.typeTagsCurrent)
    (hle : s.typeTagsCurrent ≤ s.buffer.length) :
    s.typeTagsCurrent - 1 + [tag.byte].length ≤ s.buffer.length := by
  rw [List.length_singleton]
  omega

theorem pushTypeTag_ok (tag : TypeTag) (hpos : 0 < s.typeTagsCurrent)
    (hle : s.typeTagsCurrent ≤ s.buffer.length) : (pushTypeTag tag).run s =
      .ok () { s with
        buffer := overwrite s.buffer (s.typeTagsCurrent - 1) [tag.byte]
        typeTagsCurrent := s.typeTagsCurrent - 1 } := by
  have hne : s.typeTagsCurrent ≠ 0 := by omega
  simp only [pushTypeTag, EStateM.run_bind, EStateM.run_get, hne, if_false,
    store_run (typeTag_fits tag hpos hle), EStateM.run_modify]

theorem pushArgument_ok (h : s.argumentCurrent + bs.length ≤ s.buffer.length) :
    (pushArgument bs).run s = .ok () { s with
      buffer := overwrite s.buffer s.argumentCurrent bs
      argumentCurrent := s.argumentCurrent + bs.length } := by
  simp only [pushArgument, EStateM.run_bind, EStateM.run_get, store_run h, EStateM.run_modify]

/-- The bytes of an argument can be written in parts. -/
theorem pushArgument_append (h : s.argumentCurrent + (xs ++ ys).length ≤ s.buffer.length) :
    (do pushArgument xs; pushArgument ys : StreamM Unit).run s =
      (pushArgument (xs ++ ys)).run s := by
  have hx : s.argumentCurrent + xs.length ≤ s.buffer.length := by
    rw [List.length_append] at h
    omega
  have hlen : (overwrite s.buffer s.argumentCurrent xs).length = s.buffer.length :=
    overwrite_length hx
  rw [run_bind_ok (pushArgument_ok hx), pushArgument_ok h, pushArgument_ok (by
    rw [List.length_append] at h
    simp only [hlen]
    omega)]
  simp only [overwrite_overwrite hx, List.length_append, Nat.add_assoc]

/-- What every argument operation does, when `op` writes the bytes `bs`. -/
theorem argument_run (bs : List UInt8) (op : StreamM Unit) (tag : TypeTag)
    (hle : s.typeTagsCurrent ≤ s.buffer.length)
    (hop : ∀ s : OutboundPacketStream, s.argumentCurrent + bs.length ≤ s.buffer.length →
      op.run s = (pushArgument bs).run s) :
    (do checkForAvailableArgumentSpace bs.length; pushTypeTag tag; op : StreamM Unit).run s =
      if s.argumentCurrent + bs.length + roundUp4 (s.typeTagsCount + 3) ≤ s.capacity
      then .ok () (s.withArgument tag bs) else .error .outOfBufferMemory s := by
  by_cases hroom : s.argumentCurrent + bs.length + roundUp4 (s.typeTagsCount + 3) ≤ s.capacity
  · have hcheck : (checkForAvailableArgumentSpace bs.length).run s = .ok () s := by
      simp only [checkForAvailableArgumentSpace, EStateM.run_bind, EStateM.run_get]
      rw [if_neg (by omega)]
      rfl
    have hround := le_roundUp4 (s.typeTagsCount + 3)
    have hcapacity := s.capacity_le
    have hcount : s.typeTagsCount = s.buffer.length - s.typeTagsCurrent := rfl
    have hlen := overwrite_length (typeTag_fits tag (by omega) hle)
    rw [if_pos hroom, run_bind_ok hcheck, run_bind_ok (pushTypeTag_ok tag (by omega) hle)]
    have hfits : s.argumentCurrent + bs.length ≤ s.buffer.length := by omega
    rw [hop _ (by simpa only [hlen] using hfits),
      pushArgument_ok (by simpa only [hlen] using hfits)]
    rfl
  · rw [if_neg hroom]
    apply run_bind_error
    simp only [checkForAvailableArgumentSpace, EStateM.run_bind, EStateM.run_get]
    rw [if_pos (by omega)]
    rfl

theorem streamTag_run (tag : TypeTag) (hle : s.typeTagsCurrent ≤ s.buffer.length) :
    (streamTag tag).run s =
      if s.argumentCurrent + roundUp4 (s.typeTagsCount + 3) ≤ s.capacity
      then .ok () (s.withArgument tag []) else .error .outOfBufferMemory s := by
  have hnothing : ∀ s : OutboundPacketStream, s.argumentCurrent + ([] : List UInt8).length ≤
      s.buffer.length → (pure () : StreamM Unit).run s = (pushArgument []).run s := by
    intro s hroom
    rw [pushArgument_ok hroom]
    simp [overwrite, EStateM.run_pure]
  have h := argument_run [] (pure ()) tag hle hnothing
  simpa only [streamTag, List.length_nil, Nat.add_zero, bind_pure_unit] using h

theorem streamWord_run (tag : TypeTag) (n x : Nat) (hle : s.typeTagsCurrent ≤ s.buffer.length) :
    (streamWord tag n x).run s =
      if s.argumentCurrent + n + roundUp4 (s.typeTagsCount + 3) ≤ s.capacity
      then .ok () (s.withArgument tag (beBytes n x)) else .error .outOfBufferMemory s := by
  have h := argument_run (beBytes n x) (pushArgument (beBytes n x)) tag hle fun _ _ => rfl
  rw [beBytes_length] at h
  exact h

/-- `streamString` and `streamSymbol` differ in the tag. -/
theorem streamString_run (tag : TypeTag) (rhs : List UInt8)
    (hle : s.typeTagsCurrent ≤ s.buffer.length) :
    (do
        checkForAvailableArgumentSpace (roundUp4 ((cStr rhs).length + 1))
        pushTypeTag tag
        pushArgument (cStr rhs ++ [0])
        pushArgument (zeroPad ((cStr rhs).length + 1)) : StreamM Unit).run s =
      if s.argumentCurrent + (encString rhs).length + roundUp4 (s.typeTagsCount + 3) ≤ s.capacity
      then .ok () (s.withArgument tag (encString rhs)) else .error .outOfBufferMemory s := by
  have hparts : encString rhs = (cStr rhs ++ [0]) ++ zeroPad ((cStr rhs).length + 1) := by
    simp [encString]
  have h := argument_run (encString rhs)
    (do pushArgument (cStr rhs ++ [0]); pushArgument (zeroPad ((cStr rhs).length + 1))) tag hle
    (by
      intro s hroom
      rw [hparts] at hroom ⊢
      exact pushArgument_append hroom)
  rwa [← encString_length]

theorem streamBlob_run (data : List UInt8) (hle : s.typeTagsCurrent ≤ s.buffer.length) :
    (streamBlob data).run s =
      if s.argumentCurrent + (StreamArgument.blob data).bytes.length +
        roundUp4 (s.typeTagsCount + 3) ≤ s.capacity
      then .ok () (s.withArgument .blob (StreamArgument.blob data).bytes)
      else .error .outOfBufferMemory s := by
  have hle4 := le_roundUp4 data.length
  have hlen : (StreamArgument.blob data).bytes.length = 4 + roundUp4 data.length := by
    simp only [StreamArgument.bytes, List.length_append, beBytes_length, zeroPad_length]
    omega
  have h := argument_run (StreamArgument.blob data).bytes
    (do pushArgument (beBytes 4 data.length); pushArgument data; pushArgument (zeroPad data.length))
    .blob hle (by
      intro s hroom
      have hhead :
          s.argumentCurrent + (beBytes 4 data.length ++ data).length ≤ s.buffer.length := by
        simp only [StreamArgument.bytes, List.length_append] at hroom ⊢
        omega
      rw [← bind_assoc, EStateM.run_bind, pushArgument_append hhead, ← EStateM.run_bind]
      exact pushArgument_append hroom)
  rw [hlen] at h ⊢
  exact h

/-- An argument operation does all of its work, or throws and does nothing. -/
theorem StreamArgument.stream_run (rhs : StreamArgument)
    (hle : s.typeTagsCurrent ≤ s.buffer.length) : rhs.stream.run s =
      if s.argumentCurrent + rhs.bytes.length + roundUp4 (s.typeTagsCount + 3) ≤ s.capacity
      then .ok () (s.withArgument rhs.typeTag rhs.bytes) else .error .outOfBufferMemory s := by
  cases rhs with
  | bool rhs => exact streamTag_run _ hle
  | nil => exact streamTag_run _ hle
  | infinitum => exact streamTag_run _ hle
  | string rhs => exact streamString_run .string rhs hle
  | symbol rhs => exact streamString_run .symbol rhs hle
  | blob data => exact streamBlob_run data hle
  | _ =>
    simp only [bytes, beBytes_length]
    exact streamWord_run _ _ _ hle

end esc_platform.osc
