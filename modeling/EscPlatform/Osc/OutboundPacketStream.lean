-- The packet writer, `OscOutboundPacketStream.cpp`. Pointers are offsets
-- from `data_`. `w` is `sizeof(osc::uint32)` of the build: 4 where `x86_64`
-- is defined or `long` has four bytes, 8 on the other LP64 builds. Pointers
-- and an `unsigned long` have 64 bits, an `unsigned int` has 32. The lengths
-- that a caller passes fit in an `unsigned long`, and the type tags of one
-- message number less than 2^31.
import EscPlatform.Osc.Types

namespace esc_platform.osc

open bytes

/-! ## The exceptions -/

inductive OscException
  | outOfBufferMemory
  | bundleNotInProgress
  | messageInProgress
  | messageNotInProgress
  /-- The `assert` of `EndElement`. -/
  | assertElementSizePtr
  /-- No exception of the source: a load or a store outside the buffer. -/
  | outsideBuffer
  deriving DecidableEq, Repr

def OscException.what : OscException → String
  | .outOfBufferMemory => "out of buffer memory"
  | .bundleNotInProgress => "call to EndBundle when bundle is not in progress"
  | .messageInProgress => "opening or closing bundle or message while message is in progress"
  | .messageNotInProgress => "call to EndMessage when message is not in progress"
  | .assertElementSizePtr => "elementSizePtr_ != 0"
  | .outsideBuffer => "access outside the buffer"

/-! ## The stream -/

structure OutboundPacketStream where
  /-- The bytes from `data_` to `end_`. -/
  buffer : List UInt8
  /-- The type tags of the open message, in reverse order, stand from here to `end_`. -/
  typeTagsCurrent : Nat
  messageCursor : Nat
  argumentCurrent : Nat
  /-- `none` is the null pointer, and `some 0` is `data_`. -/
  elementSizePtr : Option Nat
  messageIsInProgress : Bool
  deriving DecidableEq, Repr

/-- The operations. As in C++, the changes that an operation made before it threw stay. -/
abbrev StreamM := EStateM OscException OutboundPacketStream

def roundUp4 (x : Nat) : Nat := if x = 0 then 0 else (x - 1) / 4 * 4 + 4

namespace OutboundPacketStream

def new (buffer : List UInt8) : OutboundPacketStream where
  buffer := buffer
  typeTagsCurrent := buffer.length
  messageCursor := 0
  argumentCurrent := 0
  elementSizePtr := none
  messageIsInProgress := false

/-- `Capacity`, an `unsigned int`. The constructor takes an `unsigned long`. -/
def capacity (s : OutboundPacketStream) : Nat := s.buffer.length % 2 ^ 32

/-- The type tags of the open message: `end_ - typeTagsCurrent_`. -/
def typeTagsCount (s : OutboundPacketStream) : Nat := s.buffer.length - s.typeTagsCurrent

/-- `Size`, an `unsigned int`. -/
def size (s : OutboundPacketStream) : Nat :=
  (if s.messageIsInProgress then s.argumentCurrent + roundUp4 (s.typeTagsCount + 2)
  else s.argumentCurrent) % 2 ^ 32

theorem capacity_lt (s : OutboundPacketStream) : s.capacity < 2 ^ 32 :=
  Nat.mod_lt _ (by decide)

theorem capacity_le (s : OutboundPacketStream) : s.capacity ≤ s.buffer.length := Nat.mod_le _ _

theorem capacity_congr {s s' : OutboundPacketStream} (h : s'.buffer.length = s.buffer.length) :
    s'.capacity = s.capacity := congrArg (· % 2 ^ 32) h

/-- The cut of `Capacity` is none for the buffers that most callers have. -/
theorem capacity_eq {s : OutboundPacketStream} (h : s.buffer.length < 2 ^ 32) :
    s.capacity = s.buffer.length := Nat.mod_eq_of_lt h

theorem new_capacity {buffer : List UInt8} (h : buffer.length < 2 ^ 32) :
    (new buffer).capacity = buffer.length := capacity_eq h

def isBundleInProgress (s : OutboundPacketStream) : Bool := s.elementSizePtr.isSome

def isReady (s : OutboundPacketStream) : Bool :=
  !s.messageIsInProgress && !s.isBundleInProgress

def elementSizeSlotRequired (s : OutboundPacketStream) : Bool := s.elementSizePtr.isSome

/-- The four bytes of a size slot, where one is needed. -/
def slotSize (s : OutboundPacketStream) : Nat := if s.elementSizeSlotRequired then 4 else 0

end OutboundPacketStream

open OutboundPacketStream

/-! ## Loads and stores -/

def store (p : Nat) (bs : List UInt8) : StreamM Unit := do
  let s ← get
  if p + bs.length ≤ s.buffer.length then set { s with buffer := overwrite s.buffer p bs }
  else throw .outsideBuffer

def load (p n : Nat) : StreamM (List UInt8) := do
  let s ← get
  if p + n ≤ s.buffer.length then return (s.buffer.drop p).take n
  else throw .outsideBuffer

/-- `FromUInt32` and `FromUInt64` store the bytes of their union in reverse. -/
def fromUInt32 (p x : Nat) : StreamM Unit := store p (beBytes 4 x)

def fromUInt64 (p x : Nat) : StreamM Unit := store p (beBytes 8 x)

/-! ## Elements -/

/-- Opens an element at `beginPtr` and gives the start of its contents. -/
def beginElement (w beginPtr : Nat) : StreamM Nat := do
  let s ← get
  match s.elementSizePtr with
  | none =>
    set { s with elementSizePtr := some 0 }
    return beginPtr
  | some parent =>
    -- the slot keeps the offset of the parent's slot, in host byte order, until the size is known
    store beginPtr (leBytes w parent)
    modify fun s => { s with elementSizePtr := some beginPtr }
    return beginPtr + 4

def endElement (w endPtr : Nat) : StreamM Unit := do
  let s ← get
  match s.elementSizePtr with
  | none => throw .assertElementSizePtr
  | some 0 => set { s with elementSizePtr := none }
  | some slot =>
    let previousElementSizePtr := leValue (← load slot w)
    fromUInt32 slot (endPtr - slot - 4)
    modify fun s => { s with elementSizePtr := some previousElementSizePtr }

/-! ## The space checks -/

/-- The sum is one of `unsigned int`s. -/
def checkForAvailableBundleSpace : StreamM Unit := do
  let s ← get
  if (s.size + s.slotSize + 16) % 2 ^ 32 > s.capacity then throw .outOfBufferMemory

/-- From the `long` of `RoundUp4` on, the sum has 64 bits. -/
def checkForAvailableMessageSpace (addressPattern : List UInt8) : StreamM Unit := do
  let s ← get
  if (s.size + s.slotSize) % 2 ^ 32 + roundUp4 ((cStr addressPattern).length + 1) + 4 >
      s.capacity then
    throw .outOfBufferMemory

def checkForAvailableArgumentSpace (argumentLength : Nat) : StreamM Unit := do
  let s ← get
  if s.argumentCurrent + argumentLength + roundUp4 (s.typeTagsCount + 3) > s.capacity then
    throw .outOfBufferMemory

/-! ## Bundles and messages -/

/-- The zero bytes that `while( i & 0x3 )` writes after `i` bytes. -/
def zeroPad (i : Nat) : List UInt8 := List.replicate (roundUp4 i - i) 0

def bundleInitiator (w timeTag : Nat) : StreamM Unit := do
  if (← get).messageIsInProgress then throw .messageInProgress
  checkForAvailableBundleSpace
  let messageCursor ← beginElement w (← get).messageCursor
  store messageCursor bundlePattern
  fromUInt64 (messageCursor + 8) timeTag
  modify fun s =>
    { s with messageCursor := messageCursor + 16, argumentCurrent := messageCursor + 16 }

/-- `BeginBundleImmediate`. -/
def beginBundleImmediate (w : Nat) : StreamM Unit := bundleInitiator w 1

def bundleTerminator (w : Nat) : StreamM Unit := do
  let s ← get
  if !s.isBundleInProgress then throw .bundleNotInProgress
  if s.messageIsInProgress then throw .messageInProgress
  endElement w s.messageCursor

def beginMessage (w : Nat) (addressPattern : List UInt8) : StreamM Unit := do
  if (← get).messageIsInProgress then throw .messageInProgress
  checkForAvailableMessageSpace addressPattern
  let messageCursor ← beginElement w (← get).messageCursor
  let rhsLength := (cStr addressPattern).length
  store messageCursor (cStr addressPattern ++ [0])
  store (messageCursor + rhsLength + 1) (zeroPad (rhsLength + 1))
  let messageCursor := messageCursor + roundUp4 (rhsLength + 1)
  modify fun s =>
    { s with
      messageCursor := messageCursor
      argumentCurrent := messageCursor
      typeTagsCurrent := s.buffer.length
      messageIsInProgress := true }

def messageTerminator (w : Nat) : StreamM Unit := do
  let s ← get
  if !s.messageIsInProgress then throw .messageNotInProgress
  let typeTagsCount := s.typeTagsCount
  if typeTagsCount ≠ 0 then
    let tempTypeTags ← load s.typeTagsCurrent typeTagsCount
    let typeTagSlotSize := roundUp4 (typeTagsCount + 2)
    let argumentsSize := s.argumentCurrent - s.messageCursor
    -- the `memmove` of the arguments to the end of the type tag slot
    store (s.messageCursor + typeTagSlotSize) (← load s.messageCursor argumentsSize)
    store s.messageCursor [ascii ',']
    store (s.messageCursor + 1) tempTypeTags.reverse
    store (s.messageCursor + 1 + typeTagsCount)
      (List.replicate (typeTagSlotSize - (typeTagsCount + 1)) 0)
    modify fun s =>
      { s with
        typeTagsCurrent := s.buffer.length
        messageCursor := s.messageCursor + typeTagSlotSize + argumentsSize }
  else
    store s.messageCursor [ascii ',', 0, 0, 0]
    modify fun s => { s with messageCursor := s.messageCursor + 4 }
  modify fun s => { s with argumentCurrent := s.messageCursor }
  endElement w (← get).messageCursor
  modify fun s => { s with messageIsInProgress := false }

/-! ## Arguments -/

/-- `*(--typeTagsCurrent_) = tag`. -/
def pushTypeTag (tag : TypeTag) : StreamM Unit := do
  let s ← get
  if s.typeTagsCurrent = 0 then throw .outsideBuffer
  store (s.typeTagsCurrent - 1) [tag.byte]
  modify fun s => { s with typeTagsCurrent := s.typeTagsCurrent - 1 }

/-- Writes the bytes of an argument at `argumentCurrent_` and moves it behind them. -/
def pushArgument (bs : List UInt8) : StreamM Unit := do
  store (← get).argumentCurrent bs
  modify fun s => { s with argumentCurrent := s.argumentCurrent + bs.length }

/-- `operator<<( int32 )`. `FromInt32` stores the bytes of its union in reverse. -/
def streamInt32 (rhs : Int32) : StreamM Unit := do
  checkForAvailableArgumentSpace 4
  pushTypeTag .int32
  pushArgument (beBytes 4 rhs.toUInt32.toNat)

/-- `operator<<( float )`. -/
def streamFloat (rhs : UInt32) : StreamM Unit := do
  checkForAvailableArgumentSpace 4
  pushTypeTag .float
  pushArgument (beBytes 4 rhs.toNat)

/-- `operator<<( const char * )`. -/
def streamString (rhs : List UInt8) : StreamM Unit := do
  let rhsLength := (cStr rhs).length
  checkForAvailableArgumentSpace (roundUp4 (rhsLength + 1))
  pushTypeTag .string
  pushArgument (cStr rhs ++ [0])
  pushArgument (zeroPad (rhsLength + 1))

/-- The operators for arguments that are a tag and no bytes. -/
def streamTag (tag : TypeTag) : StreamM Unit := do
  checkForAvailableArgumentSpace 0
  pushTypeTag tag

/-- The operators for arguments of `n` bytes, most significant byte first. -/
def streamWord (tag : TypeTag) (n x : Nat) : StreamM Unit := do
  checkForAvailableArgumentSpace n
  pushTypeTag tag
  pushArgument (beBytes n x)

/-- `operator<<( bool )`. -/
def streamBool (rhs : Bool) : StreamM Unit := streamTag (if rhs then .trueTag else .falseTag)

/-- `operator<<( const NilType& )`. -/
def streamNil : StreamM Unit := streamTag .nil

/-- `operator<<( const InfinitumType& )`. -/
def streamInfinitum : StreamM Unit := streamTag .infinitum

/-- `operator<<( char )`. The character is signed, and widens to an `int32`. -/
def streamChar (rhs : Int8) : StreamM Unit := streamWord .char 4 rhs.toInt32.toUInt32.toNat

/-- `operator<<( const RgbaColor& )`. -/
def streamRgbaColor (rhs : UInt32) : StreamM Unit := streamWord .rgbaColor 4 rhs.toNat

/-- `operator<<( const MidiMessage& )`. -/
def streamMidiMessage (rhs : UInt32) : StreamM Unit := streamWord .midiMessage 4 rhs.toNat

/-- `operator<<( int64 )`. -/
def streamInt64 (rhs : Int64) : StreamM Unit := streamWord .int64 8 rhs.toUInt64.toNat

/-- `operator<<( const TimeTag& )`. -/
def streamTimeTag (rhs : UInt64) : StreamM Unit := streamWord .timeTag 8 rhs.toNat

/-- `operator<<( double )`, of the 64 bits of its representation. -/
def streamDouble (rhs : UInt64) : StreamM Unit := streamWord .double 8 rhs.toNat

/-- `operator<<( const Symbol& )`. -/
def streamSymbol (rhs : List UInt8) : StreamM Unit := do
  let rhsLength := (cStr rhs).length
  checkForAvailableArgumentSpace (roundUp4 (rhsLength + 1))
  pushTypeTag .symbol
  pushArgument (cStr rhs ++ [0])
  pushArgument (zeroPad (rhsLength + 1))

/-- `operator<<( const Blob& )`, of all the bytes at its `data`. -/
def streamBlob (data : List UInt8) : StreamM Unit := do
  let size := data.length
  checkForAvailableArgumentSpace (4 + roundUp4 size)
  pushTypeTag .blob
  pushArgument (beBytes 4 size)
  pushArgument data
  pushArgument (zeroPad size)

/-! ## Starting again -/

/-- `Clear`. The bytes of the buffer stay. -/
def clear : StreamM Unit :=
  modify fun s =>
    { s with
      typeTagsCurrent := s.buffer.length
      messageCursor := 0
      argumentCurrent := 0
      elementSizePtr := none
      messageIsInProgress := false }

end esc_platform.osc
