-- The packet reader, `OscReceivedElements.cpp`. A pointer is an offset in
-- the receive buffer; the memory behind a packet holds what it holds, so a
-- read that leaves the packet gives some byte and stands in the log.
-- `int32` and `uint32` have 32 bits, and `unsigned long` has 64.
import EscPlatform.Osc.Types
import EscPlatform.Lib.TracedReads

namespace esc_platform.osc

open bytes traced_reads

inductive Fault
  /-- `MalformedMessageException`. -/
  | malformedMessage (what : String)
  /-- `MalformedBundleException`. -/
  | malformedBundle (what : String)
  /-- `WrongArgumentTypeException`. -/
  | wrongArgumentType
  /-- `MissingArgumentException`. -/
  | missingArgument
  /-- An `assert` that fails. -/
  | assertion (what : String)
  /-- No fault of the source: a loop did not end within its fuel. -/
  | outOfFuel
  deriving DecidableEq, Repr

abbrev Memory := Nat → UInt8

/-- A computation over the receive buffer, with the offsets that it reads. -/
abbrev ReadM := Traced Fault Nat

def readByte (mem : Memory) (p : Nat) : ReadM UInt8 := Traced.read mem p

/-! ## Words -/

def readUInt32 (mem : Memory) (p : Nat) : ReadM UInt32 := do
  let c0 ← readByte mem (p + 3)
  let c1 ← readByte mem (p + 2)
  let c2 ← readByte mem (p + 1)
  let c3 ← readByte mem p
  return UInt32.ofNat (leValue [c0, c1, c2, c3])

def readUInt64 (mem : Memory) (p : Nat) : ReadM UInt64 := do
  let c0 ← readByte mem (p + 7)
  let c1 ← readByte mem (p + 6)
  let c2 ← readByte mem (p + 5)
  let c3 ← readByte mem (p + 4)
  let c4 ← readByte mem (p + 3)
  let c5 ← readByte mem (p + 2)
  let c6 ← readByte mem (p + 1)
  let c7 ← readByte mem p
  return UInt64.ofNat (leValue [c0, c1, c2, c3, c4, c5, c6, c7])

/-- The `RoundUp4` of the reader. -/
def roundUp4Unsigned (x : Nat) : Nat := if x % 4 ≠ 0 then x + (4 - x % 4) else x

/-! ## Strings -/

/-- `while( *p ) p += 4`. -/
def scanStr4 (mem : Memory) : Nat → Nat → ReadM Nat
  | 0, _ => Traced.fail .outOfFuel
  | fuel + 1, p => do
    if (← readByte mem p) ≠ 0 then scanStr4 mem fuel (p + 4) else return p

/-- `FindStr4End( p )`. -/
def findStr4End (mem : Memory) (fuel p : Nat) : ReadM Nat := do
  if (← readByte mem p) = 0 then return p + 4
  let p ← scanStr4 mem fuel (p + 3)
  return p + 1

/-- `while( p < end && *p ) p += 4`. -/
def scanStr4Before (mem : Memory) (fin : Nat) : Nat → Nat → ReadM Nat
  | 0, _ => Traced.fail .outOfFuel
  | fuel + 1, p => do
    if p < fin then
      if (← readByte mem p) ≠ 0 then scanStr4Before mem fin fuel (p + 4) else return p
    else return p

/-- `FindStr4End( p, end )`. The loop takes a step of four below `end`, so it ends. -/
def findStr4EndBefore (mem : Memory) (p fin : Nat) : ReadM (Option Nat) := do
  if p ≥ fin then return none
  if (← readByte mem p) = 0 then return some (p + 4)
  let q ← scanStr4Before mem (fin - 1) (fin - p) (p + 3)
  if (← readByte mem q) ≠ 0 then return none
  return some (q + 1)

/-- What `std::string( p )` copies: the bytes before the NUL. -/
def readCString (mem : Memory) : Nat → Nat → ReadM (List UInt8)
  | 0, _ => Traced.fail .outOfFuel
  | fuel + 1, p => do
    let c ← readByte mem p
    if c = 0 then return []
    let cs ← readCString mem fuel (p + 1)
    return c :: cs

/-! ## A message and its arguments -/

structure ReceivedMessage where
  addressPattern : Nat
  typeTagsBegin : Option Nat
  typeTagsEnd : Option Nat
  /-- Not read when `typeTagsBegin` is the null pointer. -/
  arguments : Nat
  deriving DecidableEq, Repr

def ReceivedMessage.argumentCount (m : ReceivedMessage) : Nat :=
  m.typeTagsEnd.getD 0 - m.typeTagsBegin.getD 0

def malformed {α : Type} (what : String) : ReadM α := Traced.fail (.malformedMessage what)

@[simp] theorem malformed_result {α : Type} (what : String) :
    (malformed what : ReadM α).result = .error (.malformedMessage what) := rfl

/-- The `switch` of the argument loop of `ReceivedMessage::Init`: where the next argument
starts. -/
def checkArgument (mem : Memory) (fin : Nat) (tag : UInt8) (argument : Nat) : ReadM Nat :=
  match TypeTag.ofByte tag with
  | some .trueTag | some .falseTag | some .nil | some .infinitum => return argument
  | some .int32 | some .float | some .char | some .rgbaColor | some .midiMessage => do
    if argument = fin then malformed "arguments exceed message size"
    if argument + 4 > fin then malformed "arguments exceed message size"
    return argument + 4
  | some .int64 | some .timeTag | some .double => do
    if argument = fin then malformed "arguments exceed message size"
    if argument + 8 > fin then malformed "arguments exceed message size"
    return argument + 8
  | some .string | some .symbol => do
    if argument = fin then malformed "arguments exceed message size"
    match ← findStr4EndBefore mem argument fin with
    | none => malformed "unterminated string argument"
    | some next => return next
  | some .blob => do
    -- the two range checks of the source make an exception and do not throw it
    let blobSize ← readUInt32 mem argument
    return argument + 4 + roundUp4Unsigned blobSize.toNat
  | none => malformed "unknown type tag"

/-- The `do … while` loop of `ReceivedMessage::Init`. It gives `typeTagsEnd_`. -/
def checkArguments (mem : Memory) (fin : Nat) : Nat → Nat → Nat → ReadM Nat
  | 0, _, _ => Traced.fail .outOfFuel
  | fuel + 1, typeTag, argument => do
    let next ← checkArgument mem fin (← readByte mem typeTag) argument
    if (← readByte mem (typeTag + 1)) ≠ 0 then checkArguments mem fin fuel (typeTag + 1) next
    else return typeTag + 1

/-- `ReceivedMessage::Init` behind the address pattern. There are fewer type tags than bytes,
which is the fuel. -/
def initTypeTags (mem : Memory) (message size typeTagsBegin : Nat) : ReadM ReceivedMessage := do
  let fin := message + size
  if typeTagsBegin = fin then return ⟨message, none, none, 0⟩
  if (← readByte mem typeTagsBegin) ≠ ascii ',' then malformed "type tags not present"
  if (← readByte mem (typeTagsBegin + 1)) = 0 then return ⟨message, none, none, 0⟩
  match ← findStr4EndBefore mem typeTagsBegin fin with
  | none => malformed "type tags were not terminated before end of message"
  | some arguments =>
    let typeTagsEnd ← checkArguments mem fin size (typeTagsBegin + 1) arguments
    return ⟨message, some (typeTagsBegin + 1), some typeTagsEnd, arguments⟩

/-- `ReceivedMessage::Init`. -/
def receivedMessage (mem : Memory) (message size : Nat) : ReadM ReceivedMessage := do
  if size = 0 then malformed "zero length messages not permitted"
  if size % 4 ≠ 0 then malformed "message size must be multiple of four"
  match ← findStr4EndBefore mem message (message + size) with
  | none => malformed "unterminated address pattern"
  | some typeTagsBegin => initTypeTags mem message size typeTagsBegin

/-- `ReceivedMessageArgument`, and the iterator that holds one. -/
structure ReceivedMessageArgument where
  typeTag : Option Nat
  argument : Nat
  deriving DecidableEq, Repr

def ReceivedMessage.argumentsBegin (m : ReceivedMessage) : ReceivedMessageArgument :=
  ⟨m.typeTagsBegin, m.arguments⟩

def ReceivedMessage.argumentsEnd (m : ReceivedMessage) : ReceivedMessageArgument :=
  ⟨m.typeTagsEnd, 0⟩

/-- `ReceivedMessageArgumentIterator::Advance`. -/
def ReceivedMessageArgument.advance (mem : Memory) (fuel : Nat) (a : ReceivedMessageArgument) :
    ReadM ReceivedMessageArgument :=
  match a.typeTag with
  | none => return a
  | some typeTag => do
    match TypeTag.ofByte (← readByte mem typeTag) with
    | some .trueTag | some .falseTag | some .nil | some .infinitum =>
      return ⟨some (typeTag + 1), a.argument⟩
    | some .int32 | some .float | some .char | some .rgbaColor | some .midiMessage =>
      return ⟨some (typeTag + 1), a.argument + 4⟩
    | some .int64 | some .timeTag | some .double =>
      return ⟨some (typeTag + 1), a.argument + 8⟩
    | some .string | some .symbol => do
      let next ← findStr4End mem fuel a.argument
      return ⟨some (typeTag + 1), next⟩
    | some .blob => do
      let blobSize ← readUInt32 mem a.argument
      return ⟨some (typeTag + 1), a.argument + 4 + roundUp4Unsigned blobSize.toNat⟩
    -- the end of the tags and an unknown tag: don't advance
    | none => return a

/-! ## The accessors -/

/-- An argument as its accessor gives it. A float and a double are the bits of their
representation. -/
inductive Value
  | bool (value : Bool)
  | nil
  | infinitum
  | int32 (value : Int32)
  | float (bits : UInt32)
  | char (value : UInt8)
  | rgbaColor (value : UInt32)
  | midiMessage (value : UInt32)
  | int64 (value : Int64)
  | timeTag (value : UInt64)
  | double (bits : UInt64)
  | string (value : List UInt8)
  | symbol (value : List UInt8)
  | blob (data : List UInt8)
  deriving DecidableEq, Repr

namespace ReceivedMessageArgument

variable (mem : Memory) (a : ReceivedMessageArgument)

/-- The cells from `p` on, one after the other. -/
def readBytes : Nat → Nat → ReadM (List UInt8)
  | _, 0 => return []
  | p, n + 1 => do
    let c ← readByte mem p
    let cs ← readBytes (p + 1) n
    return c :: cs

/-- `IsInt32` and its siblings. They are only asked below the end of the tags. -/
def isType (tag : TypeTag) : ReadM Bool :=
  match a.typeTag with
  | none => Traced.fail .missingArgument
  | some typeTag => do return (← readByte mem typeTag) = tag.byte

def isInt32 : ReadM Bool := a.isType mem .int32
def isFloat : ReadM Bool := a.isType mem .float
def isString : ReadM Bool := a.isType mem .string

def asInt32Unchecked : ReadM Int32 := do return (← readUInt32 mem a.argument).toInt32
def asFloatUnchecked : ReadM UInt32 := readUInt32 mem a.argument
def asCharUnchecked : ReadM UInt8 := do return (← readUInt32 mem a.argument).toUInt8
def asRgbaColorUnchecked : ReadM UInt32 := readUInt32 mem a.argument
def asMidiMessageUnchecked : ReadM UInt32 := readUInt32 mem a.argument
def asInt64Unchecked : ReadM Int64 := do return (← readUInt64 mem a.argument).toInt64
def asTimeTagUnchecked : ReadM UInt64 := readUInt64 mem a.argument
def asDoubleUnchecked : ReadM UInt64 := readUInt64 mem a.argument

/-- The pointer of `AsStringUnchecked`, read as a C string. -/
def asStringUnchecked (fuel : Nat) : ReadM (List UInt8) := readCString mem fuel a.argument
def asSymbolUnchecked (fuel : Nat) : ReadM (List UInt8) := readCString mem fuel a.argument

/-- The pointer and the size of `AsBlobUnchecked`, and the bytes that they show. -/
def asBlobUnchecked : ReadM (List UInt8) := do
  let size ← readUInt32 mem a.argument
  readBytes mem (a.argument + 4) size.toNat

/-- The check that every `As…` accessor makes before its unchecked one. -/
def asChecked {α : Type} (tag : TypeTag) (unchecked : ReadM α) : ReadM α := do
  if ← a.isType mem tag then unchecked else Traced.fail .wrongArgumentType

def asBool : ReadM Bool := do
  if ← a.isType mem .trueTag then return true
  a.asChecked mem .falseTag (return false)

def asInt32 : ReadM Int32 := a.asChecked mem .int32 (a.asInt32Unchecked mem)
def asFloat : ReadM UInt32 := a.asChecked mem .float (a.asFloatUnchecked mem)
def asChar : ReadM UInt8 := a.asChecked mem .char (a.asCharUnchecked mem)
def asRgbaColor : ReadM UInt32 := a.asChecked mem .rgbaColor (a.asRgbaColorUnchecked mem)
def asMidiMessage : ReadM UInt32 := a.asChecked mem .midiMessage (a.asMidiMessageUnchecked mem)
def asInt64 : ReadM Int64 := a.asChecked mem .int64 (a.asInt64Unchecked mem)
def asTimeTag : ReadM UInt64 := a.asChecked mem .timeTag (a.asTimeTagUnchecked mem)
def asDouble : ReadM UInt64 := a.asChecked mem .double (a.asDoubleUnchecked mem)
def asString (fuel : Nat) : ReadM (List UInt8) :=
  a.asChecked mem .string (a.asStringUnchecked mem fuel)
def asSymbol (fuel : Nat) : ReadM (List UInt8) :=
  a.asChecked mem .symbol (a.asSymbolUnchecked mem fuel)
def asBlob : ReadM (List UInt8) := a.asChecked mem .blob (a.asBlobUnchecked mem)

/-- The accessor that matches the type tag, as the `switch` of `OscPrintReceivedElements.cpp`
picks it. -/
def asTag (fuel : Nat) : TypeTag → ReadM Value
  | .trueTag | .falseTag => do return .bool (← a.asBool mem)
  | .nil => return .nil
  | .infinitum => return .infinitum
  | .int32 => do return .int32 (← a.asInt32 mem)
  | .float => do return .float (← a.asFloat mem)
  | .char => do return .char (← a.asChar mem)
  | .rgbaColor => do return .rgbaColor (← a.asRgbaColor mem)
  | .midiMessage => do return .midiMessage (← a.asMidiMessage mem)
  | .int64 => do return .int64 (← a.asInt64 mem)
  | .timeTag => do return .timeTag (← a.asTimeTag mem)
  | .double => do return .double (← a.asDouble mem)
  | .string => do return .string (← a.asString mem fuel)
  | .symbol => do return .symbol (← a.asSymbol mem fuel)
  | .blob => do return .blob (← a.asBlob mem)

/-- The argument loop of `operator<<( ReceivedMessage )`: each argument through its accessor,
from `ArgumentsBegin()` to `ArgumentsEnd()`. -/
def walk (fin : ReceivedMessageArgument) : Nat → ReceivedMessageArgument → ReadM (List Value)
  | 0, _ => Traced.fail .outOfFuel
  | fuel + 1, a =>
    if a.typeTag = fin.typeTag then return []
    else match a.typeTag with
      | none => Traced.fail .missingArgument
      | some typeTag => do
        match TypeTag.ofByte (← readByte mem typeTag) with
        | none => walk fin fuel (← a.advance mem fuel)
        | some tag => do
          let v ← a.asTag mem fuel tag
          let vs ← walk fin fuel (← a.advance mem fuel)
          return v :: vs

end ReceivedMessageArgument

/-! ## Bundles -/

structure ReceivedBundle where
  timeTag : Nat
  fin : Nat
  elementCount : Nat
  deriving DecidableEq, Repr

def malformedBundle {α : Type} (what : String) : ReadM α := Traced.fail (.malformedBundle what)

/-- The `while` loop of `ReceivedBundle::Init`: the number of elements from `p` on. The sum
`4 + elementSize` wraps at 32 bits. -/
def countElements (mem : Memory) (fin : Nat) : Nat → Nat → Nat → ReadM Nat
  | 0, _, _ => Traced.fail .outOfFuel
  | fuel + 1, p, elementCount => do
    if p < fin then
      if p + 4 > fin then malformedBundle "packet too short for elementSize"
      let elementSize ← readUInt32 mem p
      if elementSize % 4 ≠ 0 then malformedBundle "bundle element size must be multiple of four"
      let p := p + (4 + elementSize).toNat
      if p > fin then malformedBundle "packet too short for bundle element"
      countElements mem fin fuel p (elementCount + 1)
    else
      if p ≠ fin then malformedBundle "bundle contents "
      return elementCount

/-- The `||` chain that compares the first bytes with `#bundle`: it stops at the first
difference. -/
def startsWith (mem : Memory) : Nat → List UInt8 → ReadM Bool
  | _, [] => return true
  | p, c :: cs => do
    if (← readByte mem p) ≠ c then return false else startsWith mem (p + 1) cs

/-- `ReceivedBundle::Init`. -/
def receivedBundle (mem : Memory) (fuel bundle size : Nat) : ReadM ReceivedBundle := do
  if size < 16 then malformedBundle "packet too short for bundle"
  if size % 4 ≠ 0 then malformedBundle "bundle size must be multiple of four"
  if !(← startsWith mem bundle bundlePattern) then malformedBundle "bad bundle address pattern"
  let fin := bundle + size
  let timeTag := bundle + 8
  let elementCount ← countElements mem fin fuel (timeTag + 8) 0
  return ⟨timeTag, fin, elementCount⟩

/-- `ReceivedBundleElement::Size`: the size word as an `int32`. -/
def elementSize (mem : Memory) (element : Nat) : ReadM Int32 := do
  return (← readUInt32 mem element).toInt32

/-- `ReceivedBundleElement::IsBundle`, and `ReceivedPacket::IsBundle` of contents with a size. -/
def isBundle (mem : Memory) (contents : Nat) (size : Int) : ReadM Bool := do
  if size > 0 then return (← readByte mem contents) = ascii '#' else return false

/-- A size of type `int32` as the `unsigned long` that `Init` takes. -/
def unsignedLong (size : Int32) : Nat := (size.toInt % 2 ^ 64).toNat

/-- `ReceivedBundleElementIterator::Advance`. -/
def advanceElement (element : Nat) (size : Int32) : Nat := (element + 4 + size.toInt).toNat

end esc_platform.osc
