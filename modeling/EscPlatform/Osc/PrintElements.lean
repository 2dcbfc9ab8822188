-- The printer of packets, `OscPrintReceivedElements.cpp`: an output stream
-- with its format flags, the static `indent` of the bundle operator, and
-- the operators. How the library prints a float, a double and a local time
-- is a parameter.
import EscPlatform.Osc.TreeReads

namespace esc_platform.osc

open bytes traced_reads Traced bracketed ReceivedMessageArgument

/-! ## The output stream -/

/-- The bytes of a string literal. -/
def text (s : String) : List UInt8 := s.toList.map ascii

structure Ostream where
  written : List UInt8 := []
  /-- `std::hex` is set in the base field. -/
  hex : Bool := false
  fill : UInt8 := ascii ' '
  deriving DecidableEq, Repr

/-- The stream, and the static variable of `operator<<( ReceivedBundle )`, which all prints of
the process share. -/
structure Printer where
  os : Ostream := {}
  indent : Nat := 0
  deriving DecidableEq, Repr

/-- What the C++ library prints for a `float`, a `double` and the result of `std::ctime`. -/
structure Locale where
  float32 : UInt32 → List UInt8
  double : UInt64 → List UInt8
  ctime : UInt64 → List UInt8

abbrev PrintM := ListenM Printer

def digits (base n : Nat) : List UInt8 := (Nat.toDigits base n).map ascii

def decimal (n : Int) : List UInt8 :=
  if n < 0 then ascii '-' :: digits 10 n.natAbs else digits 10 n.natAbs

/-- `os << s`, of the bytes of a C string. -/
def put (bs : List UInt8) : PrintM Unit :=
  modify fun st => { st with os := { st.os with written := st.os.written ++ bs } }

/-- `os << n` for an integer of `bits` bits behind `setw( width )`. -/
def putInteger (bits width : Nat) (n : Int) : PrintM Unit := do
  let os := (← get).os
  let shown := if os.hex then digits 16 (n % 2 ^ bits).toNat else decimal n
  put (List.replicate (width - shown.length) os.fill ++ shown)

def setHex : PrintM Unit := modify fun st => { st with os := { st.os with hex := true } }

def setFill (c : Char) : PrintM Unit :=
  modify fun st => { st with os := { st.os with fill := ascii c } }

/-- `os.unsetf( std::ios::basefield )`. -/
def unsetBase : PrintM Unit := modify fun st => { st with os := { st.os with hex := false } }

/-- `std::setw(2) << (int)( byte )`. -/
def putByte (byte : UInt8) : PrintM Unit := putInteger 32 2 byte.toNat

/-- `(word>>shift) & 0xFF`. -/
def byteOf (word : UInt32) (shift : Nat) : UInt8 := UInt8.ofNat (word.toNat / 2 ^ shift % 256)

/-! ## The operators -/

section operators

variable (lc : Locale) (mem : Memory) (f : Nat)

/-- The loop over the bytes of a blob. -/
def putBlob : List UInt8 → PrintM Unit
  | [] => return
  | byte :: bytes => do
    put (text "0x")
    putByte byte
    if bytes ≠ [] then put (text " ")
    putBlob bytes

/-- `operator<<( ReceivedMessageArgument )`. -/
def printArgument (arg : ReceivedMessageArgument) : PrintM Unit := do
  match arg.typeTag with
  | none => throw .missingArgument
  | some typeTag =>
    match TypeTag.ofByte (← liftRead (readByte mem typeTag)) with
    | some .trueTag => put (text "bool:true")
    | some .falseTag => put (text "bool:false")
    | some .nil => put (text "(Nil)")
    | some .infinitum => put (text "(Infinitum)")
    | some .int32 =>
      put (text "int32:")
      putInteger 32 0 (← liftRead (arg.asInt32Unchecked mem)).toInt
    | some .float =>
      put (text "float32:")
      put (lc.float32 (← liftRead (arg.asFloatUnchecked mem)))
    | some .char =>
      let s := cStr [← liftRead (arg.asCharUnchecked mem)]
      put (text "char:'")
      put s
      put (text "'")
    | some .rgbaColor =>
      let color ← liftRead (arg.asRgbaColorUnchecked mem)
      put (text "RGBA:0x")
      setHex
      setFill '0'
      putByte (byteOf color 24)
      putByte (byteOf color 16)
      putByte (byteOf color 8)
      putByte (byteOf color 0)
      setFill ' '
      unsetBase
    | some .midiMessage =>
      let m ← liftRead (arg.asMidiMessageUnchecked mem)
      put (text "midi (port, status, data1, data2):<<")
      setHex
      setFill '0'
      put (text "0x")
      putByte (byteOf m 24)
      put (text " 0x")
      putByte (byteOf m 16)
      put (text " 0x")
      putByte (byteOf m 8)
      put (text " 0x")
      putByte (byteOf m 0)
      setFill ' '
      put (text ">>")
      unsetBase
    | some .int64 =>
      put (text "int64:")
      putInteger 64 0 (← liftRead (arg.asInt64Unchecked mem)).toInt
    | some .timeTag =>
      put (text "OSC-timetag:")
      putInteger 64 0 (← liftRead (arg.asTimeTagUnchecked mem)).toNat
      let t := (← liftRead (arg.asTimeTagUnchecked mem)) >>> 32
      put (text " ")
      -- the copy without the newline at the end
      put (cStr (lc.ctime t).dropLast)
    | some .double =>
      put (text "double:")
      put (lc.double (← liftRead (arg.asDoubleUnchecked mem)))
    | some .string =>
      put (text "OSC-string:\x60")
      put (← liftRead (arg.asStringUnchecked mem f))
      put (text "'")
    | some .symbol =>
      put (text "OSC-string (symbol):\x60")
      put (← liftRead (arg.asSymbolUnchecked mem f))
      put (text "'")
    | some .blob =>
      let data ← liftRead (arg.asBlobUnchecked mem)
      put (text "OSC-blob:<<")
      setHex
      setFill '0'
      putBlob data
      unsetBase
      put (text ">>")
      setFill ' '
    | none => put (text "unknown")

/-- The loop of `operator<<( ReceivedMessage )`. -/
def printArguments (fin : ReceivedMessageArgument) :
    Nat → Bool → ReceivedMessageArgument → PrintM Unit
  | 0, _, _ => throw .outOfFuel
  | fuel + 1, first, i => do
    if i.typeTag = fin.typeTag then return
    if first then put (text " ") else put (text ", ")
    printArgument lc mem fuel i
    printArguments fin fuel false (← liftRead (i.advance mem fuel))

/-- `operator<<( ReceivedMessage )`. -/
def printMessage (m : ReceivedMessage) : PrintM Unit := do
  put (text "[")
  put (← liftRead (readCString mem f m.addressPattern))
  printArguments lc mem m.argumentsEnd f true m.argumentsBegin
  put (text "]")

/-- `for( int j=0; j < indent; ++j ) os << "  "`. -/
def putIndent : PrintM Unit := do
  put (List.replicate (2 * (← get).indent) (ascii ' '))

/-- `operator<<( ReceivedBundle )` around its loop. -/
def printBundleWith (elements : PrintM Unit) (b : ReceivedBundle) : PrintM Unit := do
  putIndent
  put (text "\x7b ( ")
  let timeTag ← liftRead (readUInt64 mem b.timeTag)
  if timeTag = 1 then put (text "immediate") else putInteger 64 0 timeTag.toNat
  put (text " )\n")
  modify fun st => { st with indent := st.indent + 1 }
  elements
  modify fun st => { st with indent := st.indent - 1 }
  putIndent
  put (text "\x7d")

/-- The loop, from the element `i` to `ElementsEnd()`. -/
def printElements (fin : Nat) : Nat → Nat → PrintM Unit
  | 0, _ => throw .outOfFuel
  | fuel + 1, i => do
    if i = fin then return
    let size ← liftRead (elementSize mem i)
    if ← liftRead (isBundle mem (i + 4) size.toInt) then
      let b ← liftRead (receivedBundle mem fuel (i + 4) (unsignedLong size))
      printBundleWith mem (printElements b.fin fuel (b.timeTag + 8)) b
      put (text "\n")
    else
      let m ← liftRead (receivedMessage mem (i + 4) (unsignedLong size))
      putIndent
      printMessage lc mem f m
      put (text "\n")
    printElements fin fuel (advanceElement i size)

def printBundle (fuel : Nat) (b : ReceivedBundle) : PrintM Unit :=
  printBundleWith mem (printElements lc mem f b.fin fuel (b.timeTag + 8)) b

/-- `operator<<( ReceivedPacket )`. -/
def printPacket (fuel size : Nat) : PrintM Unit := do
  if ← liftRead (isBundle mem 0 size) then
    let b ← liftRead (receivedBundle mem fuel 0 size)
    printBundle lc mem f fuel b
    put (text "\n")
  else
    let m ← liftRead (receivedMessage mem 0 size)
    printMessage lc mem f m
    put (text "\n")

end operators

end esc_platform.osc
