-- What a packet stream is for: a packet is a tree of bundles with messages
-- at its leaves, and the operations write it down from left to right. The
-- draft says this with no buffer, no pointer and no size slot. It knows the
-- trees that are closed, the bundles and the message that are open, and what
-- was streamed while no message was open.
import EscPlatform.Lib.Brackets
import EscPlatform.Lib.Simulation
import EscPlatform.Osc.StreamLaws

namespace esc_platform.osc

open bytes bracketed

/-! ## Packets as trees -/

/-- A message with arguments of any kind that the stream takes. -/
structure StreamMessage where
  addressPattern : List UInt8
  args : List StreamArgument
  deriving DecidableEq, Repr

def StreamMessage.encode (m : StreamMessage) : List UInt8 :=
  encString m.addressPattern ++ encTypeTags (argumentTags m.args) ++ argumentBytes m.args

/-- A bundle is a node with its time tag, and a message is a leaf. -/
abbrev PacketElement := Tree UInt64 StreamMessage

mutual

def encodeElement : PacketElement → List UInt8
  | .leaf m => m.encode
  | .node timeTag elements => bundlePattern ++ beBytes 8 timeTag.toNat ++ encodeElements elements

/-- The elements of a bundle, each behind its size. -/
def encodeElements : List PacketElement → List UInt8
  | [] => []
  | e :: es => encElement (encodeElement e) ++ encodeElements es

end

/-- The outermost elements stand in a row and have no sizes. -/
def encodePackets (es : List PacketElement) : List UInt8 := es.flatMap encodeElement

/-! ## The draft -/

structure Draft where
  elements : Builder UInt64 StreamMessage := {}
  /-- The open message, with its arguments so far. -/
  message : Option StreamMessage := none
  /-- Type tags and argument bytes that were streamed while no message was open. -/
  strayTags : Nat := 0
  strayBytes : List UInt8 := []

namespace Draft

/-- The bytes of the size in front of an element: the outermost elements have none. -/
def sizeSlot (outer : List (UInt64 × List PacketElement)) : Nat := if outer.isEmpty then 0 else 4

/-- The bytes of closed elements next to each other. -/
def levelSize (outer : List (UInt64 × List PacketElement)) (es : List PacketElement) : Nat :=
  (es.map fun e => sizeSlot outer + (encodeElement e).length).sum

/-- The bytes of the open bundles up to the elements of the innermost one. -/
def openSize : List (UInt64 × List PacketElement) → Nat
  | [] => 0
  | (_, before) :: outer => openSize outer + levelSize outer before + sizeSlot outer + 16

variable (d : Draft)

def slot : Nat := sizeSlot d.elements.outer

/-- The bytes in front of the open message. -/
def cursor : Nat := openSize d.elements.outer + levelSize d.elements.outer d.elements.trees

/-- The bytes with the message `m` at the end. -/
def sizeWith (m : StreamMessage) : Nat := d.cursor + d.slot + m.encode.length

def size : Nat :=
  match d.message with
  | some m => d.sizeWith m
  | none => d.cursor + d.strayBytes.length

def isReady : Bool := d.message.isNone && d.elements.outer.isEmpty

/-- A top-level message counts as a bundle here, too. -/
def isBundleInProgress : Bool := d.message.isSome || !d.elements.outer.isEmpty

/-- The draft after an argument, where it fits. -/
def withArgument (capacity : Nat) (rhs : StreamArgument) : Except OscException Draft :=
  match d.message with
  | some m =>
    let m := { m with args := m.args ++ [rhs] }
    if d.sizeWith m > capacity then .error .outOfBufferMemory
    else .ok { d with message := some m }
  | none =>
    -- no operator asks for an open message
    if d.size + rhs.bytes.length + roundUp4 (d.strayTags + 3) > capacity then
      .error .outOfBufferMemory
    else
      .ok { d with
        strayTags := d.strayTags + 1
        strayBytes := d.strayBytes ++ rhs.bytes }

/-- An operation, over a buffer of `capacity` bytes. -/
def perform (capacity : Nat) (d : Draft) : StreamOperation → Except OscException Draft
  | .clear => .ok {}
  | .bundleInitiator timeTag =>
    if d.message.isSome then .error .messageInProgress
    else if d.size + d.slot + 16 > capacity then .error .outOfBufferMemory
    else .ok { d with elements := d.elements.enter timeTag, strayBytes := [] }
  | .bundleTerminator =>
    if d.message.isSome then .error .messageInProgress
    else match d.elements.leave with
      | none => .error .bundleNotInProgress
      | some elements => .ok { d with elements := elements }
  | .beginMessage addressPattern =>
    if d.message.isSome then .error .messageInProgress
    else if d.size + d.slot + (encString addressPattern).length + 4 > capacity then
      .error .outOfBufferMemory
    else .ok { elements := d.elements, message := some ⟨addressPattern, []⟩ }
  | .messageTerminator =>
    match d.message with
    | none => .error .messageNotInProgress
    | some m => .ok { elements := d.elements.leaf m }
  | .argument rhs => d.withArgument capacity rhs

end Draft

/-! ## The stream and the draft as machines -/

/-- An operation on the stream: the exception, if any, and the stream after it. -/
def OutboundPacketStream.answer (w : Nat) (s : OutboundPacketStream) (op : StreamOperation) :
    Option OscException × OutboundPacketStream :=
  match (op.perform w).run s with
  | .ok _ s' => (none, s')
  | .error ex s' => (some ex, s')

/-- An operation on the draft. One that throws changes nothing. -/
def Draft.answer (capacity : Nat) (d : Draft) (op : StreamOperation) :
    Option OscException × Draft :=
  match d.perform capacity op with
  | .ok d' => (none, d')
  | .error ex => (some ex, d)

end esc_platform.osc
