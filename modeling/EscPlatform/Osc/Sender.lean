-- `OscSender.cpp`: a bundle or a message becomes the operations of one
-- packet stream.
import EscPlatform.Osc.OutboundPacketStream

namespace esc_platform.osc

/-- One turn of the argument loop of `appendMessage`. -/
def appendArg : Arg → StreamM Unit
  | .int32 value => streamInt32 value
  | .float bits => streamFloat bits
  | .string value => streamString value

def appendArgs : List Arg → StreamM Unit
  | [] => pure ()
  | arg :: args => do
    appendArg arg
    appendArgs args

def appendMessage (w : Nat) (message : Message) : StreamM Unit := do
  beginMessage w message.address
  appendArgs message.args
  messageTerminator w

def appendMessages (w : Nat) : List Message → StreamM Unit
  | [] => pure ()
  | message :: messages => do
    appendMessage w message
    appendMessages w messages

mutual

def appendBundle (w : Nat) : Bundle → StreamM Unit
  | .mk messages bundles => do
    beginBundleImmediate w
    appendBundles w bundles
    appendMessages w messages
    bundleTerminator w

/-- The loop of `appendBundle` over the sub-bundles. -/
def appendBundles (w : Nat) : List Bundle → StreamM Unit
  | [] => pure ()
  | bundle :: bundles => do
    appendBundle w bundle
    appendBundles w bundles

end

/-- The stream operations of `OscSender::sendMessage`. -/
def sendMessageStream (w : Nat) (message : Message) : StreamM Unit := do
  beginBundleImmediate w
  appendMessage w message
  bundleTerminator w

/-- What `socket->Send` gets: the bytes of `Data()` up to `Size()`. -/
def OutboundPacketStream.packet (s : OutboundPacketStream) : List UInt8 := s.buffer.take s.size

/-! ## Sending -/

/-- The array that a packet is written to. Its bytes are not initialised. -/
abbrev OutputBuffer (size : Nat) := { buffer : List UInt8 // buffer.length = size }

/-- What the operations `op` hand to `socket->Send`, or what they throw. -/
def datagramOf (op : StreamM Unit) (buffer : List UInt8) : Except OscException (List UInt8) :=
  match op.run (OutboundPacketStream.new buffer) with
  | .ok _ p => .ok p.packet
  | .error ex _ => .error ex

/-- `OscSender::sendBundle`. -/
def sendBundle (w : Nat) (buffer : OutputBuffer 32768) (bundle : Bundle) :
    Except OscException (List UInt8) :=
  datagramOf (appendBundle w bundle) buffer.val

/-- `OscSender::sendMessage`. -/
def sendMessage (w : Nat) (buffer : OutputBuffer 16384) (message : Message) :
    Except OscException (List UInt8) :=
  datagramOf (sendMessageStream w message) buffer.val

end esc_platform.osc
