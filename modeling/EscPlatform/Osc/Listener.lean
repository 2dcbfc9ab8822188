-- `OscPacketListener.h`, the socket loop of `UdpSocket.cpp`, and
-- `OscListener.cpp`: from a datagram to the message queue.
import EscPlatform.Osc.ReceivedElements

namespace esc_platform.osc

open bytes traced_reads

/-! ## The packet listener -/

structure IpEndpointName where
  address : Nat
  port : Int
  deriving DecidableEq, Repr

/-- `IpEndpointName::AddressAsString`. -/
def IpEndpointName.addressAsString (e : IpEndpointName) : String :=
  if e.address = 0xFFFFFFFF then "<any>"
  else
    toString (e.address / 2 ^ 24 % 256) ++ "." ++ toString (e.address / 2 ^ 16 % 256) ++ "." ++
      toString (e.address / 2 ^ 8 % 256) ++ "." ++ toString (e.address % 256)

/-- A step of a listener with the state `σ`: what it did before it threw stays. -/
abbrev ListenM (σ : Type) := EStateM Fault σ

def liftRead {σ α : Type} (m : ReadM α) : ListenM σ α :=
  match m.result with
  | .ok a => return a
  | .error e => throw e

section packet_listener

variable {σ : Type} (mem : Memory) (remoteEndpoint : IpEndpointName)
  (processMessage : ReceivedMessage → IpEndpointName → ListenM σ Unit)

/-- The loop of `ProcessBundle`, from the element `i` to `ElementsEnd()`. -/
def processElements (fin : Nat) : Nat → Nat → ListenM σ Unit
  | 0, _ => throw .outOfFuel
  | fuel + 1, i => do
    if i = fin then return
    let size ← liftRead (elementSize mem i)
    if ← liftRead (isBundle mem (i + 4) size.toInt) then
      let b ← liftRead (receivedBundle mem fuel (i + 4) (unsignedLong size))
      processElements b.fin fuel (b.timeTag + 8)
    else
      let m ← liftRead (receivedMessage mem (i + 4) (unsignedLong size))
      processMessage m remoteEndpoint
    processElements fin fuel (advanceElement i size)

def processBundle (fuel : Nat) (b : ReceivedBundle) : ListenM σ Unit :=
  processElements mem remoteEndpoint processMessage b.fin fuel (b.timeTag + 8)

/-- `ProcessPacket`. `data` is the start of the receive buffer. -/
def processPacket (fuel size : Nat) : ListenM σ Unit := do
  if ← liftRead (isBundle mem 0 size) then
    let b ← liftRead (receivedBundle mem fuel 0 size)
    processBundle mem remoteEndpoint processMessage fuel b
  else
    let m ← liftRead (receivedMessage mem 0 size)
    processMessage m remoteEndpoint

end packet_listener

/-! ## The message queue -/

structure OscListener where
  mMessages : List Message := []
  /-- A callback is registered. -/
  mCallbackFn : Bool := false
  /-- The messages that the callback got, the oldest first. -/
  calledWith : List Message := []
  deriving DecidableEq, Repr

/-- One turn of the argument loop of `OscListener::ProcessMessage`. -/
def addArg (mem : Memory) (fuel : Nat) (arg : ReceivedMessageArgument) : ReadM Arg := do
  if ← arg.isInt32 mem then return .int32 (← arg.asInt32Unchecked mem)
  if ← arg.isFloat mem then return .float (← arg.asFloatUnchecked mem)
  if ← arg.isString mem then return .string (← arg.asStringUnchecked mem fuel)
  Traced.fail (.assertion "message argument type unknown")

def addArgs (mem : Memory) (fin : ReceivedMessageArgument) :
    Nat → ReceivedMessageArgument → ReadM (List Arg)
  | 0, _ => Traced.fail .outOfFuel
  | fuel + 1, arg => do
    if arg.typeTag = fin.typeTag then return []
    let new ← addArg mem fuel arg
    let rest ← addArgs mem fin fuel (← arg.advance mem fuel)
    return new :: rest

/-- The message that `ProcessMessage` builds. -/
def readMessage (mem : Memory) (fuel : Nat) (m : ReceivedMessage)
    (remoteEndpoint : IpEndpointName) : ReadM Message := do
  let address ← readCString mem fuel m.addressPattern
  let args ← addArgs mem m.argumentsEnd fuel m.argumentsBegin
  return {
    address := address
    args := args
    remoteHost := remoteEndpoint.addressAsString
    remotePort := remoteEndpoint.port }

/-- The end of `ProcessMessage`, under the lock: the queue or the callback gets the message. -/
def OscListener.deliver (l : OscListener) (message : Message) : OscListener :=
  if l.mCallbackFn then { l with calledWith := l.calledWith ++ [message] }
  else { l with mMessages := l.mMessages ++ [message] }

/-- `OscListener::ProcessMessage`. -/
def processMessage (mem : Memory) (fuel : Nat) (m : ReceivedMessage)
    (remoteEndpoint : IpEndpointName) : ListenM OscListener Unit := do
  let message ← liftRead (readMessage mem fuel m remoteEndpoint)
  modify (·.deliver message)

/-! ## The receiving thread -/

structure Datagram where
  bytes : List UInt8
  remoteEndpoint : IpEndpointName
  deriving DecidableEq, Repr

def maxBufferSize : Nat := 4098

/-- `recvfrom`: the buffer after the datagram. A longer datagram is cut. -/
def receiveFrom (data : Memory) (d : Datagram) : Memory × Nat :=
  (fun i => (d.bytes.take maxBufferSize).getD i (data i), (d.bytes.take maxBufferSize).length)

/-- `SocketReceiveMultiplexer::Implementation::Run` with the listener as its only one, for the
datagrams that arrive before a break. Nothing on the way up catches what a step throws. -/
def runSocket (fuel : Nat) : Memory → List Datagram → ListenM OscListener Unit
  | _, [] => return
  | data, d :: ds => do
    let (data, size) := receiveFrom data d
    if size > 0 then
      processPacket data d.remoteEndpoint (processMessage data fuel) fuel size
    runSocket fuel data ds

end esc_platform.osc
