-- `OscEchoClient/main.cpp`: a process that sends each message that it gets
-- back to where it came from. The receiving thread of the listener queues
-- messages while the loop of `main` takes and answers them.
import EscPlatform.Osc.Endpoints
import EscPlatform.Osc.MessageDelivery
import EscPlatform.Osc.RoundTrip

namespace esc_platform.osc

open bytes runs

/-! ## The process -/

/-- A datagram with the socket address that it comes from or goes to. -/
structure UdpPacket where
  bytes : List UInt8
  peer : SockaddrIn
  deriving DecidableEq, Repr

/-- Where the loop of `main` stands. -/
inductive EchoLoop
  /-- At `while (listener.hasWaitingMessages())`. -/
  | polling
  /-- Before `getNextMessage`. -/
  | taking
  /-- Before `sender.setup`. -/
  | setting (msg : Message)
  /-- Before `sender.sendMessage`. -/
  | sending (msg : Message)
  deriving DecidableEq, Repr

structure EchoClient where
  /-- The datagrams that the system holds for the socket of the listener. -/
  socketQueue : List UdpPacket := []
  /-- The receive buffer of `Run`. -/
  data : Memory
  /-- The messages that `ProcessPacket` has still to queue, and whether it throws behind them. -/
  receiving : List Message := []
  throwing : Bool := false
  listener : OscListener := {}
  loop : EchoLoop := .polling
  /-- The address of the sender's socket. -/
  connectedAddr_ : Option SockaddrIn := none
  /-- What was given to `send`. -/
  sent : List UdpPacket := []
  /-- An exception that nothing catches has ended the process. -/
  terminated : Bool := false

inductive EchoStep
  | arrive (p : UdpPacket)
  /-- The next step of the receiving thread. -/
  | receiver
  /-- The next step of `main`, with the stack that `sendMessage` finds. -/
  | main (buffer : OutputBuffer 16384)

namespace EchoClient

/-- `recvfrom` and `ProcessPacket` up to its first push. The reads do not look at the queue, so
they are made for all messages of the datagram at once. -/
def receive (fuel : Nat) (s : EchoClient) : EchoClient :=
  match s.socketQueue with
  | [] => s
  | p :: ps =>
    let (data, size) := receiveFrom s.data ⟨p.bytes, receivedFrom p.peer⟩
    if size > 0 then
      match (processPacket data (receivedFrom p.peer) (processMessage data fuel) fuel size).run
        {} with
      | .ok _ l => { s with socketQueue := ps, data := data, receiving := l.mMessages }
      | .error _ l =>
        { s with socketQueue := ps, data := data, receiving := l.mMessages, throwing := true }
    else { s with socketQueue := ps, data := data }

/-- One step of the receiving thread: the locked end of `ProcessMessage`, or the next datagram. -/
def stepReceiver (fuel : Nat) (s : EchoClient) : EchoClient :=
  match s.receiving with
  | message :: ms => { s with receiving := ms, listener := s.listener.deliver message }
  | [] => if s.throwing then { s with terminated := true } else s.receive fuel

variable (gethostbyname : String → Option UInt32) (connects : SockaddrIn → Bool)

/-- The address that `sender.setup` connects to. -/
def replyAddr (msg : Message) : SockaddrIn :=
  sockaddrFromIpEndpointName ⟨getHostByName gethostbyname msg.remoteHost, msg.remotePort⟩

/-- One step of the loop. `connects` tells whether `connect` succeeds; if not, `setup` throws. -/
def stepLoop (s : EchoClient) (buffer : OutputBuffer 16384) : EchoClient :=
  match s.loop with
  | .polling => if s.listener.hasWaitingMessages then { s with loop := .taking } else s
  | .taking =>
    let (_, msg, listener) := s.listener.getNextMessage { address := [], args := [] }
    { s with listener := listener, loop := .setting msg }
  | .setting msg =>
    let addr := replyAddr gethostbyname msg
    if connects addr then { s with connectedAddr_ := some addr, loop := .sending msg }
    else { s with terminated := true }
  | .sending msg =>
    match sendMessage 4 buffer msg, s.connectedAddr_ with
    | .ok bytes, some addr => { s with sent := s.sent ++ [⟨bytes, addr⟩], loop := .polling }
    | _, _ => { s with terminated := true }

def step (fuel : Nat) (s : EchoClient) (a : EchoStep) : EchoClient :=
  if s.terminated then s
  else match a with
    | .arrive p => { s with socketQueue := s.socketQueue ++ [p] }
    | .receiver => s.stepReceiver fuel
    | .main buffer => s.stepLoop gethostbyname connects buffer

end EchoClient

/-! ## What arrives, and what it asks for -/

def EchoStep.arrival : EchoStep → Option UdpPacket
  | .arrive p => some p
  | .receiver | .main _ => none

def arrivals (as : List EchoStep) : List UdpPacket := as.filterMap EchoStep.arrival

/-- A datagram with the messages `ms` from an address that is not the broadcast address and that
`connect` takes. -/
structure Heard (connects : SockaddrIn → Bool) (p : UdpPacket) (ms : List Message) : Prop where
  packet : (Datagram.mk p.bytes (receivedFrom p.peer)).Says ms
  address : p.peer.sin_addr ≠ 0xFFFFFFFF
  connects : connects p.peer = true

/-- The packet of `sendMessage` for a message. -/
def echoOf (peer : SockaddrIn) (m : Message) : UdpPacket := ⟨encBundle (.mk [m] []), peer⟩

/-- The answers to datagrams with the messages `mss`: one for each message, in their order. -/
def echoes : List UdpPacket → List (List Message) → List UdpPacket
  | p :: ps, ms :: mss => ms.map (echoOf p.peer) ++ echoes ps mss
  | _, _ => []

end esc_platform.osc
