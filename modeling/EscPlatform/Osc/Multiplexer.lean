-- `SocketReceiveMultiplexer` of `UdpSocket.cpp`: the attached listeners, and
-- `Run` with its sockets, its timer queue and its break flag. What `select`
-- reports, the clock and the code of the listeners are given from outside.
import EscPlatform.Lib.DueQueues
import EscPlatform.Osc.Listener

namespace esc_platform.osc

open bytes due_queues

/-! ## The attached listeners -/

structure AttachedTimerListener (L : Type) where
  initialDelayMs : Int
  periodMs : Int
  listener : L
  deriving DecidableEq, Repr

/-- The listeners and sockets are known by their addresses. -/
structure SocketReceiveMultiplexer (P S L : Type) where
  socketListeners_ : List (P × S) := []
  timerListeners_ : List (AttachedTimerListener L) := []
  deriving DecidableEq, Repr

section attaching

variable {P S L : Type}

namespace SocketReceiveMultiplexer

section sockets

variable [DecidableEq P] [DecidableEq S] {m m' : SocketReceiveMultiplexer P S L}

/-- `none` where the `assert` fails. -/
def attachSocketListener (m : SocketReceiveMultiplexer P S L) (socket : S) (listener : P) :
    Option (SocketReceiveMultiplexer P S L) :=
  if (listener, socket) ∈ m.socketListeners_ then none
  else some { m with socketListeners_ := m.socketListeners_ ++ [(listener, socket)] }

def detachSocketListener (m : SocketReceiveMultiplexer P S L) (socket : S) (listener : P) :
    Option (SocketReceiveMultiplexer P S L) :=
  if (listener, socket) ∈ m.socketListeners_ then
    some { m with socketListeners_ := m.socketListeners_.erase (listener, socket) }
  else none

/-- A listener that is attached and detached again leaves the multiplexer as it was. -/
theorem detachSocketListener_attach {socket : S} {listener : P}
    (h : m.attachSocketListener socket listener = some m') :
    m'.detachSocketListener socket listener = some m := by
  unfold attachSocketListener at h
  split at h
  · cases h
  · next hnew =>
    cases h
    unfold detachSocketListener
    rw [if_pos (by simp), List.erase_append_right _ hnew, List.erase_cons_head, List.append_nil]

end sockets

section timers

variable [DecidableEq L] {m : SocketReceiveMultiplexer P S L}

def attachPeriodicTimerListener (m : SocketReceiveMultiplexer P S L)
    (initialDelayMilliseconds periodMilliseconds : Int) (listener : L) :
    SocketReceiveMultiplexer P S L :=
  { m with
    timerListeners_ := m.timerListeners_ ++
      [⟨initialDelayMilliseconds, periodMilliseconds, listener⟩] }

/-- The first timer of the listener is detached. -/
def detachPeriodicTimerListener (m : SocketReceiveMultiplexer P S L) (listener : L) :
    Option (SocketReceiveMultiplexer P S L) :=
  if ∃ t ∈ m.timerListeners_, t.listener = listener then
    some { m with timerListeners_ := m.timerListeners_.eraseP (·.listener = listener) }
  else none

theorem detachPeriodicTimerListener_attach (initialDelayMilliseconds periodMilliseconds : Int)
    {listener : L} (hnew : ∀ t ∈ m.timerListeners_, t.listener ≠ listener) :
    (m.attachPeriodicTimerListener initialDelayMilliseconds periodMilliseconds
      listener).detachPeriodicTimerListener listener = some m := by
  unfold attachPeriodicTimerListener detachPeriodicTimerListener
  rw [if_pos ⟨_, List.mem_append_right _ List.mem_cons_self, rfl⟩,
    List.eraseP_append_right _ (by simpa using hnew)]
  simp

end timers

end SocketReceiveMultiplexer

end attaching

/-! ## A run -/

namespace SocketReceiveMultiplexer

/-- How a call of a listener ended. `broken` tells that `break_` was set before it returned, by
the listener or from another thread. -/
inductive Ending
  | returned (broken : Bool)
  | threw
  deriving DecidableEq, Repr

inductive Call (P S L T : Type)
  | processPacket (listener : P) (socket : S) (packet : Datagram)
  | timerExpired (expiry : T) (timer : AttachedTimerListener L)
  deriving DecidableEq, Repr

structure Called (P S L T : Type) where
  call : Call P S L T
  ending : Ending
  deriving DecidableEq, Repr

/-- The locals of `Run`, the datagrams behind the sockets, the state of the listeners, and the
calls they got. `arrived` is all that a socket ever got. -/
structure RunState (P S L T σ : Type) where
  break_ : Bool
  timerQueue_ : List (T × AttachedTimerListener L) := []
  data : Memory
  remoteEndpoint : IpEndpointName := ⟨0xFFFFFFFF, -1⟩
  arrived : S → List Datagram
  waiting : S → List Datagram
  listeners : σ
  calls : List (Called P S L T) := []

/-- What leaves `Run` as an exception. -/
inductive RunError (ε : Type)
  | selectFailed
  | listener (e : ε)
  deriving DecidableEq, Repr

/-- What one turn of the loop meets. -/
structure Turn (S T : Type) where
  /-- What the sockets get until `select` returns. -/
  arrivals : S → List Datagram
  selectFails : Bool := false
  /-- `break_` is set when `select` has returned. -/
  broken : Bool := false
  /-- `FD_ISSET` behind `select`. -/
  ready : S → Bool
  /-- `GetCurrentTimeMs` in front of the timers. -/
  now : T

/-- What a socket gets waits behind it. -/
def RunState.arrive {P S L T σ : Type} (s : RunState P S L T σ) (t : Turn S T) :
    RunState P S L T σ :=
  { s with
    arrived := fun socket => s.arrived socket ++ t.arrivals socket
    waiting := fun socket => s.waiting socket ++ t.arrivals socket }

section running

variable {P S L T σ ε : Type} [DecidableEq S] [LinearOrder T]

abbrev RunM (P S L T σ ε : Type) := EStateM (RunError ε) (RunState P S L T σ)

/-- `AsynchronousBreak` during a call is told by its result, as `Break` is. -/
structure Listeners (P L σ ε : Type) where
  processPacket : P → Memory → Nat → IpEndpointName → EStateM ε σ Bool
  timerExpired : L → EStateM ε σ Bool

/-- A call of a listener, with its result. -/
def callListener (call : Call P S L T) (body : EStateM ε σ Bool) : RunM P S L T σ ε Unit :=
  fun s =>
    match body.run s.listeners with
    | .ok broken listeners =>
      .ok () { s with
        break_ := s.break_ || broken
        listeners := listeners
        calls := s.calls ++ [⟨call, .returned broken⟩] }
    | .error e listeners =>
      .error (.listener e) { s with
        listeners := listeners
        calls := s.calls ++ [⟨call, .threw⟩] }

/-- `UdpSocket::ReceiveFrom`. With nothing to receive, `recvfrom` fails. -/
def receiveFromSocket (socket : S) : RunM P S L T σ ε Nat :=
  fun s =>
    match s.waiting socket with
    | [] => .ok 0 s
    | d :: ds =>
      .ok (receiveFrom s.data d).2 { s with
        data := (receiveFrom s.data d).1
        remoteEndpoint := d.remoteEndpoint
        waiting := Function.update s.waiting socket ds }

variable (ls : Listeners P L σ ε)

/-- The loop over the sockets. -/
def runSockets (ready : S → Bool) : List (P × S) → RunM P S L T σ ε Unit
  | [] => return
  | (listener, socket) :: rest => do
    if ready socket then
      let size ← receiveFromSocket socket
      if size > 0 then
        let s ← get
        callListener (.processPacket listener socket ⟨slice s.data 0 size, s.remoteEndpoint⟩)
          (ls.processPacket listener s.data size s.remoteEndpoint)
        if (← get).break_ then return
        else runSockets ready rest
      else runSockets ready rest
    else runSockets ready rest

variable (after : T → Int → T)

/-- The loop over the timer queue: the queue behind it, and `resort`. -/
def expireTimers (now : T) : List (T × AttachedTimerListener L) →
    RunM P S L T σ ε (List (T × AttachedTimerListener L) × Bool)
  | [] => return ([], false)
  | (expiry, timer) :: queue => do
    if expiry ≤ now then
      callListener (.timerExpired expiry timer) (ls.timerExpired timer.listener)
      if (← get).break_ then return ((expiry, timer) :: queue, false)
      else
        let rest ← expireTimers now queue
        return ((after expiry timer.periodMs, timer) :: rest.1, true)
    else return ((expiry, timer) :: queue, false)

variable (sorter : Sorter T (AttachedTimerListener L)) (m : SocketReceiveMultiplexer P S L)

/-- `Run` up to its loop. -/
def beginRun (now : T) : RunM P S L T σ ε Unit :=
  modify fun s => { s with
    break_ := false
    timerQueue_ :=
      sorter.sort (m.timerListeners_.map fun timer => (after now timer.initialDelayMs, timer)) }

/-- The body of the loop. -/
def turn (t : Turn S T) : RunM P S L T σ ε Unit := do
  modify fun s => s.arrive t
  if t.selectFails then throw .selectFailed
  else
    modify fun s => { s with break_ := s.break_ || t.broken }
    if (← get).break_ then return
    else
      runSockets ls t.ready m.socketListeners_
      let queue ← expireTimers ls after t.now (← get).timerQueue_
      modify fun s => { s with timerQueue_ := if queue.2 then sorter.sort queue.1 else queue.1 }

/-- `while( !break_ )`, for the turns that the run meets. -/
def runTurns : List (Turn S T) → RunM P S L T σ ε Unit
  | [] => return
  | t :: ts => do
    if (← get).break_ then return
    else
      turn ls after sorter m t
      runTurns ts

def run (now : T) (ts : List (Turn S T)) : RunM P S L T σ ε Unit := do
  beginRun after sorter m now
  runTurns ls after sorter m ts

end running

end SocketReceiveMultiplexer

end esc_platform.osc
