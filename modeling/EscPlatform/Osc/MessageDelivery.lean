-- The two ways of a message to the application: the queue behind
-- `getNextMessage`, and the callback. The callback decides for each message
-- that arrives, and does not look at the queue.
import EscPlatform.Osc.ListenerLaws
import EscPlatform.Lib.Runs

namespace esc_platform.osc

open runs

/-! ## The application's side -/

/-- `Message::copy`. The arguments of the target stay in front of the copied ones. -/
def Message.copy (m other : Message) : Message :=
  { address := other.address
    args := m.args ++ other.args
    remoteHost := other.remoteHost
    remotePort := other.remotePort }

/-- A copy is the same message where the target had no arguments. -/
theorem Message.copy_eq_iff (m other : Message) : m.copy other = other ↔ m.args = [] := by
  constructor
  · intro h
    have hargs : m.args ++ other.args = other.args := congrArg Message.args h
    simpa using hargs
  · intro h
    simp [copy, h]

namespace OscListener

/-- `setMessageReceivedCb`, with `false` for an empty function. -/
def setMessageReceived (l : OscListener) (callback : Bool) : OscListener :=
  { l with mCallbackFn := callback }

def hasWaitingMessages (l : OscListener) : Bool := !l.mMessages.isEmpty

/-- What `getNextMessage` returns, what it leaves in `message`, and the listener behind it. -/
def getNextMessage (l : OscListener) (message : Message) : Bool × Message × OscListener :=
  match l.mMessages with
  | [] => (false, message, l)
  | src_message :: rest => (true, message.copy src_message, { l with mMessages := rest })

theorem getNextMessage_returns (l : OscListener) (message : Message) :
    (l.getNextMessage message).1 = l.hasWaitingMessages := by
  unfold getNextMessage hasWaitingMessages
  cases l.mMessages with
  | nil => rfl
  | cons m ms => rfl

/-! ## Runs -/

/-- A decoded message, or a call of the application. -/
inductive Action
  | arrive (message : Message)
  | setMessageReceived (callback : Bool)
  | hasWaitingMessages
  | getNextMessage (message : Message)
  deriving DecidableEq, Repr

def step (l : OscListener) : Action → OscListener
  | .arrive message => l.deliver message
  | .setMessageReceived callback => l.setMessageReceived callback
  | .hasWaitingMessages => l
  | .getNextMessage message => (l.getNextMessage message).2.2

/-- The messages of a datagram arrive one after the other. -/
theorem deliverAll_eq_run (l : OscListener) (ep : IpEndpointName) (ms : List Message) :
    l.deliverAll ep ms =
      run step l (ms.map fun m => .arrive (m.setRemoteEndpoint ep.addressAsString ep.port)) := by
  simp only [deliverAll, run, List.foldl_map, step]

/-- The messages that arrived, what the application got, and whether it ever registered a
callback. -/
structure Deliveries where
  arrived : List Message := []
  delivered : List Message := []
  registered : Bool := false
  deriving DecidableEq, Repr

def Deliveries.see (d : Deliveries) (l : OscListener) (a : Action) (_ : OscListener) :
    Deliveries :=
  match a with
  | .arrive message =>
    { d with
      arrived := d.arrived ++ [message]
      delivered := if l.mCallbackFn then d.delivered ++ [message] else d.delivered }
  | .setMessageReceived callback => { d with registered := d.registered || callback }
  | .hasWaitingMessages => d
  | .getNextMessage message =>
    if (l.getNextMessage message).1 then
      { d with delivered := d.delivered ++ [(l.getNextMessage message).2.1] }
    else d

/-- What a listener promises: nothing waits once a callback was registered, and what was
delivered, and then what waits, is what arrived. -/
def KeepsPromise (s : OscListener × Deliveries) : Prop :=
  (s.2.registered = true → s.1.hasWaitingMessages = false ∧
    ∀ message, (s.1.getNextMessage message).1 = false) ∧
  s.2.delivered ++ s.1.mMessages = s.2.arrived

/-- The condition on a step: a callback finds an empty queue and is not taken away from a message
that arrives, and `getNextMessage` gets a message without arguments. -/
def PromiseStep (s : OscListener × Deliveries) : Action → Prop
  | .arrive _ => s.2.registered = true → s.1.mCallbackFn = true
  | .setMessageReceived callback => callback = true → s.1.hasWaitingMessages = false
  | .hasWaitingMessages => True
  | .getNextMessage message => s.1.hasWaitingMessages = true → message.args = []

/-- The callback stands in the history. -/
def Registered (s : OscListener × Deliveries) : Prop :=
  s.1.mCallbackFn = true → s.2.registered = true

theorem keepsPromise_iff (l : OscListener) (d : Deliveries) :
    KeepsPromise (l, d) ↔
      (d.registered = true → l.mMessages = []) ∧ d.delivered ++ l.mMessages = d.arrived := by
  have hwaiting : l.hasWaitingMessages = false ↔ l.mMessages = [] := by
    simp [hasWaitingMessages]
  have hreturns : (l.hasWaitingMessages = false ∧
      ∀ message, (l.getNextMessage message).1 = false) ↔ l.mMessages = [] := by
    simp only [getNextMessage_returns, hwaiting]
    exact ⟨fun h => h.1, fun h => ⟨h, fun _ => h⟩⟩
  simp only [KeepsPromise, hreturns]

theorem registered_step (s : OscListener × Deliveries) (a : Action) (h : Registered s) :
    Registered (monitored step Deliveries.see s a) := by
  obtain ⟨l, d⟩ := s
  cases a with
  | arrive message =>
    intro hcb
    apply h
    simp only [monitored, step, deliver] at hcb
    split at hcb <;> exact hcb
  | setMessageReceived callback =>
    intro hcb
    simp only [monitored, step, setMessageReceived] at hcb
    simp [monitored, Deliveries.see, hcb]
  | hasWaitingMessages => exact h
  | getNextMessage message =>
    intro hcb
    simp only [monitored, step, getNextMessage] at hcb
    have hreg : d.registered = true := by
      apply h
      split at hcb <;> exact hcb
    simp only [monitored, Deliveries.see]
    split <;> exact hreg

/-! ## What a step does to the promise -/

section steps

variable {l : OscListener} {d : Deliveries}

theorem promise_arrive (message : Message) (hreg : Registered (l, d)) (h : KeepsPromise (l, d)) :
    KeepsPromise (monitored step Deliveries.see (l, d) (.arrive message)) ↔
      PromiseStep (l, d) (.arrive message) := by
  rw [keepsPromise_iff] at h ⊢
  obtain ⟨hempty, horder⟩ := h
  simp only [monitored, step, deliver, Deliveries.see, PromiseStep]
  cases hcb : l.mCallbackFn with
  | true =>
    have hqueue := hempty (hreg hcb)
    simp only [hqueue, List.append_nil] at horder
    simp [hqueue, horder]
  | false =>
    simp [← List.append_assoc, horder]

theorem promise_setMessageReceived (callback : Bool) (h : KeepsPromise (l, d)) :
    KeepsPromise (monitored step Deliveries.see (l, d) (.setMessageReceived callback)) ↔
      PromiseStep (l, d) (.setMessageReceived callback) := by
  rw [keepsPromise_iff] at h ⊢
  obtain ⟨hempty, horder⟩ := h
  simp only [monitored, step, setMessageReceived, Deliveries.see, PromiseStep, hasWaitingMessages]
  cases callback with
  | true => simp [horder]
  | false => simpa [horder] using hempty

theorem promise_getNextMessage (message : Message) (h : KeepsPromise (l, d)) :
    KeepsPromise (monitored step Deliveries.see (l, d) (.getNextMessage message)) ↔
      PromiseStep (l, d) (.getNextMessage message) := by
  rw [keepsPromise_iff] at h ⊢
  obtain ⟨hempty, horder⟩ := h
  cases hqueue : l.mMessages with
  | nil =>
    rw [hqueue] at horder
    simp [monitored, step, getNextMessage, Deliveries.see, PromiseStep, hasWaitingMessages, hqueue,
      horder]
  | cons m ms =>
    have hnot : d.registered = false := by
      rw [← Bool.not_eq_true]
      intro hreg
      rw [hempty hreg] at hqueue
      cases hqueue
    have hcopy : d.delivered ++ message.copy m :: ms = d.arrived ↔ message.args = [] := by
      rw [← horder, hqueue, List.append_cancel_left_eq, List.cons_eq_cons,
        and_iff_left rfl, Message.copy_eq_iff]
    simp [monitored, step, getNextMessage, Deliveries.see, PromiseStep, hasWaitingMessages, hqueue,
      hnot, hcopy]

end steps

theorem promise_step (s : OscListener × Deliveries) (a : Action) (hreg : Registered s)
    (h : KeepsPromise s) :
    KeepsPromise (monitored step Deliveries.see s a) ↔ PromiseStep s a := by
  cases a with
  | arrive message => exact promise_arrive message hreg h
  | setMessageReceived callback => exact promise_setMessageReceived callback h
  | hasWaitingMessages => exact iff_of_true h trivial
  | getNextMessage message => exact promise_getNextMessage message h

/-! ## The law -/

/-- A listener keeps its promise in every state of a run exactly where each step of the run meets
its condition. -/
theorem messages_come_once_in_order_iff (as : List Action) :
    Always (monitored step Deliveries.see) KeepsPromise ({}, {}) as ↔
      EachStep (monitored step Deliveries.see) PromiseStep ({}, {}) as :=
  always_iff_eachStep registered_step promise_step nofun (by simp [keepsPromise_iff])

/-- A message waits when the callback is registered: it is still waiting when the next one is
delivered. -/
theorem a_message_is_overtaken :
    ¬ Always (monitored step Deliveries.see) KeepsPromise ({}, {})
      [.arrive ⟨[97], [], "", 0⟩, .setMessageReceived true, .arrive ⟨[98], [], "", 0⟩] ∧
    run (monitored step Deliveries.see) ({}, {})
      [.arrive ⟨[97], [], "", 0⟩, .setMessageReceived true, .arrive ⟨[98], [], "", 0⟩] =
      ({ mMessages := [⟨[97], [], "", 0⟩], mCallbackFn := true, calledWith := [⟨[98], [], "", 0⟩] },
        { arrived := [⟨[97], [], "", 0⟩, ⟨[98], [], "", 0⟩], delivered := [⟨[98], [], "", 0⟩],
          registered := true }) := by
  constructor
  · intro h
    have hend := h _ (List.prefix_refl _)
    rw [keepsPromise_iff] at hend
    exact absurd hend (by decide)
  · decide

end OscListener

end esc_platform.osc
