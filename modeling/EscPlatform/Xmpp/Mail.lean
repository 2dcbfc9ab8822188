-- What a step of the client adds to the messages of its streams, and what it
-- does to the queue of the events. Only `sendMessage` adds a message, and only
-- a new connection empties the queue.
import EscPlatform.Xmpp.ConnectionLaws
import EscPlatform.Xmpp.Polling

namespace esc_platform.xmpp

/-! ## Messages of a stream -/

/-- `JID::username()`: the part in front of the `@`. -/
def usernameOf (jid : JID) : String := String.ofList (jid.toList.takeWhile (· ≠ '@'))

/-- A message as its recipient gets it. -/
structure Mail where
  username : String
  body : String
  subject : String
  deriving DecidableEq, Repr

/-- The entry that `handleMessage` makes of it. -/
def Mail.event (m : Mail) : Event := { username := m.username, message := m.body }

/-- The stanza as the recipient `v` gets it from the stream of `sender`. -/
def Stanza.mailTo (sender v : JID) : Stanza → Option Mail
  | .message recipient body subject =>
    if recipient = v then some { username := usernameOf sender, body, subject } else none
  | .subscribe _ => none

/-- The messages for `v` that the gloox client got, the oldest first. -/
def GlooxClient.mailTo (client : GlooxClient) (v : JID) : List Mail :=
  client.sent.filterMap (Stanza.mailTo client.jid v)

/-- The messages for `v` that the client `g` got. -/
def Listener.mailTo (l : Listener) (g : Nat) (v : JID) : List Mail :=
  (l.clients[g]?.map (·.mailTo v)).getD []

/-- What `sendMessage` hands to gloox: the client that gets it, the recipient and the message. -/
def Client.posted (c : Client) (recipient message subject : String) :
    Option (Nat × JID × Mail) :=
  if recipient = "" ∨ c.mListener.mIsConnected = false ∨ message = "" then none
  else do
    let g ← c.mListener.mClient
    let client ← c.mListener.clients[g]?
    return (g, recipient ++ "@" ++ c.mListener.mServer,
      { username := usernameOf client.jid, body := message, subject })

namespace Listener

variable (l : Listener) (g : Nat) (v : JID)

theorem mailTo_setup (username password server : String) (port : Int) :
    (l.setup username password server port).mailTo g v = l.mailTo g v := by
  unfold mailTo setup
  simp only [List.getElem?_append]
  split
  · rfl
  · rename_i hg
    rw [List.getElem?_eq_none (Nat.le_of_not_lt hg)]
    -- the new client got nothing yet
    rcases g - l.clients.length with _ | k
    · rfl
    · rfl

theorem mailTo_setStream (k : Nat) (isOpen flag : Bool) :
    ({ l.setStream k isOpen with mIsConnected := flag } : Listener).mailTo g v =
      l.mailTo g v := by
  unfold mailTo setStream
  rw [List.getElem?_modify]
  by_cases hk : k = g
  · simp only [hk, if_true]
    cases l.clients[g]? with
    | none => rfl
    | some client => rfl
  · simp [hk]

theorem mailTo_send (stanza : Stanza) :
    (l.send stanza).mailTo g v = l.mailTo g v ++
      if l.mClient = some g then (l.clients[g]?.bind fun client =>
        stanza.mailTo client.jid v).toList else [] := by
  unfold mailTo send
  cases hm : l.mClient with
  | none => simp
  | some k =>
    simp only [List.getElem?_modify, Option.some.injEq]
    by_cases hk : k = g
    · simp only [hk, if_true]
      cases l.clients[g]? with
      | none => rfl
      | some client =>
        cases hs : stanza.mailTo client.jid v with
        | none => simp [GlooxClient.mailTo, hs]
        | some mail => simp [GlooxClient.mailTo, hs]
    · simp [hk]

theorem mailTo_subscribe (jid : JID) : (l.send (.subscribe jid)).mailTo g v = l.mailTo g v := by
  rw [mailTo_send]
  cases l.clients[g]? with
  | none => simp
  | some client => simp [Stanza.mailTo]

end Listener

namespace Client

/-! ## What a step adds to the messages -/

variable (c : Client) (g : Nat) (v : JID)

theorem sendMessage_mailTo (recipient message subject : String) :
    (c.sendMessage recipient message subject).1.mListener.mailTo g v = c.mListener.mailTo g v ++
      ((c.posted recipient message subject).toList.filterMap fun x =>
        if x.1 = g ∧ x.2.1 = v then some x.2.2 else none) := by
  unfold sendMessage posted Listener.sendMessage
  by_cases hr : recipient = ""
  · simp [hr]
  · by_cases hcheck : c.mListener.mIsConnected = false ∨ message = ""
    · have hrefused : c.mListener.mIsConnected = false ∨ message = "" ∨
          c.mListener.mClient = none := hcheck.imp id .inl
      simp [hr, hcheck, hrefused]
    · cases hm : c.mListener.mClient with
      | none => simp [hr]
      | some k =>
        rw [not_or] at hcheck
        simp only [hr, hcheck, if_false, or_self, reduceCtorEq, Listener.mailTo_send, hm,
          Option.some.injEq, Option.bind_eq_bind, Option.bind_some]
        by_cases hk : k = g
        · subst hk
          cases c.mListener.clients[k]? with
          | none => simp
          | some client =>
            simp only [if_true, Option.bind_some, Stanza.mailTo]
            by_cases hv : recipient ++ "@" ++ c.mListener.mServer = v
            · simp [hv]
            · simp [hv]
        · cases c.mListener.clients[k]? with
          | none => simp [hk]
          | some client => simp [hk]

theorem listenerOnDisconnect_mailTo (k : Nat) (e : ConnectionError) (attempt : Attempt)
    (threadCreated : Bool) :
    (c.listenerOnDisconnect k e attempt threadCreated).1.mListener.mailTo g v =
      c.mListener.mailTo g v := by
  unfold listenerOnDisconnect
  rw [onDisconnect_mListener]
  split
  · rw [Listener.mailTo_setup, Listener.mailTo_setStream]
  · rw [Listener.mailTo_setStream]

theorem disconnect_mailTo (threadJoined : Bool) :
    (c.disconnect threadJoined).1.mListener.mailTo g v = c.mListener.mailTo g v := by
  unfold disconnect closeConnection glooxDisconnect
  split
  · split
    · split
      · exact listenerOnDisconnect_mailTo { c with mInitialConnection := false } g v _ _ _ _
      · rfl
    · rfl
  · rfl

theorem handleRoster_mailTo (roster : Roster) :
    (c.handleRoster roster).mListener.mailTo g v = c.mListener.mailTo g v := by
  simp only [handleRoster, fire_mListener, pushState_mListener]
  split
  · unfold Listener.subscribeTo
    split
    · rfl
    · exact Listener.mailTo_subscribe _ _ _ _
  · rfl

/-- Only `sendMessage` adds to the messages of a stream. -/
theorem step_mailTo (a : Action) :
    (c.step a).mListener.mailTo g v = c.mListener.mailTo g v ++ match a with
      | .sendMessage recipient message subject =>
        (c.posted recipient message subject).toList.filterMap fun x =>
          if x.1 = g ∧ x.2.1 = v then some x.2.2 else none
      | _ => [] := by
  cases a with
  | sendMessage recipient message subject => exact sendMessage_mailTo c g v _ _ _
  | connect user password server port threadCreated =>
    simp only [step, connect_mListener, List.append_nil]
    split
    · rfl
    · exact Listener.mailTo_setup _ _ _ _ _ _ _
  | disconnect threadJoined =>
    rw [List.append_nil]
    exact disconnect_mailTo c g v threadJoined
  | onConnect k =>
    simp only [step, List.append_nil]
    split
    · rw [listenerOnConnect_mListener, Listener.mailTo_setStream]
    · rfl
  | onTLSConnect k =>
    simp only [step, List.append_nil]
    split
    · rw [listenerOnTLSConnect_mListener, Listener.mailTo_setStream]
    · rfl
  | onDisconnect k e attempt threadCreated =>
    simp only [step, List.append_nil]
    split
    · exact listenerOnDisconnect_mailTo c g v k e attempt threadCreated
    · rfl
  | handleRoster roster =>
    rw [List.append_nil]
    exact handleRoster_mailTo c g v roster
  | handleSubscriptionRequest jid =>
    rw [List.append_nil]
    exact Listener.mailTo_subscribe _ _ _ _
  | handleMessage => simp [step, handleMessage]
  | handleRosterPresence => simp [step, handleRosterPresence]
  | handleItemAdded | handleItemRemoved | setSignals | popEvent | popState | popPresence =>
    simp [step]

/-! ## What a step does to the events -/

theorem connect_mEventQueue (user password server : String) (port : Int) (threadCreated : Bool) :
    (c.connect user password server port threadCreated).1.mEventQueue =
      if user = "" ∨ server = "" then c.mEventQueue else [] := by
  unfold connect
  split
  · rfl
  · cases threadCreated <;> rfl

theorem reportDisconnect_mEventQueue (err : ErrorT) :
    (c.reportDisconnect err).mEventQueue = c.mEventQueue := by
  simp [reportDisconnect, pushState]

theorem onDisconnect_mEventQueue (e : ConnectionError) (attempt : Attempt) (threadCreated : Bool) :
    (c.onDisconnect e attempt threadCreated).1.mEventQueue =
      if c.reconnects e attempt then [] else c.mEventQueue := by
  unfold onDisconnect reconnects
  by_cases hreg : (isAuthError e && c.mInitialConnection) = true
  · simp only [hreg, if_true, registerAndConnect, Bool.true_and]
    split
    · rename_i hsuccess
      rw [connect_mEventQueue]
      by_cases hu : c.mUsername = "" <;> by_cases hs : c.mServer = "" <;> simp [hsuccess, hu, hs]
    · rename_i hsuccess
      simp [hsuccess]
  · simp only [hreg, Bool.false_eq_true, if_false, reportDisconnect_mEventQueue]
    simp

/-- A new connection of the application, or the one behind a registration. -/
def startsOver : Action → Bool
  | .connect user _ server _ _ => user ≠ "" ∧ server ≠ ""
  | .onDisconnect k e attempt _ => k < c.mListener.clients.length ∧ c.reconnects e attempt = true
  | _ => false

theorem disconnect_mEventQueue (threadJoined : Bool) :
    (c.disconnect threadJoined).1.mEventQueue = c.mEventQueue := by
  unfold disconnect closeConnection glooxDisconnect
  split
  · split
    · split
      · -- the error at the user's wish registers nothing
        unfold listenerOnDisconnect
        rw [onDisconnect_mEventQueue, if_neg (by simp [reconnects])]
      · rfl
    · rfl
  · rfl

theorem step_mEventQueue (a : Action) :
    (c.step a).mEventQueue = match a with
      | .handleMessage name _ body => c.mEventQueue ++ [⟨name, body⟩]
      | .popEvent => c.mEventQueue.tail
      | a => if c.startsOver a then [] else c.mEventQueue := by
  cases a with
  | connect user password server port threadCreated =>
    simp only [step, connect_mEventQueue, startsOver, decide_eq_true_eq]
    by_cases hu : user = "" <;> by_cases hs : server = "" <;> simp [hu, hs]
  | disconnect threadJoined => exact disconnect_mEventQueue c threadJoined
  | onConnect k =>
    simp only [step]
    split
    · simp [listenerOnConnect, onConnect, pushState, startsOver]
    · rfl
  | onTLSConnect k =>
    simp only [step]
    split
    · simp [listenerOnTLSConnect, onTLSConnect, pushState, startsOver]
    · rfl
  | onDisconnect k e attempt threadCreated =>
    simp only [step, startsOver, decide_eq_true_eq]
    by_cases hk : k < c.mListener.clients.length
    · simp only [hk, if_true, true_and]
      exact onDisconnect_mEventQueue _ e attempt threadCreated
    · simp [hk]
  | handleMessage name subject body => simp [step, handleMessage]
  | handleRoster roster =>
    simp only [step, handleRoster, Polls.fire_mEventQueue, pushState, startsOver]
    split <;> rfl
  | handleRosterPresence => simp [step, handleRosterPresence, startsOver]
  | sendMessage recipient message subject =>
    simp only [step, sendMessage, startsOver]
    split <;> rfl
  | handleItemAdded | handleItemRemoved | handleSubscriptionRequest | setSignals | popEvent
  | popState | popPresence => rfl

end Client

end esc_platform.xmpp
