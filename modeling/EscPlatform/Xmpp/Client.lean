-- `XmppClient.cpp`: the client with its roster, its queues and its
-- one-time registration. Each call and each callback is one step; what the
-- system and the server decide (whether a thread is created or joined, how
-- a registration goes) is an argument of the step.
import EscPlatform.Xmpp.AccountRegistration
import EscPlatform.Xmpp.Listener
import Std.Data.TreeMap.Lemmas

namespace esc_platform.xmpp

/-! ## Configuration -/

def kDocentUsername : String := "docent"
def kGameEngineUsername : String := "game-engine"

/-! ## Statuses and peers -/

inductive State
  | connected | tlsConnected | disconnected | rosterLoaded | error
  deriving DecidableEq, Repr

/-- `xmpp::error_t`. -/
inductive ErrorT
  | noError | generalError | authenticationError | protocolError | streamError | connectionError
  deriving DecidableEq, Repr

/-- `xmpp::status_t`. -/
inductive Status
  | available | chat | away | dnd | xa | unavailable | invalid
  deriving DecidableEq, Repr

def Status.toNat : Status → Nat
  | .available => 0
  | .chat => 1
  | .away => 2
  | .dnd => 3
  | .xa => 4
  | .unavailable => 5
  | .invalid => 6

/-- The cast `status_t( n )`. -/
def Status.cast : Nat → Status
  | 0 => .available
  | 1 => .chat
  | 2 => .away
  | 3 => .dnd
  | 4 => .xa
  | 5 => .unavailable
  | _ => .invalid

def presenceToStatus (value : PresenceType) : Status :=
  if value.toNat ≤ 6 then Status.cast value.toNat else .invalid

structure Peer where
  mUsername : String := "unknown"
  mConnected : Bool := false
  mStatus : Status := .invalid
  deriving DecidableEq, Repr

def Peer.setStatus (p : Peer) (value : Status) : Peer :=
  { p with mStatus := value, mConnected := value.toNat < 5 }

structure Event where
  username : String
  message : String
  deriving DecidableEq, Repr

structure PresenceEvent where
  username : String
  status : Status
  deriving DecidableEq, Repr

/-- Which signal callbacks are set. -/
structure Signals where
  mSignalConnect : Bool := false
  mSignalTlsConnect : Bool := false
  mSignalDisconnect : Bool := false
  mSignalRoster : Bool := false
  mSignalHandleMsg : Bool := false
  mSignalRosterPresence : Bool := false
  deriving DecidableEq, Repr

/-- A call of a signal callback. -/
inductive Signal
  | connect
  | tlsConnect
  | disconnect (err : ErrorT)
  | roster (userlist : List String)
  | message (peer : Peer) (subject body : String)
  /-- `none` is the peer behind the end of the map. -/
  | rosterPresence (peer : Option Peer) (resource : String) (status : Status) (message : String)
  deriving DecidableEq, Repr

structure Client where
  mInitialConnection : Bool := false
  mAccountCreator : AccountRegistration := {}
  mUsername : String := ""
  mPassword : String := ""
  mServer : String := ""
  mListener : Listener := {}
  mRoster : Std.TreeMap String Peer := ∅
  mEventQueue : List Event := []
  mStateQueue : List State := []
  mPresenceQueue : List PresenceEvent := []
  signals : Signals := {}
  /-- The signals that fired, the oldest first. -/
  fired : List Signal := []

/-- The `switch` of `onDisconnect`: the error that is reported. -/
def errorOf : ConnectionError → ErrorT
  | .connNoError => .noError
  | .connStreamError | .connStreamClosed | .connIoError => .streamError
  | .connProxyAuthRequired | .connProxyAuthFailed | .connProxyNoSupportedAuth
  | .connTlsFailed | .connTlsNotAvailable | .connNoSupportedAuth
  | .connAuthenticationFailed => .authenticationError
  | .connParseError | .connStreamVersionError => .protocolError
  | .connUserDisconnected | .connNotConnected | .connDnsError
  | .connConnectionRefused => .connectionError
  | .connOutOfMemory | .connCompressionFailed => .generalError

namespace Client

/-- `if (mSignal…) mSignal…( … )`. -/
def fire (c : Client) (isSet : Bool) (signal : Signal) : Client :=
  if isSet then { c with fired := c.fired ++ [signal] } else c

@[simp] theorem fire_mListener (c : Client) (isSet : Bool) (signal : Signal) :
    (c.fire isSet signal).mListener = c.mListener := by
  unfold fire; split <;> rfl

def pushState (c : Client) (s : State) : Client := { c with mStateQueue := c.mStateQueue ++ [s] }

/-! ## Calls of the application -/

/-- `Client::connect`. The default port is 5222. -/
def connect (c : Client) (xmppUser xmppPassword xmppServer : String) (xmppPort : Int)
    (threadCreated : Bool) : Client × Bool :=
  if xmppUser = "" ∨ xmppServer = "" then (c, false)
  else
    let c := { c with
      mListener := c.mListener.setup xmppUser xmppPassword xmppServer xmppPort
      mEventQueue := []
      mStateQueue := []
      mPresenceQueue := [] }
    if threadCreated then
      ({ c with
        mUsername := xmppUser
        mPassword := xmppPassword
        mServer := xmppServer
        mInitialConnection := true }, true)
    else (c, false)

/-! ## Callbacks of the stream -/

/-- `Client::onConnect`. -/
def onConnect (c : Client) : Client :=
  (c.pushState .connected).fire c.signals.mSignalConnect .connect

/-- `Client::onTLSConnect`. -/
def onTLSConnect (c : Client) : Client :=
  (c.pushState .tlsConnected).fire c.signals.mSignalTlsConnect .tlsConnect

/-- The errors for which `onDisconnect` looks at `mInitialConnection`. -/
def isAuthError (e : ConnectionError) : Bool := errorOf e = .authenticationError

/-- The last branch of `onDisconnect`. -/
def reportDisconnect (c : Client) (err : ErrorT) : Client :=
  (c.pushState .disconnected).fire c.signals.mSignalDisconnect (.disconnect err)

/-- The registration branch of `onDisconnect`, with the value of the nested `connect`. -/
def registerAndConnect (c : Client) (attempt : Attempt) (threadCreated : Bool) : Client × Bool :=
  let c := { c with
    mAccountCreator := (c.mAccountCreator.init c.mUsername c.mPassword c.mServer attempt).1
    mInitialConnection := false }
  if c.mAccountCreator.mStatus = .success then
    c.connect c.mUsername c.mPassword c.mServer 5222 threadCreated
  else (c, false)

/-- `Client::onDisconnect`, with whether it started a new connection. -/
def onDisconnect (c : Client) (e : ConnectionError) (attempt : Attempt) (threadCreated : Bool) :
    Client × Bool :=
  let shouldRegister := isAuthError e && c.mInitialConnection
  if shouldRegister then c.registerAndConnect attempt threadCreated
  else (c.reportDisconnect (errorOf e), false)

/-! ## The listener in front of the client -/

/-- `Listener::onConnect`, from the gloox client `g`. -/
def listenerOnConnect (c : Client) (g : Nat) : Client :=
  onConnect { c with mListener := { c.mListener.setStream g true with mIsConnected := true } }

/-- `Listener::onTLSConnect`. -/
def listenerOnTLSConnect (c : Client) (g : Nat) : Client :=
  onTLSConnect { c with mListener := { c.mListener.setStream g true with mIsConnected := true } }

/-- `Listener::onDisconnect`. -/
def listenerOnDisconnect (c : Client) (g : Nat) (e : ConnectionError) (attempt : Attempt)
    (threadCreated : Bool) : Client × Bool :=
  onDisconnect { c with mListener := { c.mListener.setStream g false with mIsConnected := false } }
    e attempt threadCreated

/-- `gloox::Client::disconnect` of the client `g`: an open stream closes at the user's wish, and
reports it before the call returns. That error registers nothing. -/
def glooxDisconnect (c : Client) (g : Nat) : Client :=
  if (c.mListener.clients[g]?).any (·.isOpen) then
    (c.listenerOnDisconnect g .connUserDisconnected ⟨false, []⟩ false).1
  else c

/-- `Listener::closeConnection`. -/
def closeConnection (c : Client) : Client :=
  match c.mListener.mIsConnected, c.mListener.mClient with
  | true, some g => c.glooxDisconnect g
  | _, _ => c

/-- `Client::disconnect`. -/
def disconnect (c : Client) (threadJoined : Bool) : Client × Bool :=
  if c.mListener.mIsConnected then
    (closeConnection { c with mInitialConnection := false }, threadJoined)
  else (c, false)

/-! ## Messages, roster and presence -/

/-- `Client::handleMessage`. -/
def handleMessage (c : Client) (name subject body : String) : Client :=
  let peer := (c.mRoster[name]?).getD {}
  let e : Event := { username := name, message := body }
  let c := { c with mEventQueue := c.mEventQueue ++ [e] }
  c.fire c.signals.mSignalHandleMsg (.message peer subject body)

/-- The loop of `handleRoster`: whether to subscribe to the game engine, the roster and the list
of user names. -/
def rosterLoop (roster : Roster) (subscribeToGame : Bool) :
    Bool × Std.TreeMap String Peer × List String :=
  roster.foldl
    (fun (subscribeToGame, mRoster, userlist) item =>
      (if kGameEngineUsername = item.username then false else subscribeToGame,
        mRoster.insertIfNew item.username { mUsername := item.username },
        userlist ++ [item.username]))
    (subscribeToGame, ∅, [])

/-- `Client::handleRoster`. -/
def handleRoster (c : Client) (roster : Roster) : Client :=
  let (subscribeToGame, mRoster, userlist) := rosterLoop roster (c.mUsername ≠ kDocentUsername)
  let c := { c with mRoster := mRoster }
  let c :=
    if subscribeToGame then
      { c with
        mListener :=
          (c.mListener.subscribeTo (kGameEngineUsername ++ "@" ++ c.mListener.mServer)).1 }
    else c
  (c.pushState .rosterLoaded).fire c.signals.mSignalRoster (.roster userlist)

/-- `Client::handleRosterPresence`. -/
def handleRosterPresence (c : Client) (item : RosterItem) (resource : String)
    (presence : PresenceType) (message : String) : Client :=
  let name := item.username
  let mRoster :=
    match c.mRoster[name]? with
    | some peer => c.mRoster.insert name (peer.setStatus (presenceToStatus presence))
    | none => c.mRoster
  let e : PresenceEvent := { username := name, status := presenceToStatus presence }
  let c := { c with
    mRoster := mRoster
    mPresenceQueue := c.mPresenceQueue ++ [e] }
  c.fire c.signals.mSignalRosterPresence
    (.rosterPresence mRoster[name]? resource (presenceToStatus presence) message)

/-- `Client::sendMessage`. -/
def sendMessage (c : Client) (recipient message subject : String) : Client × Bool :=
  if recipient = "" then (c, false)
  else
    let (l, sent) :=
      c.mListener.sendMessage (recipient ++ "@" ++ c.mListener.mServer) message subject
    ({ c with mListener := l }, sent)

/-- `Client::isPeerConnected`. -/
def isPeerConnected (c : Client) (username : String) : Bool :=
  match c.mRoster[username]? with
  | some peer => peer.mConnected
  | none => false

end Client

/-! ## Steps -/

/-- A call of the application, or a callback of a gloox client `g` that `setup` made. -/
inductive Action
  | connect (xmppUser xmppPassword xmppServer : String) (xmppPort : Int) (threadCreated : Bool)
  | disconnect (threadJoined : Bool)
  | onConnect (g : Nat)
  | onTLSConnect (g : Nat)
  | onDisconnect (g : Nat) (e : ConnectionError) (attempt : Attempt) (threadCreated : Bool)
  | handleMessage (name subject body : String)
  | handleRoster (roster : Roster)
  | handleRosterPresence (item : RosterItem) (resource : String) (presence : PresenceType)
    (message : String)
  | handleItemAdded (item : RosterItem)
  | handleItemRemoved (item : RosterItem)
  | handleSubscriptionRequest (jid : JID)
  | sendMessage (recipient message subject : String)
  /-- The setters of the signal callbacks. -/
  | setSignals (signals : Signals)
  /-- `getEventQueue().pop_front()`, of a queue that is not empty. -/
  | popEvent
  | popState
  | popPresence
  deriving DecidableEq, Repr

/-- A stream callback comes from a client that exists. -/
def Client.step (c : Client) : Action → Client
  | .connect user password server port threadCreated =>
    (c.connect user password server port threadCreated).1
  | .disconnect threadJoined => (c.disconnect threadJoined).1
  | .onConnect g => if g < c.mListener.clients.length then c.listenerOnConnect g else c
  | .onTLSConnect g => if g < c.mListener.clients.length then c.listenerOnTLSConnect g else c
  | .onDisconnect g e attempt threadCreated =>
    if g < c.mListener.clients.length then (c.listenerOnDisconnect g e attempt threadCreated).1
    else c
  | .handleMessage name subject body => c.handleMessage name subject body
  | .handleRoster roster => c.handleRoster roster
  | .handleRosterPresence item resource presence message =>
    c.handleRosterPresence item resource presence message
  -- both are empty in `XmppListener.h`
  | .handleItemAdded _ => c
  | .handleItemRemoved _ => c
  | .handleSubscriptionRequest jid =>
    { c with mListener := c.mListener.handleSubscriptionRequest jid }
  | .sendMessage recipient message subject => (c.sendMessage recipient message subject).1
  | .setSignals signals => { c with signals := signals }
  | .popEvent => { c with mEventQueue := c.mEventQueue.tail }
  | .popState => { c with mStateQueue := c.mStateQueue.tail }
  | .popPresence => { c with mPresenceQueue := c.mPresenceQueue.tail }

end esc_platform.xmpp
