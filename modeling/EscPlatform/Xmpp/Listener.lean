-- `XmppListener.cpp`: one listener for all the gloox clients that `setup`
-- made. Only the last of them is held in `mClient`, and each of them still
-- reports its stream to the listener.
import EscPlatform.Xmpp.Gloox

namespace esc_platform.xmpp

structure Listener where
  mServer : String := ""
  mIsConnected : Bool := false
  /-- The position in `clients` of the client that the pointer holds. -/
  mClient : Option Nat := none
  /-- Every client that `setup` made, the oldest first. None of them is ever deleted. -/
  clients : List GlooxClient := []
  deriving DecidableEq, Repr

namespace Listener

/-- `Listener::setup`. Logging is compiled in for debug builds only. -/
def setup (l : Listener) (username password server : String) (port : Int) : Listener :=
  let mServer := if server = "" then l.mServer else server
  { l with
    mServer := mServer
    clients := l.clients ++
      [{ jid := username ++ "@" ++ mServer, password := password, port := port }]
    mClient := some l.clients.length }

/-- The stream of the client `c` opens or closes. -/
def setStream (l : Listener) (c : Nat) (isOpen : Bool) : Listener :=
  { l with clients := l.clients.modify c fun g => { g with isOpen := isOpen } }

/-- The client in `mClient` has an open stream. -/
def currentIsOpen (l : Listener) : Bool :=
  match l.mClient with
  | none => false
  | some c => (l.clients[c]?).any (·.isOpen)

/-! ## Sending -/

/-- `mClient->send( stanza )`. -/
def send (l : Listener) (stanza : Stanza) : Listener :=
  match l.mClient with
  | none => l
  | some c =>
    { l with clients := l.clients.modify c fun g => { g with sent := g.sent ++ [stanza] } }

/-- `Listener::sendMessage`. -/
def sendMessage (l : Listener) (recipient : JID) (message subject : String) : Listener × Bool :=
  if l.mIsConnected = false ∨ message = "" ∨ l.mClient = none then (l, false)
  else (l.send (.message recipient message subject), true)

/-- `Listener::subscribeTo`. -/
def subscribeTo (l : Listener) (recipient : JID) : Listener × Bool :=
  if l.mIsConnected = false ∨ l.mClient = none then (l, false)
  else (l.send (.subscribe recipient), true)

/-- `Listener::handleSubscriptionRequest`. -/
def handleSubscriptionRequest (l : Listener) (jid : JID) : Listener := l.send (.subscribe jid)

/-! ## What sending keeps -/

@[simp] theorem send_mIsConnected (l : Listener) (stanza : Stanza) :
    (l.send stanza).mIsConnected = l.mIsConnected := by
  unfold send; split <;> rfl

@[simp] theorem send_mClient (l : Listener) (stanza : Stanza) :
    (l.send stanza).mClient = l.mClient := by
  unfold send; split <;> simp_all

@[simp] theorem send_length (l : Listener) (stanza : Stanza) :
    (l.send stanza).clients.length = l.clients.length := by
  unfold send; split <;> simp

@[simp] theorem subscribeTo_mIsConnected (l : Listener) (recipient : JID) :
    (l.subscribeTo recipient).1.mIsConnected = l.mIsConnected := by
  unfold subscribeTo; split <;> simp

/-! ## What the streams keep -/

@[simp] theorem setStream_mClient (l : Listener) (c : Nat) (isOpen : Bool) :
    (l.setStream c isOpen).mClient = l.mClient := rfl

/-- A stream that opens or closes is the current one, or changes nothing of it. -/
theorem setStream_currentIsOpen (l : Listener) (c : Nat) (isOpen : Bool)
    (hc : c < l.clients.length) : (l.setStream c isOpen).currentIsOpen =
      if l.mClient = some c then isOpen else l.currentIsOpen := by
  unfold currentIsOpen
  rw [setStream_mClient]
  cases hm : l.mClient with
  | none => simp
  | some d =>
    simp only [setStream, List.getElem?_modify, Option.some.injEq]
    by_cases h : c = d
    · subst h
      simp [hc]
    · simp [h, Ne.symm h]

/-- A new client has no open stream. -/
theorem setup_currentIsOpen (l : Listener) (username password server : String) (port : Int) :
    (l.setup username password server port).currentIsOpen = false := by
  simp [currentIsOpen, setup]

end Listener

end esc_platform.xmpp
