-- The calls of `PluginInterface.mm` that start and stop the client and send
-- to its peers. A null pointer argument is `none`; a call that goes through
-- the null `clientPtr` has no result.
import EscPlatform.Xmpp.Client

namespace esc_platform.xmpp

/-- `clientPtr`. -/
abbrev Plugin := Option Client

namespace Plugin

/-! ## Start and stop -/

/-- `createXmppClient`. `allocated` says whether `new (std::nothrow)` gives memory. -/
def createXmppClient (allocated : Bool) (p : Plugin) : Plugin :=
  match p with
  | some c => some c
  | none => if allocated then some {} else none

/-- `startInterface`. -/
def startInterface (username password hostname : Option String) (allocated threadCreated : Bool)
    (p : Plugin) : Option (Plugin × Int) :=
  match username, password, hostname with
  | some username, some password, some hostname => do
    let c ← createXmppClient allocated p
    let (c, success) := c.connect username password hostname 5222 threadCreated
    return (some c, if success then 0 else 1)
  | _, _, _ => some (p, -1)

/-- `stopInterface`. The client is deleted with its listener. -/
def stopInterface (threadJoined : Bool) (p : Plugin) : Plugin × Int :=
  match p with
  | none => (none, -1)
  | some c =>
    let (c, stopped) := c.disconnect threadJoined
    if stopped then (none, 0) else (some c, 1)

/-- `isConnected`. -/
def isConnected (p : Plugin) : Bool :=
  match p with
  | some c => c.mListener.mIsConnected
  | none => false

/-! ## Messages to the peers -/

/-- The loop over the roster that the game calls and `broadcastEvent` share. -/
def sendToConnected (message : String) (c : Client) : Client :=
  c.mRoster.toList.foldl
    (fun c (_, peer) =>
      if peer.mConnected then (c.sendMessage peer.mUsername message "").1 else c) c

/-- A game call: a message to the connected peers, and 0 in any case. -/
def gameCall (message : String) (p : Plugin) : Plugin × Int :=
  match p with
  | none => (none, -1)
  | some c => (some (sendToConnected message c), 0)

def startGame : Plugin → Plugin × Int := gameCall "gameStart"
def cancelGame : Plugin → Plugin × Int := gameCall "gameCancel"
def endGame : Plugin → Plugin × Int := gameCall "gameEnd"
def startRound : Plugin → Plugin × Int := gameCall "startRound"
def cancelRound : Plugin → Plugin × Int := gameCall "cancelRound"
def endRound : Plugin → Plugin × Int := gameCall "endRound"
def pauseGame (state : Bool) : Plugin → Plugin × Int :=
  gameCall ("pause:" ++ if state then "true" else "false")

/-- `broadcastEvent`. It does not look whether there is a client. -/
def broadcastEvent (body : Option String) (p : Plugin) : Option Plugin :=
  match body with
  | none => some p
  | some body => p.map fun c => some (sendToConnected body c)

end Plugin

/-! ## Steps -/

/-- Starts and stops of the interface, and the stream callbacks of the clients made so far. -/
inductive PluginAction
  | startInterface (username password hostname : Option String) (threadCreated : Bool)
  | stopInterface (threadJoined : Bool)
  | onConnect (g : Nat)
  | onTLSConnect (g : Nat)
  | onDisconnect (g : Nat) (e : ConnectionError) (attempt : Attempt) (threadCreated : Bool)
  deriving DecidableEq, Repr

/-- The callbacks of a deleted listener have no meaning, so they are no steps. -/
def Plugin.step (p : Plugin) : PluginAction → Plugin
  | .startInterface username password hostname threadCreated =>
    match p.startInterface username password hostname true threadCreated with
    | some (p, _) => p
    | none => p
  | .stopInterface threadJoined => (p.stopInterface threadJoined).1
  | .onConnect g => p.map (·.step (.onConnect g))
  | .onTLSConnect g => p.map (·.step (.onTLSConnect g))
  | .onDisconnect g e attempt threadCreated =>
    p.map (·.step (.onDisconnect g e attempt threadCreated))

end esc_platform.xmpp
