-- The exported functions of `PluginInterface.mm` over whole runs. They share
-- one nullable `clientPtr`: a call through the null pointer ends the program.
import EscPlatform.Lib.Runs
import EscPlatform.Xmpp.Plugin

namespace esc_platform.xmpp

open runs

def kGameLauncherUsername : String := "game-launcher"

/-- `strncpy( target, src.c_str(), n )`: the bytes before the first NUL, cut to `n` or filled up
with zeros. -/
def strncpy (src : String) (n : Nat) : List UInt8 :=
  let cstr := (src.toUTF8.toList.takeWhile (· ≠ 0)).take n
  cstr ++ List.replicate (n - cstr.length) 0

namespace Plugin

/-! ## The other ways to start -/

section starts

variable (allocated threadCreated : Bool) (p : Plugin)

/-- `startServerInterfaceWithHost`. -/
def startServerInterfaceWithHost (hostname : Option String) : Option (Plugin × Int) :=
  match hostname with
  | none => some (p, -1)
  | some hostname =>
    startInterface (some kGameEngineUsername) (some kGameEngineUsername) (some hostname)
      allocated threadCreated p

/-- `startLauncherInterface`. -/
def startLauncherInterface (getHostName : String) : Option (Plugin × Int) :=
  startInterface (some kGameLauncherUsername) (some kGameLauncherUsername) (some getHostName)
    allocated threadCreated p

/-- `startDocentInterface`. -/
def startDocentInterface (hostname : Option String) : Option (Plugin × Int) :=
  startInterface (some kDocentUsername) (some kDocentUsername) hostname allocated threadCreated p

/-- `startServerInterface`. -/
def startServerInterface (getHostName : String) : Option (Plugin × Int) :=
  startInterface (some kGameEngineUsername) (some kGameEngineUsername) (some getHostName)
    allocated threadCreated p

/-- `startClientInterface`. -/
def startClientInterface (uniqueDeviceIdentifier : String) (hostname : Option String) :
    Option (Plugin × Int) :=
  match hostname with
  | none => some (p, -1)
  | some hostname => do
    let c ← createXmppClient allocated p
    let udid := uniqueDeviceIdentifier
    let (c, success) := c.connect udid udid hostname 5222 threadCreated
    return (some c, if success then 0 else 1)

end starts

/-! ## Polling events -/

/-- `hasMoreEvents`. -/
def hasMoreEvents (p : Plugin) : Bool :=
  match p with
  | some c => !c.mEventQueue.isEmpty
  | none => false

/-- `getNextEvent`, with the lengths of the two buffers, and what it writes to them. -/
def getNextEvent (username message : Option Nat) (p : Plugin) :
    Plugin × Int × Option (List UInt8 × List UInt8) :=
  match username, message, p with
  | some username_length, some message_length, some c =>
    match c.mEventQueue with
    | [] => (some c, -1, none)
    | evt :: rest =>
      (some { c with mEventQueue := rest }, 0,
        some (strncpy evt.username username_length, strncpy evt.message message_length))
  | _, _, p => (p, -1, none)

/-- `hasMorePresenceEvents`. -/
def hasMorePresenceEvents (p : Plugin) : Bool :=
  match p with
  | some c => !c.mPresenceQueue.isEmpty
  | none => false

/-- `getNextPresenceEvent`. -/
def getNextPresenceEvent (username : Option Nat) (p : Plugin) :
    Plugin × Int × Option (List UInt8 × Status) :=
  match username, p with
  | some username_length, some c =>
    match c.mPresenceQueue with
    | [] => (some c, -1, none)
    | evt :: rest =>
      (some { c with mPresenceQueue := rest }, 0,
        some (strncpy evt.username username_length, evt.status))
  | _, p => (p, -1, none)

/-- `hasMoreStatusChanges`. -/
def hasMoreStatusChanges (p : Plugin) : Bool :=
  match p with
  | some c => !c.mStateQueue.isEmpty
  | none => false

/-- `getNextStatusChange`. -/
def getNextStatusChange (p : Plugin) : Plugin × Int × Option State :=
  match p with
  | some c =>
    match c.mStateQueue with
    | [] => (some c, -1, none)
    | status :: rest => (some { c with mStateQueue := rest }, 0, some status)
  | none => (none, -1, none)

/-- `dispatchEvent`. -/
def dispatchEvent (recipient body : Option String) (p : Plugin) : Plugin × Int :=
  match recipient, body, p with
  | some recipient, some msg, some c =>
    let (c, success) := c.sendMessage recipient msg ""
    (some c, if success then 0 else 1)
  | _, _, p => (p, -1)

end Plugin

/-! ## Calls -/

/-- The seven calls that only announce something to the peers. -/
inductive GameCall
  | startGame | cancelGame | endGame | startRound | cancelRound | endRound
  | pauseGame (state : Bool)
  deriving DecidableEq, Repr

def GameCall.perform : GameCall → Plugin → Plugin × Int
  | .startGame => Plugin.startGame
  | .cancelGame => Plugin.cancelGame
  | .endGame => Plugin.endGame
  | .startRound => Plugin.startRound
  | .cancelRound => Plugin.cancelRound
  | .endRound => Plugin.endRound
  | .pauseGame state => Plugin.pauseGame state

/-- A call of an exported function, with what the system answers to it. -/
inductive PluginCall
  | startServerInterfaceWithHost (hostname : Option String) (allocated threadCreated : Bool)
  | startLauncherInterface (getHostName : String) (allocated threadCreated : Bool)
  | startDocentInterface (hostname : Option String) (allocated threadCreated : Bool)
  | startServerInterface (getHostName : String) (allocated threadCreated : Bool)
  | startClientInterface (uniqueDeviceIdentifier : String) (hostname : Option String)
    (allocated threadCreated : Bool)
  | startInterface (username password hostname : Option String) (allocated threadCreated : Bool)
  | stopInterface (threadJoined : Bool)
  | isConnected
  | game (call : GameCall)
  | hasMoreEvents
  | getNextEvent (username message : Option Nat)
  | hasMorePresenceEvents
  | getNextPresenceEvent (username : Option Nat)
  | hasMoreStatusChanges
  | getNextStatusChange
  | dispatchEvent (recipient body : Option String)
  | broadcastEvent (body : Option String)
  deriving DecidableEq, Repr

/-- The plugin after a call, or nothing where the call goes through the null pointer. -/
def PluginCall.perform (p : Plugin) : PluginCall → Option Plugin
  | .startServerInterfaceWithHost hostname allocated threadCreated =>
    (p.startServerInterfaceWithHost allocated threadCreated hostname).map (·.1)
  | .startLauncherInterface getHostName allocated threadCreated =>
    (p.startLauncherInterface allocated threadCreated getHostName).map (·.1)
  | .startDocentInterface hostname allocated threadCreated =>
    (p.startDocentInterface allocated threadCreated hostname).map (·.1)
  | .startServerInterface getHostName allocated threadCreated =>
    (p.startServerInterface allocated threadCreated getHostName).map (·.1)
  | .startClientInterface uniqueDeviceIdentifier hostname allocated threadCreated =>
    (p.startClientInterface allocated threadCreated uniqueDeviceIdentifier hostname).map (·.1)
  | .startInterface username password hostname allocated threadCreated =>
    (p.startInterface username password hostname allocated threadCreated).map (·.1)
  | .stopInterface threadJoined => some (p.stopInterface threadJoined).1
  | .isConnected => some p
  | .game call => some (call.perform p).1
  | .hasMoreEvents => some p
  | .getNextEvent username message => some (p.getNextEvent username message).1
  | .hasMorePresenceEvents => some p
  | .getNextPresenceEvent username => some (p.getNextPresenceEvent username).1
  | .hasMoreStatusChanges => some p
  | .getNextStatusChange => some p.getNextStatusChange.1
  | .dispatchEvent recipient body => some (p.dispatchEvent recipient body).1
  | .broadcastEvent body => p.broadcastEvent body

/-- The callbacks of the stream and of the roster. -/
def Action.isCallback : Action → Bool
  | .onConnect _ | .onTLSConnect _ | .onDisconnect _ _ _ _ | .handleMessage _ _ _
  | .handleRoster _ | .handleRosterPresence _ _ _ _ | .handleItemAdded _ | .handleItemRemoved _
  | .handleSubscriptionRequest _ => true
  | _ => false

/-- A call, or a callback of the client. -/
inductive PluginEvent
  | call (c : PluginCall)
  | callback (a : Action)
  deriving DecidableEq, Repr

/-- The program after an event. Behind a call through the null pointer nothing happens. -/
def happen (s : Option Plugin) : PluginEvent → Option Plugin
  | .call c => s.bind c.perform
  | .callback a => s.map fun p => if a.isCallback then p.map (·.step a) else p

/-! ## Calls through the null pointer -/

/-- The condition on a call: `broadcastEvent` of a text needs a client, and a start that passes
its null checks needs one or gets the memory for it. -/
def PluginCall.HasClient (p : Plugin) : PluginCall → Prop
  | .startServerInterfaceWithHost hostname allocated _ =>
    hostname ≠ none → p ≠ none ∨ allocated = true
  | .startLauncherInterface _ allocated _ => p ≠ none ∨ allocated = true
  | .startDocentInterface hostname allocated _ => hostname ≠ none → p ≠ none ∨ allocated = true
  | .startServerInterface _ allocated _ => p ≠ none ∨ allocated = true
  | .startClientInterface _ hostname allocated _ => hostname ≠ none → p ≠ none ∨ allocated = true
  | .startInterface username password hostname allocated _ =>
    username ≠ none → password ≠ none → hostname ≠ none → p ≠ none ∨ allocated = true
  | .broadcastEvent body => body ≠ none → p ≠ none
  | _ => True

theorem createXmppClient_isSome (allocated : Bool) (p : Plugin) :
    (Plugin.createXmppClient allocated p).isSome = true ↔ p ≠ none ∨ allocated = true := by
  unfold Plugin.createXmppClient
  cases p with
  | some c => simp
  | none => cases allocated <;> simp

/-- A start refuses a null argument, or connects the client that is there or is made. -/
theorem startInterface_cases {p q : Plugin} {username password hostname : Option String}
    {allocated threadCreated : Bool} {ret : Int}
    (h : p.startInterface username password hostname allocated threadCreated = some (q, ret)) :
    (q = p ∧ ret = -1) ∨ ∃ c user pass host, Plugin.createXmppClient allocated p = some c ∧
      q = some (c.connect user pass host 5222 threadCreated).1 ∧
      ret = if (c.connect user pass host 5222 threadCreated).2 then 0 else 1 := by
  unfold Plugin.startInterface at h
  split at h
  · rename_i user pass host
    obtain ⟨c, hc, hq⟩ := Option.bind_eq_some_iff.mp h
    cases hq
    exact .inr ⟨c, user, pass, host, hc, rfl, rfl⟩
  · cases h
    exact .inl ⟨rfl, rfl⟩

/-- A start goes through the null pointer where it finds no client and gets no memory. -/
theorem startInterface_isSome (username password hostname : Option String)
    (allocated threadCreated : Bool) (p : Plugin) :
    (p.startInterface username password hostname allocated threadCreated).isSome = true ↔
      (username ≠ none → password ≠ none → hostname ≠ none → p ≠ none ∨ allocated = true) := by
  rw [← createXmppClient_isSome allocated p]
  cases username with
  | none => simp [Plugin.startInterface]
  | some username =>
    cases password with
    | none => simp [Plugin.startInterface]
    | some password =>
      cases hostname with
      | none => simp [Plugin.startInterface]
      | some hostname =>
        cases hc : Plugin.createXmppClient allocated p with
        | none => simp [Plugin.startInterface, hc]
        | some c => simp [Plugin.startInterface, hc]

theorem startServerInterfaceWithHost_eq (allocated threadCreated : Bool) (p : Plugin)
    (hostname : Option String) :
    p.startServerInterfaceWithHost allocated threadCreated hostname =
      p.startInterface (some kGameEngineUsername) (some kGameEngineUsername) hostname allocated
        threadCreated := by
  cases hostname with
  | none => rfl
  | some hostname => rfl

/-- `startClientInterface` is `startInterface` for the device. -/
theorem startClientInterface_eq (allocated threadCreated : Bool) (p : Plugin) (udid : String)
    (hostname : Option String) :
    p.startClientInterface allocated threadCreated udid hostname =
      p.startInterface (some udid) (some udid) hostname allocated threadCreated := by
  cases hostname with
  | none => rfl
  | some hostname => rfl

/-- A call goes through exactly where it meets its condition. -/
theorem perform_isSome (p : Plugin) (call : PluginCall) :
    (call.perform p).isSome = true ↔ call.HasClient p := by
  cases call with
  | startServerInterfaceWithHost hostname allocated threadCreated =>
    simp [PluginCall.perform, PluginCall.HasClient, startServerInterfaceWithHost_eq,
      startInterface_isSome]
  | startLauncherInterface getHostName allocated threadCreated =>
    simp [PluginCall.perform, PluginCall.HasClient, Plugin.startLauncherInterface,
      startInterface_isSome]
  | startDocentInterface hostname allocated threadCreated =>
    simp [PluginCall.perform, PluginCall.HasClient, Plugin.startDocentInterface,
      startInterface_isSome]
  | startServerInterface getHostName allocated threadCreated =>
    simp [PluginCall.perform, PluginCall.HasClient, Plugin.startServerInterface,
      startInterface_isSome]
  | startClientInterface udid hostname allocated threadCreated =>
    simp [PluginCall.perform, PluginCall.HasClient, startClientInterface_eq,
      startInterface_isSome]
  | startInterface username password hostname allocated threadCreated =>
    simp [PluginCall.perform, PluginCall.HasClient, startInterface_isSome]
  | broadcastEvent body =>
    cases body with
    | none => simp [PluginCall.perform, PluginCall.HasClient, Plugin.broadcastEvent]
    | some body =>
      simp [PluginCall.perform, PluginCall.HasClient, Plugin.broadcastEvent,
        Option.isSome_iff_ne_none]
  | stopInterface | isConnected | game | hasMoreEvents | getNextEvent | hasMorePresenceEvents
  | getNextPresenceEvent | hasMoreStatusChanges | getNextStatusChange | dispatchEvent =>
    simp [PluginCall.perform, PluginCall.HasClient]

/-- The condition on an event of a run. Callbacks need nothing. -/
def HasClient (s : Option Plugin) : PluginEvent → Prop
  | .call c => ∀ p, s = some p → c.HasClient p
  | .callback _ => True

theorem happen_ne_none (s : Option Plugin) (e : PluginEvent) (h : s ≠ none) :
    happen s e ≠ none ↔ HasClient s e := by
  obtain ⟨p, rfl⟩ := Option.ne_none_iff_exists'.mp h
  cases e with
  | call c => simp [happen, HasClient, ← perform_isSome, Option.isSome_iff_ne_none]
  | callback a => simp [happen, HasClient]

/-- No call of a run goes through the null pointer exactly where each of its calls meets its
condition. -/
theorem no_call_is_through_null_iff (es : List PluginEvent) :
    Always happen (· ≠ none) (some none) es ↔
      EachStep happen HasClient (some none) es :=
  always_iff_eachStep (I := fun _ => True) (fun _ _ _ => trivial)
    (fun s e _ h => happen_ne_none s e h) trivial (by simp)

/-- A broadcast before any start. -/
theorem an_early_broadcast_is_through_null :
    ¬ Always happen (· ≠ none) (some none) [.call (.broadcastEvent (some "gameStart"))] := by
  intro h
  exact h _ (List.prefix_refl _) rfl

end esc_platform.xmpp
