-- The connection flag of the listener against the streams of its clients.
-- The flag is one for all clients, so it matches the current stream only in
-- the runs whose steps are about the current client.
import EscPlatform.Lib.Runs
import EscPlatform.Xmpp.Plugin

namespace esc_platform.xmpp

open runs

/-! ## What a step does to the listener -/

/-- Everything that a step makes of the listener. A stream opens for a client that `setup` made
only. -/
inductive Listener.Outcome (l : Listener) : Listener → Prop
  | keeps : l.Outcome l
  | setup {l' : Listener} (hlen : l'.clients.length = l.clients.length)
      (username password server : String) (port : Int) :
      l.Outcome (l'.setup username password server port)
  | stream (g : Nat) (isOpen : Bool) (hg : isOpen = true → g < l.clients.length) :
      l.Outcome { l.setStream g isOpen with mIsConnected := isOpen }
  | send (stanza : Stanza) : l.Outcome (l.send stanza)

namespace Client

@[simp] theorem pushState_mListener (c : Client) (s : State) :
    (c.pushState s).mListener = c.mListener := rfl

@[simp] theorem onConnect_mListener (c : Client) : c.onConnect.mListener = c.mListener := by
  simp [onConnect]

@[simp] theorem onTLSConnect_mListener (c : Client) : c.onTLSConnect.mListener = c.mListener := by
  simp [onTLSConnect]

@[simp] theorem reportDisconnect_mListener (c : Client) (err : ErrorT) :
    (c.reportDisconnect err).mListener = c.mListener := by
  simp [reportDisconnect]

/-- `connect` with a user and a server sets up a new client, whatever happens to the thread. -/
theorem connect_mListener (c : Client) (user password server : String) (port : Int)
    (threadCreated : Bool) : (c.connect user password server port threadCreated).1.mListener =
      if user = "" ∨ server = "" then c.mListener
      else c.mListener.setup user password server port := by
  unfold connect
  split
  · rfl
  · cases threadCreated <;> rfl

/-- The disconnection makes an account and connects again, up to the creation of the thread. -/
def reconnects (c : Client) (e : ConnectionError) (attempt : Attempt) : Bool :=
  isAuthError e && c.mInitialConnection &&
    (c.mAccountCreator.init c.mUsername c.mPassword c.mServer attempt).1.mStatus = .success &&
    c.mUsername ≠ "" && c.mServer ≠ ""

theorem onDisconnect_mListener (c : Client) (e : ConnectionError) (attempt : Attempt)
    (threadCreated : Bool) : (c.onDisconnect e attempt threadCreated).1.mListener =
      if c.reconnects e attempt then
        c.mListener.setup c.mUsername c.mPassword c.mServer 5222
      else c.mListener := by
  unfold onDisconnect reconnects
  by_cases hreg : (isAuthError e && c.mInitialConnection) = true
  · simp only [hreg, if_true, registerAndConnect, Bool.true_and]
    split
    · rename_i hsuccess
      rw [connect_mListener]
      by_cases hu : c.mUsername = "" <;> by_cases hs : c.mServer = "" <;> simp [hsuccess, hu, hs]
    · rename_i hsuccess
      simp [hsuccess]
  · simp only [hreg, Bool.false_eq_true, if_false, reportDisconnect_mListener]
    simp

theorem listenerOnConnect_mListener (c : Client) (g : Nat) :
    (c.listenerOnConnect g).mListener =
      { c.mListener.setStream g true with mIsConnected := true } := by
  simp [listenerOnConnect]

theorem listenerOnTLSConnect_mListener (c : Client) (g : Nat) :
    (c.listenerOnTLSConnect g).mListener =
      { c.mListener.setStream g true with mIsConnected := true } := by
  simp [listenerOnTLSConnect]

theorem listenerOnDisconnect_outcome (c : Client) (g : Nat) (e : ConnectionError)
    (attempt : Attempt) (threadCreated : Bool) :
    c.mListener.Outcome (c.listenerOnDisconnect g e attempt threadCreated).1.mListener := by
  unfold listenerOnDisconnect
  rw [onDisconnect_mListener]
  split
  · exact .setup (by simp [Listener.setStream]) _ _ _ _
  · exact .stream g false (by simp)

theorem disconnect_outcome (c : Client) (threadJoined : Bool) :
    c.mListener.Outcome (c.disconnect threadJoined).1.mListener := by
  unfold disconnect closeConnection glooxDisconnect
  split
  · split
    · split
      · exact listenerOnDisconnect_outcome { c with mInitialConnection := false } _ _ _ _
      · exact .keeps
    · exact .keeps
  · exact .keeps

theorem handleRoster_outcome (c : Client) (roster : Roster) :
    c.mListener.Outcome (c.handleRoster roster).mListener := by
  simp only [handleRoster, fire_mListener, pushState_mListener]
  split
  · unfold Listener.subscribeTo
    split
    · exact .keeps
    · exact .send _
  · exact .keeps

theorem sendMessage_outcome (c : Client) (recipient message subject : String) :
    c.mListener.Outcome (c.sendMessage recipient message subject).1.mListener := by
  unfold sendMessage Listener.sendMessage
  split
  · exact .keeps
  · dsimp only
    split
    · exact .keeps
    · exact .send _

theorem step_outcome (c : Client) (a : Action) : c.mListener.Outcome (c.step a).mListener := by
  cases a with
  | connect user password server port threadCreated =>
    simp only [step, connect_mListener]
    split
    · exact .keeps
    · exact .setup rfl _ _ _ _
  | disconnect threadJoined => exact disconnect_outcome c threadJoined
  | onConnect g =>
    simp only [step]
    split
    · rename_i hg
      rw [listenerOnConnect_mListener]
      exact .stream g true fun _ => hg
    · exact .keeps
  | onTLSConnect g =>
    simp only [step]
    split
    · rename_i hg
      rw [listenerOnTLSConnect_mListener]
      exact .stream g true fun _ => hg
    · exact .keeps
  | onDisconnect g e attempt threadCreated =>
    simp only [step]
    split
    · exact listenerOnDisconnect_outcome c g e attempt threadCreated
    · exact .keeps
  | handleMessage => simpa [step, handleMessage] using Listener.Outcome.keeps
  | handleRoster roster => exact handleRoster_outcome c roster
  | handleRosterPresence => simpa [step, handleRosterPresence] using Listener.Outcome.keeps
  | handleSubscriptionRequest jid => exact .send _
  | sendMessage recipient message subject => exact sendMessage_outcome c recipient message subject
  | handleItemAdded | handleItemRemoved | setSignals | popEvent | popState | popPresence =>
    exact .keeps

/-! ## The flag and the current stream -/

/-- What `isConnected()` says is what the stream of the client in `mClient` is. -/
def FlagMatches (c : Client) : Prop :=
  c.mListener.mIsConnected = true ↔ c.mListener.currentIsOpen = true

theorem connect_flagMatches {c : Client} (h : c.FlagMatches) (user password server : String)
    (port : Int) (threadCreated : Bool) :
    (c.connect user password server port threadCreated).1.FlagMatches ↔
      (user = "" ∨ server = "" ∨ c.mListener.currentIsOpen = false) := by
  unfold FlagMatches at h ⊢
  rw [connect_mListener]
  split
  · rename_i hempty
    exact ⟨fun _ => by tauto, fun _ => h⟩
  · rename_i hempty
    have hflag : (c.mListener.setup user password server port).mIsConnected =
        c.mListener.mIsConnected := rfl
    rw [Listener.setup_currentIsOpen, hflag, h]
    simp only [not_or] at hempty
    simp [hempty]

/-- A stream that opens must be the current one, where the current one is not open yet. -/
theorem opened_flagMatches {c c' : Client} {g : Nat} (hg : g < c.mListener.clients.length)
    (h : c'.mListener = { c.mListener.setStream g true with mIsConnected := true }) :
    c'.FlagMatches ↔ (c.mListener.mClient = some g ∨ c.mListener.currentIsOpen = true) := by
  have hcur : c'.mListener.currentIsOpen = (c.mListener.setStream g true).currentIsOpen := by
    rw [h]
    rfl
  unfold FlagMatches
  rw [hcur, Listener.setStream_currentIsOpen _ _ _ hg, h]
  by_cases hm : c.mListener.mClient = some g <;> simp [hm]

/-- A stream that closes must be the current one, where the current one is open, unless the
client is replaced at once. -/
theorem listenerOnDisconnect_flagMatches (c : Client) (g : Nat) (e : ConnectionError)
    (attempt : Attempt) (threadCreated : Bool) (hg : g < c.mListener.clients.length) :
    (c.listenerOnDisconnect g e attempt threadCreated).1.FlagMatches ↔
      (c.mListener.mClient = some g ∨ c.mListener.currentIsOpen = false ∨
        c.reconnects e attempt = true) := by
  unfold FlagMatches listenerOnDisconnect
  rw [onDisconnect_mListener]
  have hsame : reconnects { c with
      mListener := { c.mListener.setStream g false with mIsConnected := false } } e attempt =
      c.reconnects e attempt := rfl
  rw [hsame]
  by_cases hrec : c.reconnects e attempt = true
  · simp only [hrec, if_true, or_true, iff_true]
    rw [Listener.setup_currentIsOpen]
    simp [Listener.setup]
  · have hcur : Listener.currentIsOpen
        { c.mListener.setStream g false with mIsConnected := false } =
        (c.mListener.setStream g false).currentIsOpen := rfl
    simp only [hrec, Bool.false_eq_true, if_false, or_false, false_iff]
    rw [hcur, Listener.setStream_currentIsOpen _ _ _ hg]
    by_cases hm : c.mListener.mClient = some g <;> simp [hm]

/-- `disconnect` closes the current stream, which is the one that the flag is about. -/
theorem disconnect_flagMatches {c : Client} (h : c.FlagMatches) (threadJoined : Bool) :
    (c.disconnect threadJoined).1.FlagMatches := by
  unfold disconnect
  split
  · rename_i hflag
    have hopen := h.mp hflag
    have hopen' := hopen
    unfold Listener.currentIsOpen at hopen'
    split at hopen'
    · cases hopen'
    · rename_i g hm
      have hg : g < c.mListener.clients.length := by
        by_contra hlt
        rw [List.getElem?_eq_none (by omega)] at hopen'
        cases hopen'
      simp only [closeConnection, hflag, hm, glooxDisconnect, hopen', if_true]
      exact (listenerOnDisconnect_flagMatches { c with mInitialConnection := false } g _ _ _ hg).mpr
        (.inl hm)
  · exact h

/-! ## Sending -/

/-- Every message that `Listener::sendMessage` accepts goes to a client with an open stream. -/
def SendsToOpenStream (c : Client) : Prop :=
  ∀ recipient message subject, (c.mListener.sendMessage recipient message subject).2 = true →
    ∃ g client, c.mListener.mClient = some g ∧ c.mListener.clients[g]? = some client ∧
      client.isOpen = true ∧
      (c.mListener.sendMessage recipient message subject).1.clients[g]? =
        some { client with sent := client.sent ++ [.message recipient message subject] }

theorem FlagMatches.sends {c : Client} (h : c.FlagMatches) : c.SendsToOpenStream := by
  intro recipient message subject hsent
  unfold Listener.sendMessage at hsent ⊢
  split at hsent
  · cases hsent
  · rename_i hok
    simp only [not_or, Bool.not_eq_false] at hok
    have hopen := h.mp hok.1
    unfold Listener.currentIsOpen at hopen
    split at hopen
    · cases hopen
    · rename_i g hm
      cases hclient : c.mListener.clients[g]? with
      | none =>
        rw [hclient] at hopen
        cases hopen
      | some client =>
        rw [hclient] at hopen
        refine ⟨g, client, hm, hclient, by simpa using hopen, ?_⟩
        rw [if_neg (by simpa using hok)]
        simp [Listener.send, hm, hclient]

end Client

/-! ## Runs of the interface -/

/-- The client, where there is one, is connected exactly when the stream of its current gloox
client is open, and sends only to an open stream. -/
def Plugin.ConnectedMeansOpen (p : Plugin) : Prop :=
  ∀ c, p = some c → c.FlagMatches ∧ c.SendsToOpenStream

/-- The step is about the current client: no start replaces a client with an open stream, and a
stream that opens or closes beside the current one does not change what the flag should say. -/
def Plugin.AboutCurrent (p : Plugin) : PluginAction → Prop
  | .startInterface (some username) (some _) (some hostname) _ =>
    ∀ c, p = some c → username = "" ∨ hostname = "" ∨ c.mListener.currentIsOpen = false
  | .startInterface _ _ _ _ => True
  | .stopInterface _ => True
  | .onConnect g | .onTLSConnect g =>
    ∀ c, p = some c → g < c.mListener.clients.length →
      c.mListener.mClient = some g ∨ c.mListener.currentIsOpen = true
  | .onDisconnect g e attempt _ =>
    ∀ c, p = some c → g < c.mListener.clients.length →
      c.mListener.mClient = some g ∨ c.mListener.currentIsOpen = false ∨
        c.reconnects e attempt = true

theorem connectedMeansOpen_none : Plugin.ConnectedMeansOpen none := by
  intro c h
  cases h

theorem connectedMeansOpen_some {c : Client} :
    Plugin.ConnectedMeansOpen (some c) ↔ c.FlagMatches := by
  constructor
  · intro h
    exact (h c rfl).1
  · rintro h _ ⟨⟩
    exact ⟨h, h.sends⟩

theorem startInterface_connectedMeansOpen {p : Plugin} (h : p.ConnectedMeansOpen)
    (username password hostname : String) (threadCreated : Bool) :
    (p.step (.startInterface (some username) (some password) (some hostname)
        threadCreated)).ConnectedMeansOpen ↔
      ∀ c, p = some c → username = "" ∨ hostname = "" ∨ c.mListener.currentIsOpen = false := by
  cases p with
  | none =>
    -- a new client has no gloox client yet
    have hnew : Client.FlagMatches {} := by simp [Client.FlagMatches, Listener.currentIsOpen]
    have := (Client.connect_flagMatches hnew username password hostname 5222 threadCreated).mpr
      (.inr (.inr rfl))
    refine ⟨(fun _ c hc => by cases hc), fun _ => ?_⟩
    exact connectedMeansOpen_some.mpr this
  | some c =>
    have hmatch := Client.connect_flagMatches (connectedMeansOpen_some.mp h) username password
      hostname 5222 threadCreated
    refine connectedMeansOpen_some.trans (hmatch.trans ?_)
    constructor
    · rintro hcond _ ⟨⟩
      exact hcond
    · intro hcond
      exact hcond c rfl

/-- A callback of the gloox client `g` is nothing where there is no such client. -/
theorem callback_connectedMeansOpen {p : Plugin} (h : p.ConnectedMeansOpen) (g : Nat)
    {f : Client → Client} {cond : Client → Prop}
    (hf : ∀ c, g < c.mListener.clients.length → ((f c).FlagMatches ↔ cond c)) :
    Plugin.ConnectedMeansOpen
        (p.map fun c => if g < c.mListener.clients.length then f c else c) ↔
      ∀ c, p = some c → g < c.mListener.clients.length → cond c := by
  cases p with
  | none => exact ⟨(fun _ c hc => by cases hc), fun _ => connectedMeansOpen_none⟩
  | some c =>
    apply connectedMeansOpen_some.trans
    simp only [Option.some.injEq, forall_eq']
    split
    · rename_i hg
      rw [hf c hg]
      simp [hg]
    · rename_i hg
      simpa [hg] using connectedMeansOpen_some.mp h

/-- One step keeps the property exactly when it is about the current client. -/
theorem step_connectedMeansOpen (p : Plugin) (a : PluginAction) (h : p.ConnectedMeansOpen) :
    (p.step a).ConnectedMeansOpen ↔ p.AboutCurrent a := by
  cases a with
  | startInterface username password hostname threadCreated =>
    cases username <;> cases password <;> cases hostname
    case some.some.some username password hostname =>
      exact startInterface_connectedMeansOpen h username password hostname threadCreated
    all_goals exact ⟨fun _ => trivial, fun _ => h⟩
  | stopInterface threadJoined =>
    refine ⟨fun _ => trivial, fun _ => ?_⟩
    cases p with
    | none => exact connectedMeansOpen_none
    | some c =>
      have hstop := Client.disconnect_flagMatches (connectedMeansOpen_some.mp h) threadJoined
      unfold Plugin.step Plugin.stopInterface
      simp only
      split
      · exact connectedMeansOpen_none
      · exact connectedMeansOpen_some.mpr hstop
  | onConnect g =>
    exact callback_connectedMeansOpen h g fun c hg =>
      Client.opened_flagMatches hg (c.listenerOnConnect_mListener g)
  | onTLSConnect g =>
    exact callback_connectedMeansOpen h g fun c hg =>
      Client.opened_flagMatches hg (c.listenerOnTLSConnect_mListener g)
  | onDisconnect g e attempt threadCreated =>
    exact callback_connectedMeansOpen h g fun c hg =>
      c.listenerOnDisconnect_flagMatches g e attempt threadCreated hg

/-- `isConnected()` says in every state of a run whether the current stream is open exactly when
each step of the run is about the current client. -/
theorem connected_means_open_iff (as : List PluginAction) :
    Always Plugin.step Plugin.ConnectedMeansOpen none as ↔
      EachStep Plugin.step Plugin.AboutCurrent none as :=
  always_iff_eachStep (I := fun _ => True) (fun _ _ _ => trivial)
    (fun p a _ h => step_connectedMeansOpen p a h) trivial connectedMeansOpen_none

/-- A client that was abandoned while it was connecting still connects: the flag is set, and the
stream of the client in `mClient` is not open. -/
theorem an_abandoned_client_sets_the_flag :
    ¬ ∀ as, Always Plugin.step Plugin.ConnectedMeansOpen none as := by
  intro h
  have hrun := h [.startInterface (some "docent") (some "docent") (some "host") true,
    .stopInterface true, .startInterface (some "docent") (some "docent") (some "host") true,
    .onConnect 0] _ (List.prefix_refl _)
  obtain ⟨hmatch, -⟩ := hrun _ rfl
  exact absurd (hmatch.mp rfl) (by decide)

end esc_platform.xmpp
