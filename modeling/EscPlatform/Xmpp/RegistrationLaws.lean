-- The one-time registration over whole runs. `connect` arms the flag for it,
-- and the registration branch of `onDisconnect` clears the flag and connects
-- again, which arms it once more. `onConnect` does not clear it.
import EscPlatform.Lib.Runs
import EscPlatform.Xmpp.Client

namespace esc_platform.xmpp

open runs

namespace Client

/-! ## What the registration reads -/

/-- The fields that decide about a registration. -/
structure Registering where
  mInitialConnection : Bool
  mUsername : String
  mPassword : String
  mServer : String
  mAccountCreator : AccountRegistration

def registering (c : Client) : Registering :=
  ⟨c.mInitialConnection, c.mUsername, c.mPassword, c.mServer, c.mAccountCreator⟩

@[simp] theorem fire_registering (c : Client) (isSet : Bool) (signal : Signal) :
    (c.fire isSet signal).registering = c.registering := by
  unfold fire; split <;> rfl

@[simp] theorem pushState_registering (c : Client) (s : State) :
    (c.pushState s).registering = c.registering := rfl

@[simp] theorem onConnect_registering (c : Client) : c.onConnect.registering = c.registering := by
  simp [onConnect]

@[simp] theorem onTLSConnect_registering (c : Client) :
    c.onTLSConnect.registering = c.registering := by
  simp [onTLSConnect]

@[simp] theorem reportDisconnect_registering (c : Client) (err : ErrorT) :
    (c.reportDisconnect err).registering = c.registering := by
  simp [reportDisconnect]

@[simp] theorem handleMessage_registering (c : Client) (name subject body : String) :
    (c.handleMessage name subject body).registering = c.registering := by
  simp only [handleMessage, fire_registering]
  rfl

@[simp] theorem handleRoster_registering (c : Client) (roster : Roster) :
    (c.handleRoster roster).registering = c.registering := by
  simp only [handleRoster, fire_registering, pushState_registering]
  split <;> rfl

@[simp] theorem handleRosterPresence_registering (c : Client) (item : RosterItem)
    (resource : String) (presence : PresenceType) (message : String) :
    (c.handleRosterPresence item resource presence message).registering = c.registering := by
  simp only [handleRosterPresence, fire_registering]
  rfl

@[simp] theorem sendMessage_registering (c : Client) (recipient message subject : String) :
    (c.sendMessage recipient message subject).1.registering = c.registering := by
  unfold sendMessage; split <;> rfl

/-- `connect` stores its credentials and arms the flag, or changes none of these fields. -/
theorem connect_registering (c : Client) (user password server : String) (port : Int)
    (threadCreated : Bool) :
    (c.connect user password server port threadCreated).1.registering =
      if user ≠ "" ∧ server ≠ "" ∧ threadCreated = true then
        ⟨true, user, password, server, c.mAccountCreator⟩
      else c.registering := by
  unfold connect
  by_cases hu : user = ""
  · simp [hu]
  by_cases hs : server = ""
  · simp [hs]
  cases threadCreated <;> simp [hu, hs, registering]

/-- `connect` starts a connection exactly when it stores the credentials. -/
theorem connect_started (c : Client) (user password server : String) (port : Int)
    (threadCreated : Bool) : (c.connect user password server port threadCreated).2 = true ↔
      user ≠ "" ∧ server ≠ "" ∧ threadCreated = true := by
  unfold connect
  by_cases hu : user = ""
  · simp [hu]
  by_cases hs : server = ""
  · simp [hs]
  cases threadCreated <;> simp [hu, hs]

/-! ## The registration branch -/

/-- What the account creator says after `init`. With no password `init` returns at once, and
what an earlier registration left stands. -/
def registrationStatus (c : Client) (attempt : Attempt) : OperationStatus :=
  if c.mPassword = "" then c.mAccountCreator.mStatus
  else AccountRegistration.Attempt.outcome attempt

/-- The credentials of an armed flag are not empty. -/
def ArmedWithCredentials (c : Client) : Prop :=
  c.mInitialConnection = true → c.mUsername ≠ "" ∧ c.mServer ≠ ""

theorem init_mStatus {c : Client} (hu : c.mUsername ≠ "") (hs : c.mServer ≠ "")
    (attempt : Attempt) :
    (c.mAccountCreator.init c.mUsername c.mPassword c.mServer attempt).1.mStatus =
      c.registrationStatus attempt := by
  unfold AccountRegistration.init registrationStatus
  by_cases hp : c.mPassword = "" <;> simp [hu, hs, hp]

theorem init_initCalls (a : AccountRegistration) (username password host : String)
    (attempt : Attempt) : (a.init username password host attempt).1.initCalls =
      a.initCalls ++ [(username, password, host)] := by
  unfold AccountRegistration.init
  simp only
  split <;> rfl

/-- The registration branch makes an account and starts a connection. -/
def registersAndReconnects (c : Client) (attempt : Attempt) (threadCreated : Bool) : Bool :=
  c.registrationStatus attempt = .success && threadCreated

theorem registerAndConnect_started {c : Client} (hu : c.mUsername ≠ "") (hs : c.mServer ≠ "")
    (attempt : Attempt) (threadCreated : Bool) :
    (c.registerAndConnect attempt threadCreated).2 =
      c.registersAndReconnects attempt threadCreated := by
  unfold registerAndConnect registersAndReconnects
  simp only [init_mStatus hu hs]
  split
  · rename_i hstatus
    rw [Bool.eq_iff_iff, connect_started]
    simp [hu, hs, hstatus]
  · rename_i hstatus
    simp [hstatus]

/-- After the branch the flag is set exactly when a connection was started, the credentials are
the same, and `init` was called once. -/
theorem registerAndConnect_registering {c : Client} (hu : c.mUsername ≠ "") (hs : c.mServer ≠ "")
    (attempt : Attempt) (threadCreated : Bool) :
    (c.registerAndConnect attempt threadCreated).1.registering =
      ⟨c.registersAndReconnects attempt threadCreated, c.mUsername, c.mPassword, c.mServer,
        (c.mAccountCreator.init c.mUsername c.mPassword c.mServer attempt).1⟩ := by
  unfold registerAndConnect registersAndReconnects
  simp only [init_mStatus hu hs]
  split
  · rename_i hstatus
    rw [connect_registering]
    cases threadCreated <;> simp [hu, hs, hstatus, registering]
  · rename_i hstatus
    simp [hstatus, registering]

/-! ## What a step does to the registration -/

/-- The disconnection of the client `g` makes a registration. -/
def registersOn (c : Client) (g : Nat) (e : ConnectionError) : Bool :=
  decide (g < c.mListener.clients.length) && (isAuthError e && c.mInitialConnection)

theorem listenerOnDisconnect_registering {c : Client} (h : c.ArmedWithCredentials) (g : Nat)
    (e : ConnectionError) (attempt : Attempt) (threadCreated : Bool) :
    (c.listenerOnDisconnect g e attempt threadCreated).1.registering =
      if (isAuthError e && c.mInitialConnection) = true then
        ⟨c.registersAndReconnects attempt threadCreated, c.mUsername, c.mPassword, c.mServer,
          (c.mAccountCreator.init c.mUsername c.mPassword c.mServer attempt).1⟩
      else c.registering := by
  unfold listenerOnDisconnect onDisconnect
  simp only
  split
  · rename_i hreg
    have hflag : c.mInitialConnection = true := by simp_all
    obtain ⟨hu, hs⟩ := h hflag
    exact registerAndConnect_registering (c := { c with
      mListener := { c.mListener.setStream g false with mIsConnected := false } }) hu hs _ _
  · exact reportDisconnect_registering _ _

theorem closeConnection_registering (c : Client) :
    c.closeConnection.registering = c.registering := by
  unfold closeConnection
  split
  · unfold glooxDisconnect
    split
    · -- a disconnection by the user is no authentication error
      exact reportDisconnect_registering _ _
    · rfl
  · rfl

theorem disconnect_registering (c : Client) (threadJoined : Bool) :
    (c.disconnect threadJoined).1.registering =
      if c.mListener.mIsConnected then { c.registering with mInitialConnection := false }
      else c.registering := by
  unfold disconnect
  split
  · rw [closeConnection_registering]
    rfl
  · rfl

/-- The fields of the registration change in three steps only. -/
theorem step_registering {c : Client} (h : c.ArmedWithCredentials) (a : Action) :
    (c.step a).registering = match a with
      | .connect user password server _ threadCreated =>
        if user ≠ "" ∧ server ≠ "" ∧ threadCreated = true then
          ⟨true, user, password, server, c.mAccountCreator⟩
        else c.registering
      | .disconnect _ =>
        if c.mListener.mIsConnected then { c.registering with mInitialConnection := false }
        else c.registering
      | .onDisconnect g e attempt threadCreated =>
        if c.registersOn g e then
          ⟨c.registersAndReconnects attempt threadCreated, c.mUsername, c.mPassword, c.mServer,
            (c.mAccountCreator.init c.mUsername c.mPassword c.mServer attempt).1⟩
        else c.registering
      | _ => c.registering := by
  cases a with
  | connect => exact connect_registering _ _ _ _ _ _
  | disconnect threadJoined => exact disconnect_registering c threadJoined
  | onConnect g =>
    simp only [step]
    split
    · exact onConnect_registering _
    · rfl
  | onTLSConnect g =>
    simp only [step]
    split
    · exact onTLSConnect_registering _
    · rfl
  | onDisconnect g e attempt threadCreated =>
    simp only [step, registersOn]
    by_cases hg : g < c.mListener.clients.length
    · simp only [hg, if_true, decide_true, Bool.true_and]
      exact listenerOnDisconnect_registering h g e attempt threadCreated
    · simp [hg]
  | handleMessage => exact handleMessage_registering _ _ _ _
  | handleRoster => exact handleRoster_registering _ _
  | handleRosterPresence => exact handleRosterPresence_registering _ _ _ _ _
  | sendMessage => exact sendMessage_registering _ _ _ _
  | handleItemAdded | handleItemRemoved | handleSubscriptionRequest | setSignals | popEvent
  | popState | popPresence => rfl

theorem step_armedWithCredentials (c : Client) (a : Action) (h : c.ArmedWithCredentials) :
    (c.step a).ArmedWithCredentials := by
  have hstep := step_registering h a
  -- the invariant is about the fields of `registering` only
  have hiff : ∀ d : Client, d.ArmedWithCredentials ↔ (d.registering.mInitialConnection = true →
      d.registering.mUsername ≠ "" ∧ d.registering.mServer ≠ "") := fun d => Iff.rfl
  rw [hiff] at h ⊢
  rw [hstep]
  cases a with
  | connect user password server port threadCreated =>
    simp only
    split
    · rename_i hok
      exact fun _ => ⟨hok.1, hok.2.1⟩
    · exact h
  | disconnect threadJoined =>
    simp only
    split
    · nofun
    · exact h
  | onDisconnect g e attempt threadCreated =>
    simp only
    split
    · rename_i hreg
      have hflag : c.mInitialConnection = true := by
        simp only [registersOn, Bool.and_eq_true] at hreg
        exact hreg.2.2
      exact fun _ => h hflag
    · exact h
  | _ => exact h

theorem armedWithCredentials_new : ArmedWithCredentials {} := by nofun

/-! ## No disconnection is silent -/

/-- The disconnection started a new connection, or it is told once: in the queue of the states,
and by the signal where it is set. -/
def Answers (c : Client) (e : ConnectionError) (after : Client × Bool) : Prop :=
  after.2 = true ∨
    (after.1.mStateQueue = c.mStateQueue ++ [.disconnected] ∧
      after.1.fired = c.fired ++
        if c.signals.mSignalDisconnect then [.disconnect (errorOf e)] else [])

theorem reportDisconnect_answers (c : Client) (e : ConnectionError) :
    c.Answers e (c.reportDisconnect (errorOf e), false) := by
  right
  unfold reportDisconnect fire pushState
  by_cases hset : c.signals.mSignalDisconnect = true <;> simp [hset]

/-- Where the registration branch starts no connection it says nothing. -/
theorem registerAndConnect_mStateQueue {c : Client} (attempt : Attempt) (threadCreated : Bool)
    : (c.registerAndConnect attempt threadCreated).1.mStateQueue = c.mStateQueue ∨
      (c.registerAndConnect attempt threadCreated).1.mStateQueue = [] := by
  unfold registerAndConnect
  simp only
  split
  · unfold connect
    split
    · exact .inl rfl
    · cases threadCreated <;> exact .inr rfl
  · exact .inl rfl

theorem listenerOnDisconnect_answers {c : Client} (h : c.ArmedWithCredentials) (g : Nat)
    (e : ConnectionError) (attempt : Attempt) (threadCreated : Bool) :
    c.Answers e (c.listenerOnDisconnect g e attempt threadCreated) ↔
      ((isAuthError e && c.mInitialConnection) = true →
        c.registersAndReconnects attempt threadCreated = true) := by
  unfold listenerOnDisconnect onDisconnect
  simp only
  by_cases hreg : (isAuthError e && c.mInitialConnection) = true
  · have hflag : c.mInitialConnection = true := by simp_all
    obtain ⟨hu, hs⟩ := h hflag
    simp only [hreg, if_true, true_implies]
    have hstarted := registerAndConnect_started (c := { c with
      mListener := { c.mListener.setStream g false with mIsConnected := false } }) hu hs attempt
      threadCreated
    have hqueue := registerAndConnect_mStateQueue (c := { c with
      mListener := { c.mListener.setStream g false with mIsConnected := false } }) attempt
      threadCreated
    constructor
    · rintro (h | ⟨hpush, -⟩)
      · exact hstarted.symm.trans h
      · -- neither the old queue nor the empty one ends with the entry
        rcases hqueue with hq | hq <;> rw [hq] at hpush <;> simp at hpush
    · intro hrec
      exact .inl (hstarted.trans hrec)
  · simp only [hreg, Bool.false_eq_true, if_false, false_implies, iff_true]
    exact reportDisconnect_answers _ _

theorem run_armedWithCredentials (as : List Action) : (run step {} as).ArmedWithCredentials :=
  run_inv (fun c a h => step_armedWithCredentials c a h) armedWithCredentials_new

/-- In every state that a run reaches, a disconnection is answered exactly when it does not take
the registration branch, or the registration succeeds and the thread of the new connection is
created. -/
theorem no_disconnection_is_silent_iff (as : List Action) (g : Nat) (e : ConnectionError)
    (attempt : Attempt) (threadCreated : Bool) :
    (run step {} as).Answers e
        ((run step {} as).listenerOnDisconnect g e attempt threadCreated) ↔
      ((isAuthError e && (run step {} as).mInitialConnection) = true →
        (run step {} as).registersAndReconnects attempt threadCreated = true) :=
  listenerOnDisconnect_answers (run_armedWithCredentials as) g e attempt threadCreated

/-- The server refuses the password, and the registration does not reach it: no state is queued
and no connection started. -/
theorem a_failed_registration_is_silent :
    ¬ ∀ as g e attempt threadCreated, (run step {} as).Answers e
      ((run step {} as).listenerOnDisconnect g e attempt threadCreated) := by
  intro h
  rcases h [.connect "docent" "docent" "host" 5222 true] 0 .connAuthenticationFailed
    ⟨false, []⟩ true with hstarted | ⟨hqueue, -⟩
  · exact absurd hstarted (by decide)
  · exact absurd hqueue (by decide)

end Client

/-! ## The registration is one-time -/

/-- What the runs so far say about the registrations since the last call of `connect`. -/
structure Registrations where
  /-- The calls of `init`. -/
  inits : Nat := 0
  /-- The calls of `init` for a disconnection after `onConnect`. -/
  late : Nat := 0
  /-- `onConnect` was received. -/
  connected : Bool := false
  /-- A registration started a new connection. -/
  reconnected : Bool := false
  deriving DecidableEq, Repr

namespace Registrations

/-- The calls of `init` are counted in what the account creator got. -/
def see (m : Registrations) (c : Client) (a : Action) (c' : Client) : Registrations :=
  let made := c'.mAccountCreator.initCalls.length - c.mAccountCreator.initCalls.length
  let m' := { m with
    inits := m.inits + made
    late := if m.connected then m.late + made else m.late }
  match a with
  | .connect _ _ _ _ _ => {}
  | .onConnect g => { m' with connected := m.connected || decide (g < c.mListener.clients.length) }
  | .onDisconnect g e attempt threadCreated =>
    { m' with
      reconnected := m.reconnected ||
        (c.registersOn g e && c.registersAndReconnects attempt threadCreated) }
  | _ => m'

/-- At most one registration, and none after the connection was made. -/
def OneTime (m : Registrations) : Prop := m.inits ≤ 1 ∧ m.late = 0

/-- An authentication error that finds the flag set comes before `onConnect`, and not on the
connection that a registration started. -/
def OnFirstConnection (s : Client × Registrations) : Action → Prop
  | .onDisconnect g e _ _ =>
    s.1.registersOn g e = true → s.2.connected = false ∧ s.2.reconnected = false
  | _ => True

/-- The flag is down after a registration until its new connection sets it again. -/
structure Inv (s : Client × Registrations) : Prop where
  armed : s.1.ArmedWithCredentials
  down : 0 < s.2.inits → s.1.mInitialConnection = true → s.2.reconnected = true
  made : s.2.reconnected = true → 0 < s.2.inits

theorem step_made {c : Client} (h : c.ArmedWithCredentials) (a : Action) :
    (c.step a).mAccountCreator.initCalls.length - c.mAccountCreator.initCalls.length =
      match a with
      | .onDisconnect g e _ _ => if c.registersOn g e then 1 else 0
      | _ => 0 := by
  have hstep : (c.step a).mAccountCreator = (c.step a).registering.mAccountCreator := rfl
  rw [hstep, Client.step_registering h]
  cases a with
  | connect user password server port threadCreated =>
    simp only
    split <;> simp [Client.registering]
  | disconnect threadJoined =>
    simp only
    split <;> simp [Client.registering]
  | onDisconnect g e attempt threadCreated =>
    simp only
    split <;> simp [Client.registering, Client.init_initCalls]
  | _ => simp [Client.registering]

theorem step_inv (s : Client × Registrations) (a : Action) (h : Inv s) :
    Inv (monitored Client.step see s a) := by
  obtain ⟨c, m⟩ := s
  obtain ⟨harmed, hdown, hmade⟩ := h
  have hflag : (c.step a).mInitialConnection = (c.step a).registering.mInitialConnection := rfl
  refine ⟨Client.step_armedWithCredentials c a harmed, ?_, ?_⟩
  · simp only [monitored, see, step_made harmed, hflag, Client.step_registering harmed]
    cases a with
    | connect => nofun
    | disconnect threadJoined =>
      intro hinits
      simp only
      split
      · nofun
      · exact hdown hinits
    | onDisconnect g e attempt threadCreated =>
      simp only
      by_cases hreg : c.registersOn g e = true
      · -- the branch sets the flag again only where it connects
        simp only [hreg, if_true, Bool.true_and]
        intro _ hset
        simp [hset]
      · simp only [hreg, Bool.false_eq_true, if_false]
        intro hinits hset
        have hrec : m.reconnected = true := hdown hinits hset
        simp [hrec]
    | _ => exact hdown
  · simp only [monitored, see, step_made harmed]
    cases a with
    | connect => nofun
    | onDisconnect g e attempt threadCreated =>
      simp only [Bool.or_eq_true, Bool.and_eq_true]
      rintro (hrec | ⟨hreg, -⟩)
      · have hpos : 0 < m.inits := hmade hrec
        omega
      · simp [hreg]
    | _ => exact hmade

/-- A step keeps the registration one-time exactly when it is no late or second answer. -/
theorem step_oneTime (s : Client × Registrations) (a : Action) (hinv : Inv s)
    (h : s.2.OneTime) : (monitored Client.step see s a).2.OneTime ↔ OnFirstConnection s a := by
  obtain ⟨c, m⟩ := s
  obtain ⟨harmed, hdown, hmade⟩ := hinv
  obtain ⟨honce, hlate⟩ := h
  simp only [monitored, see, step_made harmed]
  cases a with
  | connect => simp [OneTime, OnFirstConnection]
  | onDisconnect g e attempt threadCreated =>
    simp only [OneTime, OnFirstConnection]
    by_cases hreg : c.registersOn g e = true
    · have hset : c.mInitialConnection = true := by
        simp only [Client.registersOn, Bool.and_eq_true] at hreg
        exact hreg.2.2
      -- with the flag set, an earlier registration is one that connected again
      have hzero : m.inits = 0 ↔ m.reconnected = false := by
        constructor
        · intro hz
          by_contra hrec
          have := hmade (by simpa using hrec)
          simp only at this
          omega
        · intro hrec
          by_contra hpos
          have := hdown (by simp only; omega) hset
          simp_all
      simp only [hreg, if_true, true_implies]
      rw [← hzero]
      simp only at honce hlate
      cases hcon : m.connected <;> simp only [hlate] <;> simp
    · simp only [hreg, Bool.false_eq_true, if_false, false_implies, iff_true, Nat.add_zero]
      exact ⟨honce, by simpa using hlate⟩
  | _ =>
    simp only [OneTime, OnFirstConnection, Nat.add_zero, iff_true]
    exact ⟨honce, by simpa using hlate⟩

/-- In every state of a run there was at most one registration since the last call of `connect`,
and none after `onConnect`, exactly when each authentication error that finds the flag set comes
on the first connection and before `onConnect`. -/
theorem registration_is_one_time_iff (as : List Action) :
    Always (monitored Client.step see) (fun s => s.2.OneTime) ({}, {}) as ↔
      EachStep (monitored Client.step see) OnFirstConnection ({}, {}) as :=
  always_iff_eachStep step_inv (fun s a hinv h => step_oneTime s a hinv h)
    ⟨Client.armedWithCredentials_new, by nofun, by nofun⟩ ⟨by decide, rfl⟩

/-- The registration succeeds, and the server refuses the new account as well: its refusal
starts a second registration. -/
theorem a_refused_account_is_registered_again :
    ¬ ∀ as, Always (monitored Client.step see) (fun s => s.2.OneTime) ({}, {}) as := by
  intro h
  have hlast := h [.connect "docent" "docent" "host" 5222 true,
    .onDisconnect 0 .connAuthenticationFailed
      ⟨true, [⟨[.handleRegistrationResult true], .connNoError⟩]⟩ true,
    .onDisconnect 1 .connAuthenticationFailed ⟨false, []⟩ true] _ (List.prefix_refl _)
  exact absurd hlast.1 (by decide)

end Registrations

end esc_platform.xmpp
