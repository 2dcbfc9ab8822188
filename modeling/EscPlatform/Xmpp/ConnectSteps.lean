-- `Client::connect` in its steps. The thread of the new session runs from
-- `pthread_create` on, and its callbacks fall between the assignments of the
-- credentials and of the flag that they read.
import EscPlatform.Xmpp.ConnectionLaws
import EscPlatform.Xmpp.RegistrationLaws

namespace esc_platform.xmpp

open runs

/-! ## The steps -/

/-- The arguments of a call of `connect`. -/
structure ConnectCall where
  xmppUser : String
  xmppPassword : String
  xmppServer : String
  xmppPort : Int := 5222
  deriving DecidableEq, Repr

/-- A callback of the session that the call started. -/
inductive SessionCallback
  | onConnect
  | onTLSConnect
  | onDisconnect (e : ConnectionError) (attempt : Attempt) (threadCreated : Bool)
  | handleRoster (roster : Roster)
  deriving DecidableEq, Repr

/-- The error that ends the session. Its thread leaves the `recv` loop with it. -/
def SessionCallback.ends : SessionCallback → Option ConnectionError
  | .onDisconnect e _ _ => some e
  | .onConnect | .onTLSConnect | .handleRoster _ => none

/-- One step of `connect` behind `pthread_create`, or a callback. -/
inductive ConnectStep
  | assign
  | callback (cb : SessionCallback)
  deriving DecidableEq, Repr

structure Connecting where
  client : Client
  /-- How many of the four assignments are done. -/
  assigned : Nat := 0
  ended : Option ConnectionError := none

namespace Client

/-- `connect` up to `pthread_create`. -/
def beginConnect (c : Client) (call : ConnectCall) : Client :=
  { c with
    mListener := c.mListener.setup call.xmppUser call.xmppPassword call.xmppServer call.xmppPort
    mEventQueue := []
    mStateQueue := []
    mPresenceQueue := [] }

/-- The assignments behind `pthread_create`, in their order. -/
def assign (call : ConnectCall) (c : Client) : Nat → Client
  | 0 => { c with mUsername := call.xmppUser }
  | 1 => { c with mPassword := call.xmppPassword }
  | 2 => { c with mServer := call.xmppServer }
  | 3 => { c with mInitialConnection := true }
  | _ => c

/-- A callback of the gloox client `g`. -/
def handle (g : Nat) (c : Client) : SessionCallback → Client
  | .onConnect => c.listenerOnConnect g
  | .onTLSConnect => c.listenerOnTLSConnect g
  | .onDisconnect e attempt threadCreated => (c.listenerOnDisconnect g e attempt threadCreated).1
  | .handleRoster roster => c.handleRoster roster

end Client

namespace Connecting

/-- The state behind `pthread_create`. -/
def start (c : Client) (call : ConnectCall) : Connecting := { client := c.beginConnect call }

/-- After its end a session calls nothing back. -/
def step (call : ConnectCall) (g : Nat) (s : Connecting) : ConnectStep → Connecting
  | .assign => { s with client := s.client.assign call s.assigned, assigned := s.assigned + 1 }
  | .callback cb =>
    if s.ended = none then { s with client := s.client.handle g cb, ended := cb.ends } else s

/-- Without a callback in between, the steps make up `connect`. -/
theorem run_assign (c : Client) (call : ConnectCall) (g : Nat) (hu : call.xmppUser ≠ "")
    (hs : call.xmppServer ≠ "") :
    (run (step call g) (start c call) (List.replicate 4 .assign)).client =
      (c.connect call.xmppUser call.xmppPassword call.xmppServer call.xmppPort true).1 := by
  simp [run, step, start, Client.assign, Client.beginConnect, Client.connect, hu, hs]

/-! ## What the callbacks read -/

/-- The step finds the values of the call where it reads them: an authentication failure makes
one call of `init`, with the credentials of the call, and `handleRoster` compares the user name of
the call. -/
def SeesTheCall (call : ConnectCall) (g : Nat) (s : Connecting) : ConnectStep → Prop
  | .callback (.onDisconnect e attempt threadCreated) =>
    s.ended = none → Client.isAuthError e = true →
      (s.client.listenerOnDisconnect g e attempt threadCreated).1.mAccountCreator.initCalls =
        s.client.mAccountCreator.initCalls ++
          [(call.xmppUser, call.xmppPassword, call.xmppServer)]
  | .callback (.handleRoster _) => s.ended = none → s.client.mUsername = call.xmppUser
  | _ => True

/-- Each field that the step reads is assigned, or the earlier state `c` of the client had the
value in it already. -/
def FindsItAssigned (c : Client) (call : ConnectCall) (s : Connecting) : ConnectStep → Prop
  | .callback (.onDisconnect e _ _) =>
    s.ended = none → Client.isAuthError e = true →
      (0 < s.assigned ∨ c.mUsername = call.xmppUser) ∧
      (1 < s.assigned ∨ c.mPassword = call.xmppPassword) ∧
      (2 < s.assigned ∨ c.mServer = call.xmppServer) ∧
      (3 < s.assigned ∨ c.mInitialConnection = true)
  | .callback (.handleRoster _) => s.ended = none → 0 < s.assigned ∨ c.mUsername = call.xmppUser
  | _ => True

/-- While the session is there, the fields are those of the call as far as it has assigned them,
and the earlier ones from there on. -/
def HalfAssigned (c : Client) (call : ConnectCall) (s : Connecting) : Prop :=
  s.ended = none → s.client.registering =
    ⟨if 3 < s.assigned then true else c.mInitialConnection,
      if 0 < s.assigned then call.xmppUser else c.mUsername,
      if 1 < s.assigned then call.xmppPassword else c.mPassword,
      if 2 < s.assigned then call.xmppServer else c.mServer, c.mAccountCreator⟩

end Connecting

namespace Client

theorem connect_mAccountCreator (c : Client) (user password server : String) (port : Int)
    (threadCreated : Bool) :
    (c.connect user password server port threadCreated).1.mAccountCreator = c.mAccountCreator := by
  have h := congrArg Registering.mAccountCreator
    (connect_registering c user password server port threadCreated)
  split at h <;> exact h

theorem registerAndConnect_initCalls (c : Client) (attempt : Attempt) (threadCreated : Bool) :
    (c.registerAndConnect attempt threadCreated).1.mAccountCreator.initCalls =
      c.mAccountCreator.initCalls ++ [(c.mUsername, c.mPassword, c.mServer)] := by
  unfold registerAndConnect
  simp only
  split
  · rw [connect_mAccountCreator]
    exact init_initCalls _ _ _ _ _
  · exact init_initCalls _ _ _ _ _

theorem listenerOnDisconnect_initCalls (c : Client) (g : Nat) (e : ConnectionError)
    (attempt : Attempt) (threadCreated : Bool) :
    (c.listenerOnDisconnect g e attempt threadCreated).1.mAccountCreator.initCalls =
      c.mAccountCreator.initCalls ++
        if (isAuthError e && c.mInitialConnection) = true then
          [(c.mUsername, c.mPassword, c.mServer)]
        else [] := by
  unfold listenerOnDisconnect onDisconnect
  simp only
  split
  · exact registerAndConnect_initCalls _ _ _
  · rw [List.append_nil]
    exact congrArg (·.mAccountCreator.initCalls) (reportDisconnect_registering _ _)

/-- A callback that leaves the session open reads the fields of the registration only. -/
theorem handle_registering (g : Nat) (c : Client) {cb : SessionCallback} (h : cb.ends = none) :
    (c.handle g cb).registering = c.registering := by
  unfold handle
  cases cb with
  | onConnect => apply onConnect_registering
  | onTLSConnect => apply onTLSConnect_registering
  | onDisconnect e attempt threadCreated => cases h
  | handleRoster roster => apply handleRoster_registering

/-- The loop of `handleRoster` keeps the wish to subscribe as long as it meets no game engine. -/
theorem rosterLoop_subscribeToGame (roster : Roster) (subscribeToGame : Bool) :
    (rosterLoop roster subscribeToGame).1 =
      (subscribeToGame && decide (kGameEngineUsername ∉ roster.map RosterItem.username)) := by
  have hloop : ∀ (s : Bool × Std.TreeMap String Peer × List String),
      (roster.foldl (fun s item =>
        (if kGameEngineUsername = item.username then false else s.1,
          s.2.1.insertIfNew item.username { mUsername := item.username },
          s.2.2 ++ [item.username])) s).1 =
        (s.1 && decide (kGameEngineUsername ∉ roster.map RosterItem.username)) := by
    intro s
    induction roster generalizing s with
    | nil => simp
    | cons item roster ih =>
      rw [List.foldl_cons, ih]
      by_cases hitem : kGameEngineUsername = item.username
      · simp [hitem]
      · simp [hitem]
  exact hloop (subscribeToGame, ∅, [])

/-- `handleRoster` subscribes to the game engine for a user that is not the docent, where the
roster does not have it. -/
theorem handleRoster_mListener (c : Client) (roster : Roster) :
    (c.handleRoster roster).mListener =
      if c.mUsername ≠ kDocentUsername ∧ kGameEngineUsername ∉ roster.map RosterItem.username then
        (c.mListener.subscribeTo (kGameEngineUsername ++ "@" ++ c.mListener.mServer)).1
      else c.mListener := by
  simp only [handleRoster, fire_mListener, pushState_mListener]
  have hloop := rosterLoop_subscribeToGame roster (decide (c.mUsername ≠ kDocentUsername))
  by_cases h : c.mUsername ≠ kDocentUsername ∧
      kGameEngineUsername ∉ roster.map RosterItem.username
  · rw [if_pos h, if_pos (by rw [hloop]; simpa using h)]
  · rw [if_neg h, if_neg (by rw [hloop]; simpa using h)]

end Client

namespace Connecting

variable {c : Client} {call : ConnectCall} {g : Nat} {s : Connecting}

theorem start_halfAssigned (c : Client) (call : ConnectCall) :
    HalfAssigned c call (start c call) := fun _ => rfl

/-- An assignment moves the border by one field. -/
theorem assign_halfAssigned (h : HalfAssigned c call s) :
    HalfAssigned c call (step call g s .assign) := by
  intro hopen
  have hfields := h hopen
  obtain ⟨client, assigned, ended⟩ := s
  simp only [Client.registering, Client.Registering.mk.injEq] at hfields
  obtain ⟨hflag, huser, hpassword, hserver, hcreator⟩ := hfields
  rcases assigned with _ | _ | _ | _ | n
  all_goals
    simp [step, Client.registering, Client.assign, hflag, huser, hpassword, hserver, hcreator]

theorem step_halfAssigned (c : Client) (call : ConnectCall) (g : Nat) (s : Connecting)
    (a : ConnectStep) (h : HalfAssigned c call s) : HalfAssigned c call (step call g s a) := by
  cases a with
  | assign => exact assign_halfAssigned h
  | callback cb =>
    simp only [step]
    split
    · rename_i hopen
      intro hends
      exact (Client.handle_registering g s.client hends).trans (h hopen)
    · exact h

theorem seesTheCall_iff (c : Client) (call : ConnectCall) (g : Nat) (s : Connecting)
    (a : ConnectStep) (h : HalfAssigned c call s) :
    SeesTheCall call g s a ↔ FindsItAssigned c call s a := by
  have hset : ∀ {α : Type} {k : Nat} {old new : α},
      (if k < s.assigned then new else old) = new ↔ k < s.assigned ∨ old = new := by
    intro α k old new
    by_cases hk : k < s.assigned <;> simp [hk]
  cases a with
  | assign => exact Iff.rfl
  | callback cb =>
    cases cb with
    | onConnect => exact Iff.rfl
    | onTLSConnect => exact Iff.rfl
    | onDisconnect e attempt threadCreated =>
      simp only [SeesTheCall, FindsItAssigned]
      refine forall_congr' fun hopen => forall_congr' fun hauth => ?_
      have hfields := h hopen
      simp only [Client.registering, Client.Registering.mk.injEq] at hfields
      obtain ⟨hflag, huser, hpassword, hserver, -⟩ := hfields
      rw [Client.listenerOnDisconnect_initCalls, List.append_cancel_left_eq, hauth, Bool.true_and,
        ← hset, ← hset, ← hset, ← hset, ← huser, ← hpassword, ← hserver, ← hflag]
      cases s.client.mInitialConnection with
      | true => simp
      | false => simp
    | handleRoster roster =>
      simp only [SeesTheCall, FindsItAssigned]
      refine forall_congr' fun hopen => ?_
      have huser : s.client.mUsername = _ := congrArg Client.Registering.mUsername (h hopen)
      rw [huser, hset]

/-! ## The law -/

/-- What a session has done to the calls of `init` when its callbacks see the call. -/
def InitsOnce (c : Client) (call : ConnectCall) (s : Connecting) : Prop :=
  s.client.mAccountCreator.initCalls = c.mAccountCreator.initCalls ++
    if s.ended.any Client.isAuthError then [(call.xmppUser, call.xmppPassword, call.xmppServer)]
    else []

theorem assign_initCalls (call : ConnectCall) (c : Client) (k : Nat) :
    (c.assign call k).mAccountCreator.initCalls = c.mAccountCreator.initCalls := by
  unfold Client.assign
  split <;> rfl

theorem step_initsOnce (c : Client) (call : ConnectCall) (g : Nat) (s : Connecting)
    (a : ConnectStep) (h : InitsOnce c call s) (hsees : SeesTheCall call g s a) :
    InitsOnce c call (step call g s a) := by
  cases a with
  | assign =>
    unfold InitsOnce
    simp only [step, assign_initCalls]
    exact h
  | callback cb =>
    simp only [step]
    split
    · rename_i hopen
      unfold InitsOnce at h ⊢
      rw [hopen] at h
      have hkeep : cb.ends = none → (s.client.handle g cb).mAccountCreator.initCalls =
          s.client.mAccountCreator.initCalls := fun hends =>
        congrArg (·.mAccountCreator.initCalls) (Client.handle_registering g s.client hends)
      cases cb with
      | onConnect => exact (hkeep rfl).trans h
      | onTLSConnect => exact (hkeep rfl).trans h
      | onDisconnect e attempt threadCreated =>
        have hbefore : s.client.mAccountCreator.initCalls = c.mAccountCreator.initCalls := by
          simpa using h
        have hafter : (s.client.listenerOnDisconnect g e attempt
            threadCreated).1.mAccountCreator.initCalls =
              c.mAccountCreator.initCalls ++ if Client.isAuthError e then
                [(call.xmppUser, call.xmppPassword, call.xmppServer)] else [] := by
          by_cases hauth : Client.isAuthError e = true
          · rw [hsees hopen hauth, hbefore, if_pos hauth]
          · rw [Client.listenerOnDisconnect_initCalls, hbefore]
            simp [hauth]
        exact hafter
      | handleRoster roster => exact (hkeep rfl).trans h
    · exact h

/-- The callbacks of the session that a call of `connect` starts see the values of the call. -/
def SessionSeesTheCall (c : Client) (call : ConnectCall) (as : List ConnectStep) : Prop :=
  EachStep (step call c.mListener.clients.length) (SeesTheCall call c.mListener.clients.length)
    (start c call) as

/-- What follows for a run: an authentication failure leads to one registration, with the
credentials of the call, and `handleRoster` decides by the user name of the call. -/
structure AnswersForTheCall (c : Client) (call : ConnectCall) (as : List ConnectStep) : Prop where
  init : InitsOnce c call (run (step call c.mListener.clients.length) (start c call) as)
  subscribes : ∀ bs roster, bs ++ [.callback (.handleRoster roster)] <+: as →
    ∀ s, s = run (step call c.mListener.clients.length) (start c call) bs → s.ended = none →
      (s.client.handleRoster roster).mListener =
        if call.xmppUser ≠ kDocentUsername ∧
            kGameEngineUsername ∉ roster.map RosterItem.username then
          (s.client.mListener.subscribeTo
            (kGameEngineUsername ++ "@" ++ s.client.mListener.mServer)).1
        else s.client.mListener

theorem SessionSeesTheCall.answers {as : List ConnectStep} (h : SessionSeesTheCall c call as) :
    AnswersForTheCall c call as := by
  constructor
  · exact run_inv_of_eachStep (fun s a hs hsees => step_initsOnce c call _ s a hs hsees)
      (by simp [InitsOnce, start, Client.beginConnect]) h
  · rintro bs roster hbs s rfl hopen
    have huser := h bs _ hbs hopen
    rw [Client.handleRoster_mListener, huser]

/-- The callbacks of the session that a call of `connect` starts see the values of the call, and
answer with them, exactly where each field that they read is assigned by then or held its value
before. -/
theorem the_session_sees_the_call_iff (c : Client) (call : ConnectCall) (as : List ConnectStep) :
    (SessionSeesTheCall c call as ∧ AnswersForTheCall c call as) ↔
      EachStep (step call c.mListener.clients.length) (FindsItAssigned c call) (start c call)
        as := by
  have hiff : SessionSeesTheCall c call as ↔
      EachStep (step call c.mListener.clients.length) (FindsItAssigned c call) (start c call) as :=
    eachStep_congr (step_halfAssigned c call c.mListener.clients.length)
      (seesTheCall_iff c call c.mListener.clients.length) (start_halfAssigned c call)
  constructor
  · rintro ⟨hsees, -⟩
    exact hiff.mp hsees
  · intro h
    have hsees : SessionSeesTheCall c call as := hiff.mpr h
    exact ⟨hsees, hsees.answers⟩

/-- A new client, and an authentication failure before the first assignment. -/
theorem an_early_failure_registers_nothing :
    ¬ SessionSeesTheCall {} ⟨"docent", "docent", "host", 5222⟩
      [.callback (.onDisconnect .connAuthenticationFailed ⟨true, []⟩ true), .assign, .assign,
        .assign, .assign] ∧
    (run (step ⟨"docent", "docent", "host", 5222⟩ 0) (start {} ⟨"docent", "docent", "host", 5222⟩)
      [.callback (.onDisconnect .connAuthenticationFailed ⟨true, []⟩ true), .assign, .assign,
        .assign, .assign]).client.mAccountCreator.initCalls = [] := by
  constructor
  · intro h
    have hfirst := h [] _ (List.prefix_append _ _) rfl rfl
    exact absurd hfirst (by decide)
  · rfl

end Connecting

end esc_platform.xmpp
