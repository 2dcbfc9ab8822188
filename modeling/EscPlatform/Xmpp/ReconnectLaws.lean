-- The reconnection behind a registration. `onDisconnect` ignores what `init`
-- returns and reads the status, which with an empty password is still the
-- one of an earlier registration.
import EscPlatform.Xmpp.RegistrationLaws

namespace esc_platform.xmpp

open runs

@[simp] theorem Listener.setStream_length (l : Listener) (g : Nat) (isOpen : Bool) :
    (l.setStream g isOpen).clients.length = l.clients.length := by
  simp [setStream]

namespace Client

/-! ## The calls of `connect` -/

/-- A call of `connect` with credentials sets up a client, also where its thread is not
created. -/
theorem connect_clients {c : Client} {user server : String} (hu : user ≠ "") (hs : server ≠ "")
    (password : String) (port : Int) (threadCreated : Bool) :
    (c.connect user password server port threadCreated).1.mListener.clients.length =
      c.mListener.clients.length + 1 := by
  unfold connect
  rw [if_neg (by simp [hu, hs])]
  cases threadCreated <;> simp [Listener.setup]

theorem registerAndConnect_clients {c : Client} (hu : c.mUsername ≠ "") (hs : c.mServer ≠ "")
    (attempt : Attempt) (threadCreated : Bool) :
    (c.registerAndConnect attempt threadCreated).1.mListener.clients.length =
      c.mListener.clients.length + if c.registrationStatus attempt = .success then 1 else 0 := by
  unfold registerAndConnect
  simp only [init_mStatus hu hs]
  split
  · exact connect_clients hu hs _ _ _
  · rfl

theorem listenerOnDisconnect_clients {c : Client} (h : c.ArmedWithCredentials) {g : Nat}
    {e : ConnectionError} (hreg : c.registersOn g e = true) (attempt : Attempt)
    (threadCreated : Bool) :
    (c.step (.onDisconnect g e attempt threadCreated)).mListener.clients.length =
      c.mListener.clients.length + if c.registrationStatus attempt = .success then 1 else 0 := by
  unfold registersOn at hreg
  rw [Bool.and_eq_true, decide_eq_true_eq] at hreg
  obtain ⟨hg, hbranch⟩ := hreg
  have hflag : c.mInitialConnection = true := by
    rw [Bool.and_eq_true] at hbranch
    exact hbranch.2
  obtain ⟨hu, hs⟩ := h hflag
  simp only [step, hg, if_true, listenerOnDisconnect, onDisconnect, hbranch]
  have hclients := registerAndConnect_clients (c := { c with
    mListener := { c.mListener.setStream g false with mIsConnected := false } }) hu hs attempt
    threadCreated
  rw [hclients, Listener.setStream_length]
  rfl

/-! ## The law -/

/-- The registration of this callback took its credentials, reached the server and succeeded. -/
def Registered (c : Client) (attempt : Attempt) : Prop :=
  (c.mAccountCreator.init c.mUsername c.mPassword c.mServer attempt).2 = true ∧
    AccountRegistration.Attempt.outcome attempt = .success

/-- In the registration branch `init` gets the credentials of the session, and `connect` is called
only where that registration succeeded. -/
def ReconnectsRegistered (c : Client) : Action → Prop
  | .onDisconnect g e attempt threadCreated =>
    c.registersOn g e = true →
      (c.step (.onDisconnect g e attempt threadCreated)).mAccountCreator =
          (c.mAccountCreator.init c.mUsername c.mPassword c.mServer attempt).1 ∧
        (c.mListener.clients.length <
            (c.step (.onDisconnect g e attempt threadCreated)).mListener.clients.length →
          c.Registered attempt)
  | _ => True

/-- Where the branch is taken there is a password, or no registration before this one left its
success. -/
def NoSuccessIsLeft (c : Client) : Action → Prop
  | .onDisconnect g e _ _ =>
    c.registersOn g e = true → c.mPassword ≠ "" ∨ c.mAccountCreator.mStatus ≠ .success
  | _ => True

theorem registered_iff {c : Client} (hu : c.mUsername ≠ "") (hs : c.mServer ≠ "")
    (attempt : Attempt) : c.Registered attempt ↔
      c.mPassword ≠ "" ∧ AccountRegistration.Attempt.outcome attempt = .success := by
  unfold Registered AccountRegistration.init
  by_cases hp : c.mPassword = "" <;> simp [hu, hs, hp]

theorem reconnectsRegistered_iff {c : Client} (h : c.ArmedWithCredentials) (a : Action) :
    c.ReconnectsRegistered a ↔ c.NoSuccessIsLeft a := by
  cases a with
  | onDisconnect g e attempt threadCreated =>
    simp only [ReconnectsRegistered, NoSuccessIsLeft]
    apply imp_congr_right
    intro hreg
    have hflag : c.mInitialConnection = true := by
      simp only [registersOn, Bool.and_eq_true] at hreg
      exact hreg.2.2
    obtain ⟨hu, hs⟩ := h hflag
    have hcreator : (c.step (.onDisconnect g e attempt threadCreated)).mAccountCreator =
        (c.mAccountCreator.init c.mUsername c.mPassword c.mServer attempt).1 := by
      have hstep := congrArg Registering.mAccountCreator
        (step_registering h (.onDisconnect g e attempt threadCreated))
      simp only [hreg, if_true] at hstep
      exact hstep
    have hcalled : c.mListener.clients.length < (c.step
        (.onDisconnect g e attempt threadCreated)).mListener.clients.length ↔
          c.registrationStatus attempt = .success := by
      rw [listenerOnDisconnect_clients h hreg]
      split <;> simp_all
    rw [registered_iff hu hs, hcalled, and_iff_right hcreator, registrationStatus]
    by_cases hp : c.mPassword = ""
    · simp [hp]
    · simp [hp]
  | _ => exact Iff.rfl

/-- In a run, every registration that `connect` follows succeeded in the same callback exactly
when none of the callbacks finds an empty password beside the success of an earlier
registration. -/
theorem reconnects_need_a_password_iff (as : List Action) :
    EachStep step ReconnectsRegistered {} as ↔ EachStep step NoSuccessIsLeft {} as :=
  eachStep_congr step_armedWithCredentials (fun _ a h => reconnectsRegistered_iff h a)
    armedWithCredentials_new

/-- The account of a first user is registered. A second user with an empty password is refused,
no registration is made for it, and `connect` is called again. -/
theorem an_empty_password_reconnects :
    ¬ ∀ as, EachStep step ReconnectsRegistered {} as := by
  intro h
  have hlast := h [.connect "alice" "secret" "host" 5222 true,
    .onDisconnect 0 .connAuthenticationFailed
      ⟨true, [⟨[.handleRegistrationResult true], .connNoError⟩]⟩ true,
    .connect "bob" "" "host" 5222 true,
    .onDisconnect 2 .connAuthenticationFailed ⟨true, []⟩ true]
    [.connect "alice" "secret" "host" 5222 true,
    .onDisconnect 0 .connAuthenticationFailed
      ⟨true, [⟨[.handleRegistrationResult true], .connNoError⟩]⟩ true,
    .connect "bob" "" "host" 5222 true]
    (.onDisconnect 2 .connAuthenticationFailed ⟨true, []⟩ true) (List.prefix_refl _)
  have hregistered := (hlast (by decide)).2 (by decide)
  exact absurd hregistered.1 (by decide)

end Client

end esc_platform.xmpp
