-- What a `connect` that returns false leaves behind. Empty arguments are
-- refused in front of everything, but the thread is created last, behind a new
-- gloox client and three emptied queues.
import EscPlatform.Xmpp.BroadcastLaws

namespace esc_platform.xmpp

open runs

namespace Client

/-- The gloox client and the server name of the listener, the three queues, the credentials and the
flag of the one-time registration. -/
structure SameConnection (c c' : Client) : Prop where
  mClient : c'.mListener.mClient = c.mListener.mClient
  listenerServer : c'.mListener.mServer = c.mListener.mServer
  mEventQueue : c'.mEventQueue = c.mEventQueue
  mStateQueue : c'.mStateQueue = c.mStateQueue
  mPresenceQueue : c'.mPresenceQueue = c.mPresenceQueue
  mUsername : c'.mUsername = c.mUsername
  mPassword : c'.mPassword = c.mPassword
  mServer : c'.mServer = c.mServer
  mInitialConnection : c'.mInitialConnection = c.mInitialConnection

theorem SameConnection.refl (c : Client) : c.SameConnection c :=
  ⟨rfl, rfl, rfl, rfl, rfl, rfl, rfl, rfl, rfl⟩

/-- A `connect` that returns false keeps the connection as it is. -/
def FailsCleanly (c : Client) (user password server : String) (port : Int)
    (threadCreated : Bool) : Prop :=
  (c.connect user password server port threadCreated).2 = false →
    c.SameConnection (c.connect user password server port threadCreated).1

/-- The new gloox client is none of the earlier ones. -/
theorem connect_mClient_ne {c : Client} (h : c.mListener.Valid) {user server : String}
    (hu : user ≠ "") (hs : server ≠ "") (password : String) (port : Int) (threadCreated : Bool) :
    (c.connect user password server port threadCreated).1.mListener.mClient ≠
      c.mListener.mClient := by
  have hnew : (c.connect user password server port threadCreated).1.mListener.mClient =
      some c.mListener.clients.length := by
    unfold connect
    rw [if_neg (by simp [hu, hs])]
    cases threadCreated <;> rfl
  rw [hnew]
  intro hsame
  exact absurd (h _ hsame.symm) (Nat.lt_irrefl _)

theorem failsCleanly_iff {c : Client} (h : c.mListener.Valid) (user password server : String)
    (port : Int) (threadCreated : Bool) :
    c.FailsCleanly user password server port threadCreated ↔
      user = "" ∨ server = "" ∨ threadCreated = true := by
  unfold FailsCleanly
  by_cases hempty : user = "" ∨ server = ""
  · refine iff_of_true (fun _ => ?_) (hempty.elim .inl fun hs => .inr (.inl hs))
    unfold connect
    rw [if_pos hempty]
    exact SameConnection.refl c
  · rw [not_or] at hempty
    cases threadCreated with
    | true => exact iff_of_true (fun hfalse => by simp [connect, hempty] at hfalse) (by simp)
    | false =>
      refine iff_of_false (fun hkeeps => ?_) (by simp [hempty])
      have hfalse : (c.connect user password server port false).2 = false := by
        simp [connect, hempty]
      exact connect_mClient_ne h hempty.1 hempty.2 password port false (hkeeps hfalse).mClient

/-- In every state that a run reaches, a `connect` that returns false changes nothing of the
connection exactly where an argument is empty or the thread would have been created. -/
theorem a_failed_connect_is_clean_iff (as : List Action) (user password server : String)
    (port : Int) (threadCreated : Bool) :
    (run step {} as).FailsCleanly user password server port threadCreated ↔
      user = "" ∨ server = "" ∨ threadCreated = true :=
  failsCleanly_iff (run_valid as) user password server port threadCreated

/-- A connected client with an event that nobody took, connected again without a thread. -/
theorem a_failed_reconnect_drops_an_event :
    ¬ (run step {} [.connect "ann" "" "example.org" 5222 true, .onConnect 0,
      .handleMessage "bob" "" "hello"]).FailsCleanly "ann" "" "example.org" 5222 false := by
  intro h
  have hqueue := (h (by decide)).mEventQueue
  exact absurd hqueue (by decide)

end Client

end esc_platform.xmpp
