-- The one-time account registration, `AccountRegistration.cpp`. What the
-- server does is a script: whether the connection is made, and what each
-- `recv` delivers.
import EscPlatform.Xmpp.Gloox

namespace esc_platform.xmpp

inductive OperationStatus
  | incomplete | success | failure
  deriving DecidableEq, Repr

/-- A callback of the registration's own client. -/
inductive RegistrationCallback
  | onConnect
  | handleRegistrationFields
  | handleAlreadyRegistered
  /-- Whether the result is `RegistrationSuccess`. -/
  | handleRegistrationResult (success : Bool)
  deriving DecidableEq, Repr

/-- One return of `recv`: the callbacks that it made, and its result. -/
structure Recv where
  callbacks : List RegistrationCallback
  ce : ConnectionError
  deriving DecidableEq, Repr

/-- What one registration meets. The connection ends behind the last `recv`. -/
structure Attempt where
  connects : Bool
  recvs : List Recv
  deriving DecidableEq, Repr

structure AccountRegistration where
  mStatus : OperationStatus := .incomplete
  mHostname : String := ""
  mUsername : String := ""
  mPassword : String := ""
  /-- The arguments of the calls of `init` so far, the oldest first. -/
  initCalls : List (String × String × String) := []
  deriving DecidableEq, Repr

namespace AccountRegistration

/-- The status after a callback. The first two only send the next request. -/
def handle (status : OperationStatus) : RegistrationCallback → OperationStatus
  | .onConnect | .handleRegistrationFields => status
  | .handleAlreadyRegistered => .failure
  | .handleRegistrationResult success => if success then .success else .failure

/-- The `while` loop of `init`. -/
def recvLoop : OperationStatus → List Recv → OperationStatus
  | status, [] => status
  | status, recv :: recvs =>
    let status := recv.callbacks.foldl handle status
    if status = .success ∨ status = .failure then status
    else if recv.ce = .connNoError then recvLoop status recvs
    else status

/-- The status that a registration with accepted arguments ends with. -/
def Attempt.outcome (attempt : Attempt) : OperationStatus :=
  if attempt.connects then recvLoop .incomplete attempt.recvs else .incomplete

/-- `AccountRegistration::init`. The port is the default one. -/
def init (a : AccountRegistration) (username password host : String) (attempt : Attempt) :
    AccountRegistration × Bool :=
  let a := { a with initCalls := a.initCalls ++ [(username, password, host)] }
  if username = "" ∨ password = "" ∨ host = "" then (a, false)
  else
    ({ a with
      mUsername := username
      mPassword := password
      mHostname := host
      mStatus := Attempt.outcome attempt }, true)

end AccountRegistration

end esc_platform.xmpp
