-- The listener threads of the plugin. Each connection starts one that runs
-- `openConnection` on its `Client`; the `Client` stores the handle of the last
-- one, and `stopInterface` waits for that one before it deletes the `Client`.
import EscPlatform.Lib.Runs
import EscPlatform.Xmpp.PluginCalls

namespace esc_platform.xmpp

open runs

/-! ## The threads -/

/-- Where a thread stands in `openConnection`. -/
inductive ThreadPhase
  /-- Before the check of `mIsConnected` and `mClient`. -/
  | created
  /-- In `mClient->connect`. -/
  | connecting
  /-- In the loop of `mClient->recv`. -/
  | receiving
  | finished
  deriving DecidableEq, Repr

structure ListenerThread where
  /-- The number of the `Client` that started it. -/
  client : Nat
  phase : ThreadPhase := .created
  deriving DecidableEq, Repr

/-- The plugin with its threads. The clients are numbered from 1 as they are made, and the last
one is the one in the pointer. -/
structure ThreadedPlugin where
  clientPtr : Plugin := none
  number : Nat := 0
  /-- Every thread that was created, the oldest first. -/
  threads : List ListenerThread := []
  /-- The position of the thread whose handle the `Client` stores. -/
  mListenerThread : Option Nat := none
  /-- The application is in the `pthread_join` of `stopInterface`. -/
  joining : Bool := false

/-- What a thread does, or meets. -/
inductive ThreadStep
  | check
  | connected (ok : Bool)
  | recv (ce : ConnectionError)
  | callback (a : Action)
  deriving DecidableEq, Repr

inductive ThreadedAction
  | startInterface (username password hostname : Option String) (threadCreated : Bool)
  | startClientInterface (uniqueDeviceIdentifier : String) (hostname : Option String)
    (threadCreated : Bool)
  /-- `stopInterface` up to its `pthread_join`. -/
  | stopInterface
  /-- The rest of `stopInterface`: the join returns with or without success. -/
  | join (threadJoined : Bool)
  | thread (i : Nat) (t : ThreadStep)
  deriving DecidableEq, Repr

namespace ThreadedPlugin

/-- `pthread_create` of a thread on the client in the pointer. -/
def spawn (s : ThreadedPlugin) : ThreadedPlugin :=
  { s with
    threads := s.threads ++ [{ client := s.number }]
    mListenerThread := some s.threads.length }

/-- A start that left `clientPtr` and returned `ret`, which is 0 if it created a thread. -/
def started (s : ThreadedPlugin) (clientPtr : Plugin) (ret : Int) : ThreadedPlugin :=
  let s := { s with
    clientPtr := clientPtr
    number := if s.clientPtr.isNone && clientPtr.isSome then s.number + 1 else s.number }
  if ret = 0 then s.spawn else s

/-- A start with memory for a client. -/
def start (s : ThreadedPlugin) (result : Option (Plugin × Int)) : ThreadedPlugin :=
  match result with
  | some (clientPtr, ret) => s.started clientPtr ret
  | none => s

def stopInterface (s : ThreadedPlugin) : ThreadedPlugin :=
  match s.clientPtr with
  | none => s
  | some c =>
    if c.mListener.mIsConnected then
      { s with
        clientPtr := some { c with mInitialConnection := false }.closeConnection
        joining := true }
    else s

/-- The thread of the stored handle has finished. -/
def canJoin (s : ThreadedPlugin) : Bool :=
  s.joining && (s.mListenerThread.bind (s.threads[·]?)).any (·.phase = .finished)

/-- The join waits for the thread of the stored handle. When it fails the client stays. -/
def join (s : ThreadedPlugin) (threadJoined : Bool) : ThreadedPlugin :=
  if threadJoined then
    if s.canJoin then { s with clientPtr := none, mListenerThread := none, joining := false } else s
  else { s with joining := false }

/-- The callback makes a new connection: the success path of the registration. -/
def startsConnection (c : Client) : Action → Bool
  | .onDisconnect g e attempt threadCreated =>
    decide (g < c.mListener.clients.length) && (c.listenerOnDisconnect g e attempt threadCreated).2
  | _ => false

def setPhase (s : ThreadedPlugin) (i : Nat) (phase : ThreadPhase) : ThreadedPlugin :=
  { s with threads := s.threads.modify i fun t => { t with phase := phase } }

/-- One step of the thread `i` on the client `c`. gloox calls back from `connect` and `recv`. -/
def stepThread (s : ThreadedPlugin) (c : Client) (i : Nat) (phase : ThreadPhase) :
    ThreadStep → ThreadedPlugin
  | .check =>
    if phase = .created then
      if c.mListener.mIsConnected = false ∧ c.mListener.mClient ≠ none then
        s.setPhase i .connecting
      else s.setPhase i .finished
    else s
  | .connected ok =>
    if phase = .connecting then s.setPhase i (if ok then .receiving else .finished) else s
  | .recv ce =>
    if phase = .receiving then
      if ce = .connNoError ∧ c.mListener.mClient ≠ none then s else s.setPhase i .finished
    else s
  | .callback a =>
    if (phase = .connecting ∨ phase = .receiving) ∧ a.isCallback then
      let s' := { s with clientPtr := some (c.step a) }
      if startsConnection c a then s'.spawn else s'
    else s

/-- What a thread does on a deleted client has no meaning, so it is no step. While the application
waits in the join it calls nothing. -/
def step (s : ThreadedPlugin) : ThreadedAction → ThreadedPlugin
  | .startInterface username password hostname threadCreated =>
    if s.joining then s
    else s.start (s.clientPtr.startInterface username password hostname true threadCreated)
  | .startClientInterface uniqueDeviceIdentifier hostname threadCreated =>
    if s.joining then s
    else s.start
      (s.clientPtr.startClientInterface true threadCreated uniqueDeviceIdentifier hostname)
  | .stopInterface => if s.joining then s else s.stopInterface
  | .join threadJoined => if s.joining then s.join threadJoined else s
  | .thread i t =>
    match s.threads[i]?, s.clientPtr with
    | some thread, some c => if thread.client = s.number then s.stepThread c i thread.phase t else s
    | _, _ => s

/-- The two halves of `stopInterface` make up the whole, where the join succeeds only on a thread
that has finished. -/
theorem stopInterface_join (s : ThreadedPlugin) (hfree : s.joining = false) (threadJoined : Bool)
    (hjoin : threadJoined = true → s.stopInterface.joining = true →
      s.stopInterface.canJoin = true) :
    ((s.step .stopInterface).step (.join threadJoined)).clientPtr =
      (s.clientPtr.stopInterface threadJoined).1 := by
  simp only [step, hfree, Bool.false_eq_true, if_false]
  cases hptr : s.clientPtr with
  | none => simp [stopInterface, hptr, hfree, Plugin.stopInterface]
  | some c =>
    cases hconn : c.mListener.mIsConnected with
    | false =>
      simp [stopInterface, hptr, hconn, hfree, Plugin.stopInterface, Client.disconnect]
    | true =>
      have hwait : s.stopInterface.joining = true := by simp [stopInterface, hptr, hconn]
      cases threadJoined with
      | true =>
        have hcan := hjoin rfl hwait
        simp [hwait, join, hcan, Plugin.stopInterface, Client.disconnect, hconn]
      | false =>
        simp [hwait, join, Plugin.stopInterface, Client.disconnect, hconn]
        simp [stopInterface, hptr, hconn]

/-! ## What a step does -/

variable {s s' : ThreadedPlugin}

/-- The threads and the stored handle stay, and so does a client. -/
structure Keeps (s s' : ThreadedPlugin) : Prop where
  threads : s'.threads = s.threads
  handle : s'.mListenerThread = s.mListenerThread
  client : s.clientPtr ≠ none → s'.clientPtr ≠ none ∧ s'.number = s.number

theorem Keeps.refl (s : ThreadedPlugin) : s.Keeps s := ⟨rfl, rfl, fun h => ⟨h, rfl⟩⟩

/-- A gloox client is there for a new thread. -/
def IsSetUp (p : Plugin) : Prop :=
  ∃ c, p = some c ∧ c.mListener.mClient ≠ none ∧ 0 < c.mListener.clients.length

theorem IsSetUp.ne_none {p : Plugin} (h : IsSetUp p) : p ≠ none := by
  obtain ⟨c, rfl, -⟩ := h
  exact nofun

/-- Everything that a step makes of the plugin, up to the join that deletes the client. -/
inductive Outcome (s : ThreadedPlugin) : ThreadedPlugin → Prop
  | keeps {s' : ThreadedPlugin} (h : s.Keeps s') : Outcome s s'
  | spawns {s' : ThreadedPlugin} (h : s.Keeps s') (hset : IsSetUp s'.clientPtr) :
      Outcome s s'.spawn
  /-- A thread on the client in the pointer gets to another phase. -/
  | moves {i : Nat} {t : ListenerThread} (hi : s.threads[i]? = some t) (hlive : t.phase ≠ .finished)
      (hptr : s.clientPtr ≠ none) (hclient : t.client = s.number) (phase : ThreadPhase) :
      Outcome s (s.setPhase i phase)

/-- A `connect` that creates its thread has set up a gloox client. -/
theorem connect_isSetUp {c : Client} {user password server : String} {port : Int}
    {threadCreated : Bool} (h : (c.connect user password server port threadCreated).2 = true) :
    IsSetUp (some (c.connect user password server port threadCreated).1) := by
  refine ⟨_, rfl, ?_⟩
  unfold Client.connect at h ⊢
  by_cases hempty : user = "" ∨ server = ""
  · simp [hempty] at h
  · cases threadCreated with
    | false => simp [hempty] at h
    | true => simp [hempty, Listener.setup]

/-- So has a callback that starts a connection. -/
theorem step_isSetUp {c : Client} {a : Action} (h : startsConnection c a = true) :
    IsSetUp (some (c.step a)) := by
  unfold startsConnection at h
  split at h
  · rename_i g e attempt threadCreated
    rw [Bool.and_eq_true, decide_eq_true_eq] at h
    obtain ⟨hg, hstart⟩ := h
    rw [Client.step, if_pos hg]
    unfold Client.listenerOnDisconnect Client.onDisconnect at hstart ⊢
    simp only at hstart ⊢
    split at hstart
    · rename_i hregister
      rw [if_pos hregister]
      unfold Client.registerAndConnect at hstart ⊢
      simp only at hstart ⊢
      split at hstart
      · rename_i hsuccess
        rw [if_pos hsuccess]
        exact connect_isSetUp hstart
      · cases hstart
    · cases hstart
  · cases h

/-- A start keeps the client, and returns 0 for a client that is set up only. -/
theorem startInterface_result {p q : Plugin} {username password hostname : Option String}
    {allocated threadCreated : Bool} {ret : Int}
    (h : p.startInterface username password hostname allocated threadCreated = some (q, ret)) :
    (p ≠ none → q ≠ none) ∧ (ret = 0 → IsSetUp q) := by
  rcases startInterface_cases h with ⟨rfl, rfl⟩ | ⟨c, user, pass, host, hc, rfl, rfl⟩
  · exact ⟨id, nofun⟩
  · refine ⟨fun _ => nofun, fun hzero => ?_⟩
    apply connect_isSetUp
    by_contra hfail
    simp [hfail] at hzero

theorem started_outcome {clientPtr : Plugin} {ret : Int}
    (hkeep : s.clientPtr ≠ none → clientPtr ≠ none) (hret : ret = 0 → IsSetUp clientPtr) :
    Outcome s (s.started clientPtr ret) := by
  have hkeeps : s.Keeps { s with
      clientPtr := clientPtr
      number := if s.clientPtr.isNone && clientPtr.isSome then s.number + 1 else s.number } := by
    refine ⟨rfl, rfl, fun hptr => ⟨hkeep hptr, ?_⟩⟩
    have hsome : s.clientPtr.isNone = false := by
      rw [← Bool.not_eq_true, Option.isNone_iff_eq_none]
      exact hptr
    simp [hsome]
  unfold started
  by_cases hzero : ret = 0
  · simp only [hzero, if_true]
    exact .spawns hkeeps (hret hzero)
  · simp only [hzero, if_false]
    exact .keeps hkeeps

theorem start_outcome (s : ThreadedPlugin) (username password hostname : Option String)
    (allocated threadCreated : Bool) :
    Outcome s (s.start (s.clientPtr.startInterface username password hostname allocated
      threadCreated)) := by
  unfold start
  split
  · rename_i clientPtr ret hstart
    obtain ⟨hkeep, hret⟩ := startInterface_result hstart
    exact started_outcome hkeep hret
  · exact .keeps (.refl s)

theorem stopInterface_keeps (s : ThreadedPlugin) : s.Keeps s.stopInterface := by
  unfold stopInterface
  split
  · exact .refl s
  · split
    · exact ⟨rfl, rfl, fun _ => ⟨nofun, rfl⟩⟩
    · exact .refl s

/-- A thread moves from the phases of `openConnection` only. -/
theorem stepThread_outcome {c : Client} (hc : s.clientPtr = some c) {i : Nat} {t : ListenerThread}
    (hi : s.threads[i]? = some t) (hclient : t.client = s.number) (st : ThreadStep) :
    Outcome s (s.stepThread c i t.phase st) := by
  have hptr : s.clientPtr ≠ none := by simp [hc]
  have hkeep : Outcome s s := .keeps (.refl s)
  have hmove : t.phase ≠ .finished → ∀ phase, Outcome s (s.setPhase i phase) :=
    fun hlive phase => .moves hi hlive hptr hclient phase
  cases st with
  | check =>
    simp only [stepThread]
    split
    · rename_i hphase
      split
      · exact hmove (by simp [hphase]) _
      · exact hmove (by simp [hphase]) _
    · exact hkeep
  | connected ok =>
    simp only [stepThread]
    split
    · rename_i hphase
      exact hmove (by simp [hphase]) _
    · exact hkeep
  | recv ce =>
    simp only [stepThread]
    split
    · rename_i hphase
      split
      · exact hkeep
      · exact hmove (by simp [hphase]) _
    · exact hkeep
  | callback a =>
    have hcall : s.Keeps { s with clientPtr := some (c.step a) } :=
      ⟨rfl, rfl, fun _ => ⟨nofun, rfl⟩⟩
    simp only [stepThread]
    split
    · split
      · rename_i hstart
        exact .spawns hcall (step_isSetUp hstart)
      · exact .keeps hcall
    · exact hkeep

/-- The join that finds its thread finished deletes the client. -/
theorem step_join (hcan : s.canJoin = true) : s.step (.join true) =
    { s with clientPtr := none, mListenerThread := none, joining := false } := by
  have hjoining : s.joining = true := by
    unfold canJoin at hcan
    rw [Bool.and_eq_true] at hcan
    exact hcan.1
  simp [step, join, hjoining, hcan]

theorem step_outcome (s : ThreadedPlugin) (a : ThreadedAction)
    (hjoin : a = .join true → s.canJoin ≠ true) : Outcome s (s.step a) := by
  have hkeep : Outcome s s := .keeps (.refl s)
  cases a with
  | startInterface username password hostname threadCreated =>
    simp only [step]
    split
    · exact hkeep
    · exact start_outcome s _ _ _ _ _
  | startClientInterface udid hostname threadCreated =>
    simp only [step, startClientInterface_eq]
    split
    · exact hkeep
    · exact start_outcome s _ _ _ _ _
  | stopInterface =>
    simp only [step]
    split
    · exact hkeep
    · exact .keeps s.stopInterface_keeps
  | join threadJoined =>
    simp only [step, join]
    split
    · split
      · rename_i htrue
        rw [if_neg (hjoin (htrue ▸ rfl))]
        exact hkeep
      · exact .keeps ⟨rfl, rfl, fun hptr => ⟨hptr, rfl⟩⟩
    · exact hkeep
  | thread i t =>
    simp only [step]
    split
    · rename_i thread c hi hc
      split
      · rename_i hclient
        exact stepThread_outcome hc hi hclient t
      · exact hkeep
    · exact hkeep

/-! ## Threads on the client in the pointer -/

/-- A thread that has not finished works on the client in the pointer. -/
def NoThreadDangles (s : ThreadedPlugin) : Prop :=
  ∀ (i : Nat) (t : ListenerThread), s.threads[i]? = some t → t.phase ≠ .finished →
    s.clientPtr ≠ none ∧ t.client = s.number

theorem NoThreadDangles.keeps (h : s.NoThreadDangles) (hkeeps : s.Keeps s') :
    s'.NoThreadDangles := by
  intro i t hi hlive
  rw [hkeeps.threads] at hi
  obtain ⟨hptr, hclient⟩ := h i t hi hlive
  obtain ⟨hptr', hnumber⟩ := hkeeps.client hptr
  exact ⟨hptr', hnumber ▸ hclient⟩

theorem NoThreadDangles.spawn (h : s.NoThreadDangles) (hptr : s.clientPtr ≠ none) :
    s.spawn.NoThreadDangles := by
  intro i t hi hlive
  simp only [ThreadedPlugin.spawn, List.getElem?_append] at hi
  split at hi
  · exact h i t hi hlive
  · have ht : t = { client := s.number } := by
      have hmem := List.mem_of_getElem? hi
      simpa using hmem
    exact ⟨hptr, by rw [ht]; rfl⟩

theorem NoThreadDangles.setPhase (h : s.NoThreadDangles) {i : Nat} {t : ListenerThread}
    (hi : s.threads[i]? = some t) (hptr : s.clientPtr ≠ none) (hclient : t.client = s.number)
    (phase : ThreadPhase) : (s.setPhase i phase).NoThreadDangles := by
  intro j u hj hlive
  simp only [ThreadedPlugin.setPhase, List.getElem?_modify] at hj
  by_cases hij : i = j
  · subst hij
    simp only [hi, if_true] at hj
    cases hj
    exact ⟨hptr, hclient⟩
  · simp only [hij, if_false] at hj
    exact h j u (by simpa using hj) hlive

theorem NoThreadDangles.outcome (h : s.NoThreadDangles) (hs : Outcome s s') :
    s'.NoThreadDangles := by
  cases hs with
  | keeps hkeeps => exact h.keeps hkeeps
  | spawns hkeeps hset => exact (h.keeps hkeeps).spawn hset.ne_none
  | moves hi _ hptr hclient phase => exact h.setPhase hi hptr hclient phase

/-! ## Joins -/

/-- The condition on a join: the threads of the client whose handle was overwritten have
finished. -/
def OverwrittenFinished (s : ThreadedPlugin) (a : ThreadedAction) : Prop :=
  a = .join true → s.canJoin = true → ∀ (i : Nat) (t : ListenerThread), s.threads[i]? = some t →
    t.client = s.number → s.mListenerThread ≠ some i → t.phase = .finished

theorem canJoin_finished (h : s.canJoin = true) {i : Nat} {t : ListenerThread}
    (hi : s.threads[i]? = some t) (hhandle : s.mListenerThread = some i) : t.phase = .finished := by
  simp only [canJoin, hhandle, Option.bind_some, hi, Option.any_some, Bool.and_eq_true,
    decide_eq_true_eq] at h
  exact h.2

/-- A join that deletes the client leaves no thread on it exactly where it meets its condition. -/
theorem join_noThreadDangles (h : s.NoThreadDangles) (hcan : s.canJoin = true) :
    (s.step (.join true)).NoThreadDangles ↔ OverwrittenFinished s (.join true) := by
  rw [step_join hcan]
  constructor
  · intro hafter _ _ i t hi _ _
    by_contra hlive
    exact (hafter i t hi hlive).1 rfl
  · intro hcond i t hi hlive
    exfalso
    apply hlive
    by_cases hhandle : s.mListenerThread = some i
    · exact canJoin_finished hcan hi hhandle
    · exact hcond rfl hcan i t hi (h i t hi hlive).2 hhandle

theorem step_noThreadDangles (s : ThreadedPlugin) (a : ThreadedAction) (h : s.NoThreadDangles) :
    (s.step a).NoThreadDangles ↔ OverwrittenFinished s a := by
  by_cases hjoin : a = .join true ∧ s.canJoin = true
  · obtain ⟨rfl, hcan⟩ := hjoin
    exact join_noThreadDangles h hcan
  · have hother : a = .join true → s.canJoin ≠ true := fun ha hcan => hjoin ⟨ha, hcan⟩
    apply iff_of_true (h.outcome (step_outcome s a hother))
    intro ha hcan
    exact absurd hcan (hother ha)

/-- No thread works on a deleted client exactly where every join meets its condition. -/
theorem run_noThreadDangles (as : List ThreadedAction) :
    Always step NoThreadDangles {} as ↔ EachStep step OverwrittenFinished {} as :=
  always_iff_eachStep (I := fun _ => True) (fun _ _ _ => trivial)
    (fun s a _ h => step_noThreadDangles s a h) trivial (by simp [NoThreadDangles])

/-! ## One thread at a time -/

/-- A step that creates a thread finds the earlier threads finished. The connection that a callback
makes never does, as the callback runs on a thread. -/
def CreatesAlone (s : ThreadedPlugin) (a : ThreadedAction) : Prop :=
  s.threads.length < (s.step a).threads.length →
    ∀ (i : Nat) (t : ListenerThread), s.threads[i]? = some t → t.phase = .finished

/-- The only thread that has not finished is that of the stored handle. -/
def OneThread (s : ThreadedPlugin) : Prop :=
  ∀ (i : Nat) (t : ListenerThread), s.threads[i]? = some t → t.phase ≠ .finished →
    s.mListenerThread = some i

theorem keeps_oneThread (h : s.OneThread) (hkeeps : s.Keeps s') : s'.OneThread := by
  intro i t hi hlive
  rw [hkeeps.threads] at hi
  rw [hkeeps.handle]
  exact h i t hi hlive

theorem spawn_oneThread
    (hall : ∀ (i : Nat) (t : ListenerThread), s.threads[i]? = some t → t.phase = .finished) :
    s.spawn.OneThread := by
  intro i t hi hlive
  simp only [spawn, List.getElem?_append] at hi
  split at hi
  · exact absurd (hall i t hi) hlive
  · rename_i hlen
    have hlast : i - s.threads.length < 1 := (List.getElem?_eq_some_iff.mp hi).1
    have hi' : i = s.threads.length := by omega
    rw [hi']
    rfl

theorem setPhase_oneThread (h : s.OneThread) {i : Nat} {t : ListenerThread}
    (hi : s.threads[i]? = some t) (hlive : t.phase ≠ .finished) (phase : ThreadPhase) :
    (s.setPhase i phase).OneThread := by
  intro j u hj hu
  by_cases hij : i = j
  · exact hij ▸ h i t hi hlive
  · simp only [setPhase, List.getElem?_modify, hij, if_false] at hj
    exact h j u (by simpa using hj) hu

theorem join_oneThread (h : s.OneThread) (hcan : s.canJoin = true) :
    (s.step (.join true)).OneThread := by
  rw [step_join hcan]
  intro i t hi hlive
  exact absurd (canJoin_finished hcan hi (h i t hi hlive)) hlive

theorem step_oneThread (s : ThreadedPlugin) (a : ThreadedAction) (h : s.OneThread)
    (hc : CreatesAlone s a) : (s.step a).OneThread := by
  by_cases hjoin : a = .join true ∧ s.canJoin = true
  · obtain ⟨rfl, hcan⟩ := hjoin
    exact join_oneThread h hcan
  · have hs := step_outcome s a fun ha hcan => hjoin ⟨ha, hcan⟩
    unfold CreatesAlone at hc
    generalize s.step a = s' at hc hs
    cases hs with
    | keeps hkeeps => exact keeps_oneThread h hkeeps
    | @spawns s' hkeeps hset =>
      apply spawn_oneThread
      rw [hkeeps.threads]
      exact hc (by simp [spawn, hkeeps.threads])
    | moves hi hlive _ _ phase => exact setPhase_oneThread h hi hlive phase

/-- A run that makes each thread alone meets the condition on its joins. -/
theorem overwrittenFinished_of_createsAlone {as : List ThreadedAction}
    (h : EachStep step CreatesAlone {} as) : EachStep step OverwrittenFinished {} as := by
  intro bs a hbs _ _ i t hi _ hother
  have hone : (run step {} bs).OneThread :=
    run_inv_of_eachStep step_oneThread (by simp [OneThread])
      (h.of_prefix ((List.prefix_append bs [a]).trans hbs))
  by_contra hlive
  exact hother (hone i t hi hlive)

/-! ## A thread that is not made alone -/

/-- Every thread but `k` is as it was. -/
def SameBut (k : Nat) (s s' : ThreadedPlugin) : Prop :=
  s'.threads.length = s.threads.length ∧ ∀ i, i ≠ k → s'.threads[i]? = s.threads[i]?

theorem setPhase_sameBut (s : ThreadedPlugin) (k : Nat) (phase : ThreadPhase) :
    SameBut k s (s.setPhase k phase) := by
  refine ⟨by simp [setPhase], fun i hik => ?_⟩
  simp [setPhase, Ne.symm hik]

theorem createsAlone_of_length {a : ThreadedAction}
    (h : (s.step a).threads.length = s.threads.length) : CreatesAlone s a := by
  intro hlt
  omega

/-- The stored handle is that of a thread on the client `c`, in the phase `phase`. -/
structure Latest (s : ThreadedPlugin) (k : Nat) (c : Client) (phase : ThreadPhase) : Prop where
  client : s.clientPtr = some c
  thread : s.threads[k]? = some { client := s.number, phase := phase }
  handle : s.mListenerThread = some k

theorem Latest.setPhase {k : Nat} {c : Client} {phase : ThreadPhase} (h : s.Latest k c phase)
    (next : ThreadPhase) : (s.setPhase k next).Latest k c next :=
  ⟨h.client, by simp [ThreadedPlugin.setPhase, h.thread], h.handle⟩

theorem Latest.step {k : Nat} {c : Client} {phase : ThreadPhase} (h : s.Latest k c phase)
    (t : ThreadStep) : s.step (.thread k t) = s.stepThread c k phase t := by
  simp [ThreadedPlugin.step, h.thread, h.client]

/-- A new thread on a client that is set up connects, and its session ends at once. -/
def endsAtOnce (k : Nat) : List ThreadedAction :=
  [.thread k .check, .thread k (.callback (.onConnect 0)), .thread k (.connected false)]

/-- That leaves the client connected, and creates no thread. -/
theorem latest_endsAtOnce {k : Nat} {c : Client} (h : s.Latest k c .created)
    (hset : IsSetUp (some c)) : EachStep step CreatesAlone s (endsAtOnce k) ∧
      SameBut k s (run step s (endsAtOnce k)) ∧
      ∃ c', c'.mListener.mIsConnected = true ∧
        (run step s (endsAtOnce k)).Latest k c' .finished := by
  obtain ⟨c', heq, hclient, hlength⟩ := hset
  obtain rfl : c = c' := Option.some.inj heq
  unfold endsAtOnce
  simp only [run_cons, run_nil, eachStep_cons]
  by_cases hconn : c.mListener.mIsConnected = true
  · -- the thread finds the client connected, and ends at its first check
    have hcheck : s.step (.thread k .check) = s.setPhase k .finished := by
      rw [h.step]
      simp [stepThread, hconn]
    have hfin := h.setPhase .finished
    have hcall : (s.setPhase k .finished).step (.thread k (.callback (.onConnect 0))) =
        s.setPhase k .finished := by
      rw [hfin.step]
      simp [stepThread]
    have hlast : (s.setPhase k .finished).step (.thread k (.connected false)) =
        s.setPhase k .finished := by
      rw [hfin.step]
      simp [stepThread]
    rw [hcheck, hcall, hlast]
    refine ⟨⟨createsAlone_of_length ?_, createsAlone_of_length ?_, createsAlone_of_length ?_,
      eachStep_nil⟩, setPhase_sameBut s k _, c, hconn, hfin⟩
    · rw [hcheck]
      exact (setPhase_sameBut s k _).1
    · rw [hcall]
    · rw [hlast]
  · have hcheck : s.step (.thread k .check) = s.setPhase k .connecting := by
      rw [h.step]
      simp [stepThread, hconn, hclient]
    have hnext := h.setPhase .connecting
    let c' : Client := c.step (.onConnect 0)
    let s' : ThreadedPlugin := { s.setPhase k .connecting with clientPtr := some c' }
    have hcall : (s.setPhase k .connecting).step (.thread k (.callback (.onConnect 0))) = s' := by
      rw [hnext.step]
      simp [stepThread, Action.isCallback, startsConnection, s', c']
    have hopen : s'.Latest k c' .connecting := ⟨rfl, hnext.thread, hnext.handle⟩
    have hlast : s'.step (.thread k (.connected false)) = s'.setPhase k .finished := by
      rw [hopen.step]
      simp [stepThread]
    have hconn' : c'.mListener.mIsConnected = true := by
      simp only [c', Client.step, hlength, if_true, Client.listenerOnConnect, Client.onConnect,
        Client.fire_mListener]
      rfl
    have hfirst := setPhase_sameBut s k .connecting
    have hsecond := setPhase_sameBut s' k .finished
    rw [hcheck, hcall, hlast]
    refine ⟨⟨createsAlone_of_length ?_, createsAlone_of_length ?_, createsAlone_of_length ?_,
      eachStep_nil⟩, ⟨hsecond.1.trans hfirst.1, fun i hik => ?_⟩, c', hconn', hopen.setPhase _⟩
    · rw [hcheck]
      exact hfirst.1
    · rw [hcall]
    · rw [hlast]
      exact hsecond.1
    · rw [hsecond.2 i hik]
      exact hfirst.2 i hik

/-- `stopInterface` on a connected client whose last thread has finished deletes the client, the
other threads notwithstanding. -/
theorem latest_stop {k : Nat} {c : Client} (h : s.Latest k c .finished)
    (hconn : c.mListener.mIsConnected = true) :
    EachStep step CreatesAlone s [.stopInterface, .join true] ∧
      (run step s [.stopInterface, .join true]).threads = s.threads ∧
      (run step s [.stopInterface, .join true]).clientPtr = none := by
  -- while the application waits already, its call of `stopInterface` is none
  have hwait : ∃ c', (s.step .stopInterface).Latest k c' .finished ∧
      (s.step .stopInterface).joining = true ∧ (s.step .stopInterface).threads = s.threads := by
    by_cases hjoining : s.joining = true
    · have hstay : s.step .stopInterface = s := by simp [step, hjoining]
      rw [hstay]
      exact ⟨c, h, hjoining, rfl⟩
    · have hstop : s.step .stopInterface = { s with
          clientPtr := some { c with mInitialConnection := false }.closeConnection
          joining := true } := by
        simp [step, hjoining, stopInterface, h.client, hconn]
      rw [hstop]
      exact ⟨_, ⟨rfl, h.thread, h.handle⟩, rfl, rfl⟩
  obtain ⟨c', hlatest, hjoining, hthreads⟩ := hwait
  have hcan : (s.step .stopInterface).canJoin = true := by
    simp [canJoin, hjoining, hlatest.handle, hlatest.thread]
  simp only [run_cons, run_nil, eachStep_cons]
  have hjoin := step_join hcan
  refine ⟨⟨createsAlone_of_length (by rw [hthreads]), createsAlone_of_length (by rw [hjoin]),
    eachStep_nil⟩, ?_, ?_⟩
  · rw [hjoin]
    exact hthreads
  · rw [hjoin]

/-- A step that creates a thread makes it the latest one, on a client that is set up. -/
theorem step_latest {a : ThreadedAction} (h : s.threads.length < (s.step a).threads.length) :
    ∃ c, (s.step a).Latest s.threads.length c .created ∧ IsSetUp (some c) ∧
      ∀ i, i < s.threads.length → (s.step a).threads[i]? = s.threads[i]? := by
  have hs : Outcome s (s.step a) := by
    apply step_outcome
    rintro rfl hcan
    rw [step_join hcan] at h
    exact absurd h (lt_irrefl _)
  generalize s.step a = s' at h hs
  cases hs with
  | keeps hkeeps =>
    rw [hkeeps.threads] at h
    exact absurd h (lt_irrefl _)
  | @spawns s' hkeeps hset =>
    obtain ⟨c, hptr, hclient⟩ := hset
    refine ⟨c, ⟨hptr, ?_, ?_⟩, ⟨c, rfl, hclient⟩, fun i hi => ?_⟩
    · simp [spawn, hkeeps.threads]
    · simp [spawn, hkeeps.threads]
    · simp [spawn, hkeeps.threads, List.getElem?_append, hi]
  | moves hi hlive hptr hclient phase =>
    simp [setPhase] at h

/-! ## The law -/

/-- No thread works on a deleted client in a run where each thread is made alone. Where a step
makes one beside a thread that has not finished, the run can be continued, without another such
step, to the deletion of the client under that thread. -/
theorem no_thread_dangles_when_made_alone (as : List ThreadedAction) :
    (EachStep step CreatesAlone {} as → Always step NoThreadDangles {} as) ∧
    ∀ a, ¬ CreatesAlone (run step {} as) a →
      ∃ bs, EachStep step CreatesAlone (run step {} (as ++ [a])) bs ∧
        ¬ NoThreadDangles (run step {} (as ++ a :: bs)) := by
  constructor
  · intro h
    exact (run_noThreadDangles as).mpr (overwrittenFinished_of_createsAlone h)
  · intro a h
    simp only [CreatesAlone, not_forall] at h
    obtain ⟨hcreates, i, t, hi, hlive⟩ := h
    simp only [run_append, run_cons, run_nil]
    generalize run step {} as = s at hcreates hi
    obtain ⟨c, hlatest, hset, hothers⟩ := step_latest hcreates
    obtain ⟨hends, ⟨-, hsame⟩, c', hconn, hfinished⟩ := latest_endsAtOnce hlatest hset
    obtain ⟨hstop, hthreads, hdeleted⟩ := latest_stop hfinished hconn
    have hlt : i < s.threads.length := (List.getElem?_eq_some_iff.mp hi).1
    refine ⟨endsAtOnce s.threads.length ++ [.stopInterface, .join true], ?_, fun hnone => ?_⟩
    · exact eachStep_append.mpr ⟨hends, hstop⟩
    · rw [run_append] at hnone
      refine (hnone i t ?_ hlive).1 hdeleted
      rw [hthreads, hsame i hlt.ne, hothers i hlt, hi]

/-- The docent starts again after its first connection failed. -/
theorem a_start_after_a_failed_one_leaves_no_thread :
    Always step NoThreadDangles {}
      [.startInterface (some "docent") (some "docent") (some "host") true, .thread 0 .check,
        .thread 0 (.connected false),
        .startInterface (some "docent") (some "docent") (some "host") true] := by
  apply (no_thread_dangles_when_made_alone _).1
  simp only [eachStep_cons, eachStep_nil, and_true]
  refine ⟨fun _ i t hi => ?_, createsAlone_of_length rfl, createsAlone_of_length rfl,
    fun _ i t hi => ?_⟩
  · simp at hi
  · have ht := List.mem_of_getElem? hi
    exact (List.mem_singleton.mp ht) ▸ rfl

/-- The docent starts again while its first connection is still being made: `stopInterface` joins
the second thread, and the first one is left on the deleted client. -/
theorem a_second_start_leaves_a_thread :
    ¬ Always step NoThreadDangles {}
      [.startInterface (some "docent") (some "docent") (some "host") true, .thread 0 .check,
        .stopInterface, .startInterface (some "docent") (some "docent") (some "host") true,
        .thread 1 .check, .thread 1 (.connected true), .thread 1 (.callback (.onConnect 1)),
        .stopInterface, .thread 1 (.recv .connUserDisconnected), .join true] := by
  intro h
  have hend := h _ (List.prefix_refl _) 0 ⟨1, .connecting⟩ (by decide) (by decide)
  exact hend.1 (by rfl)

end ThreadedPlugin

end esc_platform.xmpp
