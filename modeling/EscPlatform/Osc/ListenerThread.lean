-- The two threads of an `OscListener`: the application in `setup` and
-- `shutdown`, and the receiving thread in `Run`. They share the flag `break_`,
-- the pipe behind `select` and the flag `mSocketHasShutdown`.
import EscPlatform.Lib.Runs

namespace esc_platform.osc

open runs

/-! ## The threads -/

/-- Where the application's thread stands. `again` tells that `setup` called `shutdown` and goes
on behind it. -/
inductive Application
  | ready
  /-- In `AsynchronousBreak`, before `break_ = true`. -/
  | breaking (again : Bool)
  /-- Before the `write` to the pipe. -/
  | writing (again : Bool)
  /-- In the loop on `mSocketHasShutdown`. -/
  | waiting (again : Bool)
  /-- In `mThread->join()`. -/
  | joining (again : Bool)
  deriving DecidableEq, Repr

/-- Where the receiving thread stands in `threadSocket`. -/
inductive Receiver
  | absent
  /-- Before `break_ = false`. -/
  | created
  /-- At `while( !break_ )`. -/
  | testing
  | selecting
  /-- Behind `select`, with what it found readable. -/
  | selected (pipe socket : Bool)
  /-- At `if( break_ )`. -/
  | checking (socket : Bool)
  | processing
  /-- `Run` has returned. -/
  | left
  | finished
  deriving DecidableEq, Repr

structure ListenerThreads where
  /-- `mListen_socket` is not NULL. -/
  mListen_socket : Bool := false
  mSocketHasShutdown : Bool := false
  break_ : Bool := false
  /-- The number of bytes in the pipe. -/
  breakPipe_ : Nat := 0
  application : Application := .ready
  receiver : Receiver := .absent
  deriving DecidableEq, Repr

inductive ThreadAction
  | setup (fresh : Bool)
  | shutdown
  /-- The next step of the call that the application is in. -/
  | application (fresh : Bool)
  | receiver (socketReadable : Bool)
  deriving DecidableEq, Repr

namespace ListenerThreads

/-- The end of `setup`: a new socket, whose constructor leaves `break_` as the memory is, and a
new thread. -/
def start (s : ListenerThreads) (fresh : Bool) : ListenerThreads :=
  { s with
    mListen_socket := true
    mSocketHasShutdown := false
    break_ := fresh
    breakPipe_ := 0
    application := .ready
    receiver := .created }

def setup (s : ListenerThreads) (fresh : Bool) : ListenerThreads :=
  if s.mListen_socket then { s with application := .breaking true } else s.start fresh

def shutdown (s : ListenerThreads) : ListenerThreads :=
  if s.mListen_socket then { s with application := .breaking false } else s

/-- The end of `shutdown`, behind `join`. The destructor closes the pipe. -/
def deleteSocket (s : ListenerThreads) : ListenerThreads :=
  { s with mListen_socket := false, breakPipe_ := 0, application := .ready, receiver := .absent }

def stepApplication (s : ListenerThreads) (fresh : Bool) : ListenerThreads :=
  match s.application with
  | .ready => s
  | .breaking again => { s with break_ := true, application := .writing again }
  | .writing again => { s with breakPipe_ := s.breakPipe_ + 1, application := .waiting again }
  | .waiting again => if s.mSocketHasShutdown then { s with application := .joining again } else s
  | .joining again =>
    if s.receiver = .finished then
      if again then s.deleteSocket.start fresh else s.deleteSocket
    else s

def stepReceiver (s : ListenerThreads) (socketReadable : Bool) : ListenerThreads :=
  match s.receiver with
  | .absent => s
  | .created => { s with break_ := false, receiver := .testing }
  | .testing => { s with receiver := if s.break_ then .left else .selecting }
  | .selecting =>
    if 0 < s.breakPipe_ ∨ socketReadable then
      { s with receiver := .selected (decide (0 < s.breakPipe_)) socketReadable }
    else s
  | .selected pipe socket =>
    { s with
      breakPipe_ := if pipe then s.breakPipe_ - 1 else s.breakPipe_
      receiver := .checking socket }
  | .checking socket =>
    { s with receiver := if s.break_ then .left else if socket then .processing else .testing }
  -- the `break` behind `ProcessPacket` leaves the loop over the sockets only
  | .processing => { s with receiver := .testing }
  | .left => { s with mSocketHasShutdown := true, receiver := .finished }
  | .finished => s

/-- One atomic step of one of the threads. A step of a blocked thread changes nothing. -/
def step (s : ListenerThreads) : ThreadAction → ListenerThreads
  | .setup fresh => if s.application = .ready then s.setup fresh else s
  | .shutdown => if s.application = .ready then s.shutdown else s
  | .application fresh => s.stepApplication fresh
  | .receiver socketReadable => s.stepReceiver socketReadable

end ListenerThreads

/-! ## Stop requests -/

/-- `AsynchronousBreak` has set `break_`, and `shutdown` has not returned. -/
def Application.stopRequested : Application → Bool
  | .ready | .breaking _ => false
  | .writing _ | .waiting _ | .joining _ => true

/-- `AsynchronousBreak` has returned, and `shutdown` has not. -/
def Application.byteWritten : Application → Bool
  | .ready | .breaking _ | .writing _ => false
  | .waiting _ | .joining _ => true

theorem Application.stopRequested_of_byteWritten {a : Application} (h : a.byteWritten = true) :
    a.stopRequested = true := by
  cases a with
  | ready => cases h
  | breaking again => cases h
  | writing again => rfl
  | waiting again => rfl
  | joining again => rfl

/-- Between `break_ = false` and the way out of the loop of `Run`. -/
def Receiver.inLoop : Receiver → Bool
  | .testing | .selecting | .selected _ _ | .checking _ | .processing => true
  | .absent | .created | .left | .finished => false

namespace ListenerThreads

/-- A stop is requested, and nothing is left of it where the receiving thread looks. -/
def StopIsLost (s : ListenerThreads) : Prop :=
  s.application.stopRequested = true ∧ s.receiver.inLoop = true ∧ s.break_ = false ∧
    s.breakPipe_ = 0

/-- The application sets `break_` only on a thread that is past its `break_ = false`. -/
def BreaksABegunThread (s : ListenerThreads) (a : ThreadAction) : Prop :=
  ∀ again fresh, s.application = .breaking again → a = .application fresh → s.receiver ≠ .created

/-! ## What every step keeps -/

structure Sound (s : ListenerThreads) : Prop where
  socket : s.application ≠ .ready → s.mListen_socket = true
  thread : s.mListen_socket = true → s.receiver ≠ .absent
  empty : s.application.byteWritten = false → s.breakPipe_ = 0
  finished : s.mSocketHasShutdown = true → s.receiver = .absent ∨ s.receiver = .finished

theorem setup_sound {s : ListenerThreads} (fresh : Bool) (h : s.Sound)
    (hready : s.application = .ready) : (s.setup fresh).Sound := by
  have hpipe := h.empty (by rw [hready]; rfl)
  unfold setup
  split
  · rename_i hsocket
    exact ⟨fun _ => hsocket, h.thread, fun _ => hpipe, h.finished⟩
  · exact ⟨fun _ => rfl, nofun, fun _ => rfl, nofun⟩

theorem shutdown_sound {s : ListenerThreads} (h : s.Sound) (hready : s.application = .ready) :
    s.shutdown.Sound := by
  have hpipe := h.empty (by rw [hready]; rfl)
  unfold shutdown
  split
  · rename_i hsocket
    exact ⟨fun _ => hsocket, h.thread, fun _ => hpipe, h.finished⟩
  · exact h

theorem stepApplication_sound {s : ListenerThreads} (fresh : Bool) (h : s.Sound) :
    (s.stepApplication fresh).Sound := by
  unfold stepApplication
  split
  · exact h
  · rename_i hpc
    have hsocket := h.socket (by simp [hpc])
    exact ⟨fun _ => hsocket, h.thread, fun _ => h.empty (by rw [hpc]; rfl), h.finished⟩
  · rename_i hpc
    have hsocket := h.socket (by simp [hpc])
    exact ⟨fun _ => hsocket, h.thread, nofun, h.finished⟩
  · rename_i hpc
    have hsocket := h.socket (by simp [hpc])
    split
    · exact ⟨fun _ => hsocket, h.thread, nofun, h.finished⟩
    · exact h
  · split
    · split
      · exact ⟨fun _ => rfl, nofun, fun _ => rfl, nofun⟩
      · exact ⟨fun hnot => absurd rfl hnot, nofun, fun _ => rfl, fun _ => .inl rfl⟩
    · exact h

/-- A thread that goes on from `r` to `r'` without raising `mSocketHasShutdown`. -/
theorem Sound.moveReceiver {s : ListenerThreads} (h : s.Sound) (hr : s.receiver ≠ .finished)
    (habsent : s.receiver ≠ .absent) (break_ : Bool) {pipe : Nat} (hpipe : pipe ≤ s.breakPipe_)
    {r : Receiver} (hr' : r ≠ .absent) :
    Sound { s with break_ := break_, breakPipe_ := pipe, receiver := r } := by
  have hflag : s.mSocketHasShutdown = false := by
    rw [← Bool.not_eq_true]
    intro hshut
    rcases h.finished hshut with h' | h'
    · exact habsent h'
    · exact hr h'
  exact {
    socket := h.socket
    thread := fun _ => hr'
    empty := fun hnot => Nat.le_zero.mp (h.empty hnot ▸ hpipe)
    finished := by simp [hflag] }

theorem stepReceiver_sound {s : ListenerThreads} (socketReadable : Bool) (h : s.Sound) :
    (s.stepReceiver socketReadable).Sound := by
  unfold stepReceiver
  split
  · exact h
  · rename_i hpc
    exact h.moveReceiver (by simp [hpc]) (by simp [hpc]) _ (Nat.le_refl _) nofun
  · rename_i hpc
    exact h.moveReceiver (by simp [hpc]) (by simp [hpc]) _ (Nat.le_refl _) (by split <;> nofun)
  · rename_i hpc
    split
    · exact h.moveReceiver (by simp [hpc]) (by simp [hpc]) _ (Nat.le_refl _) nofun
    · exact h
  · rename_i hpc
    exact h.moveReceiver (by simp [hpc]) (by simp [hpc]) _ (by split <;> omega) nofun
  · rename_i hpc
    apply h.moveReceiver (by simp [hpc]) (by simp [hpc]) _ (Nat.le_refl _)
    split
    · nofun
    · split <;> nofun
  · rename_i hpc
    exact h.moveReceiver (by simp [hpc]) (by simp [hpc]) _ (Nat.le_refl _) nofun
  · exact ⟨h.socket, fun _ => nofun, h.empty, fun _ => .inr rfl⟩
  · exact h

theorem step_sound (s : ListenerThreads) (a : ThreadAction) (h : s.Sound) : (s.step a).Sound := by
  cases a with
  | setup fresh =>
    simp only [step]
    split
    · rename_i hready
      exact setup_sound fresh h hready
    · exact h
  | shutdown =>
    simp only [step]
    split
    · rename_i hready
      exact shutdown_sound h hready
    · exact h
  | application fresh => exact stepApplication_sound fresh h
  | receiver socketReadable => exact stepReceiver_sound socketReadable h

theorem run_sound (as : List ThreadAction) : (run step {} as).Sound :=
  run_inv step_sound ⟨fun h => absurd rfl h, nofun, fun _ => rfl, nofun⟩

/-! ## What a step on a begun thread keeps -/

/-- A requested stop stands in `break_`, and its byte is in the pipe until the thread is about to
look at `break_`. -/
structure StopIsSeen (s : ListenerThreads) : Prop where
  begun : s.application.stopRequested = true → s.receiver ≠ .created
  seen : s.application.stopRequested = true → s.break_ = true
  byte : s.application.byteWritten = true → s.receiver.inLoop = true →
    0 < s.breakPipe_ ∨ ∃ socket, s.receiver = .checking socket

theorem stopIsSeen_of_not_requested {s : ListenerThreads}
    (h : s.application.stopRequested = false) : s.StopIsSeen := by
  have hbyte : s.application.byteWritten ≠ true := by
    intro hwritten
    rw [Application.stopRequested_of_byteWritten hwritten] at h
    cases h
  exact ⟨by simp [h], by simp [h], by simp [hbyte]⟩

theorem stepApplication_seen {s : ListenerThreads} (fresh : Bool) (h : s.StopIsSeen)
    (hc : s.BreaksABegunThread (.application fresh)) : (s.stepApplication fresh).StopIsSeen := by
  unfold stepApplication
  split
  · exact h
  · rename_i again hpc
    exact ⟨fun _ => hc again fresh hpc rfl, fun _ => rfl, nofun⟩
  · rename_i again hpc
    have hreq : s.application.stopRequested = true := by rw [hpc]; rfl
    exact ⟨fun _ => h.begun hreq, fun _ => h.seen hreq, fun _ _ => .inl (Nat.succ_pos _)⟩
  · rename_i again hpc
    have hreq : s.application.stopRequested = true := by rw [hpc]; rfl
    have hwritten : s.application.byteWritten = true := by rw [hpc]; rfl
    split
    · exact ⟨fun _ => h.begun hreq, fun _ => h.seen hreq, fun _ => h.byte hwritten⟩
    · exact h
  · split
    · split
      · exact stopIsSeen_of_not_requested rfl
      · exact stopIsSeen_of_not_requested rfl
    · exact h

@[simp] theorem stepReceiver_application (s : ListenerThreads) (socketReadable : Bool) :
    (s.stepReceiver socketReadable).application = s.application := by
  unfold stepReceiver
  split
  · rfl
  · rfl
  · rfl
  · split <;> rfl
  · rfl
  · rfl
  · rfl
  · rfl
  · rfl

/-- After the request the thread finds `break_` set, whatever it does. -/
theorem stepReceiver_seen {s : ListenerThreads} (socketReadable : Bool) (h : s.StopIsSeen) :
    (s.stepReceiver socketReadable).StopIsSeen := by
  cases hreq : s.application.stopRequested with
  | false => exact stopIsSeen_of_not_requested (by rw [stepReceiver_application, hreq])
  | true =>
    have hbegun := h.begun hreq
    have hseen := h.seen hreq
    unfold stepReceiver
    split
    · exact h
    · contradiction
    · refine ⟨fun _ => ?_, fun _ => hseen, fun _ => ?_⟩
      · simp [hseen]
      · simp [hseen, Receiver.inLoop]
    · rename_i hpc
      split
      · refine ⟨nofun, fun _ => hseen, fun hwritten _ => .inl ?_⟩
        have hbyte := h.byte hwritten (by rw [hpc]; rfl)
        simpa [hpc] using hbyte
      · exact h
    · exact ⟨nofun, fun _ => hseen, fun _ _ => .inr ⟨_, rfl⟩⟩
    · refine ⟨fun _ => ?_, fun _ => hseen, fun _ => ?_⟩
      · simp [hseen]
      · simp [hseen, Receiver.inLoop]
    · rename_i hpc
      refine ⟨nofun, fun _ => hseen, fun hwritten _ => .inl ?_⟩
      have hbyte := h.byte hwritten (by rw [hpc]; rfl)
      simpa [hpc] using hbyte
    · exact ⟨nofun, fun _ => hseen, nofun⟩
    · exact h

theorem step_seen {s : ListenerThreads} {a : ThreadAction} (h : s.StopIsSeen)
    (hc : s.BreaksABegunThread a) : (s.step a).StopIsSeen := by
  cases a with
  | setup fresh =>
    simp only [step]
    split
    · unfold setup
      split
      · exact stopIsSeen_of_not_requested rfl
      · exact stopIsSeen_of_not_requested rfl
    · exact h
  | shutdown =>
    simp only [step]
    split
    · unfold shutdown
      split
      · exact stopIsSeen_of_not_requested rfl
      · exact h
    · exact h
  | application fresh => exact stepApplication_seen fresh h hc
  | receiver socketReadable => exact stepReceiver_seen socketReadable h

theorem StopIsSeen.not_lost {s : ListenerThreads} (h : s.StopIsSeen) : ¬ s.StopIsLost := by
  rintro ⟨hreq, -, hbreak, -⟩
  rw [h.seen hreq] at hbreak
  cases hbreak

/-- A run whose stops all meet a begun thread keeps every stop in sight. -/
theorem run_seen {as : List ThreadAction} (h : EachStep step BreaksABegunThread {} as) :
    (run step {} as).StopIsSeen :=
  run_inv_of_eachStep (fun _ _ hs hc => step_seen hs hc) (stopIsSeen_of_not_requested rfl) h

/-! ## After a request -/

end ListenerThreads

/-- The steps that the thread still takes when it finds `break_` set. -/
def Receiver.stepsLeft : Receiver → Nat
  | .absent | .created | .finished => 0
  | .left => 1
  | .checking _ | .testing => 2
  | .selected _ _ | .processing => 3
  | .selecting => 4

theorem Receiver.stepsLeft_le (r : Receiver) : r.stepsLeft ≤ 4 := by
  cases r <;> simp [stepsLeft]

namespace ListenerThreads

/-- After a stop that is seen, no step of the thread blocks, and each brings it nearer to its
end. -/
theorem stepReceiver_stepsLeft {s : ListenerThreads} (socketReadable : Bool) (h : s.StopIsSeen)
    (hwritten : s.application.byteWritten = true) :
    (s.stepReceiver socketReadable).receiver.stepsLeft = s.receiver.stepsLeft - 1 := by
  have hreq := Application.stopRequested_of_byteWritten hwritten
  have hseen := h.seen hreq
  cases hpc : s.receiver with
  | absent => simp [stepReceiver, hpc, Receiver.stepsLeft]
  | created => exact absurd hpc (h.begun hreq)
  | testing => simp [stepReceiver, hpc, hseen, Receiver.stepsLeft]
  | selecting =>
    have hbyte : 0 < s.breakPipe_ := by
      have := h.byte hwritten (by rw [hpc]; rfl)
      simpa [hpc] using this
    simp [stepReceiver, hpc, hbyte, Receiver.stepsLeft]
  | selected pipe socket => simp [stepReceiver, hpc, Receiver.stepsLeft]
  | checking socket => simp [stepReceiver, hpc, hseen, Receiver.stepsLeft]
  | processing => simp [stepReceiver, hpc, Receiver.stepsLeft]
  | left => simp [stepReceiver, hpc, Receiver.stepsLeft]
  | finished => simp [stepReceiver, hpc, Receiver.stepsLeft]

theorem run_receiver {s : ListenerThreads} (h : s.StopIsSeen)
    (hwritten : s.application.byteWritten = true) (rs : List Bool) :
    (run step s (rs.map .receiver)).application = s.application ∧
      (run step s (rs.map .receiver)).StopIsSeen ∧
      (run step s (rs.map .receiver)).receiver.stepsLeft = s.receiver.stepsLeft - rs.length := by
  induction rs generalizing s with
  | nil => exact ⟨rfl, h, rfl⟩
  | cons r rs ih =>
    have hstep : s.step (.receiver r) = s.stepReceiver r := rfl
    have happ := stepReceiver_application s r
    obtain ⟨hrun, hseen, hleft⟩ := ih (stepReceiver_seen r h) (by rw [happ, hwritten])
    rw [stepReceiver_stepsLeft r h hwritten] at hleft
    simp only [List.map_cons, run_cons, hstep, List.length_cons]
    exact ⟨hrun.trans happ, hseen, by omega⟩

/-- A seen stop ends the receiving thread within four of its own steps. -/
theorem run_receiver_ends {as : List ThreadAction}
    (h : EachStep step BreaksABegunThread {} as)
    (hwritten : (run step {} as).application.byteWritten = true) (rs : List Bool)
    (hrs : 4 ≤ rs.length) :
    (run step {} (as ++ rs.map .receiver)).receiver = .finished := by
  have hseen := run_seen h
  obtain ⟨happ, hseen', hleft⟩ := run_receiver hseen hwritten rs
  have hsound := run_sound (as ++ rs.map .receiver)
  rw [run_append] at hsound ⊢
  generalize run step (run step {} as) (rs.map .receiver) = s at happ hseen' hleft hsound ⊢
  have hbusy : s.application.byteWritten = true := by rw [happ, hwritten]
  have hreq := Application.stopRequested_of_byteWritten hbusy
  have hpresent : s.receiver ≠ .absent := by
    apply hsound.thread
    apply hsound.socket
    intro hready
    rw [hready] at hbusy
    cases hbusy
  have hzero : s.receiver.stepsLeft = 0 := by
    have := (run step {} as).receiver.stepsLeft_le
    omega
  cases hpc : s.receiver with
  | absent => exact absurd hpc hpresent
  | created => exact absurd hpc (hseen'.begun hreq)
  | finished => rfl
  | _ => simp [hpc, Receiver.stepsLeft] at hzero

/-! ## A lost stop -/

/-- A thread in the loop stays there when it sees nothing of a stop. -/
theorem stepReceiver_unstopped {s : ListenerThreads} (socketReadable : Bool)
    (hin : s.receiver.inLoop = true) (hbreak : s.break_ = false) (hpipe : s.breakPipe_ = 0) :
    (s.stepReceiver socketReadable).receiver.inLoop = true ∧
      (s.stepReceiver socketReadable).break_ = false ∧
      (s.stepReceiver socketReadable).breakPipe_ = 0 ∧
      (s.stepReceiver socketReadable).mSocketHasShutdown = s.mSocketHasShutdown := by
  cases hpc : s.receiver with
  | absent => simp [hpc, Receiver.inLoop] at hin
  | created => simp [hpc, Receiver.inLoop] at hin
  | testing => simp [stepReceiver, hpc, hbreak, hpipe, Receiver.inLoop]
  | selecting =>
    cases socketReadable with
    | true => simp [stepReceiver, hpc, hbreak, hpipe, Receiver.inLoop]
    | false => simp [stepReceiver, hpc, hbreak, hpipe, Receiver.inLoop]
  | selected pipe socket => simp [stepReceiver, hpc, hbreak, hpipe, Receiver.inLoop]
  | checking socket =>
    cases socket with
    | true => simp [stepReceiver, hpc, hbreak, hpipe, Receiver.inLoop]
    | false => simp [stepReceiver, hpc, hbreak, hpipe, Receiver.inLoop]
  | processing => simp [stepReceiver, hpc, hbreak, hpipe, Receiver.inLoop]
  | left => simp [hpc, Receiver.inLoop] at hin
  | finished => simp [hpc, Receiver.inLoop] at hin

/-- `shutdown` waits for a thread that has lost the stop. -/
def WaitsInVain (s : ListenerThreads) : Prop :=
  s.StopIsLost ∧ (∃ again, s.application = .waiting again) ∧ s.mSocketHasShutdown = false

/-- A lost stop is lost for good: `shutdown` never returns. -/
theorem step_waitsInVain (s : ListenerThreads) (a : ThreadAction) (h : s.WaitsInVain) :
    (s.step a).WaitsInVain := by
  obtain ⟨⟨hreq, hin, hbreak, hpipe⟩, ⟨again, hwait⟩, hshut⟩ := h
  have hsame : s.WaitsInVain := ⟨⟨hreq, hin, hbreak, hpipe⟩, ⟨again, hwait⟩, hshut⟩
  cases a with
  | setup fresh => simpa [step, hwait] using hsame
  | shutdown => simpa [step, hwait] using hsame
  | application fresh => simpa [step, stepApplication, hwait, hshut] using hsame
  | receiver socketReadable =>
    obtain ⟨hin', hbreak', hpipe', hshut'⟩ := stepReceiver_unstopped socketReadable hin hbreak hpipe
    have happ := stepReceiver_application s socketReadable
    exact ⟨⟨by rwa [step, happ], hin', hbreak', hpipe'⟩, ⟨again, happ.trans hwait⟩,
      hshut'.trans hshut⟩

/-- A stop that overtakes the start of its thread can be lost: the thread resets `break_`, takes
the byte and goes on. -/
theorem overtaken_stop_is_lost {s : ListenerThreads} (h : s.Sound) {again : Bool}
    (hpc : s.application = .breaking again) (hr : s.receiver = .created) (fresh : Bool) :
    (run step s [.application fresh, .application fresh, .receiver false, .receiver false,
      .receiver false, .receiver false, .receiver false]).WaitsInVain := by
  have hpipe := h.empty (by rw [hpc]; rfl)
  have hshut : s.mSocketHasShutdown = false := by
    rw [← Bool.not_eq_true]
    intro hshut
    simpa [hr] using h.finished hshut
  simp [run, step, stepApplication, stepReceiver, hpc, hr, hpipe, WaitsInVain, StopIsLost, hshut,
    Application.stopRequested, Receiver.inLoop]

/-! ## The law -/

/-- No stop is lost in a run where the application sets `break_` only on threads that are past
their `break_ = false`, and a next step that does otherwise can lose its stop for good. -/
theorem no_stop_is_lost_on_a_begun_thread (as : List ThreadAction) :
    (EachStep step BreaksABegunThread {} as → Always step (¬ StopIsLost ·) {} as) ∧
    ∀ a, ¬ BreaksABegunThread (run step {} as) a →
      ∃ bs, ∀ cs, (run step {} (as ++ a :: bs ++ cs)).WaitsInVain := by
  constructor
  · intro h bs hbs
    exact (run_seen (h.of_prefix hbs)).not_lost
  · intro a h
    simp only [BreaksABegunThread, not_forall, not_not] at h
    obtain ⟨again, fresh, hpc, rfl, hr⟩ := h
    refine ⟨[.application fresh, .receiver false, .receiver false, .receiver false,
      .receiver false, .receiver false], fun cs => ?_⟩
    rw [run_append, run_append]
    exact run_inv step_waitsInVain (overtaken_stop_is_lost (run_sound as) hpc hr fresh)

theorem no_stop_is_lost_after_a_start :
    Always step (¬ StopIsLost ·) {}
      [.setup true, .receiver false, .shutdown, .application false, .application false] := by
  apply (no_stop_is_lost_on_a_begun_thread _).1
  simp [eachStep_cons, eachStep_nil, BreaksABegunThread, step, setup, start, shutdown,
    stepReceiver, stepApplication]

/-- `shutdown` right after `setup`. -/
theorem a_stop_right_after_setup_is_lost :
    ¬ Always step (¬ StopIsLost ·) {}
      [.setup false, .shutdown, .application false, .application false, .receiver false,
        .receiver false, .receiver false, .receiver false, .receiver false] ∧
    ∀ bs, (run step {} ([.setup false, .shutdown, .application false, .application false,
      .receiver false, .receiver false, .receiver false, .receiver false, .receiver false] ++
        bs)).WaitsInVain := by
  have hlost := overtaken_stop_is_lost (run_sound [.setup false, .shutdown]) rfl rfl false
  constructor
  · intro h
    exact h _ (List.prefix_refl _) hlost.1
  · intro bs
    rw [run_append]
    exact run_inv step_waitsInVain hlost

end ListenerThreads

end esc_platform.osc
