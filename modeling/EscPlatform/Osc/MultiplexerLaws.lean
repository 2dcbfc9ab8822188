-- The runs of a multiplexer: each turn calls what is ready and then what is
-- due, nothing is lost or doubled behind a socket, and next to nothing is
-- called behind a break.
import EscPlatform.Osc.MultiplexerTurns

namespace esc_platform.osc

open bytes due_queues checked

namespace SocketReceiveMultiplexer

variable {P S L T σ ε : Type} {s s' s₁ : RunState P S L T σ}

/-! ## Whole runs -/

section runs

variable [LinearOrder T] (ls : Listeners P L σ ε) (after : T → Int → T)
  (sorter : Sorter T (AttachedTimerListener L)) (m : SocketReceiveMultiplexer P S L)

/-- When each attached timer is due behind the turns `ts`, on its own: from its initial delay, one
period further for each time it was due. -/
def schedule (now : T) (ts : List (Turn S T)) : List (T × AttachedTimerListener L) :=
  m.timerListeners_.map fun timer =>
    (dueAfter (nextExpiry after) (ts.map Turn.now) timer (after now timer.initialDelayMs), timer)

theorem schedule_snoc (now : T) (ts : List (Turn S T)) (t : Turn S T) :
    schedule after m now (ts ++ [t]) =
      (schedule after m now ts).map (renew (nextExpiry after) t.now) := by
  unfold schedule
  rw [List.map_map]
  apply List.map_congr_left
  intro timer _
  rw [List.map_append, List.map_singleton, dueAfter_append_single]
  unfold Function.comp renew renewed
  split <;> rfl

theorem begin_queue (now : T) (s : RunState P S L T σ) :
    ∃ s₁, (beginRun after sorter m now : RunM P S L T σ ε Unit).run s = .ok () s₁ ∧
      s₁.break_ = false ∧ s₁.calls = s.calls ∧ s₁.arrived = s.arrived ∧
      s₁.waiting = s.waiting ∧ Ordered s₁.timerQueue_ ∧
      s₁.timerQueue_.Perm (schedule (S := S) after m now []) :=
  ⟨_, rfl, rfl, rfl, rfl, rfl, sorter.ordered _, sorter.perm _⟩

variable [DecidableEq S]

variable {ls after sorter m} in
theorem runTurns_broken (ts : List (Turn S T)) (hs : s.break_ = true) :
    (runTurns ls after sorter m ts).run s = .ok () s := by
  cases ts with
  | nil => rfl
  | cons t ts =>
    unfold runTurns
    rw [run_bind_ok (EStateM.run_get s), if_pos hs]
    rfl

variable {ls after sorter m} in
theorem runTurns_cons (t : Turn S T) (ts : List (Turn S T)) (hs : s.break_ = false) :
    (runTurns ls after sorter m (t :: ts)).run s =
      (do turn ls after sorter m t; runTurns ls after sorter m ts).run s := by
  rw [runTurns, run_bind_ok (EStateM.run_get s), if_neg (by simp [hs])]

theorem runTurns_append (ts us : List (Turn S T)) (s : RunState P S L T σ) :
    (runTurns ls after sorter m (ts ++ us)).run s =
      (do runTurns ls after sorter m ts; runTurns ls after sorter m us).run s := by
  induction ts generalizing s with
  | nil => rfl
  | cons t ts ih =>
    rcases hs : s.break_ with _ | _
    · rw [List.cons_append, runTurns_cons t _ hs]
      cases hturn : (turn ls after sorter m t).run s with
      | ok _ s₁ =>
        rw [run_bind_ok hturn, ih s₁]
        have hfirst : (runTurns ls after sorter m (t :: ts)).run s =
            (runTurns ls after sorter m ts).run s₁ := by
          rw [runTurns_cons t ts hs, run_bind_ok hturn]
        rw [EStateM.run_bind, EStateM.run_bind, hfirst]
      | error e s₁ =>
        have hfirst : (runTurns ls after sorter m (t :: ts)).run s = .error e s₁ := by
          rw [runTurns_cons t ts hs, run_bind_error hturn]
        rw [run_bind_error hturn, run_bind_error hfirst]
    · rw [runTurns_broken _ hs, run_bind_ok (runTurns_broken _ hs), runTurns_broken _ hs]

/-- A run goes through exactly where each of its turns does. -/
theorem runTurns_snoc {ts : List (Turn S T)} {t : Turn S T}
    (hrun : (runTurns ls after sorter m (ts ++ [t])).run s = .ok () s')
    (hs' : s'.break_ = false) :
    ∃ s₁, (runTurns ls after sorter m ts).run s = .ok () s₁ ∧ s₁.break_ = false ∧
      (turn ls after sorter m t).run s₁ = .ok () s' := by
  rw [runTurns_append] at hrun
  obtain ⟨_, s₁, hfirst, hlast⟩ := run_bind_inv hrun
  rcases hs₁ : s₁.break_ with _ | _
  · rw [runTurns_cons t [] hs₁] at hlast
    obtain ⟨_, s₂, hturn, hnil⟩ := run_bind_inv hlast
    cases hnil
    exact ⟨s₁, hfirst, hs₁, hturn⟩
  · rw [runTurns_broken [t] hs₁] at hlast
    cases hlast
    rw [hs₁] at hs'
    cases hs'

/-- The timer queue holds the schedule of the timers, in the order of their times. -/
theorem run_queue {now : T} {ts : List (Turn S T)}
    (hsockets : (m.socketListeners_.map Prod.snd).Nodup)
    (hrun : (run ls after sorter m now ts).run s = .ok () s') (hs' : s'.break_ = false) :
    Ordered s'.timerQueue_ ∧ s'.timerQueue_.Perm (schedule after m now ts) := by
  obtain ⟨s₁, hbegin, hs₁, -, -, -, hordered, hperm⟩ := begin_queue (ε := ε) after sorter m now s
  unfold run at hrun
  rw [run_bind_ok hbegin] at hrun
  induction ts using List.reverseRecOn generalizing s' with
  | nil =>
    cases hrun
    exact ⟨hordered, hperm⟩
  | append_singleton ts t ih =>
    obtain ⟨s₂, hfirst, hs₂, hturn⟩ := runTurns_snoc ls after sorter m hrun hs'
    obtain ⟨hordered₂, hperm₂⟩ := ih hs₂ hfirst
    obtain ⟨-, -, hordered', hperm'⟩ := turn_going hs₂ hsockets hturn hs'
    refine ⟨hordered' hordered₂, hperm'.trans ((turn_perm hordered₂).trans ?_)⟩
    rw [schedule_snoc]
    exact hperm₂.map _

/-- In each turn of a run without a break, each ready socket gives its front to its listener, in
the order in which they were attached. Behind them come the timers that are due, by their times:
for each timer these are its initial delay and then one period more for each call, whatever the
other timers and sockets do. -/
theorem each_turn_calls_what_is_ready_and_due (now : T) (ts : List (Turn S T)) (t : Turn S T)
    (hsockets : (m.socketListeners_.map Prod.snd).Nodup)
    (hbefore : (run ls after sorter m now ts).run s = .ok () s₁)
    (hbehind : (run ls after sorter m now (ts ++ [t])).run s = .ok () s')
    (hs' : s'.break_ = false) :
    ∃ timers, timers.Perm ((schedule after m now ts).filter (·.1 ≤ t.now)) ∧ Ordered timers ∧
      s'.calls = s₁.calls ++
        m.socketListeners_.filterMap (frontPacket t.ready (s₁.arrive t).waiting) ++
        timers.map (expired (.returned false)) ∧
      s'.waiting =
        waitingBehind t.ready (m.socketListeners_.map Prod.snd) (s₁.arrive t).waiting := by
  have hbehind' := hbehind
  unfold run at hbehind hbefore
  obtain ⟨s₀, hbegin, -⟩ := begin_queue (ε := ε) after sorter m now s
  rw [run_bind_ok hbegin] at hbehind hbefore
  obtain ⟨s₂, hfirst, hs₂, hturn⟩ := runTurns_snoc ls after sorter m hbehind hs'
  obtain rfl : s₂ = s₁ := by
    rw [hfirst] at hbefore
    cases hbefore
    rfl
  have hrun : (run ls after sorter m now ts).run s = .ok () s₂ := by
    unfold run
    rw [run_bind_ok hbegin, hfirst]
  obtain ⟨hordered, hperm⟩ := run_queue ls after sorter m hsockets hrun hs₂
  obtain ⟨hwaiting, hcalls, -, -⟩ := turn_going hs₂ hsockets hturn hs'
  refine ⟨taken t.now s₂.timerQueue_, ?_, taken_ordered hordered, hcalls, hwaiting⟩
  rw [taken_eq_filter hordered]
  exact hperm.filter _

/-- One packet, and a timer that is due behind its initial delay. -/
theorem each_turn_calls_what_is_ready_and_due_once :
    let timer : AttachedTimerListener Unit := ⟨5, 10, ()⟩
    let ls : Listeners Unit Unit Unit Unit := ⟨fun _ _ _ _ => return false, fun _ => return false⟩
    let s : RunState Unit Unit Unit Int Unit :=
      ⟨true, [], fun _ => 0, ⟨0, 0⟩, fun _ => [], fun _ => [], (), []⟩
    let t : Turn Unit Int := ⟨fun _ => [⟨[7], ⟨1, 2⟩⟩], false, false, fun _ => true, 6⟩
    ∃ s', (run ls (· + ·) Sorter.stable ⟨[((), ())], [timer]⟩ 0 [t]).run s = .ok () s' ∧
      ∃ timers : List (Int × _), timers.Perm [(5, timer)] ∧
        s'.calls = [⟨.processPacket () () ⟨[7], ⟨1, 2⟩⟩, .returned false⟩] ++
          timers.map (expired (.returned false)) := by
  intro timer ls s t
  obtain ⟨timers, hperm, -, hcalls, -⟩ := each_turn_calls_what_is_ready_and_due ls (· + ·)
    Sorter.stable ⟨[((), ())], [timer]⟩ 0 [] t (s := s) (by decide) rfl rfl rfl
  exact ⟨_, rfl, timers, hperm, hcalls⟩

theorem runTurns_conserves (ts : List (Turn S T)) {socket : S} (h : Conserves socket s)
    (hrun : Leaves ((runTurns ls after sorter m ts).run s) s') : Conserves socket s' := by
  induction ts generalizing s with
  | nil =>
    obtain rfl := hrun.eq_of_ok rfl
    exact h
  | cons t ts ih =>
    rcases hs : s.break_ with _ | _
    · rw [runTurns_cons t ts hs] at hrun
      cases hturn : (turn ls after sorter m t).run s with
      | ok _ s₁ =>
        rw [run_bind_ok hturn] at hrun
        exact ih (turn_conserves hs h (.inl ⟨_, hturn⟩)) hrun
      | error e s₁ =>
        obtain rfl := hrun.eq_of_error (run_bind_error hturn)
        exact turn_conserves hs h (.inr ⟨e, hturn⟩)
    · obtain rfl := hrun.eq_of_ok (runTurns_broken _ hs)
      exact h

/-- Nothing is lost behind a socket, and nothing is doubled or reordered, however the run ends: what
arrived is what the listeners of the socket got, but for empty datagrams, and what still waits. -/
theorem sockets_give_what_arrived (now : T) (ts : List (Turn S T)) (hcalls : s.calls = [])
    (harrived : s.arrived = s.waiting)
    (hrun : Leaves ((run ls after sorter m now ts).run s) s') (socket : S) :
    ∃ taken, s'.arrived socket = taken ++ s'.waiting socket ∧
      packetsOf socket s'.calls = (taken.filter (·.bytes ≠ [])).map cut := by
  obtain ⟨s₁, hbegin, -, hcalls₁, harrived₁, hwaiting₁, -⟩ :=
    begin_queue (ε := ε) after sorter m now s
  unfold run at hrun
  rw [run_bind_ok hbegin] at hrun
  apply runTurns_conserves ls after sorter m ts _ hrun
  refine ⟨[], ?_, ?_⟩
  · rw [harrived₁, hwaiting₁, harrived, List.nil_append]
  · rw [hcalls₁, hcalls]
    rfl

/-- An empty datagram between two packets, and one that still waits. -/
theorem sockets_give_what_arrived_in_order :
    let ls : Listeners Unit Empty Unit Unit := ⟨fun _ _ _ _ => return false, nofun⟩
    let s : RunState Unit Unit Empty Int Unit :=
      ⟨true, [], fun _ => 0, ⟨0, 0⟩, fun _ => [], fun _ => [], (), []⟩
    let t : Turn Unit Int :=
      ⟨fun _ => [⟨[7], ⟨1, 2⟩⟩, ⟨[], ⟨1, 2⟩⟩], false, false, fun _ => true, 6⟩
    ∃ s', Leaves ((run ls (· + ·) Sorter.stable ⟨[((), ())], []⟩ 0 [t, t]).run s) s' ∧
      ∃ taken, s'.arrived () = taken ++ s'.waiting () ∧
        packetsOf () s'.calls = (taken.filter (·.bytes ≠ [])).map cut := by
  intro ls s t
  exact ⟨_, .inl ⟨(), rfl⟩, sockets_give_what_arrived ls (· + ·) Sorter.stable ⟨[((), ())], []⟩ 0
    [t, t] (s := s) rfl rfl (.inl ⟨(), rfl⟩) ()⟩

theorem runTurns_calls (ts : List (Turn S T)) (s : RunState P S L T σ) :
    ∃ s' cs, Leaves ((runTurns ls after sorter m ts).run s) s' ∧ s'.calls = s.calls ++ cs ∧
      WellEnded cs ∧
      ((runTurns ls after sorter m ts).run s = .ok () s' → s'.break_ = false → Quiet cs) := by
  have hnone : Quiet ([] : List (Called P S L T)) := by simp [Quiet]
  induction ts generalizing s with
  | nil => exact ⟨s, [], .inl ⟨(), rfl⟩, by simp, hnone.wellEnded, fun _ _ => hnone⟩
  | cons t ts ih =>
    rcases hs : s.break_ with _ | _
    · obtain ⟨s₁, cs, hleaves, hcalls, hwell, hquiet⟩ :=
        turn_calls ls after sorter m t hs
      rw [runTurns_cons t ts hs]
      obtain ⟨⟨⟩, hturn⟩ | ⟨e, hturn⟩ := hleaves
      · rw [run_bind_ok hturn]
        rcases hs₁ : s₁.break_ with _ | _
        · have hfirst := hquiet hturn hs₁
          obtain ⟨s', cs', hleaves', hcalls', hwell', hquiet'⟩ := ih s₁
          refine ⟨s', cs ++ cs', hleaves', ?_, hfirst.wellEnded_append hwell', fun hrun hs' => ?_⟩
          · rw [hcalls', hcalls, List.append_assoc]
          · exact quiet_append.mpr ⟨hfirst, hquiet' hrun hs'⟩
        · rw [runTurns_broken ts hs₁]
          refine ⟨s₁, cs, .inl ⟨(), rfl⟩, hcalls, hwell, fun _ hs' => ?_⟩
          rw [hs₁] at hs'
          cases hs'
      · rw [run_bind_error hturn]
        refine ⟨s₁, cs, .inr ⟨e, rfl⟩, hcalls, hwell, fun hok => ?_⟩
        cases hok
    · rw [runTurns_broken _ hs]
      refine ⟨s, [], .inl ⟨(), rfl⟩, by simp, hnone.wellEnded, fun _ hs' => ?_⟩
      rw [hs] at hs'
      cases hs'

/-- A break ends the run. Behind the call that broke, or during which another thread broke, no
packet is delivered, and at most one timer is called, which is when that call was a packet's. Behind
a call that threw there is none. The turns behind it are never met. -/
theorem a_break_ends_the_calls (now : T) (ts : List (Turn S T)) (hcalls : s.calls = [])
    (hrun : Leaves ((run ls after sorter m now ts).run s) s') :
    WellEnded s'.calls ∧ ((∃ c ∈ s'.calls, c.ending ≠ .returned false) →
      ∀ us, (run ls after sorter m now (ts ++ us)).run s =
        (run ls after sorter m now ts).run s) := by
  obtain ⟨s₁, hbegin, -, hcalls₁, -⟩ := begin_queue (ε := ε) after sorter m now s
  unfold run at hrun ⊢
  rw [run_bind_ok hbegin] at hrun ⊢
  obtain ⟨s₂, cs, hleaves, hcalls₂, hwell, hquiet⟩ := runTurns_calls ls after sorter m ts s₁
  have hcs : s₂.calls = cs := by
    rw [hcalls₂, hcalls₁, hcalls, List.nil_append]
  obtain ⟨⟨⟩, hturns⟩ | ⟨e, hturns⟩ := hleaves
  · obtain rfl := hrun.eq_of_ok hturns
    refine ⟨hcs ▸ hwell, ?_⟩
    rintro ⟨c, hc, hending⟩ us
    rw [run_bind_ok hbegin, runTurns_append, run_bind_ok hturns, hturns]
    rcases hs' : s'.break_ with _ | _
    · exact absurd (hquiet hturns hs' c (hcs ▸ hc)) hending
    · exact runTurns_broken us hs'
  · obtain rfl := hrun.eq_of_error hturns
    refine ⟨hcs ▸ hwell, fun _ us => ?_⟩
    rw [run_bind_ok hbegin, runTurns_append, run_bind_error hturns, hturns]

/-- The listener of the socket breaks, and the timer is called behind it. -/
theorem a_break_ends_the_calls_but_one :
    let timer : AttachedTimerListener Unit := ⟨5, 10, ()⟩
    let ls : Listeners Unit Unit Unit Unit := ⟨fun _ _ _ _ => return true, fun _ => return false⟩
    let s : RunState Unit Unit Unit Int Unit :=
      ⟨true, [], fun _ => 0, ⟨0, 0⟩, fun _ => [], fun _ => [], (), []⟩
    let t : Turn Unit Int := ⟨fun _ => [⟨[7], ⟨1, 2⟩⟩], false, false, fun _ => true, 6⟩
    ∀ us, (run ls (· + ·) Sorter.stable ⟨[((), ())], [timer]⟩ 0 ([t] ++ us)).run s =
      .ok () { s with
        timerQueue_ := [(5, timer)]
        data := fun i => [7].getD i 0
        remoteEndpoint := ⟨1, 2⟩
        arrived := fun _ => [⟨[7], ⟨1, 2⟩⟩]
        calls := [⟨.processPacket () () ⟨[7], ⟨1, 2⟩⟩, .returned true⟩,
          ⟨.timerExpired 5 timer, .returned false⟩] } := by
  intro timer ls s t us
  have h := (a_break_ends_the_calls ls (· + ·) Sorter.stable ⟨[((), ())], [timer]⟩ 0 [t]
    (s := s) rfl (.inl ⟨(), rfl⟩)).2 ⟨_, List.mem_cons_self, nofun⟩ us
  exact h

end runs

end SocketReceiveMultiplexer

end esc_platform.osc
