-- `UdpListeningReceiveSocket` with an `OscListener` on it: the multiplexer of
-- the one socket hands the listener the datagrams that it takes, so its runs
-- are those of `runSocket`.
import EscPlatform.Osc.MultiplexerLaws

namespace esc_platform.osc

open bytes due_queues checked

namespace SocketReceiveMultiplexer

/-- `ProcessPacket` of the `OscListener`, which never breaks. -/
def oscListeners (fuel : Nat) : Listeners Unit Empty OscListener Fault where
  processPacket _ data size remoteEndpoint := do
    processPacket data remoteEndpoint (processMessage data fuel) fuel size
    return false
  timerExpired := nofun

/-- `mux_` behind the constructor. -/
def udpListeningReceiveSocket {S : Type} (socket : S) : SocketReceiveMultiplexer Unit S Empty :=
  { socketListeners_ := [((), socket)] }

theorem udpListeningReceiveSocket_attached {S : Type} [DecidableEq S] (socket : S) :
    ({} : SocketReceiveMultiplexer Unit S Empty).attachSocketListener socket () =
      some (udpListeningReceiveSocket socket) := rfl

section listening

variable {S T : Type} {s s₁ s' : RunState Unit S Empty T OscListener} {fuel : Nat} {socket : S}

/-- The receive buffer behind the datagrams `ds`. -/
def dataAfter (data : Memory) (ds : List Datagram) : Memory :=
  ds.foldl (fun data d => (receiveFrom data d).1) data

theorem runSocket_append (data : Memory) (ds ds' : List Datagram) :
    runSocket fuel data (ds ++ ds') =
      (do runSocket fuel data ds; runSocket fuel (dataAfter data ds) ds') := by
  induction ds generalizing data with
  | nil => rfl
  | cons d ds ih =>
    have hdata : dataAfter data (d :: ds) = dataAfter (receiveFrom data d).1 ds := rfl
    have hturn : ∀ ds, runSocket fuel data (d :: ds) = (do
        if d.received.length > 0 then
          processPacket (receiveFrom data d).1 d.remoteEndpoint
            (processMessage (receiveFrom data d).1 fuel) fuel d.received.length
        runSocket fuel (receiveFrom data d).1 ds) := fun _ => rfl
    rw [List.cons_append, hdata, hturn, hturn, ih]
    split
    · rw [bind_assoc]
    · rfl

/-- From `s` with the outcome `r`, the datagrams `ds` were taken from the socket, and the listener
did with them what `runSocket` does. -/
def Took (fuel : Nat) (socket : S) (s : RunState Unit S Empty T OscListener)
    (r : EStateM.Result (RunError Fault) (RunState Unit S Empty T OscListener) Unit)
    (ds : List Datagram) : Prop :=
  ∃ s' new, s'.arrived socket = s.arrived socket ++ new ∧
    s.waiting socket ++ new = ds ++ s'.waiting socket ∧
    ((r = .ok () s' ∧ s'.data = dataAfter s.data ds ∧
        (runSocket fuel s.data ds).run s.listeners = .ok () s'.listeners) ∨
      (r = .error .selectFailed s' ∧
        (runSocket fuel s.data ds).run s.listeners = .ok () s'.listeners) ∨
      ∃ e, r = .error (.listener e) s' ∧
        (runSocket fuel s.data ds).run s.listeners = .error e s'.listeners)

theorem Took.append
    {r : EStateM.Result (RunError Fault) (RunState Unit S Empty T OscListener) Unit}
    {ds ds' : List Datagram} (h : Took fuel socket s (.ok () s₁) ds)
    (h' : Took fuel socket s₁ r ds') : Took fuel socket s r (ds ++ ds') := by
  obtain ⟨_, new, harrived, hwaiting, ⟨⟨⟩, hdata, hrun⟩ | ⟨⟨⟩, -⟩ | ⟨e, ⟨⟩, -⟩⟩ := h
  obtain ⟨s', new', harrived', hwaiting', hend⟩ := h'
  have hall : (runSocket fuel s.data (ds ++ ds')).run s.listeners =
      (runSocket fuel s₁.data ds').run s₁.listeners := by
    rw [runSocket_append, run_bind_ok hrun, hdata]
  refine ⟨s', new ++ new', ?_, ?_, ?_⟩
  · rw [harrived', harrived, List.append_assoc]
  · rw [← List.append_assoc, hwaiting, List.append_assoc, hwaiting', List.append_assoc]
  · rw [hall]
    rcases hend with ⟨hr, hdata', hrun'⟩ | ⟨hr, hrun'⟩ | ⟨e, hr, hrun'⟩
    · refine .inl ⟨hr, ?_, hrun'⟩
      rw [hdata', hdata, dataAfter, dataAfter, dataAfter, List.foldl_append]
    · exact .inr (.inl ⟨hr, hrun'⟩)
    · exact .inr (.inr ⟨e, hr, hrun'⟩)

theorem took_nothing (s : RunState Unit S Empty T OscListener) :
    Took fuel socket s (.ok () s) [] :=
  ⟨s, [], by simp, by simp, .inl ⟨rfl, rfl, rfl⟩⟩

variable [DecidableEq S]

/-- The loop over the one socket. -/
theorem runSockets_took (fuel : Nat) (socket : S) (ready : S → Bool) (hs : s.break_ = false) :
    ∃ ds, Took fuel socket s
      ((runSockets (oscListeners fuel) ready [((), socket)]).run s) ds ∧
      ∀ s', (runSockets (oscListeners fuel) ready [((), socket)]).run s = .ok () s' →
        s'.break_ = false ∧ s'.timerQueue_ = s.timerQueue_ := by
  have hidle : ∀ s', (.ok () s : EStateM.Result (RunError Fault) _ Unit) = .ok () s' →
      s'.break_ = false ∧ s'.timerQueue_ = s.timerQueue_ := by
    rintro _ ⟨⟩
    exact ⟨hs, rfl⟩
  rw [runSockets]
  by_cases hready : ready socket = true
  · rw [if_pos hready]
    cases hwaiting : s.waiting socket with
    | nil =>
      rw [run_bind_ok (receiveFromSocket_nil hwaiting), if_neg (Nat.lt_irrefl 0)]
      exact ⟨[], took_nothing s, hidle⟩
    | cons d ds =>
      rw [run_bind_ok (receiveFromSocket_cons hwaiting)]
      have hqueue : s.waiting socket ++ [] = [d] ++ (s.received socket d ds).waiting socket := by
        simp [RunState.received, hwaiting]
      have hone : runSocket fuel s.data [d] = (do
          if d.received.length > 0 then
            processPacket (receiveFrom s.data d).1 d.remoteEndpoint
              (processMessage (receiveFrom s.data d).1 fuel) fuel d.received.length
          runSocket fuel (receiveFrom s.data d).1 []) := rfl
      by_cases hsize : d.received.length > 0
      · rw [if_pos hsize] at hone ⊢
        rw [run_bind_ok (EStateM.run_get _)]
        generalize hcall : (Call.processPacket () socket
          ⟨slice (s.received socket d ds).data 0 d.received.length,
            (s.received socket d ds).remoteEndpoint⟩ : Call Unit S Empty T) = call
        cases hprocess : (processPacket (receiveFrom s.data d).1 d.remoteEndpoint
            (processMessage (receiveFrom s.data d).1 fuel) fuel d.received.length).run
              s.listeners with
        | ok _ l =>
          have hbody : (callListener call ((oscListeners fuel).processPacket ()
              (s.received socket d ds).data d.received.length
              (s.received socket d ds).remoteEndpoint)).run (s.received socket d ds) =
                .ok () ((s.received socket d ds).called call (.returned false) l) :=
            callListener_ok call (run_bind_ok hprocess)
          have hbreak : ((s.received socket d ds).called call (.returned false) l).break_ =
              false := by simp [RunState.called, RunState.received, hs]
          rw [run_bind_ok hbody, run_bind_ok (EStateM.run_get _), if_neg (by simp [hbreak])]
          refine ⟨[d], ⟨(s.received socket d ds).called call (.returned false) l, [],
            by simp [RunState.received, RunState.called], hqueue, .inl ⟨rfl, rfl, ?_⟩⟩, ?_⟩
          · rw [hone, run_bind_ok hprocess]
            rfl
          · rintro _ ⟨⟩
            exact ⟨hbreak, rfl⟩
        | error e l =>
          have hbody : (callListener call ((oscListeners fuel).processPacket ()
              (s.received socket d ds).data d.received.length
              (s.received socket d ds).remoteEndpoint)).run (s.received socket d ds) =
                .error (.listener e) ((s.received socket d ds).called call .threw l) :=
            callListener_error call (run_bind_error hprocess)
          rw [run_bind_error hbody]
          refine ⟨[d], ⟨(s.received socket d ds).called call .threw l, [],
            by simp [RunState.received, RunState.called], hqueue, .inr (.inr ⟨e, rfl, ?_⟩)⟩, ?_⟩
          · rw [hone, run_bind_error hprocess]
            rfl
          · intro s' hok
            cases hok
      · rw [if_neg hsize] at hone ⊢
        refine ⟨[d], ⟨_, [], by simp [RunState.received], hqueue, .inl ⟨rfl, rfl, ?_⟩⟩, ?_⟩
        · rw [hone]
          rfl
        · rintro _ ⟨⟩
          exact ⟨hs, rfl⟩
  · rw [if_neg hready]
    exact ⟨[], took_nothing s, hidle⟩

variable [LinearOrder T] (fuel : Nat) (socket : S) (after : T → Int → T)
  (sorter : Sorter T (AttachedTimerListener Empty))

theorem turn_took (t : Turn S T) (hs : s.break_ = false) (hqueue : s.timerQueue_ = []) :
    ∃ ds, Took fuel socket s
      ((turn (oscListeners fuel) after sorter (udpListeningReceiveSocket socket) t).run s) ds ∧
      ∀ s', (turn (oscListeners fuel) after sorter (udpListeningReceiveSocket socket) t).run s =
        .ok () s' → s'.timerQueue_ = [] := by
  obtain ⟨ds, htook, hgoing⟩ := runSockets_took fuel socket t.ready (s := s.arrive t) hs
  have harrive : ∀ {r ds}, Took fuel socket (s.arrive t) r ds → Took fuel socket s r ds := by
    rintro r ds ⟨s', new, harrived, hwaiting, hend⟩
    refine ⟨s', t.arrivals socket ++ new, ?_, ?_, hend⟩
    · rw [harrived, RunState.arrive, List.append_assoc]
    · rw [← List.append_assoc]
      exact hwaiting
  rcases turn_cases (oscListeners fuel) after sorter (udpListeningReceiveSocket socket) t hs with
    h | h | ⟨e, s₁, hsockets, h⟩ | ⟨s₁, hsockets, h⟩
  · rw [h]
    refine ⟨[], harrive ⟨_, [], by simp, by simp, .inr (.inl ⟨rfl, rfl⟩)⟩, ?_⟩
    intro s' hok
    cases hok
  · rw [h]
    refine ⟨[], harrive ⟨_, [], by simp, by simp, .inl ⟨rfl, rfl, rfl⟩⟩, ?_⟩
    rintro _ ⟨⟩
    exact hqueue
  · unfold udpListeningReceiveSocket at hsockets
    rw [hsockets] at htook
    rw [h]
    refine ⟨ds, harrive htook, ?_⟩
    intro s' hok
    cases hok
  · unfold udpListeningReceiveSocket at hsockets
    rw [hsockets] at htook
    obtain ⟨hs₁, hqueue₁⟩ := hgoing s₁ hsockets
    have hempty : s₁.timerQueue_ = [] := hqueue₁.trans hqueue
    have htimers : (expireTimers (oscListeners fuel) after t.now s₁.timerQueue_).run s₁ =
        .ok ([], false) s₁ := by
      rw [hempty]
      rfl
    rcases h with ⟨e, s₂, hrun, -⟩ | ⟨queue, s₂, hrun, h⟩
    · rw [htimers] at hrun
      cases hrun
    · rw [htimers] at hrun
      cases hrun
      have hsame : { s₁ with timerQueue_ := [] } = s₁ := by rw [← hempty]
      simp only [Bool.false_eq_true, if_false, hsame] at h
      rw [h]
      refine ⟨ds, harrive htook, ?_⟩
      rintro _ ⟨⟩
      exact hempty

theorem runTurns_took (ts : List (Turn S T)) (hqueue : s.timerQueue_ = []) :
    ∃ ds, Took fuel socket s ((runTurns (oscListeners fuel) after sorter
      (udpListeningReceiveSocket socket) ts).run s) ds := by
  induction ts generalizing s with
  | nil => exact ⟨[], took_nothing s⟩
  | cons t ts ih =>
    rcases hs : s.break_ with _ | _
    · obtain ⟨ds, htook, hgoing⟩ := turn_took fuel socket after sorter t hs hqueue
      rw [runTurns_cons t ts hs]
      cases hturn : (turn (oscListeners fuel) after sorter (udpListeningReceiveSocket socket)
          t).run s with
      | ok _ s₁ =>
        rw [run_bind_ok hturn]
        rw [hturn] at htook
        obtain ⟨ds', htook'⟩ := ih (hgoing s₁ hturn)
        exact ⟨ds ++ ds', htook.append htook'⟩
      | error e s₁ =>
        rw [run_bind_error hturn]
        rw [hturn] at htook
        exact ⟨ds, htook⟩
    · rw [runTurns_broken _ hs]
      exact ⟨[], took_nothing s⟩

/-- A run of the listening socket of an `OscListener`, over whatever turns: the datagrams that it
took are the first ones of those that arrived, and the listener's state and exception are those
of `runSocket` on them. -/
theorem a_listening_socket_runs_its_datagrams (now : T) (ts : List (Turn S T))
    (s : RunState Unit S Empty T OscListener) :
    ∃ ds, Took fuel socket s
      ((run (oscListeners fuel) after sorter (udpListeningReceiveSocket socket) now ts).run s)
      ds := by
  have hbegin : (beginRun after sorter (udpListeningReceiveSocket socket) now :
      RunM Unit S Empty T OscListener Fault Unit).run s =
        .ok () { s with break_ := false, timerQueue_ := [] } := by
    have hsort : sorter.sort [] = [] := (sorter.perm []).eq_nil
    have hrun : (beginRun after sorter (udpListeningReceiveSocket socket) now :
        RunM Unit S Empty T OscListener Fault Unit).run s =
          .ok () { s with break_ := false, timerQueue_ := sorter.sort [] } := rfl
    rw [hrun, hsort]
  unfold run
  rw [run_bind_ok hbegin]
  obtain ⟨ds, s', new, h⟩ := runTurns_took fuel socket after sorter ts
    (s := { s with break_ := false, timerQueue_ := [] }) rfl
  exact ⟨ds, s', new, h⟩

end listening

end SocketReceiveMultiplexer

end esc_platform.osc
