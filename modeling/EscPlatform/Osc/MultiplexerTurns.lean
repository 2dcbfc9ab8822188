-- What one turn of a multiplexer's loop does: its calls, in which order, how
-- they end, and what is left behind the sockets and in the timer queue.
import EscPlatform.Lib.Checked
import EscPlatform.Osc.ListenerLaws
import EscPlatform.Osc.Multiplexer

namespace esc_platform.osc

open bytes due_queues checked

namespace SocketReceiveMultiplexer

variable {P S L T σ ε : Type} {s s' s₁ : RunState P S L T σ}

/-! ## One call -/

/-- What `recvfrom` leaves of a datagram. -/
def cut (d : Datagram) : Datagram := { d with bytes := d.received }

def RunState.received [DecidableEq S] (s : RunState P S L T σ) (socket : S) (d : Datagram)
    (ds : List Datagram) : RunState P S L T σ :=
  { s with
    data := (receiveFrom s.data d).1
    remoteEndpoint := d.remoteEndpoint
    waiting := Function.update s.waiting socket ds }

def RunState.called (s : RunState P S L T σ) (call : Call P S L T) (ending : Ending)
    (listeners : σ) : RunState P S L T σ :=
  { s with
    break_ := s.break_ || ending == .returned true
    listeners := listeners
    calls := s.calls ++ [⟨call, ending⟩] }

section calls

variable (call : Call P S L T) {body : EStateM ε σ Bool}

theorem callListener_ok {broken : Bool} {listeners : σ}
    (h : body.run s.listeners = .ok broken listeners) :
    (callListener call body).run s = .ok () (s.called call (.returned broken) listeners) := by
  have hrun : (callListener call body).run s = callListener call body s := rfl
  rw [hrun]
  unfold callListener
  rw [h]
  cases broken <;> rfl

theorem callListener_error {e : ε} {listeners : σ}
    (h : body.run s.listeners = .error e listeners) :
    (callListener call body).run s = .error (.listener e) (s.called call .threw listeners) := by
  have hrun : (callListener call body).run s = callListener call body s := rfl
  rw [hrun]
  unfold callListener
  rw [h]
  simp [RunState.called]

end calls

/-- Either the listener returns, or what it throws goes on. -/
theorem callListener_cases (call : Call P S L T) (body : EStateM ε σ Bool)
    (s : RunState P S L T σ) :
    (∃ broken listeners, (callListener call body).run s =
        .ok () (s.called call (.returned broken) listeners)) ∨
      ∃ e listeners, (callListener call body).run s =
        .error (.listener e) (s.called call .threw listeners) := by
  cases h : body.run s.listeners with
  | ok broken listeners => exact .inl ⟨broken, listeners, callListener_ok call h⟩
  | error e listeners => exact .inr ⟨e, listeners, callListener_error call h⟩

/-- What a call does that did not break or throw, what follows a break, and what follows an
exception. -/
theorem callListener_bind {α : Type} (call : Call P S L T) (body : EStateM ε σ Bool)
    (hs : s.break_ = false) (stop go : RunM P S L T σ ε α) :
    (∃ listeners, (do
        callListener call body
        if (← get).break_ then stop else go).run s =
          go.run (s.called call (.returned false) listeners)) ∨
      (∃ listeners, (do
        callListener call body
        if (← get).break_ then stop else go).run s =
          stop.run (s.called call (.returned true) listeners)) ∨
      ∃ e listeners, (do
        callListener call body
        if (← get).break_ then stop else go).run s =
          .error (.listener e) (s.called call .threw listeners) := by
  rcases callListener_cases call body s with ⟨broken, listeners, h⟩ | ⟨e, listeners, h⟩
  · rw [run_bind_ok h, run_bind_ok (EStateM.run_get _)]
    cases broken with
    | false => exact .inl ⟨listeners, by simp [RunState.called, hs]⟩
    | true => exact .inr (.inl ⟨listeners, by simp [RunState.called]⟩)
  · exact .inr (.inr ⟨e, listeners, run_bind_error h⟩)

/-! ## Outcomes -/

def Packets (cs : List (Called P S L T)) : Prop :=
  ∀ c ∈ cs, ∃ listener socket packet, c.call = .processPacket listener socket packet

/-- No call broke or threw. -/
def Quiet (cs : List (Called P S L T)) : Prop := ∀ c ∈ cs, c.ending = .returned false

/-- The last call ended so, and the calls in front of it were quiet. -/
def EndsWith (ending : Ending) (cs : List (Called P S L T)) : Prop :=
  ∃ front c, cs = front ++ [c] ∧ Quiet front ∧ c.ending = ending

/-- The state that a result leaves, normal or not. -/
def Leaves {α : Type} (r : EStateM.Result (RunError ε) (RunState P S L T σ) α)
    (s' : RunState P S L T σ) : Prop :=
  (∃ a, r = .ok a s') ∨ ∃ e, r = .error e s'

theorem Leaves.eq_of_ok {α : Type} {r : EStateM.Result (RunError ε) (RunState P S L T σ) α} {a : α}
    (h : Leaves r s') (hr : r = .ok a s) : s' = s := by
  subst hr
  obtain ⟨b, ⟨⟩⟩ | ⟨e, ⟨⟩⟩ := h
  rfl

theorem Leaves.eq_of_error {α : Type} {r : EStateM.Result (RunError ε) (RunState P S L T σ) α}
    {e : RunError ε} (h : Leaves r s') (hr : r = .error e s) : s' = s := by
  subst hr
  obtain ⟨b, ⟨⟩⟩ | ⟨e, ⟨⟩⟩ := h
  rfl

/-- The outcome of a part of the loop that adds the calls `cs`. -/
def Outcome {α : Type} (s : RunState P S L T σ)
    (r : EStateM.Result (RunError ε) (RunState P S L T σ) α) (cs : List (Called P S L T)) : Prop :=
  ∃ s', s'.calls = s.calls ++ cs ∧
    ((∃ a, r = .ok a s' ∧ s'.break_ = false ∧ Quiet cs) ∨
      (∃ a, r = .ok a s' ∧ s'.break_ = true ∧ EndsWith (.returned true) cs) ∨
      ∃ e, r = .error e s' ∧ EndsWith .threw cs)

theorem quiet_append {cs cs' : List (Called P S L T)} :
    Quiet (cs ++ cs') ↔ Quiet cs ∧ Quiet cs' := List.forall_mem_append

theorem EndsWith.after {ending : Ending} {cs cs' : List (Called P S L T)} (h : EndsWith ending cs')
    (hcs : Quiet cs) : EndsWith ending (cs ++ cs') := by
  obtain ⟨front, c, rfl, hfront, hc⟩ := h
  exact ⟨cs ++ front, c, by simp, quiet_append.mpr ⟨hcs, hfront⟩, hc⟩

theorem endsWith_of_map {ending : Ending} {cs : List (Called P S L T)}
    (h : cs.map Called.ending = [ending]) : EndsWith ending cs := by
  obtain ⟨c, rfl, hc⟩ := List.map_eq_singleton_iff.mp h
  exact ⟨[], c, rfl, by simp [Quiet], hc⟩

def expired (ending : Ending) (e : T × AttachedTimerListener L) : Called P S L T :=
  ⟨.timerExpired e.1 e.2, ending⟩

/-- Behind a call that threw there is none. Behind one that broke there is none, or it was a
packet, and one timer was called. -/
def WellEnded (cs : List (Called P S L T)) : Prop :=
  ∀ front c behind, cs = front ++ c :: behind → c.ending ≠ .returned false →
    behind = [] ∨ c.ending = .returned true ∧
      (∃ listener socket packet, c.call = .processPacket listener socket packet) ∧
        ∃ e ending, behind = [expired ending e]

theorem Quiet.wellEnded_append {cs cs' : List (Called P S L T)} (h : Quiet cs)
    (h' : WellEnded cs') : WellEnded (cs ++ cs') := by
  intro front c behind heq hc
  obtain ⟨front', rfl, htail⟩ | ⟨tail, rfl, htail⟩ := List.append_eq_append_iff.mp heq
  · exact h' front' c behind htail hc
  · cases tail with
    | nil => exact h' [] c behind (by simpa using htail.symm) hc
    | cons c' tail =>
      rw [List.cons_append, List.cons.injEq] at htail
      obtain ⟨rfl, -⟩ := htail
      exact absurd (h c (by simp)) hc

theorem Quiet.wellEnded {cs : List (Called P S L T)} (h : Quiet cs) : WellEnded cs := by
  intro front c behind heq hc
  exact absurd (h c (by simp [heq])) hc

theorem wellEnded_single (c : Called P S L T) : WellEnded [c] := by
  intro front c' behind heq hc
  cases front with
  | nil => exact .inl (List.cons.inj heq).2.symm
  | cons d front => simp at heq

theorem EndsWith.wellEnded {ending : Ending} {cs : List (Called P S L T)}
    (h : EndsWith ending cs) : WellEnded cs := by
  obtain ⟨front, c, rfl, hfront, -⟩ := h
  exact hfront.wellEnded_append (wellEnded_single c)

/-- A packet that broke, and the timer that is called all the same. -/
theorem EndsWith.wellEnded_timer {cs : List (Called P S L T)} (h : EndsWith (.returned true) cs)
    (hpackets : Packets cs) (ending : Ending) (e : T × AttachedTimerListener L) :
    WellEnded (cs ++ [expired ending e]) := by
  obtain ⟨front, c, rfl, hfront, hbroke⟩ := h
  rw [List.append_assoc]
  refine hfront.wellEnded_append ?_
  intro front' c' behind heq hc
  cases front' with
  | nil =>
    obtain ⟨rfl, rfl⟩ := List.cons.inj heq
    exact .inr ⟨hbroke, hpackets c (by simp), e, ending, rfl⟩
  | cons d front' =>
    obtain ⟨-, htail⟩ := List.cons.inj heq
    exact wellEnded_single _ front' c' behind htail hc

/-! ## The sockets of a turn -/

section sockets

variable [DecidableEq S] {ls : Listeners P L σ ε} {ready : S → Bool} {listener : P} {socket : S}
  {ending : Option Ending}

/-- What the loop does about one socket, up to the check of the break: nothing, an empty datagram
dropped, or a packet to the listener. -/
inductive Serves (ready : S → Bool) (listener : P) (socket : S) (s : RunState P S L T σ) :
    RunState P S L T σ → Option Ending → Prop
  | idle (h : ready socket = false ∨ s.waiting socket = []) : Serves ready listener socket s s none
  | empty {d : Datagram} {ds : List Datagram} (hready : ready socket = true)
      (h : s.waiting socket = d :: ds) (hempty : d.bytes = []) :
      Serves ready listener socket s (s.received socket d ds) none
  | packet {d : Datagram} {ds : List Datagram} (hready : ready socket = true)
      (h : s.waiting socket = d :: ds) (hsome : d.bytes ≠ []) (ending : Ending) (listeners : σ) :
      Serves ready listener socket s
        ((s.received socket d ds).called (.processPacket listener socket (cut d)) ending listeners)
        (some ending)

theorem receiveFromSocket_nil (h : s.waiting socket = []) :
    (receiveFromSocket socket : RunM P S L T σ ε Nat).run s = .ok 0 s := by
  have hrun : (receiveFromSocket socket : RunM P S L T σ ε Nat).run s =
      receiveFromSocket socket s := rfl
  rw [hrun, receiveFromSocket, h]

theorem receiveFromSocket_cons {d : Datagram} {ds : List Datagram}
    (h : s.waiting socket = d :: ds) :
    (receiveFromSocket socket : RunM P S L T σ ε Nat).run s =
      .ok d.received.length (s.received socket d ds) := by
  have hrun : (receiveFromSocket socket : RunM P S L T σ ε Nat).run s =
      receiveFromSocket socket s := rfl
  rw [hrun, receiveFromSocket, h]
  rfl

theorem received_pos (d : Datagram) : d.received.length > 0 ↔ d.bytes ≠ [] := by
  simp [Datagram.received, maxBufferSize, List.length_pos_iff]

theorem runSockets_cons (ls : Listeners P L σ ε) (ready : S → Bool) (listener : P) (socket : S)
    (rest : List (P × S)) (hs : s.break_ = false) :
    ∃ s₁ ending, Serves ready listener socket s s₁ ending ∧
      ((ending ≠ some (.returned true) ∧ ending ≠ some .threw ∧
          (runSockets ls ready ((listener, socket) :: rest)).run s =
            (runSockets ls ready rest).run s₁) ∨
        (ending = some (.returned true) ∧
          (runSockets ls ready ((listener, socket) :: rest)).run s = .ok () s₁) ∨
        (ending = some .threw ∧
          ∃ e, (runSockets ls ready ((listener, socket) :: rest)).run s = .error e s₁)) := by
  rw [runSockets]
  by_cases hready : ready socket = true
  · rw [if_pos hready]
    cases hwaiting : s.waiting socket with
    | nil =>
      rw [run_bind_ok (receiveFromSocket_nil hwaiting), if_neg (Nat.lt_irrefl 0)]
      exact ⟨s, none, .idle (.inr hwaiting), .inl ⟨nofun, nofun, rfl⟩⟩
    | cons d ds =>
      rw [run_bind_ok (receiveFromSocket_cons hwaiting)]
      by_cases hempty : d.bytes = []
      · rw [if_neg ((received_pos d).not.mpr (not_not.mpr hempty))]
        exact ⟨_, none, .empty hready hwaiting hempty, .inl ⟨nofun, nofun, rfl⟩⟩
      · rw [if_pos ((received_pos d).mpr hempty), run_bind_ok (EStateM.run_get _)]
        have hpacket : slice (s.received socket d ds).data 0 d.received.length = d.received :=
          receiveFrom_slice s.data d
        rw [hpacket]
        have hserves : ∀ ending listeners, Serves ready listener socket s
            ((s.received socket d ds).called (.processPacket listener socket (cut d)) ending
              listeners) (some ending) := .packet hready hwaiting hempty
        rcases callListener_bind (ε := ε) (.processPacket listener socket (cut d))
            (ls.processPacket listener (s.received socket d ds).data d.received.length
              d.remoteEndpoint) (s := s.received socket d ds) hs (pure ())
            (runSockets ls ready rest) with
          ⟨listeners, h⟩ | ⟨listeners, h⟩ | ⟨e, listeners, h⟩
        · exact ⟨_, _, hserves (.returned false) listeners, .inl ⟨nofun, nofun, h⟩⟩
        · exact ⟨_, _, hserves (.returned true) listeners, .inr (.inl ⟨rfl, h⟩)⟩
        · exact ⟨_, _, hserves .threw listeners, .inr (.inr ⟨rfl, _, h⟩)⟩
  · rw [if_neg hready]
    exact ⟨s, none, .idle (.inl (by simpa using hready)), .inl ⟨nofun, nofun, rfl⟩⟩

theorem Serves.arrived (h : Serves ready listener socket s s₁ ending) :
    s₁.arrived = s.arrived := by
  cases h <;> rfl

theorem Serves.timerQueue_ (h : Serves ready listener socket s s₁ ending) :
    s₁.timerQueue_ = s.timerQueue_ := by
  cases h <;> rfl

/-- The loop over the sockets, from a state without a break. -/
theorem runSockets_induction {Q : List (P × S) → RunState P S L T σ →
      EStateM.Result (RunError ε) (RunState P S L T σ) Unit → Prop}
    (nil : ∀ s, s.break_ = false → Q [] s (.ok () s))
    (go : ∀ {listener socket rest s s₁ ending r},
      Serves ready listener socket s s₁ ending → ending ≠ some (.returned true) →
      ending ≠ some .threw → s.break_ = false → s₁.break_ = false → Q rest s₁ r →
      Q ((listener, socket) :: rest) s r)
    (stop : ∀ {listener socket rest s s₁},
      Serves ready listener socket s s₁ (some (.returned true)) → s₁.break_ = true →
      Q ((listener, socket) :: rest) s (.ok () s₁))
    (throw : ∀ {listener socket rest s s₁ e},
      Serves ready listener socket s s₁ (some .threw) →
      Q ((listener, socket) :: rest) s (.error e s₁))
    (listeners : List (P × S)) (s : RunState P S L T σ) (hs : s.break_ = false) :
    Q listeners s ((runSockets ls ready listeners).run s) := by
  induction listeners generalizing s with
  | nil => exact nil s hs
  | cons x rest ih =>
    obtain ⟨listener, socket⟩ := x
    obtain ⟨s₁, ending, hserves, h⟩ := runSockets_cons ls ready listener socket rest hs
    rcases h with ⟨hbreak, hthrew, hrun⟩ | ⟨rfl, hrun⟩ | ⟨rfl, e, hrun⟩
    · have hs₁ : s₁.break_ = false := by
        cases hserves with
        | idle _ => exact hs
        | empty _ _ _ => exact hs
        | packet _ _ _ ending listeners =>
          have hending : (ending == .returned true) = false := by simpa using hbreak
          simp [RunState.called, RunState.received, hs, hending]
      rw [hrun]
      exact go hserves hbreak hthrew hs hs₁ (ih s₁ hs₁)
    · rw [hrun]
      refine stop hserves ?_
      cases hserves
      simp [RunState.called]
    · rw [hrun]
      exact throw hserves

theorem Serves.calls (h : Serves ready listener socket s s₁ ending) :
    ∃ cs, s₁.calls = s.calls ++ cs ∧ Packets cs ∧ cs.map Called.ending = ending.toList := by
  cases h with
  | idle _ => exact ⟨[], by simp, by simp [Packets], rfl⟩
  | empty _ _ _ => exact ⟨[], by simp [RunState.received], by simp [Packets], rfl⟩
  | @packet d ds _ _ _ ending listeners =>
    refine ⟨[⟨.processPacket listener socket (cut d), ending⟩], rfl, ?_, rfl⟩
    simp [Packets]

theorem runSockets_outcome (ls : Listeners P L σ ε) (ready : S → Bool)
    (listeners : List (P × S)) (s : RunState P S L T σ) (hs : s.break_ = false) :
    ∃ cs, Packets cs ∧ Outcome s ((runSockets ls ready listeners).run s) cs := by
  apply runSockets_induction (Q := fun _ s r => ∃ cs, Packets cs ∧ Outcome s r cs)
  · exact fun s hs => ⟨[], by simp [Packets], s, by simp, .inl ⟨(), rfl, hs, by simp [Quiet]⟩⟩
  · rintro listener socket rest s s₁ ending r hserves hbreak hthrew hs hs₁
      ⟨cs, hpackets, s', hcalls, hend⟩
    obtain ⟨cs₁, hcalls₁, hpackets₁, hending⟩ := hserves.calls
    have hquiet : Quiet cs₁ := by
      intro c hc
      have hmem : c.ending ∈ ending.toList := by
        rw [← hending]
        exact List.mem_map_of_mem hc
      rw [Option.mem_toList] at hmem
      cases hcase : c.ending with
      | threw => exact absurd (hcase ▸ hmem) hthrew
      | returned broken =>
        cases broken with
        | false => rfl
        | true => exact absurd (hcase ▸ hmem) hbreak
    refine ⟨cs₁ ++ cs, List.forall_mem_append.mpr ⟨hpackets₁, hpackets⟩, s', ?_, ?_⟩
    · rw [hcalls, hcalls₁, List.append_assoc]
    · rcases hend with ⟨a, hr, hs', hcs⟩ | ⟨a, hr, hs', hcs⟩ | ⟨e, hr, hcs⟩
      · exact .inl ⟨a, hr, hs', quiet_append.mpr ⟨hquiet, hcs⟩⟩
      · exact .inr (.inl ⟨a, hr, hs', hcs.after hquiet⟩)
      · exact .inr (.inr ⟨e, hr, hcs.after hquiet⟩)
  · rintro listener socket rest s s₁ hserves hs₁
    obtain ⟨cs, hcalls, hpackets, hending⟩ := hserves.calls
    exact ⟨cs, hpackets, s₁, hcalls, .inr (.inl ⟨(), rfl, hs₁, endsWith_of_map hending⟩)⟩
  · rintro listener socket rest s s₁ e hserves
    obtain ⟨cs, hcalls, hpackets, hending⟩ := hserves.calls
    exact ⟨cs, hpackets, s₁, hcalls, .inr (.inr ⟨e, rfl, endsWith_of_map hending⟩)⟩
  · exact hs

/-- The call for the front of a socket. -/
def frontPacket (ready : S → Bool) (waiting : S → List Datagram) (x : P × S) :
    Option (Called P S L T) :=
  if ready x.2 then
    (waiting x.2).head?.bind fun d =>
      if d.bytes = [] then none else some ⟨.processPacket x.1 x.2 (cut d), .returned false⟩
  else none

/-- What stays behind a socket once its front is taken. -/
def waitingBehind (ready : S → Bool) (sockets : List S) (waiting : S → List Datagram) :
    S → List Datagram :=
  fun socket => if socket ∈ sockets ∧ ready socket then (waiting socket).tail else waiting socket

theorem waitingBehind_nil (waiting : S → List Datagram) :
    waitingBehind ready [] waiting = waiting := by
  funext socket
  simp [waitingBehind]

theorem Serves.front (h : Serves ready listener socket s s₁ ending)
    (hbreak : ending ≠ some (.returned true)) (hthrew : ending ≠ some .threw) :
    s₁.calls = s.calls ++ (frontPacket ready s.waiting (listener, socket)).toList ∧
      s₁.waiting = waitingBehind ready [socket] s.waiting := by
  cases h with
  | idle h =>
    rcases h with h | h
    · refine ⟨by simp [frontPacket, h], ?_⟩
      funext socket'
      unfold waitingBehind
      split
      · next hmem =>
        rw [List.mem_singleton.mp hmem.1, h] at hmem
        cases hmem.2
      · rfl
    · refine ⟨by simp [frontPacket, h], ?_⟩
      funext socket'
      unfold waitingBehind
      split
      · next hmem =>
        rw [List.mem_singleton.mp hmem.1, h, List.tail_nil]
      · rfl
  | @empty d ds hready h hempty =>
    refine ⟨by simp [frontPacket, hready, h, hempty, RunState.received], ?_⟩
    funext socket'
    by_cases hsocket : socket' = socket
    · subst hsocket
      simp [RunState.received, waitingBehind, hready, h]
    · simp [RunState.received, waitingBehind, hsocket]
  | @packet d ds hready h hsome ending listeners =>
    have hreturned : ending = .returned false := by
      cases ending with
      | threw => exact absurd rfl hthrew
      | returned broken =>
        cases broken with
        | false => rfl
        | true => exact absurd rfl hbreak
    subst hreturned
    refine ⟨by simp [frontPacket, hready, h, hsome, RunState.received, RunState.called], ?_⟩
    funext socket'
    by_cases hsocket : socket' = socket
    · subst hsocket
      simp [RunState.received, RunState.called, waitingBehind, hready, h]
    · simp [RunState.received, RunState.called, waitingBehind, hsocket]

theorem waitingBehind_cons (waiting : S → List Datagram) {socket : S} {sockets : List S}
    (h : socket ∉ sockets) :
    waitingBehind ready sockets (waitingBehind ready [socket] waiting) =
      waitingBehind ready (socket :: sockets) waiting := by
  funext socket'
  unfold waitingBehind
  by_cases hsocket : socket' = socket
  · subst hsocket
    simp [h]
  · simp [hsocket]

theorem frontPacket_behind (waiting : S → List Datagram) {socket : S} {rest : List (P × S)}
    (h : socket ∉ rest.map Prod.snd) :
    rest.filterMap (frontPacket (T := T) (L := L) ready (waitingBehind ready [socket] waiting)) =
      rest.filterMap (frontPacket ready waiting) := by
  apply List.filterMap_congr
  intro x hx
  have hne : x.2 ≠ socket := fun heq => h (heq ▸ List.mem_map_of_mem hx)
  simp [frontPacket, waitingBehind, hne]

/-- Without a break, each ready socket has given its front to its listener. -/
theorem runSockets_going (listeners : List (P × S)) (s : RunState P S L T σ)
    (hs : s.break_ = false) (hsockets : (listeners.map Prod.snd).Nodup)
    (hrun : (runSockets ls ready listeners).run s = .ok () s') (hs' : s'.break_ = false) :
    s'.calls = s.calls ++ listeners.filterMap (frontPacket ready s.waiting) ∧
      s'.waiting = waitingBehind ready (listeners.map Prod.snd) s.waiting ∧
      s'.timerQueue_ = s.timerQueue_ := by
  suffices hall : ∀ s', (runSockets ls ready listeners).run s = .ok () s' → s'.break_ = false →
      (listeners.map Prod.snd).Nodup →
      s'.calls = s.calls ++ listeners.filterMap (frontPacket ready s.waiting) ∧
        s'.waiting = waitingBehind ready (listeners.map Prod.snd) s.waiting ∧
        s'.timerQueue_ = s.timerQueue_ from
    hall s' hrun hs' hsockets
  apply runSockets_induction (Q := fun listeners s r => ∀ s', r = .ok () s' →
    s'.break_ = false → (listeners.map Prod.snd).Nodup →
    s'.calls = s.calls ++ listeners.filterMap (frontPacket ready s.waiting) ∧
      s'.waiting = waitingBehind ready (listeners.map Prod.snd) s.waiting ∧
      s'.timerQueue_ = s.timerQueue_)
  · rintro s hs _ ⟨⟩ - -
    simp [waitingBehind_nil]
  · intro listener socket rest s s₁ ending r hserves hbreak hthrew hs hs₁ ih s' hr hs' hnodup
    rw [List.map_cons, List.nodup_cons] at hnodup
    obtain ⟨hcalls, hwaiting, hqueue⟩ := ih s' hr hs' hnodup.2
    obtain ⟨hcalls₁, hwaiting₁⟩ := hserves.front hbreak hthrew
    rw [hwaiting₁] at hcalls hwaiting
    rw [frontPacket_behind s.waiting hnodup.1] at hcalls
    refine ⟨?_, ?_, hqueue.trans hserves.timerQueue_⟩
    · rw [hcalls, hcalls₁, List.filterMap_cons]
      cases frontPacket ready s.waiting (listener, socket) <;> simp
    · rw [hwaiting, waitingBehind_cons s.waiting hnodup.1]
      rfl
  · rintro listener socket rest s s₁ hserves hs₁ _ ⟨⟩ hs' -
    rw [hs₁] at hs'
    cases hs'
  · rintro listener socket rest s s₁ e hserves s' hr
    cases hr
  · exact hs

/-! ## What a socket gave -/

/-- The packets that the listeners of a socket got. -/
def packetsOf (socket : S) (cs : List (Called P S L T)) : List Datagram :=
  cs.filterMap fun c =>
    match c.call with
    | .processPacket _ socket' packet => if socket' = socket then some packet else none
    | .timerExpired _ _ => none

theorem packetsOf_append (socket : S) (cs cs' : List (Called P S L T)) :
    packetsOf socket (cs ++ cs') = packetsOf socket cs ++ packetsOf socket cs' :=
  List.filterMap_append

theorem packetsOf_expired (socket : S) (ending : Ending)
    (es : List (T × AttachedTimerListener L)) :
    packetsOf (P := P) socket (es.map (expired ending)) = [] := by
  unfold packetsOf
  simp [expired]

/-- What arrived at a socket is what its listeners got, in its order and without the empty
datagrams, and what still waits. -/
def Conserves (socket : S) (s : RunState P S L T σ) : Prop :=
  ∃ taken, s.arrived socket = taken ++ s.waiting socket ∧
    packetsOf socket s.calls = (taken.filter (·.bytes ≠ [])).map cut

theorem Serves.conserves (h : Serves ready listener socket s s₁ ending) {socket' : S}
    (hs : Conserves socket' s) : Conserves socket' s₁ := by
  obtain ⟨taken, harrived, hpackets⟩ := hs
  cases h with
  | idle _ => exact ⟨taken, harrived, hpackets⟩
  | @empty d ds hready h hempty =>
    by_cases hsocket : socket' = socket
    · subst hsocket
      refine ⟨taken ++ [d], ?_, ?_⟩
      · rw [h] at harrived
        simp [RunState.received, harrived]
      · simp [RunState.received, hpackets, hempty]
    · exact ⟨taken, by simp [RunState.received, harrived, hsocket], hpackets⟩
  | @packet d ds hready h hsome ending listeners =>
    by_cases hsocket : socket' = socket
    · subst hsocket
      refine ⟨taken ++ [d], ?_, ?_⟩
      · rw [h] at harrived
        simp [RunState.received, RunState.called, harrived]
      · rw [RunState.called, RunState.received, packetsOf_append, hpackets]
        simp [packetsOf, hsome]
    · refine ⟨taken, by simp [RunState.received, RunState.called, harrived, hsocket], ?_⟩
      have hother : socket ≠ socket' := fun heq => hsocket heq.symm
      rw [RunState.called, RunState.received, packetsOf_append, hpackets]
      simp [packetsOf, hother]

theorem runSockets_conserves (listeners : List (P × S)) (s : RunState P S L T σ)
    (hs : s.break_ = false) {socket : S} (hconserves : Conserves socket s)
    (hrun : Leaves ((runSockets ls ready listeners).run s) s') : Conserves socket s' := by
  suffices hall : Conserves socket s → ∀ s', Leaves ((runSockets ls ready listeners).run s) s' →
      Conserves socket s' from hall hconserves s' hrun
  apply runSockets_induction (Q := fun _ s r => Conserves socket s → ∀ s', Leaves r s' →
    Conserves socket s')
  · rintro s hs hconserves s' (⟨a, ⟨⟩⟩ | ⟨e, ⟨⟩⟩)
    exact hconserves
  · intro listener socket' rest s s₁ ending r hserves hbreak hthrew hs hs₁ ih hconserves
    exact ih (hserves.conserves hconserves)
  · rintro listener socket' rest s s₁ hserves hs₁ hconserves s' (⟨a, ⟨⟩⟩ | ⟨e, ⟨⟩⟩)
    exact hserves.conserves hconserves
  · rintro listener socket' rest s s₁ e hserves hconserves s' (⟨a, ⟨⟩⟩ | ⟨e, ⟨⟩⟩)
    exact hserves.conserves hconserves
  · exact hs

end sockets

/-! ## The timers of a turn -/

/-- The state of the sockets and of the queue is as it was. -/
structure SameSockets (s s' : RunState P S L T σ) : Prop where
  arrived : s'.arrived = s.arrived
  waiting : s'.waiting = s.waiting
  timerQueue_ : s'.timerQueue_ = s.timerQueue_

theorem SameSockets.same (s : RunState P S L T σ) : SameSockets s s := ⟨rfl, rfl, rfl⟩

theorem SameSockets.trans (h : SameSockets s s₁) (h' : SameSockets s₁ s') : SameSockets s s' :=
  ⟨h'.1.trans h.1, h'.2.trans h.2, h'.3.trans h.3⟩

theorem called_sameSockets (s : RunState P S L T σ) (call : Call P S L T) (ending : Ending)
    (listeners : σ) : SameSockets s (s.called call ending listeners) := ⟨rfl, rfl, rfl⟩

section timers

variable [LinearOrder T] {ls : Listeners P L σ ε} {after : T → Int → T} {now : T}
  {queue : List (T × AttachedTimerListener L)}

/-- The next expiry of a timer. -/
def nextExpiry (after : T → Int → T) (expiry : T) (timer : AttachedTimerListener L) : T :=
  after expiry timer.periodMs

/-- The loop over the queue got through, or it ended with a call that broke or threw. -/
theorem expireTimers_spec (ls : Listeners P L σ ε) (after : T → Int → T) (now : T)
    (queue : List (T × AttachedTimerListener L)) (s : RunState P S L T σ)
    (hs : s.break_ = false) :
    (∃ s', (expireTimers ls after now queue).run s =
          .ok ((taken now queue).map (renewed (nextExpiry after)) ++ kept now queue,
            !(taken now queue).isEmpty) s' ∧
        s'.break_ = false ∧ SameSockets s s' ∧
        s'.calls = s.calls ++ (taken now queue).map (expired (.returned false))) ∨
      ∃ s' pre e post ending, taken now queue = pre ++ e :: post ∧ SameSockets s s' ∧
        s'.calls = s.calls ++ pre.map (expired (.returned false)) ++ [expired ending e] ∧
        ((ending = .returned true ∧ s'.break_ = true ∧
            ∃ r, (expireTimers ls after now queue).run s = .ok r s') ∨
          (ending = .threw ∧ ∃ err, (expireTimers ls after now queue).run s = .error err s')) := by
  induction queue generalizing s with
  | nil =>
    refine .inl ⟨s, rfl, hs, .same s, ?_⟩
    simp [taken]
  | cons e queue ih =>
    obtain ⟨expiry, timer⟩ := e
    rw [expireTimers]
    by_cases hdue : expiry ≤ now
    · have htaken : taken now ((expiry, timer) :: queue) = (expiry, timer) :: taken now queue :=
        List.takeWhile_cons_of_pos (by simpa using hdue)
      have hkept : kept now ((expiry, timer) :: queue) = kept now queue :=
        List.dropWhile_cons_of_pos (by simpa using hdue)
      rw [if_pos hdue, htaken, hkept]
      rcases callListener_bind (.timerExpired expiry timer) (ls.timerExpired timer.listener) hs
          (pure ((expiry, timer) :: queue, false))
          (do
            let rest ← expireTimers ls after now queue
            return ((after expiry timer.periodMs, timer) :: rest.1, true)) with
        ⟨listeners, h⟩ | ⟨listeners, h⟩ | ⟨err, listeners, h⟩
      · rw [h]
        generalize hs₁ : s.called (.timerExpired expiry timer) (.returned false) listeners = s₁
        have hbreak : s₁.break_ = false := by
          subst hs₁
          simp [RunState.called, hs]
        have hsame : SameSockets s s₁ := hs₁ ▸ called_sameSockets _ _ _ _
        have hcalls : s₁.calls = s.calls ++ [expired (.returned false) (expiry, timer)] :=
          hs₁ ▸ rfl
        rcases ih s₁ hbreak with ⟨s', hrun, hs', hsame', hcalls'⟩ |
          ⟨s', pre, e, post, ending, htaken', hsame', hcalls', hend⟩
        · refine .inl ⟨s', ?_, hs', hsame.trans hsame', ?_⟩
          · rw [run_bind_ok hrun]
            rfl
          · rw [hcalls', hcalls]
            simp
        · refine .inr ⟨s', (expiry, timer) :: pre, e, post, ending, ?_, hsame.trans hsame', ?_, ?_⟩
          · rw [htaken', List.cons_append]
          · rw [hcalls', hcalls]
            simp
          · rcases hend with ⟨rfl, hs', r, hrun⟩ | ⟨rfl, err, hrun⟩
            · exact .inl ⟨rfl, hs', _, run_bind_ok hrun⟩
            · exact .inr ⟨rfl, err, run_bind_error hrun⟩
      · rw [h]
        refine .inr ⟨_, [], _, _, .returned true, rfl,
          called_sameSockets s (.timerExpired expiry timer) (.returned true) listeners, ?_, ?_⟩
        · simp [RunState.called, expired]
        · exact .inl ⟨rfl, by simp [RunState.called], _, rfl⟩
      · refine .inr ⟨_, [], _, _, .threw, rfl,
          called_sameSockets s (.timerExpired expiry timer) .threw listeners, ?_, ?_⟩
        · simp [RunState.called, expired]
        · exact .inr ⟨rfl, _, h⟩
    · have htaken : taken now ((expiry, timer) :: queue) = [] :=
        List.takeWhile_cons_of_neg (by simpa using hdue)
      have hkept : kept now ((expiry, timer) :: queue) = (expiry, timer) :: queue :=
        List.dropWhile_cons_of_neg (by simpa using hdue)
      rw [if_neg hdue, htaken, hkept]
      refine .inl ⟨s, rfl, hs, .same s, ?_⟩
      simp

/-- Behind a break, the first timer that is due is called, and no other. -/
theorem expireTimers_broken (ls : Listeners P L σ ε) (after : T → Int → T) (now : T)
    (queue : List (T × AttachedTimerListener L)) (s : RunState P S L T σ)
    (hs : s.break_ = true) :
    (taken now queue = [] ∧ ∃ r, (expireTimers ls after now queue).run s = .ok r s) ∨
      ∃ s' e rest ending, taken now queue = e :: rest ∧ SameSockets s s' ∧ s'.break_ = true ∧
        s'.calls = s.calls ++ [expired ending e] ∧
        ((ending ≠ .threw ∧ ∃ r, (expireTimers ls after now queue).run s = .ok r s') ∨
          (ending = .threw ∧ ∃ err, (expireTimers ls after now queue).run s = .error err s')) := by
  cases queue with
  | nil => exact .inl ⟨rfl, _, rfl⟩
  | cons e queue =>
    obtain ⟨expiry, timer⟩ := e
    rw [expireTimers]
    by_cases hdue : expiry ≤ now
    · have htaken : taken now ((expiry, timer) :: queue) = (expiry, timer) :: taken now queue :=
        List.takeWhile_cons_of_pos (by simpa using hdue)
      rw [if_pos hdue]
      rcases callListener_cases (.timerExpired expiry timer) (ls.timerExpired timer.listener) s with
        ⟨broken, listeners, h⟩ | ⟨err, listeners, h⟩
      · have hbreak : (s.called (.timerExpired expiry timer) (.returned broken)
            listeners).break_ = true := by
          simp [RunState.called, hs]
        refine .inr ⟨_, _, _, .returned broken, htaken,
          called_sameSockets s (.timerExpired expiry timer) (.returned broken) listeners, hbreak,
          rfl, .inl ⟨nofun, ((expiry, timer) :: queue, false), ?_⟩⟩
        rw [run_bind_ok h, run_bind_ok (EStateM.run_get _), if_pos hbreak]
        rfl
      · refine .inr ⟨_, _, _, .threw, htaken,
          called_sameSockets s (.timerExpired expiry timer) .threw listeners, ?_, rfl,
          .inr ⟨rfl, _, run_bind_error h⟩⟩
        simp [RunState.called, hs]
    · have htaken : taken now ((expiry, timer) :: queue) = [] :=
        List.takeWhile_cons_of_neg (by simpa using hdue)
      rw [if_neg hdue]
      exact .inl ⟨htaken, _, rfl⟩

theorem expireTimers_calls (ls : Listeners P L σ ε) (after : T → Int → T) (now : T)
    (queue : List (T × AttachedTimerListener L)) (hs : s.break_ = false) :
    ∃ s' cs, Leaves ((expireTimers ls after now queue).run s) s' ∧ s'.calls = s.calls ++ cs ∧
      WellEnded cs ∧
      ((∃ r, (expireTimers ls after now queue).run s = .ok r s') → s'.break_ = false →
        Quiet cs) := by
  have hquiet : ∀ es : List (T × AttachedTimerListener L),
      Quiet (es.map (expired (P := P) (S := S) (.returned false))) := by
    intro es c hc
    obtain ⟨e, -, rfl⟩ := List.mem_map.mp hc
    rfl
  rcases expireTimers_spec ls after now queue s hs with
    ⟨s', hrun, hs', -, hcalls⟩ | ⟨s', pre, e, post, ending, -, -, hcalls, hend⟩
  · exact ⟨s', _, .inl ⟨_, hrun⟩, hcalls, (hquiet _).wellEnded, fun _ _ => hquiet _⟩
  · rw [List.append_assoc] at hcalls
    have hwell := (hquiet pre).wellEnded_append
      (wellEnded_single (expired (P := P) (S := S) ending e))
    rcases hend with ⟨-, hs', r, hrun⟩ | ⟨-, err, hrun⟩
    · refine ⟨s', _, .inl ⟨r, hrun⟩, hcalls, hwell, fun _ hfalse => ?_⟩
      rw [hs'] at hfalse
      cases hfalse
    · refine ⟨s', _, .inr ⟨err, hrun⟩, hcalls, hwell, ?_⟩
      rintro ⟨r, hok⟩
      rw [hrun] at hok
      cases hok

theorem expireTimers_broken_calls (ls : Listeners P L σ ε) (after : T → Int → T) (now : T)
    (queue : List (T × AttachedTimerListener L)) (hs : s.break_ = true) :
    ∃ s' cs, Leaves ((expireTimers ls after now queue).run s) s' ∧ s'.calls = s.calls ++ cs ∧
      (cs = [] ∨ ∃ e ending, cs = [expired ending e]) ∧ s'.break_ = true := by
  rcases expireTimers_broken ls after now queue s hs with
    ⟨-, r, hrun⟩ | ⟨s', e, rest, ending, -, -, hs', hcalls, hend⟩
  · exact ⟨s, [], .inl ⟨r, hrun⟩, by simp, .inl rfl, hs⟩
  · refine ⟨s', _, ?_, hcalls, .inr ⟨e, ending, rfl⟩, hs'⟩
    rcases hend with ⟨-, r, hrun⟩ | ⟨-, err, hrun⟩
    · exact .inl ⟨r, hrun⟩
    · exact .inr ⟨err, hrun⟩

theorem expireTimers_conserves [DecidableEq S] {socket : S} (h : Conserves socket s)
    (hrun : Leaves ((expireTimers ls after now queue).run s) s') : Conserves socket s' := by
  obtain ⟨taken, harrived, hpackets⟩ := h
  suffices hsame : SameSockets s s' ∧ ∃ cs, s'.calls = s.calls ++ cs ∧ packetsOf socket cs = [] by
    obtain ⟨hsame, cs, hcalls, hcs⟩ := hsame
    refine ⟨taken, by rw [hsame.arrived, hsame.waiting, harrived], ?_⟩
    rw [hcalls, packetsOf_append, hpackets, hcs, List.append_nil]
  have hsingle : ∀ ending (e : T × AttachedTimerListener L),
      packetsOf (P := P) socket [expired ending e] = [] :=
    fun ending e => packetsOf_expired socket ending [e]
  rcases hs : s.break_ with _ | _
  · rcases expireTimers_spec ls after now queue s hs with
      ⟨s₁, hrun₁, -, hsame, hcalls⟩ | ⟨s₁, pre, e, post, ending, -, hsame, hcalls, hend⟩
    · obtain rfl := hrun.eq_of_ok hrun₁
      exact ⟨hsame, _, hcalls, packetsOf_expired _ _ _⟩
    · obtain rfl : s' = s₁ := by
        rcases hend with ⟨-, -, r, hrun₁⟩ | ⟨-, err, hrun₁⟩
        · exact hrun.eq_of_ok hrun₁
        · exact hrun.eq_of_error hrun₁
      rw [List.append_assoc] at hcalls
      refine ⟨hsame, _, hcalls, ?_⟩
      rw [packetsOf_append, packetsOf_expired, hsingle, List.append_nil]
  · rcases expireTimers_broken ls after now queue s hs with
      ⟨-, r, hrun₁⟩ | ⟨s₁, e, rest, ending, -, hsame, -, hcalls, hend⟩
    · obtain rfl := hrun.eq_of_ok hrun₁
      exact ⟨.same _, [], by simp, rfl⟩
    · obtain rfl : s' = s₁ := by
        rcases hend with ⟨-, r, hrun₁⟩ | ⟨-, err, hrun₁⟩
        · exact hrun.eq_of_ok hrun₁
        · exact hrun.eq_of_error hrun₁
      exact ⟨hsame, _, hcalls, hsingle ending e⟩

end timers

/-! ## One turn -/

section turns

variable [DecidableEq S] [LinearOrder T] {ls : Listeners P L σ ε} {after : T → Int → T}
  {sorter : Sorter T (AttachedTimerListener L)} {m : SocketReceiveMultiplexer P S L}
  {t : Turn S T}

/-- All that a turn can do. -/
theorem turn_cases (ls : Listeners P L σ ε) (after : T → Int → T)
    (sorter : Sorter T (AttachedTimerListener L)) (m : SocketReceiveMultiplexer P S L)
    (t : Turn S T) (hs : s.break_ = false) :
    (turn ls after sorter m t).run s = .error .selectFailed (s.arrive t) ∨
      (turn ls after sorter m t).run s = .ok () { s.arrive t with break_ := true } ∨
      (∃ e s₁, (runSockets ls t.ready m.socketListeners_).run (s.arrive t) = .error e s₁ ∧
        (turn ls after sorter m t).run s = .error e s₁) ∨
      ∃ s₁, (runSockets ls t.ready m.socketListeners_).run (s.arrive t) = .ok () s₁ ∧
        ((∃ e s₂, (expireTimers ls after t.now s₁.timerQueue_).run s₁ = .error e s₂ ∧
            (turn ls after sorter m t).run s = .error e s₂) ∨
          ∃ queue s₂, (expireTimers ls after t.now s₁.timerQueue_).run s₁ = .ok queue s₂ ∧
            (turn ls after sorter m t).run s = .ok () { s₂ with
              timerQueue_ := if queue.2 then sorter.sort queue.1 else queue.1 }) := by
  have harrive : (modify fun s => s.arrive t : RunM P S L T σ ε Unit).run s =
      .ok () (s.arrive t) := rfl
  unfold turn
  rw [run_bind_ok harrive]
  by_cases hselect : t.selectFails = true
  · rw [if_pos hselect]
    exact .inl rfl
  · rw [if_neg hselect]
    right
    have hbroken : (modify fun s => { s with break_ := s.break_ || t.broken } :
        RunM P S L T σ ε Unit).run (s.arrive t) =
          .ok () { s.arrive t with break_ := t.broken } := by
      rw [EStateM.run_modify]
      simp [RunState.arrive, hs]
    rw [run_bind_ok hbroken, run_bind_ok (EStateM.run_get _)]
    by_cases hbreak : t.broken = true
    · rw [if_pos hbreak]
      left
      rw [hbreak]
      rfl
    · have hsame : { s.arrive t with break_ := t.broken } = s.arrive t := by
        simp [RunState.arrive, hs, hbreak]
      rw [if_neg hbreak, hsame]
      right
      cases hsockets : (runSockets ls t.ready m.socketListeners_).run (s.arrive t) with
      | error e s₁ => exact .inl ⟨e, s₁, rfl, run_bind_error hsockets⟩
      | ok _ s₁ =>
        right
        refine ⟨s₁, rfl, ?_⟩
        rw [run_bind_ok hsockets, run_bind_ok (EStateM.run_get _)]
        cases htimers : (expireTimers ls after t.now s₁.timerQueue_).run s₁ with
        | error e s₂ => exact .inl ⟨e, s₂, rfl, run_bind_error htimers⟩
        | ok queue s₂ =>
          refine .inr ⟨queue, s₂, rfl, ?_⟩
          rw [run_bind_ok htimers]
          rfl

/-- Where the timers come up, the turn leaves what they leave, but for the sort. -/
theorem turn_leaves {s₂ : RunState P S L T σ}
    (h : (∃ e s₂, (expireTimers ls after t.now s₁.timerQueue_).run s₁ = .error e s₂ ∧
        (turn ls after sorter m t).run s = .error e s₂) ∨
      ∃ queue s₂, (expireTimers ls after t.now s₁.timerQueue_).run s₁ = .ok queue s₂ ∧
        (turn ls after sorter m t).run s = .ok () { s₂ with
          timerQueue_ := if queue.2 then sorter.sort queue.1 else queue.1 })
    (hleaves : Leaves ((expireTimers ls after t.now s₁.timerQueue_).run s₁) s₂) :
    ∃ s', Leaves ((turn ls after sorter m t).run s) s' ∧ s'.calls = s₂.calls ∧
      s'.break_ = s₂.break_ ∧ ((turn ls after sorter m t).run s = .ok () s' →
        ∃ r, (expireTimers ls after t.now s₁.timerQueue_).run s₁ = .ok r s₂) := by
  rcases h with ⟨e, s₂', htimers, h⟩ | ⟨queue, s₂', htimers, h⟩
  · rw [htimers] at hleaves
    obtain ⟨r, ⟨⟩⟩ | ⟨e, ⟨⟩⟩ := hleaves
    refine ⟨s₂, .inr ⟨_, h⟩, rfl, rfl, fun hok => ?_⟩
    rw [h] at hok
    cases hok
  · rw [htimers] at hleaves
    obtain ⟨r, ⟨⟩⟩ | ⟨e, ⟨⟩⟩ := hleaves
    exact ⟨_, .inl ⟨_, h⟩, rfl, rfl, fun _ => ⟨queue, htimers⟩⟩

/-- The calls of a turn. -/
theorem turn_calls (ls : Listeners P L σ ε) (after : T → Int → T)
    (sorter : Sorter T (AttachedTimerListener L)) (m : SocketReceiveMultiplexer P S L)
    (t : Turn S T) (hs : s.break_ = false) :
    ∃ s' cs, Leaves ((turn ls after sorter m t).run s) s' ∧ s'.calls = s.calls ++ cs ∧
      WellEnded cs ∧
      ((turn ls after sorter m t).run s = .ok () s' → s'.break_ = false → Quiet cs) := by
  have hnone : Quiet ([] : List (Called P S L T)) := by simp [Quiet]
  obtain ⟨cs, hpackets, s₁, hcalls, hout⟩ :=
    runSockets_outcome ls t.ready m.socketListeners_ (s.arrive t) hs
  rcases turn_cases ls after sorter m t hs with
    h | h | ⟨e, s₁', hsockets, h⟩ | ⟨s₁', hsockets, h⟩
  · exact ⟨_, [], .inr ⟨_, h⟩, by simp [RunState.arrive], hnone.wellEnded, fun _ _ => hnone⟩
  · exact ⟨_, [], .inl ⟨_, h⟩, by simp [RunState.arrive], hnone.wellEnded, fun _ _ => hnone⟩
  · rw [hsockets] at hout
    rcases hout with ⟨a, ⟨⟩, -⟩ | ⟨a, ⟨⟩, -⟩ | ⟨e', ⟨⟩, hcs⟩
    refine ⟨s₁, cs, .inr ⟨_, h⟩, hcalls, hcs.wellEnded, fun hok => ?_⟩
    rw [h] at hok
    cases hok
  · rw [hsockets] at hout
    rcases hout with ⟨a, ⟨⟩, hbreak, hquiet⟩ | ⟨a, ⟨⟩, hbreak, hcs⟩ | ⟨e', ⟨⟩, -⟩
    · obtain ⟨s₂, cs', hleaves, hcalls', hwell, hgoing⟩ :=
        expireTimers_calls ls after t.now s₁.timerQueue_ hbreak
      obtain ⟨s', hturn, hsame, hbreak', hok⟩ :=
        turn_leaves h hleaves
      refine ⟨s', cs ++ cs', hturn, ?_, hquiet.wellEnded_append hwell, fun hrun hs' => ?_⟩
      · rw [hsame, hcalls', hcalls, List.append_assoc]
        rfl
      · exact quiet_append.mpr ⟨hquiet, hgoing (hok hrun) (hbreak'.symm.trans hs')⟩
    · obtain ⟨s₂, cs', hleaves, hcalls', hone, hbreak₂⟩ :=
        expireTimers_broken_calls ls after t.now s₁.timerQueue_ hbreak
      obtain ⟨s', hturn, hsame, hbreak', -⟩ := turn_leaves h hleaves
      refine ⟨s', cs ++ cs', hturn, ?_, ?_, fun _ hs' => ?_⟩
      · rw [hsame, hcalls', hcalls, List.append_assoc]
        rfl
      · rcases hone with rfl | ⟨e, ending, rfl⟩
        · rw [List.append_nil]
          exact hcs.wellEnded
        · exact hcs.wellEnded_timer hpackets ending e
      · rw [hbreak', hbreak₂] at hs'
        cases hs'

/-- The sockets and the queue behind a turn without a break. -/
theorem turn_going (hs : s.break_ = false) (hsockets : (m.socketListeners_.map Prod.snd).Nodup)
    (hrun : (turn ls after sorter m t).run s = .ok () s') (hs' : s'.break_ = false) :
    s'.waiting = waitingBehind t.ready (m.socketListeners_.map Prod.snd) (s.arrive t).waiting ∧
      s'.calls = s.calls ++
        m.socketListeners_.filterMap (frontPacket t.ready (s.arrive t).waiting) ++
        (taken t.now s.timerQueue_).map (expired (.returned false)) ∧
      (Ordered s.timerQueue_ → Ordered s'.timerQueue_) ∧
      s'.timerQueue_.Perm
        ((taken t.now s.timerQueue_).map (renewed (nextExpiry after)) ++
          kept t.now s.timerQueue_) := by
  rcases turn_cases ls after sorter m t hs with
    h | h | ⟨e, s₁, -, h⟩ | ⟨s₁, hrun₁, ⟨e, s₂, -, h⟩ | ⟨queue, s₂, hrun₂, h⟩⟩
  · rw [h] at hrun
    cases hrun
  · rw [h] at hrun
    cases hrun
    cases hs'
  · rw [h] at hrun
    cases hrun
  · rw [h] at hrun
    cases hrun
  · rw [h] at hrun
    cases hrun
    have hs₂ : s₂.break_ = false := hs'
    have hs₁ : s₁.break_ = false := by
      rcases hbreak : s₁.break_ with _ | _
      · rfl
      · obtain ⟨s₃, cs, hleaves, -, -, hs₃⟩ :=
          expireTimers_broken_calls ls after t.now s₁.timerQueue_ hbreak
        rw [hrun₂] at hleaves
        obtain ⟨r, ⟨⟩⟩ | ⟨e, ⟨⟩⟩ := hleaves
        rw [hs₂] at hs₃
        cases hs₃
    obtain ⟨hcalls₁, hwaiting₁, hqueue₁⟩ := runSockets_going m.socketListeners_ (s.arrive t) hs
      hsockets hrun₁ hs₁
    have hqueue : s₁.timerQueue_ = s.timerQueue_ := hqueue₁
    rcases expireTimers_spec ls after t.now s₁.timerQueue_ s₁ hs₁ with
      ⟨s₃, hrun₃, -, hsame, hcalls₃⟩ | ⟨s₃, pre, e, post, ending, -, -, -, hend⟩
    · rw [hrun₂] at hrun₃
      cases hrun₃
      rw [hqueue] at hcalls₃ ⊢
      refine ⟨hsame.waiting.trans hwaiting₁, hcalls₃.trans (by rw [hcalls₁]; rfl), ?_, ?_⟩
      · intro hordered
        by_cases htaken : taken t.now s.timerQueue_ = []
        · have hkept : kept t.now s.timerQueue_ = s.timerQueue_ := by
            have hall := List.takeWhile_append_dropWhile (p := (decide <| ·.1 ≤ t.now))
              (l := s.timerQueue_)
            unfold taken at htaken
            rwa [htaken, List.nil_append] at hall
          simpa [htaken, hkept] using hordered
        · simp only [List.isEmpty_eq_false_iff.mpr htaken, Bool.not_false, if_true]
          exact sorter.ordered _
      · split
        · exact sorter.perm _
        · exact .refl _
    · rcases hend with ⟨-, hs₃, r, hrun₃⟩ | ⟨-, err, hrun₃⟩
      · rw [hrun₂] at hrun₃
        cases hrun₃
        rw [hs₂] at hs₃
        cases hs₃
      · rw [hrun₂] at hrun₃
        cases hrun₃

theorem turn_conserves {socket : S} (hs : s.break_ = false) (h : Conserves socket s)
    (hrun : Leaves ((turn ls after sorter m t).run s) s') : Conserves socket s' := by
  have harrive : Conserves socket (s.arrive t) := by
    obtain ⟨taken, harrived, hpackets⟩ := h
    refine ⟨taken, ?_, hpackets⟩
    simp [RunState.arrive, harrived]
  rcases turn_cases ls after sorter m t hs with
    h | h | ⟨e, s₁, hsockets, h⟩ | ⟨s₁, hsockets, h⟩
  · rwa [hrun.eq_of_error h]
  · rw [hrun.eq_of_ok h]
    exact harrive
  · rw [hrun.eq_of_error h]
    exact runSockets_conserves _ (s.arrive t) hs harrive (.inr ⟨e, hsockets⟩)
  · have hfirst : Conserves socket s₁ :=
      runSockets_conserves _ (s.arrive t) hs harrive (.inl ⟨(), hsockets⟩)
    rcases h with ⟨e, s₂, htimers, h⟩ | ⟨queue, s₂, htimers, h⟩
    · rw [hrun.eq_of_error h]
      exact expireTimers_conserves hfirst (.inr ⟨e, htimers⟩)
    · have hlast : Conserves socket s₂ := expireTimers_conserves hfirst (.inl ⟨queue, htimers⟩)
      rw [hrun.eq_of_ok h]
      exact hlast

end turns

end SocketReceiveMultiplexer

end esc_platform.osc
