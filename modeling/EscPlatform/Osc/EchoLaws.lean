-- The echo client answers each message once, in order, whatever the order of
-- its two threads, and what it has not answered yet it still has.
import EscPlatform.Osc.EchoClient
import EscPlatform.Osc.EchoSizes

namespace esc_platform.osc

open bytes runs

/-! ## What is owed -/

def EchoLoop.inHand : EchoLoop → List Message
  | .polling | .taking => []
  | .setting msg | .sending msg => [msg]

namespace EchoClient

/-- The messages that were decoded and are not answered, the oldest first. -/
def pending (s : EchoClient) : List Message :=
  s.loop.inHand ++ s.listener.mMessages ++ s.receiving

/-- The answer that the loop gives to a message. -/
def answer (gethostbyname : String → Option UInt32) (m : Message) : UdpPacket :=
  echoOf (replyAddr gethostbyname m) m

/-- `setup` and `sendMessage` throw nothing on the message. -/
structure Answerable (gethostbyname : String → Option UInt32) (connects : SockaddrIn → Bool)
    (m : Message) : Prop where
  connects : connects (replyAddr gethostbyname m) = true
  fits : (encBundle (.mk [m] [])).length ≤ 16384

/-- What was sent, and then what is owed for the messages and the datagrams that wait, is `A`. -/
structure Owes (gethostbyname : String → Option UInt32) (connects : SockaddrIn → Bool)
    (A : List UdpPacket) (s : EchoClient) : Prop where
  running : s.terminated = false
  fine : s.throwing = false
  queueing : s.listener.mCallbackFn = false
  taking : s.loop = .taking → s.listener.mMessages ≠ []
  connected : ∀ m, s.loop = .sending m → s.connectedAddr_ = some (replyAddr gethostbyname m)
  answerable : ∀ m ∈ s.pending, Answerable gethostbyname connects m
  owed : ∃ queued, List.Forall₂ (Heard connects) s.socketQueue queued ∧
    s.sent ++ s.pending.map (answer gethostbyname) ++ echoes s.socketQueue queued = A

variable {gethostbyname : String → Option UInt32} {connects : SockaddrIn → Bool} {fuel : Nat}
  {s : EchoClient} {A : List UdpPacket} {p : UdpPacket} {ps : List UdpPacket} {ms : List Message}

theorem owes_start (gethostbyname : String → Option UInt32) (connects : SockaddrIn → Bool)
    (data : Memory) : Owes gethostbyname connects [] { data := data } where
  running := rfl
  fine := rfl
  queueing := rfl
  taking := by simp
  connected := by simp
  answerable := by simp [pending, EchoLoop.inHand]
  owed := ⟨[], .nil, rfl⟩

theorem echoes_append {qs : List UdpPacket} {mss nss : List (List Message)}
    (h : ps.length = mss.length) :
    echoes (ps ++ qs) (mss ++ nss) = echoes ps mss ++ echoes qs nss := by
  induction ps generalizing mss with
  | nil =>
    obtain rfl := List.length_eq_zero_iff.mp h.symm
    rfl
  | cons p ps ih =>
    cases mss with
    | nil => cases h
    | cons ms mss =>
      rw [List.cons_append, List.cons_append, echoes, echoes, ih (Nat.succ.inj h),
        List.append_assoc]

/-! ## Arrivals -/

/-- The messages of a datagram as the listener queues them. -/
def heardFrom (p : UdpPacket) (ms : List Message) : List Message :=
  ms.map (·.setRemoteEndpoint (receivedFrom p.peer).addressAsString (receivedFrom p.peer).port)

theorem replyAddr_heard (hread : ReadsDottedDecimals gethostbyname)
    (haddress : p.peer.sin_addr ≠ 0xFFFFFFFF) (m : Message) :
    replyAddr gethostbyname (m.setRemoteEndpoint (receivedFrom p.peer).addressAsString
      (receivedFrom p.peer).port) = p.peer :=
  sockaddr_of_received hread haddress

theorem answer_heard (hread : ReadsDottedDecimals gethostbyname)
    (haddress : p.peer.sin_addr ≠ 0xFFFFFFFF) (ms : List Message) :
    (heardFrom p ms).map (answer gethostbyname) = ms.map (echoOf p.peer) := by
  unfold heardFrom
  rw [List.map_map]
  apply List.map_congr_left
  intro m _
  have haddr := replyAddr_heard hread haddress m
  simp only [Function.comp_apply, answer, haddr]
  rfl

theorem heard_answerable (hread : ReadsDottedDecimals gethostbyname) (h : Heard connects p ms) :
    ∀ m ∈ heardFrom p ms, Answerable gethostbyname connects m := by
  intro m' hm'
  obtain ⟨m, hm, rfl⟩ := List.mem_map.mp hm'
  refine ⟨?_, ?_⟩
  · rw [replyAddr_heard hread h.address]
    exact h.connects
  · rcases h.packet with ⟨-, rfl⟩ | hpacket
    · cases hm
    · have hle := echo_le hpacket hm
      have hlength := received_length ⟨p.bytes, receivedFrom p.peer⟩
      have hsame : encBundle (.mk [m.setRemoteEndpoint (receivedFrom p.peer).addressAsString
          (receivedFrom p.peer).port] []) = encBundle (.mk [m] []) := rfl
      rw [hsame]
      omega

/-- A datagram of the format is taken without an exception. -/
theorem receive_heard (hfuel : 2 * 4098 < fuel) (hq : s.socketQueue = p :: ps)
    (hr : s.receiving = []) (h : Heard connects p ms) :
    ∃ data, s.receive fuel =
      { s with socketQueue := ps, data := data, receiving := heardFrom p ms } := by
  have hlength := received_length ⟨p.bytes, receivedFrom p.peer⟩
  have hsize : (receiveFrom s.data ⟨p.bytes, receivedFrom p.peer⟩).2 =
      (Datagram.mk p.bytes (receivedFrom p.peer)).received.length := rfl
  refine ⟨(receiveFrom s.data ⟨p.bytes, receivedFrom p.peer⟩).1, ?_⟩
  unfold receive
  rw [hq]
  dsimp only
  rw [hsize]
  rcases h.packet with ⟨hnil, rfl⟩ | hpacket
  · rw [hnil, if_neg (by simp), heardFrom, List.map_nil, ← hr]
  · have hne : (Datagram.mk p.bytes (receivedFrom p.peer)).received ≠ [] := by
      intro hnil
      rw [hnil] at hpacket
      exact packet_ne_nil hpacket
    have hrun := @processPacket_run _ _ _ (receivedFrom p.peer) {} _ _ hpacket
      (receiveFrom_slice s.data _) (by omega) (show _ < fuel by omega) (show _ < fuel by omega)
    rw [deliverAll_queue _ _ rfl, List.nil_append] at hrun
    rw [if_pos (List.length_pos_iff.mpr hne), hrun]
    rfl

/-! ## Steps -/

section steps

variable {a : EchoStep}

theorem Owes.arrive (h : Owes gethostbyname connects A s) (hp : Heard connects p ms) :
    Owes gethostbyname connects (A ++ ms.map (echoOf p.peer))
      (step gethostbyname connects fuel s (.arrive p)) := by
  obtain ⟨queued, hqueued, howed⟩ := h.owed
  have hstep : step gethostbyname connects fuel s (.arrive p) =
      { s with socketQueue := s.socketQueue ++ [p] } := by
    unfold step
    rw [h.running]
    rfl
  rw [hstep]
  refine ⟨h.running, h.fine, h.queueing, h.taking, h.connected, h.answerable,
    queued ++ [ms], List.rel_append hqueued (.cons hp .nil), ?_⟩
  have hechoes : echoes [p] [ms] = ms.map (echoOf p.peer) := List.append_nil _
  rw [echoes_append hqueued.length_eq, hechoes, ← howed, List.append_assoc _ _ (ms.map _)]
  rfl

theorem deliver_queueing {l : OscListener} (h : l.mCallbackFn = false) (m : Message) :
    l.deliver m = { l with mMessages := l.mMessages ++ [m] } := by
  unfold OscListener.deliver
  exact if_neg (by simp [h])

/-- The receiving thread queues its next message. -/
theorem Owes.enqueue (h : Owes gethostbyname connects A s) {m : Message}
    (hr : s.receiving = m :: ms) :
    Owes gethostbyname connects A
      { s with receiving := ms, listener := s.listener.deliver m } := by
  rw [deliver_queueing h.queueing]
  have hpending : pending { s with
      receiving := ms
      listener := { s.listener with mMessages := s.listener.mMessages ++ [m] } } = s.pending := by
    simp [pending, hr]
  refine ⟨h.running, h.fine, h.queueing, fun _ => by simp, h.connected, ?_, ?_⟩
  · rw [hpending]
    exact h.answerable
  · rw [hpending]
    exact h.owed

/-- The receiving thread takes the next datagram. -/
theorem Owes.receive (hread : ReadsDottedDecimals gethostbyname) (hfuel : 2 * 4098 < fuel)
    (h : Owes gethostbyname connects A s) (hr : s.receiving = []) :
    Owes gethostbyname connects A (s.receive fuel) := by
  cases hq : s.socketQueue with
  | nil =>
    have hstay : s.receive fuel = s := by
      unfold EchoClient.receive
      rw [hq]
    rwa [hstay]
  | cons p ps =>
    obtain ⟨queued, hqueued, howed⟩ := h.owed
    rw [hq] at hqueued howed
    obtain ⟨ms, queued, hp, hps, rfl⟩ := List.forall₂_cons_left_iff.mp hqueued
    obtain ⟨data, hreceive⟩ := receive_heard hfuel hq hr hp
    rw [hreceive]
    have hpending : pending { s with
        socketQueue := ps
        data := data
        receiving := heardFrom p ms } = s.pending ++ heardFrom p ms := by
      simp [pending, hr]
    refine ⟨h.running, h.fine, h.queueing, h.taking, h.connected, ?_, queued, hps, ?_⟩
    · intro m hm
      rw [hpending] at hm
      rcases List.mem_append.mp hm with hm | hm
      · exact h.answerable m hm
      · exact heard_answerable hread hp m hm
    · rw [hpending, List.map_append, answer_heard hread hp.address, ← howed, echoes]
      simp only [List.append_assoc]

theorem Owes.receiver (hread : ReadsDottedDecimals gethostbyname) (hfuel : 2 * 4098 < fuel)
    (h : Owes gethostbyname connects A s) :
    Owes gethostbyname connects A (s.stepReceiver fuel) := by
  unfold stepReceiver
  cases hr : s.receiving with
  | nil =>
    dsimp only
    rw [h.fine]
    exact h.receive hread hfuel hr
  | cons m ms => exact h.enqueue hr

/-- The loop goes on where it stands on the same messages. -/
theorem Owes.at_loop (h : Owes gethostbyname connects A s) {loop : EchoLoop}
    {addr : Option SockaddrIn} (hhand : loop.inHand = s.loop.inHand)
    (htaking : loop = .taking → s.listener.mMessages ≠ [])
    (haddr : ∀ m, loop = .sending m → addr = some (replyAddr gethostbyname m)) :
    Owes gethostbyname connects A { s with connectedAddr_ := addr, loop := loop } := by
  have hpending : pending { s with connectedAddr_ := addr, loop := loop } = s.pending := by
    simp [pending, hhand]
  refine ⟨h.running, h.fine, h.queueing, htaking, haddr, ?_, ?_⟩
  · rw [hpending]
    exact h.answerable
  · rw [hpending]
    exact h.owed

/-- `getNextMessage` gives the oldest message. -/
theorem Owes.take (h : Owes gethostbyname connects A s) (hloop : s.loop = .taking)
    {m : Message} (hm : s.listener.mMessages = m :: ms) :
    Owes gethostbyname connects A
      { s with listener := { s.listener with mMessages := ms }, loop := .setting m } := by
  have hpending : pending { s with
      listener := { s.listener with mMessages := ms }
      loop := .setting m } = s.pending := by
    simp [pending, hloop, hm, EchoLoop.inHand]
  refine ⟨h.running, h.fine, h.queueing, by simp, by simp, ?_, ?_⟩
  · rw [hpending]
    exact h.answerable
  · rw [hpending]
    exact h.owed

/-- The answer to the message in hand is sent. -/
theorem Owes.send (h : Owes gethostbyname connects A s) {m : Message}
    (hloop : s.loop = .sending m) :
    Owes gethostbyname connects A
      { s with sent := s.sent ++ [answer gethostbyname m], loop := .polling } := by
  obtain ⟨queued, hqueued, howed⟩ := h.owed
  have hpending : s.pending = m :: pending { s with
      sent := s.sent ++ [answer gethostbyname m]
      loop := .polling } := by
    simp [pending, hloop, EchoLoop.inHand]
  refine ⟨h.running, h.fine, h.queueing, by simp, by simp, ?_, queued, hqueued, ?_⟩
  · intro m' hm'
    apply h.answerable m'
    rw [hpending]
    exact List.mem_cons_of_mem m hm'
  · rw [hpending, List.map_cons] at howed
    rw [← howed]
    simp

theorem Owes.in_hand (h : Owes gethostbyname connects A s) {m : Message}
    (hloop : s.loop.inHand = [m]) : Answerable gethostbyname connects m := by
  apply h.answerable
  simp [pending, hloop]

/-- The loop as it goes while nothing throws. -/
def goOn (gethostbyname : String → Option UInt32) (s : EchoClient) : EchoClient :=
  match s.loop with
  | .polling => if s.listener.mMessages = [] then s else { s with loop := .taking }
  | .taking => { s with
      listener := { s.listener with mMessages := s.listener.mMessages.tail }
      loop := .setting (s.listener.mMessages.headD { address := [], args := [] }) }
  | .setting m => { s with connectedAddr_ := some (replyAddr gethostbyname m), loop := .sending m }
  | .sending m => { s with sent := s.sent ++ [answer gethostbyname m], loop := .polling }

theorem stepLoop_eq (h : Owes gethostbyname connects A s) (buffer : OutputBuffer 16384) :
    s.stepLoop gethostbyname connects buffer = s.goOn gethostbyname := by
  unfold stepLoop goOn
  cases hloop : s.loop with
  | polling =>
    dsimp only
    unfold OscListener.hasWaitingMessages
    cases s.listener.mMessages with
    | nil => simp
    | cons m ms => simp
  | taking =>
    have hne := h.taking hloop
    dsimp only
    unfold OscListener.getNextMessage
    cases hm : s.listener.mMessages with
    | nil => exact absurd hm hne
    | cons m ms =>
      have hcopy : (Message.mk [] [] "" 0).copy m = m := (Message.copy_eq_iff _ _).mpr rfl
      simp [hcopy]
  | setting m =>
    have hm := h.in_hand (m := m) (by rw [hloop]; rfl)
    simp [hm.connects]
  | sending m =>
    have hm := h.in_hand (m := m) (by rw [hloop]; rfl)
    dsimp only
    rw [sendMessage_writes buffer m hm.fits, h.connected m hloop]
    rfl

theorem Owes.loop (h : Owes gethostbyname connects A s) (buffer : OutputBuffer 16384) :
    Owes gethostbyname connects A (s.stepLoop gethostbyname connects buffer) := by
  rw [stepLoop_eq h]
  unfold goOn
  cases hloop : s.loop with
  | polling =>
    dsimp only
    split
    · exact h
    · next hne => exact h.at_loop (by rw [hloop]; rfl) (fun _ => hne) (by simp)
  | taking =>
    cases hm : s.listener.mMessages with
    | nil => exact absurd hm (h.taking hloop)
    | cons m ms => exact h.take hloop hm
  | setting m =>
    exact h.at_loop (by rw [hloop]; rfl) (by simp) (by simp)
  | sending m => exact h.send hloop

/-- Every step keeps the account. An arrival adds its answers to it. -/
theorem Owes.step (hread : ReadsDottedDecimals gethostbyname) (hfuel : 2 * 4098 < fuel)
    (h : Owes gethostbyname connects A s) (ha : a.arrival = none) :
    Owes gethostbyname connects A (step gethostbyname connects fuel s a) := by
  unfold EchoClient.step
  rw [h.running]
  cases a with
  | arrive p => cases ha
  | receiver => exact h.receiver hread hfuel
  | main buffer => exact h.loop buffer

theorem Owes.run (hread : ReadsDottedDecimals gethostbyname) (hfuel : 2 * 4098 < fuel)
    {as : List EchoStep} {mss : List (List Message)}
    (hheard : List.Forall₂ (Heard connects) (arrivals as) mss)
    (h : Owes gethostbyname connects A s) :
    Owes gethostbyname connects (A ++ echoes (arrivals as) mss)
      (runs.run (EchoClient.step gethostbyname connects fuel) s as) := by
  induction as generalizing s A mss with
  | nil =>
    cases hheard
    simpa [echoes] using h
  | cons a as ih =>
    cases ha : a.arrival with
    | none =>
      have hsame : arrivals (a :: as) = arrivals as := List.filterMap_cons_none ha
      rw [hsame] at hheard ⊢
      exact ih hheard (h.step hread hfuel ha)
    | some p =>
      obtain rfl : a = .arrive p := by
        cases a with
        | arrive q =>
          cases ha
          rfl
        | receiver => cases ha
        | main buffer => cases ha
      have hcons : arrivals (.arrive p :: as) = p :: arrivals as := rfl
      rw [hcons] at hheard ⊢
      obtain ⟨ms, mss, hp, hrest, rfl⟩ := List.forall₂_cons_left_iff.mp hheard
      rw [echoes, ← List.append_assoc]
      exact ih hrest (h.arrive hp)

end steps

/-! ## Turns -/

inductive EchoThread
  | receiver | main
  deriving DecidableEq, Repr

def thread : EchoStep → EchoThread
  | .arrive _ | .receiver => .receiver
  | .main _ => .main

def busy : EchoThread → EchoClient → Prop
  | .receiver, s => s.socketQueue ≠ [] ∨ s.receiving ≠ []
  | .main, s => s.listener.mMessages ≠ [] ∨ s.loop ≠ .polling

/-- The steps to the end of an answer, with the one of an empty loop. -/
def loopCost : EchoLoop → Nat
  | .polling => 1
  | .taking => 0
  | .setting _ => 3
  | .sending _ => 2

/-- The steps that are left: one for each datagram, five for each message in front of the queue
and four for each in it. -/
def rank (A : List UdpPacket) (s : EchoClient) : Nat :=
  s.socketQueue.length + 5 * (A.length - s.sent.length - s.pending.length) +
    5 * s.receiving.length + 4 * s.listener.mMessages.length + loopCost s.loop - 1

theorem Owes.length_le (h : Owes gethostbyname connects A s) :
    s.sent.length + s.pending.length ≤ A.length := by
  obtain ⟨queued, -, howed⟩ := h.owed
  rw [← howed, List.length_append, List.length_append, List.length_map]
  omega

theorem pending_length (s : EchoClient) : s.pending.length =
    s.loop.inHand.length + s.listener.mMessages.length + s.receiving.length := by
  unfold pending
  rw [List.length_append, List.length_append]

/-- A loop that takes a message has one. -/
theorem Owes.cost (h : Owes gethostbyname connects A s) :
    1 ≤ 4 * s.listener.mMessages.length + loopCost s.loop := by
  cases hloop : s.loop with
  | taking =>
    have hpos := List.length_pos_iff.mpr (h.taking hloop)
    omega
  | polling | setting m | sending m =>
    simp only [loopCost]
    omega

theorem stepReceiver_idle (hfine : s.throwing = false) (h : ¬ busy .receiver s) :
    s.stepReceiver fuel = s := by
  simp only [busy, not_or, ne_eq, not_not] at h
  unfold stepReceiver
  rw [h.2]
  dsimp only
  rw [hfine, if_neg (by simp)]
  unfold receive
  rw [h.1]

theorem rank_receiver (hread : ReadsDottedDecimals gethostbyname) (hfuel : 2 * 4098 < fuel)
    (h : Owes gethostbyname connects A s) (hbusy : busy .receiver s) :
    rank A (s.stepReceiver fuel) < rank A s := by
  have hafter := (h.receiver hread hfuel).length_le
  have hcost := h.cost
  have hpending := pending_length s
  have hbefore := h.length_le
  unfold stepReceiver at hafter ⊢
  cases hr : s.receiving with
  | cons m ms =>
    rw [hr] at hpending
    dsimp only
    rw [deliver_queueing h.queueing]
    simp only [rank, hr, pending_length, List.length_append, List.length_cons,
      List.length_nil] at hpending ⊢
    omega
  | nil =>
    rw [hr] at hafter
    simp only [busy, hr, ne_eq, not_true, or_false] at hbusy
    obtain ⟨p, ps, hq⟩ := List.exists_cons_of_ne_nil hbusy
    obtain ⟨queued, hqueued, -⟩ := h.owed
    rw [hq] at hqueued
    obtain ⟨ms, queued, hp, hps, rfl⟩ := List.forall₂_cons_left_iff.mp hqueued
    obtain ⟨data, hreceive⟩ := receive_heard hfuel hq hr hp
    dsimp only at hafter ⊢
    rw [h.fine, if_neg (by simp), hreceive] at hafter ⊢
    simp only [rank, hq, hr, pending_length, List.length_cons, List.length_nil] at hafter hpending ⊢
    omega

theorem goOn_idle (h : ¬ busy .main s) : s.goOn gethostbyname = s := by
  simp only [busy, not_or, ne_eq, not_not] at h
  unfold goOn
  rw [h.2]
  exact if_pos h.1

theorem rank_loop (h : Owes gethostbyname connects A s) (hbusy : busy .main s) :
    rank A (s.goOn gethostbyname) < rank A s := by
  have hcost := h.cost
  have hbefore := h.length_le
  unfold goOn
  cases hloop : s.loop with
  | polling =>
    simp only [busy, hloop, ne_eq, not_true, or_false] at hbusy
    have hpos := List.length_pos_iff.mpr hbusy
    dsimp only
    rw [if_neg hbusy]
    simp only [rank, pending_length, hloop, loopCost, EchoLoop.inHand] at hbefore ⊢
    omega
  | taking =>
    obtain ⟨m, ms, hm⟩ := List.exists_cons_of_ne_nil (h.taking hloop)
    simp only [rank, pending_length, hloop, hm, loopCost, EchoLoop.inHand, List.tail_cons,
      List.length_cons, List.length_nil] at hbefore ⊢
    omega
  | setting m =>
    simp only [rank, pending_length, hloop, loopCost, EchoLoop.inHand] at hbefore ⊢
    omega
  | sending m =>
    simp only [rank, pending_length, hloop, loopCost, EchoLoop.inHand, List.length_append,
      List.length_cons, List.length_nil] at hbefore ⊢
    omega

theorem step_receiver (h : Owes gethostbyname connects A s) :
    step gethostbyname connects fuel s .receiver = s.stepReceiver fuel := by
  unfold step
  rw [h.running]
  rfl

theorem step_main (h : Owes gethostbyname connects A s) (buffer : OutputBuffer 16384) :
    step gethostbyname connects fuel s (.main buffer) = s.goOn gethostbyname := by
  unfold step
  rw [h.running]
  exact stepLoop_eq h buffer

/-- The receiving thread takes nothing from the loop. -/
theorem receiver_waits (hfuel : 2 * 4098 < fuel) (h : Owes gethostbyname connects A s)
    (hbusy : busy .main s) : busy .main (s.stepReceiver fuel) := by
  unfold stepReceiver
  cases hr : s.receiving with
  | cons m ms =>
    dsimp only
    rw [deliver_queueing h.queueing]
    exact .inl (by simp)
  | nil =>
    dsimp only
    rw [h.fine, if_neg (by simp)]
    cases hq : s.socketQueue with
    | nil =>
      unfold receive
      rwa [hq]
    | cons p ps =>
      obtain ⟨queued, hqueued, -⟩ := h.owed
      rw [hq] at hqueued
      obtain ⟨ms, queued, hp, -, rfl⟩ := List.forall₂_cons_left_iff.mp hqueued
      obtain ⟨data, hreceive⟩ := receive_heard hfuel hq hr hp
      rw [hreceive]
      exact hbusy

/-- The loop takes nothing from the receiving thread. -/
theorem loop_waits (hbusy : busy .receiver s) : busy .receiver (s.goOn gethostbyname) := by
  unfold goOn
  cases s.loop with
  | polling =>
    dsimp only
    split
    · exact hbusy
    · exact hbusy
  | taking | setting m | sending m => exact hbusy

/-- Where the rank is not zero, a thread has work. -/
theorem works (h : Owes gethostbyname connects A s) (hrank : 0 < rank A s) : ∃ i, busy i s := by
  by_contra hidle
  rw [not_exists] at hidle
  have hreceiver := hidle .receiver
  have hmain := hidle .main
  simp only [busy, not_or, ne_eq, not_not] at hreceiver hmain
  obtain ⟨queued, hqueued, howed⟩ := h.owed
  have hlength := congrArg List.length howed
  rw [hreceiver.1] at hqueued hlength
  cases hqueued
  simp only [List.length_append, List.length_map, echoes, List.length_nil] at hlength
  simp only [rank, hreceiver, hmain, loopCost, List.length_nil] at hrank
  omega

theorem takesTurns (hread : ReadsDottedDecimals gethostbyname) (hfuel : 2 * 4098 < fuel)
    (A : List UdpPacket) :
    TakesTurns (step gethostbyname connects fuel) thread (fun a => a.arrival = none)
      (Owes gethostbyname connects A) busy (rank A) where
  keeps s a ha h := h.step hread hfuel ha
  lowers s a ha h hbusy := by
    cases a with
    | arrive p => cases ha
    | receiver =>
      rw [step_receiver h]
      exact rank_receiver hread hfuel h hbusy
    | main buffer =>
      rw [step_main h]
      exact rank_loop h hbusy
  stays s a ha h := by
    cases a with
    | arrive p => cases ha
    | receiver =>
      rw [step_receiver h]
      by_cases hbusy : busy .receiver s
      · exact (rank_receiver hread hfuel h hbusy).le
      · rw [stepReceiver_idle h.fine hbusy]
    | main buffer =>
      rw [step_main h]
      by_cases hbusy : busy .main s
      · exact (rank_loop h hbusy).le
      · rw [goOn_idle hbusy]
  waits s a i ha h hi hbusy := by
    cases a with
    | arrive p => cases ha
    | receiver =>
      rw [step_receiver h]
      cases i with
      | receiver => exact absurd rfl hi
      | main => exact receiver_waits hfuel h hbusy
    | main buffer =>
      rw [step_main h]
      cases i with
      | receiver => exact loop_waits hbusy
      | main => exact absurd rfl hi
  works s h hrank := works h hrank

/-- Nothing is owed where no step is left. -/
theorem Owes.paid (h : Owes gethostbyname connects A s) (hrank : rank A s = 0) : s.sent = A := by
  have hcost := h.cost
  have hlength := h.length_le
  obtain ⟨queued, hqueued, howed⟩ := h.owed
  unfold rank at hrank
  have hqueue : s.socketQueue = [] := List.length_eq_zero_iff.mp (by omega)
  have hpending : s.pending = [] := by
    have hwaits : s.listener.mMessages = [] := List.length_eq_zero_iff.mp (by omega)
    have hreceiving : s.receiving = [] := List.length_eq_zero_iff.mp (by omega)
    cases hloop : s.loop with
    | polling | taking => simp [pending, hloop, hwaits, hreceiving, EchoLoop.inHand]
    | setting m | sending m =>
      simp only [hloop, loopCost] at hrank
      omega
  rw [hqueue, hpending] at howed
  simpa [echoes] using howed

end EchoClient

/-! ## The echo -/

/-- A round of the two threads, in any order and with any number of steps, without an arrival. -/
def IsRound (as : List EchoStep) : Prop :=
  arrivals as = [] ∧ .receiver ∈ as ∧ ∃ buffer, .main buffer ∈ as

theorem isRound_threads {as : List EchoStep} (h : IsRound as) :
    (∀ a ∈ as, a.arrival = none) ∧ ∀ i, ∃ a ∈ as, EchoClient.thread a = i := by
  obtain ⟨hnone, hreceiver, buffer, hmain⟩ := h
  refine ⟨List.filterMap_eq_nil_iff.mp hnone, fun i => ?_⟩
  cases i with
  | receiver => exact ⟨.receiver, hreceiver, rfl⟩
  | main => exact ⟨.main buffer, hmain, rfl⟩

/-- The echo client, in any order of the steps of its two threads and of the arrivals: nothing
ends the process; what it has sent is at all times the first answers to what arrived, one for each
message, in order, to the address it came from; and some number of rounds sends the rest. -/
theorem the_echo_client_answers_each_message {gethostbyname : String → Option UInt32}
    (hread : ReadsDottedDecimals gethostbyname) {connects : SockaddrIn → Bool} {fuel : Nat}
    (hfuel : 2 * 4098 < fuel) (data : Memory) (as : List EchoStep) (mss : List (List Message))
    (hheard : List.Forall₂ (Heard connects) (arrivals as) mss) :
    let step := EchoClient.step gethostbyname connects fuel
    let s := run step { data := data } as
    s.terminated = false ∧ s.sent <+: echoes (arrivals as) mss ∧
      ∃ n, ∀ rounds : List (List EchoStep), n ≤ rounds.length → (∀ r ∈ rounds, IsRound r) →
        (run step s rounds.flatten).sent = echoes (arrivals as) mss := by
  have howes := (EchoClient.owes_start gethostbyname connects data).run hread hfuel hheard
  rw [List.nil_append] at howes
  intro step s
  refine ⟨howes.running, ?_, EchoClient.rank (echoes (arrivals as) mss) s,
    fun rounds hlength hrounds => ?_⟩
  · obtain ⟨queued, -, howed⟩ := howes.owed
    rw [List.append_assoc] at howed
    exact ⟨_, howed⟩
  · obtain ⟨hlast, hrank⟩ := (EchoClient.takesTurns hread hfuel _).rounds
      (fun r hr => isRound_threads (hrounds r hr)) howes hlength
    exact hlast.paid hrank

/-- A datagram of a sender that fits in the receive buffer is heard. -/
theorem heard_of_sender {connects : SockaddrIn → Bool} {peer : SockaddrIn} (b : Bundle)
    (hb : b.Clean) (hfits : (encBundle b).length ≤ 4098) (haddress : peer.sin_addr ≠ 0xFFFFFFFF)
    (hconnects : connects peer = true) : Heard connects ⟨encBundle b, peer⟩ (flatten b) := by
  refine ⟨.inr ?_, haddress, hconnects⟩
  obtain ⟨elements, heq, helements⟩ := encBundle_elements b hb (by omega)
  have hreceived : (Datagram.mk (encBundle b) (receivedFrom peer)).received = encBundle b :=
    List.take_of_length_le hfits
  rw [hreceived, heq]
  exact .bundle (beBytes_length _ _) helements

/-- A datagram of `sendMessage` comes back byte for byte, to its sender on the local host. -/
theorem the_echo_client_answers_each_message_once :
    let p : UdpPacket := ⟨encBundle (.mk [⟨[47, 97], [.int32 5, .string [98]], "", 0⟩] []),
      ⟨0x7F000001, 7000⟩⟩
    let buffer : OutputBuffer 16384 := ⟨List.replicate 16384 0, List.length_replicate⟩
    let step := EchoClient.step inetAddr (fun _ => true) 8197
    ∃ n, (run step { data := fun _ => 0 } (.main buffer :: .arrive p ::
      (List.replicate n [.receiver, .main buffer]).flatten)).sent = [p] := by
  intro p buffer step
  have hclean : Bundle.Clean (.mk [⟨[47, 97], [.int32 5, .string [98]], "", 0⟩] []) := by
    intro m hm
    simp only [flatten, flattenAll, List.nil_append, List.mem_singleton] at hm
    subst hm
    exact ⟨by decide, by decide, by simp [Arg.Clean]⟩
  have hheard : List.Forall₂ (Heard fun _ => true) (arrivals [.main buffer, .arrive p])
      [[⟨[47, 97], [.int32 5, .string [98]], "", 0⟩]] :=
    .cons (heard_of_sender _ hclean (by decide) (by decide) rfl) .nil
  obtain ⟨-, -, n, hrounds⟩ := the_echo_client_answers_each_message inetAddr_readsDottedDecimals
    (show 2 * 4098 < 8197 by decide) (fun _ => 0) _ _ hheard
  refine ⟨n, hrounds (List.replicate n [.receiver, .main buffer]) (by simp) ?_⟩
  intro r hr
  obtain rfl := List.eq_of_mem_replicate hr
  exact ⟨rfl, by simp, buffer, by simp⟩

end esc_platform.osc
