-- Clients of one XMPP server, whose steps come in any order. The server is no
-- part of the repository. All that the model takes from it is that it routes
-- the messages of one stream to one address in their order, each of them to
-- one session of the recipient or to none.
import EscPlatform.Lib.Mailboxes
import EscPlatform.Xmpp.Mail

namespace esc_platform.xmpp

open runs mailboxes

/-! ## The network -/

/-- The messages that one gloox client of a sender gets for one address. -/
structure Lane (ι : Type) where
  sender : ι
  stream : Nat
  recipient : JID
  deriving DecidableEq

structure Network (ι : Type) where
  clients : ι → Client := fun _ => {}
  /-- How many messages of the lane the server has behind it. -/
  routed : Lane ι → Nat := fun _ => 0

/-- A step of one of the clients, or of the server. -/
inductive NetworkAction (ι : Type)
  /-- A call of the application or a callback. Messages come by `route` only. -/
  | act (p : ι) (a : Action)
  | getNextEvent (q : ι) (username_length message_length : Nat)
  | route (l : Lane ι) (q : ι)
  | drop (l : Lane ι)

def Action.isMessage : Action → Bool
  | .handleMessage _ _ _ => true
  | _ => false

/-- One of the gloox clients has an open stream of this address. -/
def Listener.hasSession (l : Listener) (v : JID) : Bool :=
  l.clients.any fun g => g.isOpen && g.jid = v

namespace Network

variable {ι : Type}

/-- The messages of the lane that gloox got so far. -/
def handed (s : Network ι) (l : Lane ι) : List Mail :=
  (s.clients l.sender).mListener.mailTo l.stream l.recipient

def inTransit (s : Network ι) (l : Lane ι) : List Mail := (s.handed l).drop (s.routed l)

variable [DecidableEq ι]

def setClient (s : Network ι) (p : ι) (c : Client) : Network ι :=
  { s with clients := Function.update s.clients p c }

def step (s : Network ι) : NetworkAction ι → Network ι
  | .act p a => if a.isMessage then s else s.setClient p ((s.clients p).step a)
  | .getNextEvent q n m => s.setClient q (Polls.step (s.clients q) (.getNextEvent n m))
  | .route l q =>
    match s.inTransit l with
    | [] => s
    | mail :: _ =>
      if (s.clients q).mListener.hasSession l.recipient then
        { clients := Function.update s.clients q
            ((s.clients q).handleMessage mail.username mail.subject mail.body)
          routed := Function.update s.routed l (s.routed l + 1) }
      else s
  | .drop l =>
    if s.inTransit l = [] then s
    else { s with routed := Function.update s.routed l (s.routed l + 1) }

/-! ## The books beside it -/

/-- The two texts that a poll leaves in its buffers. -/
abbrev Texts := Option (List UInt8) × Option (List UInt8)

def texts (m : Mail) : Texts := Polls.eventTexts m.event

/-- What the buffers of a poll show of a message. -/
def shown (n k : Nat) (m : Mail) : Texts :=
  (readBuffer (strncpy m.username n), readBuffer (strncpy m.body k))

/-- A post whose lanes are the lanes of the network and whose boxes are the queues of events,
with its account. -/
abbrev Books (ι : Type) := Post (Lane ι) ι Mail × Account (Lane ι) ι Mail Texts

/-- The move of the post that a step is. -/
def moveOf (s : Network ι) : NetworkAction ι → Option (Move (Lane ι) ι Mail Texts)
  | .act p (.sendMessage recipient message subject) =>
    ((s.clients p).posted recipient message subject).map fun x =>
      .send ⟨p, x.1, x.2.1⟩ x.2.2
  | .act p .popEvent => some (.take p texts)
  | .act p a => if (s.clients p).startsOver a then some (.clear p) else none
  | .getNextEvent q n k => some (.take q (shown n k))
  | .route l q =>
    if (s.clients q).mListener.hasSession l.recipient then some (.carry l q) else none
  | .drop l => some (.lose l)

def book (m : Books ι) (s : Network ι) (a : NetworkAction ι) (_ : Network ι) : Books ι :=
  (s.moveOf a).elim m (move m)

def booked : Network ι × Books ι → NetworkAction ι → Network ι × Books ι := monitored step book

/-- The books agree with the clients: what gloox got, what is in transit, and the queues of the
events. -/
structure Agrees (s : Network ι × Books ι) : Prop where
  sent : ∀ l, s.2.2.sent l = s.1.handed l
  lanes : ∀ l, s.2.1.lanes l = s.1.inTransit l
  boxes : ∀ q, (s.2.1.boxes q).map (·.2.event) = (s.1.clients q).mEventQueue
  routed : ∀ l, s.1.routed l ≤ (s.1.handed l).length

omit [DecidableEq ι] in
theorem agrees_new : Agrees (({}, {}, {}) : Network ι × Books ι) := by
  constructor
  · intro l
    rfl
  · intro l
    rfl
  · intro q
    rfl
  · intro l
    exact Nat.zero_le _

/-! ## A step of one client -/

section one

variable (s : Network ι) (p : ι) (c : Client)

theorem setClient_clients (q : ι) :
    (s.setClient p c).clients q = if q = p then c else s.clients q := by
  by_cases hq : q = p
  · simp [setClient, hq]
  · simp [setClient, hq]

/-- A client whose step adds nothing to its messages. -/
theorem setClient_handed (h : ∀ g v, c.mListener.mailTo g v = (s.clients p).mListener.mailTo g v)
    (l : Lane ι) : (s.setClient p c).handed l = s.handed l := by
  unfold handed
  rw [setClient_clients]
  split
  · rename_i hp
    rw [h, hp]
  · rfl

theorem setClient_inTransit
    (h : ∀ g v, c.mListener.mailTo g v = (s.clients p).mListener.mailTo g v) (l : Lane ι) :
    (s.setClient p c).inTransit l = s.inTransit l := by
  unfold inTransit
  rw [setClient_handed s p c h]
  rfl

end one

/-- A call or a callback that neither sends nor brings a message and takes no event. -/
def isQuiet : Action → Bool
  | .handleMessage _ _ _ | .sendMessage _ _ _ | .popEvent => false
  | _ => true

section quiet

variable {a : Action} (c : Client)

theorem isQuiet_isMessage (h : isQuiet a = true) : a.isMessage = false := by
  cases a with
  | handleMessage => cases h
  | _ => rfl

theorem isQuiet_mailTo (h : isQuiet a = true) (g : Nat) (v : JID) :
    (c.step a).mListener.mailTo g v = c.mListener.mailTo g v := by
  rw [Client.step_mailTo]
  cases a with
  | sendMessage => cases h
  | _ => exact List.append_nil _

theorem isQuiet_mEventQueue (h : isQuiet a = true) :
    (c.step a).mEventQueue = if c.startsOver a then [] else c.mEventQueue := by
  rw [Client.step_mEventQueue]
  cases a with
  | handleMessage => cases h
  | popEvent => cases h
  | _ => rfl

omit [DecidableEq ι] in
theorem isQuiet_moveOf (h : isQuiet a = true) (s : Network ι) (p : ι) :
    s.moveOf (.act p a) = if (s.clients p).startsOver a then some (.clear p) else none := by
  cases a with
  | sendMessage => cases h
  | popEvent => cases h
  | _ => rfl

end quiet

/-! ## The books agree over whole runs -/

theorem agrees_quiet {s : Network ι} {m : Books ι} (h : Agrees (s, m)) (p : ι) {a : Action}
    (ha : isQuiet a = true) : Agrees (booked (s, m) (.act p a)) := by
  have hmail := isQuiet_mailTo (s.clients p) ha
  have hstep : s.step (.act p a) = s.setClient p ((s.clients p).step a) := by
    rw [step, isQuiet_isMessage ha]
    rfl
  simp only [booked, monitored, book, hstep, isQuiet_moveOf ha]
  have hqueue := isQuiet_mEventQueue (s.clients p) ha
  by_cases hover : (s.clients p).startsOver a = true
  · simp only [hover, if_true] at hqueue
    simp only [hover, if_true, Option.elim_some]
    refine ⟨fun l => ?_, fun l => ?_, fun q => ?_, fun l => ?_⟩
    · simp only [setClient_handed s p _ hmail]
      exact h.sent l
    · simp only [setClient_inTransit s p _ hmail]
      exact h.lanes l
    · simp only [move, monitored, Post.step, setClient_clients]
      by_cases hq : q = p
      · subst hq
        simp [hqueue]
      · rw [Function.update_of_ne hq, if_neg hq]
        exact h.boxes q
    · simp only [setClient_handed s p _ hmail]
      exact h.routed l
  · simp only [hover, Bool.false_eq_true, if_false] at hqueue
    simp only [hover, Bool.false_eq_true, if_false, Option.elim_none]
    refine ⟨fun l => ?_, fun l => ?_, fun q => ?_, fun l => ?_⟩
    · simp only [setClient_handed s p _ hmail]
      exact h.sent l
    · simp only [setClient_inTransit s p _ hmail]
      exact h.lanes l
    · simp only [setClient_clients]
      split
      · rename_i hq
        rw [hqueue, ← hq]
        exact h.boxes q
      · exact h.boxes q
    · simp only [setClient_handed s p _ hmail]
      exact h.routed l

/-- A message that gloox got is the last one of its lane. -/
theorem handed_sendMessage (s : Network ι) (p : ι) (recipient message subject : String)
    (l : Lane ι) :
    (s.setClient p ((s.clients p).step (.sendMessage recipient message subject))).handed l =
      s.handed l ++ ((s.clients p).posted recipient message subject).toList.filterMap fun x =>
        if (⟨p, x.1, x.2.1⟩ : Lane ι) = l then some x.2.2 else none := by
  obtain ⟨sender, stream, recipient'⟩ := l
  unfold handed
  rw [setClient_clients]
  simp only [Lane.mk.injEq]
  by_cases hp : sender = p
  · subst hp
    simp only [if_true, Client.step_mailTo, true_and]
  · simp [hp, Ne.symm hp]

theorem agrees_sendMessage {s : Network ι} {m : Books ι} (h : Agrees (s, m)) (p : ι)
    (recipient message subject : String) :
    Agrees (booked (s, m) (.act p (.sendMessage recipient message subject))) := by
  have hhanded := handed_sendMessage s p recipient message subject
  have hqueue : ((s.clients p).step (.sendMessage recipient message subject)).mEventQueue =
      (s.clients p).mEventQueue := Client.step_mEventQueue _ _
  have hboxes : ∀ q, (m.1.boxes q).map (·.2.event) = ((s.setClient p ((s.clients p).step
      (.sendMessage recipient message subject))).clients q).mEventQueue := by
    intro q
    rw [setClient_clients]
    split
    · rename_i hq
      rw [hqueue, ← hq]
      exact h.boxes q
    · exact h.boxes q
  have htransit : ∀ l, (s.setClient p ((s.clients p).step
      (.sendMessage recipient message subject))).inTransit l = s.inTransit l ++
        ((s.clients p).posted recipient message subject).toList.filterMap fun x =>
          if (⟨p, x.1, x.2.1⟩ : Lane ι) = l then some x.2.2 else none := by
    intro l
    unfold inTransit
    rw [hhanded]
    exact List.drop_append_of_le_length (h.routed l)
  simp only [booked, monitored, book, step, Action.isMessage, Bool.false_eq_true, if_false, moveOf]
  cases hpost : (s.clients p).posted recipient message subject with
  | none =>
    simp only [hpost, Option.toList_none, List.filterMap_nil, List.append_nil] at hhanded htransit
    refine ⟨fun l => ?_, fun l => ?_, hboxes, fun l => ?_⟩
    · rw [hhanded]
      exact h.sent l
    · rw [htransit]
      exact h.lanes l
    · rw [hhanded]
      exact h.routed l
  | some x =>
    simp only [hpost, Option.toList_some] at hhanded htransit
    refine ⟨fun l => ?_, fun l => ?_, hboxes, fun l => ?_⟩
    · rw [hhanded, ← h.sent l]
      by_cases hl : (⟨p, x.1, x.2.1⟩ : Lane ι) = l
      · subst hl
        simp [move, monitored, Account.see]
      · simp [move, monitored, Account.see, hl, Ne.symm hl]
    · rw [htransit, ← h.lanes l]
      by_cases hl : (⟨p, x.1, x.2.1⟩ : Lane ι) = l
      · subst hl
        simp [move, monitored, Post.step]
      · simp [move, monitored, Post.step, hl, Ne.symm hl]
    · rw [hhanded, List.length_append]
      exact Nat.le_add_right_of_le (h.routed l)

/-- An event leaves the front of the queue. -/
theorem agrees_take {s : Network ι} {m : Books ι} (h : Agrees (s, m)) (q : ι) {c : Client}
    (hmail : ∀ g v, c.mListener.mailTo g v = (s.clients q).mListener.mailTo g v)
    (hqueue : c.mEventQueue = (s.clients q).mEventQueue.tail) (read : Mail → Texts) :
    Agrees (s.setClient q c, move m (.take q read)) := by
  refine ⟨fun l => ?_, fun l => ?_, fun r => ?_, fun l => ?_⟩
  · simp only [setClient_handed s q c hmail]
    exact h.sent l
  · simp only [setClient_inTransit s q c hmail]
    exact h.lanes l
  · simp only [move, monitored, Post.step, setClient_clients]
    by_cases hr : r = q
    · subst hr
      have hbox := h.boxes r
      simp only at hbox
      rw [Function.update_self, if_pos rfl, hqueue, List.map_tail, hbox]
    · rw [Function.update_of_ne hr, if_neg hr]
      exact h.boxes r
  · simp only [setClient_handed s q c hmail]
    exact h.routed l

theorem poll_mailTo (c : Client) (n k g : Nat) (v : JID) :
    (Polls.step c (.getNextEvent n k)).mListener.mailTo g v = c.mListener.mailTo g v := by
  rcases hq : c.mEventQueue with _ | ⟨evt, rest⟩
  · simp [Polls.step, Polls.pollEvent_nil hq]
  · simp [Polls.step, Polls.pollEvent_cons hq]

theorem inTransit_tail {s t : Network ι} {l : Lane ι} (hhanded : ∀ k, t.handed k = s.handed k)
    (hrouted : t.routed = Function.update s.routed l (s.routed l + 1)) (k : Lane ι) :
    Function.update s.inTransit l (s.inTransit l).tail k = t.inTransit k := by
  unfold inTransit
  rw [hhanded, hrouted]
  by_cases hk : k = l
  · subst hk
    simp
  · simp [hk]

/-- The front of a lane goes to the end of a queue. -/
theorem agrees_route {s : Network ι} {m : Books ι} (h : Agrees (s, m)) (l : Lane ι) (q : ι) :
    Agrees (booked (s, m) (.route l q)) := by
  simp only [booked, monitored, book, step, moveOf]
  cases hsession : (s.clients q).mListener.hasSession l.recipient with
  | false =>
    have hstay : Agrees (s, m) := h
    cases s.inTransit l with
    | nil => exact hstay
    | cons mail rest => exact hstay
  | true =>
    have hlane := h.lanes l
    cases hfront : s.inTransit l with
    | nil =>
      -- the post has nothing to carry either
      simp only [hfront] at hlane
      refine ⟨h.sent, fun k => ?_, fun r => ?_, h.routed⟩
      · simp only [if_true, Option.elim_some, move, monitored, Post.step, hlane]
        rw [← h.lanes k]
        by_cases hk : k = l
        · subst hk
          simp [hlane]
        · simp [hk]
      · simp only [if_true, Option.elim_some, move, monitored, Post.step, hlane]
        rw [← h.boxes r]
        by_cases hr : r = q
        · subst hr
          simp
        · simp [hr]
    | cons mail rest =>
      simp only [hfront] at hlane
      have hmail : ∀ g v, ((s.clients q).handleMessage mail.username mail.subject
          mail.body).mListener.mailTo g v = (s.clients q).mListener.mailTo g v := by
        intro g v
        simp [Client.handleMessage]
      have hhanded := setClient_handed s q _ hmail
      refine ⟨fun k => ?_, fun k => ?_, fun r => ?_, fun k => ?_⟩
      · exact (h.sent k).trans (hhanded k).symm
      · simp only [if_true, Option.elim_some, move, monitored, Post.step]
        have hlanes : m.1.lanes = s.inTransit := funext h.lanes
        rw [hlanes]
        apply inTransit_tail
        · exact hhanded
        · rfl
      · simp only [if_true, Option.elim_some, move, monitored, Post.step, hlane]
        by_cases hr : r = q
        · subst hr
          have hbox := h.boxes r
          simp only at hbox
          simp [← hbox, Client.handleMessage, Mail.event]
        · rw [Function.update_of_ne hr, Function.update_of_ne hr]
          exact h.boxes r
      · refine le_of_le_of_eq ?_ (congrArg List.length (hhanded k)).symm
        simp only [if_true]
        by_cases hk : k = l
        · subst hk
          have hlength := congrArg List.length hfront
          simp only [inTransit, List.length_drop, List.length_cons] at hlength
          rw [Function.update_self]
          omega
        · rw [Function.update_of_ne hk]
          exact h.routed k

theorem agrees_drop {s : Network ι} {m : Books ι} (h : Agrees (s, m)) (l : Lane ι) :
    Agrees (booked (s, m) (.drop l)) := by
  have hlanes : m.1.lanes = s.inTransit := funext h.lanes
  simp only [booked, monitored, book, step, moveOf, Option.elim_some]
  split
  · rename_i hempty
    refine ⟨h.sent, fun k => ?_, h.boxes, h.routed⟩
    simp only [move, monitored, Post.step, hlanes]
    by_cases hk : k = l
    · subst hk
      simp [hempty]
    · simp [hk]
  · rename_i hfront
    refine ⟨h.sent, fun k => ?_, h.boxes, fun k => ?_⟩
    · simp only [move, monitored, Post.step, hlanes]
      apply inTransit_tail
      · exact fun _ => rfl
      · rfl
    · simp only
      by_cases hk : k = l
      · subst hk
        have hlength := List.length_pos_iff.mpr hfront
        simp only [inTransit, List.length_drop] at hlength
        rw [Function.update_self]
        exact Nat.succ_le_of_lt (Nat.lt_of_sub_pos hlength)
      · rw [Function.update_of_ne hk]
        exact h.routed k

theorem agrees_step (s : Network ι × Books ι) (a : NetworkAction ι) (h : Agrees s) :
    Agrees (booked s a) := by
  obtain ⟨s, m⟩ := s
  cases a with
  | act p a =>
    by_cases hquiet : isQuiet a = true
    · exact agrees_quiet h p hquiet
    · cases a with
      | sendMessage recipient message subject => exact agrees_sendMessage h p _ _ _
      | popEvent =>
        have hmail : ∀ g v, ((s.clients p).step .popEvent).mListener.mailTo g v =
            (s.clients p).mListener.mailTo g v := fun g v => rfl
        exact agrees_take h p hmail rfl texts
      | handleMessage => exact h
      | _ => exact absurd rfl hquiet
  | getNextEvent q n k =>
    have hqueue := Polls.step_mEventQueue (s.clients q) (.getNextEvent n k)
    exact agrees_take h q (poll_mailTo _ n k) hqueue (shown n k)
  | route l q => exact agrees_route h l q
  | drop l => exact agrees_drop h l

end Network

end esc_platform.xmpp
