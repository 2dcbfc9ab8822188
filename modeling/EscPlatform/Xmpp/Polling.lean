-- The polling of events and presences. A poll copies the front of its queue
-- with `strncpy` and removes it, whether or not the copy is complete.
import EscPlatform.Xmpp.PluginCalls
import Mathlib.Data.List.TakeWhile

namespace esc_platform.xmpp

open runs

/-! ## C strings in buffers -/

/-- What the caller of a poll reads in a buffer: the bytes before the first NUL. There is no
string in a buffer without one. -/
def readBuffer (buffer : List UInt8) : Option (List UInt8) :=
  if 0 ∈ buffer then some (buffer.takeWhile (· ≠ 0)) else none

/-- The text and a NUL behind it fit in `n` bytes, and the text has no NUL itself. -/
def Fits (text : String) (n : Nat) : Prop :=
  text.toUTF8.toList.length < n ∧ 0 ∉ text.toUTF8.toList

theorem takeWhile_of_free {bs : List UInt8} (h : 0 ∉ bs) : bs.takeWhile (· ≠ 0) = bs := by
  rw [List.takeWhile_eq_self_iff]
  intro c hc
  rw [decide_eq_true_eq]
  intro h0
  exact h (h0 ▸ hc)

theorem readBuffer_terminated {cstr : List UInt8} (h : 0 ∉ cstr) (n : Nat) :
    readBuffer (cstr ++ List.replicate (n + 1) 0) = some cstr := by
  have hne : ∀ c ∈ cstr, decide (c ≠ 0) = true :=
    List.takeWhile_eq_self_iff.mp (takeWhile_of_free h)
  rw [readBuffer, if_pos (by simp), List.takeWhile_append_of_pos hne, List.replicate_succ]
  simp

/-- A copy leaves the text in the buffer exactly where it fits. -/
theorem readBuffer_strncpy (text : String) (n : Nat) :
    readBuffer (strncpy text n) = some text.toUTF8.toList ↔ Fits text n := by
  unfold strncpy Fits
  generalize text.toUTF8.toList = bs
  have hfree : (0 : UInt8) ∉ bs.takeWhile (· ≠ 0) := by
    intro h
    simpa using List.mem_takeWhile_imp h
  by_cases hlt : (bs.takeWhile (· ≠ 0)).length < n
  · obtain ⟨k, hk⟩ : ∃ k, n - (bs.takeWhile (· ≠ 0)).length = k + 1 :=
      ⟨n - (bs.takeWhile (· ≠ 0)).length - 1, by omega⟩
    simp only [List.take_of_length_le (Nat.le_of_lt hlt), hk]
    rw [readBuffer_terminated hfree, Option.some.injEq]
    constructor
    · intro h
      rw [h] at hlt hfree
      exact ⟨hlt, hfree⟩
    · rintro ⟨-, h0⟩
      exact takeWhile_of_free h0
  · -- the copy fills the buffer and ends without a NUL
    have hcut : ((bs.takeWhile (· ≠ 0)).take n).length = n := by
      rw [List.length_take]
      omega
    have hno : (0 : UInt8) ∉ (bs.takeWhile (· ≠ 0)).take n :=
      fun h => hfree (List.mem_of_mem_take h)
    simp only [hcut, Nat.sub_self, List.replicate_zero, List.append_nil]
    rw [readBuffer, if_neg hno]
    apply iff_of_false (by simp)
    rintro ⟨hshort, h0⟩
    rw [takeWhile_of_free h0] at hlt
    exact hlt hshort

/-! ## Polls -/

/-- A message or a presence that arrives, or a poll with the lengths of its buffers. -/
inductive PollAction
  | handleMessage (name subject body : String)
  | handleRosterPresence (item : RosterItem) (resource : String) (presence : PresenceType)
    (message : String)
  | getNextEvent (username_length message_length : Nat)
  | getNextPresenceEvent (username_length : Nat)
  deriving DecidableEq, Repr

namespace Polls

def pollEvent (c : Client) (username_length message_length : Nat) :
    Plugin × Int × Option (List UInt8 × List UInt8) :=
  Plugin.getNextEvent (some username_length) (some message_length) (some c)

def pollPresence (c : Client) (username_length : Nat) :
    Plugin × Int × Option (List UInt8 × Status) :=
  Plugin.getNextPresenceEvent (some username_length) (some c)

def step (c : Client) : PollAction → Client
  | .handleMessage name subject body => c.handleMessage name subject body
  | .handleRosterPresence item resource presence message =>
    c.handleRosterPresence item resource presence message
  | .getNextEvent n m => (pollEvent c n m).1.getD c
  | .getNextPresenceEvent n => (pollPresence c n).1.getD c

/-! ### One step -/

@[simp] theorem fire_mEventQueue (c : Client) (isSet : Bool) (signal : Signal) :
    (c.fire isSet signal).mEventQueue = c.mEventQueue := by
  unfold Client.fire; split <;> rfl

@[simp] theorem fire_mPresenceQueue (c : Client) (isSet : Bool) (signal : Signal) :
    (c.fire isSet signal).mPresenceQueue = c.mPresenceQueue := by
  unfold Client.fire; split <;> rfl

section polls

variable {c : Client} {n m : Nat}

theorem pollEvent_nil (h : c.mEventQueue = []) : pollEvent c n m = (some c, -1, none) := by
  simp only [pollEvent, Plugin.getNextEvent, h]

theorem pollEvent_cons {evt : Event} {rest : List Event} (h : c.mEventQueue = evt :: rest) :
    pollEvent c n m = (some { c with mEventQueue := rest }, 0,
      some (strncpy evt.username n, strncpy evt.message m)) := by
  simp only [pollEvent, Plugin.getNextEvent, h]

theorem pollPresence_nil (h : c.mPresenceQueue = []) : pollPresence c n = (some c, -1, none) := by
  simp only [pollPresence, Plugin.getNextPresenceEvent, h]

theorem pollPresence_cons {evt : PresenceEvent} {rest : List PresenceEvent}
    (h : c.mPresenceQueue = evt :: rest) :
    pollPresence c n = (some { c with mPresenceQueue := rest }, 0,
      some (strncpy evt.username n, evt.status)) := by
  simp only [pollPresence, Plugin.getNextPresenceEvent, h]

end polls

/-- What a step does to the queue of the events. -/
theorem step_mEventQueue (c : Client) (a : PollAction) :
    (step c a).mEventQueue = match a with
      | .handleMessage name _ body => c.mEventQueue ++ [⟨name, body⟩]
      | .handleRosterPresence .. => c.mEventQueue
      | .getNextEvent .. => c.mEventQueue.tail
      | .getNextPresenceEvent _ => c.mEventQueue := by
  cases a with
  | handleMessage => simp [step, Client.handleMessage]
  | handleRosterPresence => simp [step, Client.handleRosterPresence]
  | getNextEvent n m =>
    rcases h : c.mEventQueue with _ | ⟨evt, rest⟩
    · simp [step, pollEvent_nil h, h]
    · simp [step, pollEvent_cons h]
  | getNextPresenceEvent n =>
    rcases h : c.mPresenceQueue with _ | ⟨evt, rest⟩
    · simp [step, pollPresence_nil h]
    · simp [step, pollPresence_cons h]

/-- What a step does to the queue of the presences. -/
theorem step_mPresenceQueue (c : Client) (a : PollAction) :
    (step c a).mPresenceQueue = match a with
      | .handleMessage .. => c.mPresenceQueue
      | .handleRosterPresence item _ presence _ =>
        c.mPresenceQueue ++ [⟨item.username, presenceToStatus presence⟩]
      | .getNextEvent .. => c.mPresenceQueue
      | .getNextPresenceEvent _ => c.mPresenceQueue.tail := by
  cases a with
  | handleMessage => simp [step, Client.handleMessage]
  | handleRosterPresence => simp [step, Client.handleRosterPresence]
  | getNextEvent n m =>
    rcases h : c.mEventQueue with _ | ⟨evt, rest⟩
    · simp [step, pollEvent_nil h]
    · simp [step, pollEvent_cons h]
  | getNextPresenceEvent n =>
    rcases h : c.mPresenceQueue with _ | ⟨evt, rest⟩
    · simp [step, pollPresence_nil h, h]
    · simp [step, pollPresence_cons h]

/-! ### One poll -/

/-- A poll that returns 0 leaves the texts of the oldest entry as strings in its buffers and
removes that entry; any other poll leaves the queue as it is. -/
def DeliversOldest (c : Client) : PollAction → Prop
  | .getNextEvent n m =>
    ((pollEvent c n m).2.1 = 0 → ∃ evt username message,
      c.mEventQueue = evt :: (step c (.getNextEvent n m)).mEventQueue ∧
      (pollEvent c n m).2.2 = some (username, message) ∧
      readBuffer username = some evt.username.toUTF8.toList ∧
      readBuffer message = some evt.message.toUTF8.toList) ∧
    ((pollEvent c n m).2.1 ≠ 0 →
      (step c (.getNextEvent n m)).mEventQueue = c.mEventQueue)
  | .getNextPresenceEvent n =>
    ((pollPresence c n).2.1 = 0 → ∃ evt username,
      c.mPresenceQueue = evt :: (step c (.getNextPresenceEvent n)).mPresenceQueue ∧
      (pollPresence c n).2.2 = some (username, evt.status) ∧
      readBuffer username = some evt.username.toUTF8.toList) ∧
    ((pollPresence c n).2.1 ≠ 0 →
      (step c (.getNextPresenceEvent n)).mPresenceQueue = c.mPresenceQueue)
  | _ => True

/-- The texts of the oldest entry fit in the buffers of the poll. -/
def FitsOldest (c : Client) : PollAction → Prop
  | .getNextEvent n m => ∀ evt ∈ c.mEventQueue.head?, Fits evt.username n ∧ Fits evt.message m
  | .getNextPresenceEvent n => ∀ evt ∈ c.mPresenceQueue.head?, Fits evt.username n
  | _ => True

theorem deliversOldest_iff (c : Client) (a : PollAction) :
    DeliversOldest c a ↔ FitsOldest c a := by
  cases a with
  | getNextEvent n m =>
    simp only [DeliversOldest, FitsOldest, step_mEventQueue]
    rcases h : c.mEventQueue with _ | ⟨evt, rest⟩
    · simp [pollEvent_nil h]
    · simp [pollEvent_cons h, ← readBuffer_strncpy]
  | getNextPresenceEvent n =>
    simp only [DeliversOldest, FitsOldest, step_mPresenceQueue]
    rcases h : c.mPresenceQueue with _ | ⟨evt, rest⟩
    · simp [pollPresence_nil h]
    · simp [pollPresence_cons h, ← readBuffer_strncpy]
  | handleMessage => exact Iff.rfl
  | handleRosterPresence => exact Iff.rfl

/-! ### Runs of polls -/

/-- The texts of an entry, as its buffers should give them. -/
def eventTexts (evt : Event) : Option (List UInt8) × Option (List UInt8) :=
  (some evt.username.toUTF8.toList, some evt.message.toUTF8.toList)

def presenceTexts (evt : PresenceEvent) : Option (List UInt8) × Status :=
  (some evt.username.toUTF8.toList, evt.status)

/-- The entries that arrived, and what the buffers of the polls that returned 0 gave. -/
structure Account where
  events : List Event
  presences : List PresenceEvent
  givenEvents : List (Option (List UInt8) × Option (List UInt8)) := []
  givenPresences : List (Option (List UInt8) × Status) := []
  deriving DecidableEq, Repr

/-- The entries that wait at the start. -/
def Account.start (c : Client) : Account where
  events := c.mEventQueue
  presences := c.mPresenceQueue

/-- What a poll gave, where it returned 0. -/
def given {α β : Type} (read : α → β) (r : Plugin × Int × Option α) : List β :=
  if r.2.1 = 0 then (r.2.2.map read).toList else []

def see (m : Account) (c : Client) (a : PollAction) (_ : Client) : Account :=
  match a with
  | .handleMessage name _ body => { m with events := m.events ++ [⟨name, body⟩] }
  | .handleRosterPresence item _ presence _ =>
    { m with presences := m.presences ++ [⟨item.username, presenceToStatus presence⟩] }
  | .getNextEvent n k =>
    { m with
      givenEvents := m.givenEvents ++
        given (fun b => (readBuffer b.1, readBuffer b.2)) (pollEvent c n k) }
  | .getNextPresenceEvent n =>
    { m with
      givenPresences := m.givenPresences ++
        given (fun b => (readBuffer b.1, b.2)) (pollPresence c n) }

/-- What arrived is what was given, in full and in order, and what still waits. -/
def NothingIsLost (s : Client × Account) : Prop :=
  s.2.events.map eventTexts = s.2.givenEvents ++ s.1.mEventQueue.map eventTexts ∧
    s.2.presences.map presenceTexts = s.2.givenPresences ++ s.1.mPresenceQueue.map presenceTexts

theorem nothingIsLost_step (s : Client × Account) (a : PollAction) (h : NothingIsLost s) :
    NothingIsLost (monitored step see s a) ↔ FitsOldest s.1 a := by
  obtain ⟨c, m⟩ := s
  obtain ⟨hevents, hpresences⟩ := h
  simp only at hevents hpresences
  unfold NothingIsLost
  cases a with
  | handleMessage name subject body =>
    simp [monitored, see, step_mEventQueue, step_mPresenceQueue, FitsOldest, hevents, hpresences]
  | handleRosterPresence item resource presence message =>
    simp [monitored, see, step_mEventQueue, step_mPresenceQueue, FitsOldest, hevents, hpresences]
  | getNextEvent n k =>
    simp only [monitored, see, step_mEventQueue, step_mPresenceQueue, FitsOldest, hpresences,
      and_true]
    rcases hq : c.mEventQueue with _ | ⟨evt, rest⟩
    · rw [hq] at hevents
      simp [given, pollEvent_nil hq, hevents]
    · rw [hevents, hq]
      simp [given, pollEvent_cons hq, eventTexts, ← readBuffer_strncpy, eq_comm]
  | getNextPresenceEvent n =>
    simp only [monitored, see, step_mEventQueue, step_mPresenceQueue, FitsOldest, hevents, true_and]
    rcases hq : c.mPresenceQueue with _ | ⟨evt, rest⟩
    · rw [hq] at hpresences
      simp [given, pollPresence_nil hq, hpresences]
    · rw [hpresences, hq]
      simp [given, pollPresence_cons hq, presenceTexts, ← readBuffer_strncpy, eq_comm]

/-- From every state of the client: each poll delivers the oldest entry or leaves the queue, and
nothing is lost in any state of the run, exactly when the texts of the oldest entry fit in the
buffers of each poll. -/
theorem polls_deliver_iff (c : Client) (as : List PollAction) :
    EachStep step DeliversOldest c as ∧
        Always (monitored step see) NothingIsLost (c, Account.start c) as ↔
      EachStep step FitsOldest c as := by
  have heach : EachStep step DeliversOldest c as ↔ EachStep step FitsOldest c as :=
    eachStep_congr (I := fun _ => True) (fun _ _ _ => trivial)
      (fun s a _ => deliversOldest_iff s a) trivial
  have halways : Always (monitored step see) NothingIsLost (c, Account.start c) as ↔
      EachStep (monitored step see) (fun s a => FitsOldest s.1 a) (c, Account.start c) as :=
    always_iff_eachStep (I := fun _ => True) (fun _ _ _ => trivial)
      (fun s a _ h => nothingIsLost_step s a h) trivial ⟨rfl, rfl⟩
  rw [heach, halways, eachStep_monitored, and_self]

/-- A user name of 36 bytes is polled with a buffer of 32: the poll returns 0, the entry is gone,
and the buffer has no end. -/
theorem a_long_user_name_is_cut :
    ¬ ∀ (c : Client) as, EachStep step DeliversOldest c as ∧
      Always (monitored step see) NothingIsLost (c, Account.start c) as := by
  intro h
  obtain ⟨hpolls, -⟩ := h {} [.handleMessage "0f5c3a52-7a8e-4c1e-9d0b-6f2f6f0c9a11" "" "gameLoaded",
    .getNextEvent 32 2048]
  have hpoll := hpolls [.handleMessage "0f5c3a52-7a8e-4c1e-9d0b-6f2f6f0c9a11" "" "gameLoaded"]
    (.getNextEvent 32 2048) (List.prefix_refl _)
  rw [deliversOldest_iff] at hpoll
  have hfits := hpoll ⟨"0f5c3a52-7a8e-4c1e-9d0b-6f2f6f0c9a11", "gameLoaded"⟩
    (by simp [step_mEventQueue])
  exact absurd hfits.1.1 (by decide +kernel)

end Polls

end esc_platform.xmpp
