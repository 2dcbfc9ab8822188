-- What the game calls return against what they do. A call looks whether
-- there is a client, and not whether the client is connected, and it drops
-- what `sendMessage` returns.
import EscPlatform.Xmpp.BroadcastLaws
import EscPlatform.Xmpp.PluginCalls

namespace esc_platform.xmpp

open runs

/-! ## A connection has a client -/

/-- Behind a first `setup` the pointer holds a client. -/
def Listener.Live (l : Listener) : Prop :=
  l.mIsConnected = true ∨ 0 < l.clients.length → l.mClient ≠ none

theorem Listener.Live.setup (l : Listener) (username password server : String) (port : Int) :
    (l.setup username password server port).Live := fun _ => by simp [Listener.setup]

/-- The pointer and the clients stay, and the flag is only raised for one of them. -/
theorem Listener.Live.of_eq {l l' : Listener} (h : l.Live) (hclient : l'.mClient = l.mClient)
    (hclients : l'.clients.length = l.clients.length)
    (hflag : l'.mIsConnected = true → l.mIsConnected = true ∨ 0 < l.clients.length) : l'.Live := by
  intro hor
  rw [hclient]
  apply h
  rcases hor with hconn | hlen
  · exact hflag hconn
  · exact .inr (hclients ▸ hlen)

theorem Listener.Live.outcome {l l' : Listener} (h : l.Live) (ho : l.Outcome l') : l'.Live := by
  cases ho with
  | keeps => exact h
  | setup _ username password server port => exact Listener.Live.setup _ _ _ _ _
  | stream g isOpen hg =>
    refine h.of_eq rfl (by simp [Listener.setStream]) fun hopen => .inr ?_
    exact Nat.zero_lt_of_lt (hg hopen)
  | send stanza => exact h.of_eq (by simp) (by simp) fun hconn => .inl (by simpa using hconn)

namespace Client

theorem step_live (c : Client) (a : Action) (h : c.mListener.Live) : (c.step a).mListener.Live :=
  h.outcome (step_outcome c a)

theorem run_live (as : List Action) : (run step {} as).mListener.Live :=
  run_inv (I := fun c : Client => c.mListener.Live) step_live (by simp [Listener.Live])

/-! ## The client of a plugin run -/

/-- A state that a client reaches. -/
def Reachable (c : Client) : Prop := ∃ as, c = run step {} as

theorem reachable_new : Reachable {} := ⟨[], rfl⟩

theorem Reachable.step {c : Client} (h : c.Reachable) (a : Action) : (c.step a).Reachable := by
  obtain ⟨as, rfl⟩ := h
  exact ⟨as ++ [a], by simp⟩

theorem Reachable.sendToConnected {c : Client} (h : c.Reachable) (message : String) :
    (Plugin.sendToConnected message c).Reachable := by
  unfold Plugin.sendToConnected
  generalize c.mRoster.toList = entries
  induction entries generalizing c with
  | nil => exact h
  | cons entry entries ih =>
    obtain ⟨name, peer⟩ := entry
    rw [List.foldl_cons]
    by_cases hpeer : peer.mConnected = true
    · simp only [hpeer, if_true]
      exact ih (h.step (.sendMessage peer.mUsername message ""))
    · simp only [hpeer, Bool.false_eq_true, if_false]
      exact ih h

end Client

/-- The client behind `clientPtr` is reached by the steps of a client. -/
def Plugin.ClientReachable (p : Plugin) : Prop := ∀ c, p = some c → c.Reachable

theorem Plugin.clientReachable_none : Plugin.ClientReachable none := by
  intro c hc
  cases hc

theorem Plugin.clientReachable_some {c : Client} :
    Plugin.ClientReachable (some c) ↔ c.Reachable := by
  constructor
  · intro h
    exact h c rfl
  · intro h d hd
    cases hd
    exact h

theorem Plugin.ClientReachable.step {c : Client} (h : Plugin.ClientReachable (some c))
    (a : Action) : Plugin.ClientReachable (some (c.step a)) :=
  Plugin.clientReachable_some.mpr ((Plugin.clientReachable_some.mp h).step a)

theorem Plugin.ClientReachable.sendToConnected {c : Client}
    (h : Plugin.ClientReachable (some c)) (message : String) :
    Plugin.ClientReachable (some (Plugin.sendToConnected message c)) :=
  Plugin.clientReachable_some.mpr ((Plugin.clientReachable_some.mp h).sendToConnected message)

section calls

variable {p q : Plugin}

theorem startInterface_reachable (username password hostname : Option String)
    (allocated threadCreated : Bool) (h : p.ClientReachable) {ret : Int}
    (hstart : p.startInterface username password hostname allocated threadCreated = some (q, ret)) :
    q.ClientReachable := by
  rcases startInterface_cases hstart with ⟨rfl, -⟩ | ⟨c, user, pass, host, hc, rfl, -⟩
  · exact h
  · have hreach : c.Reachable := by
      unfold Plugin.createXmppClient at hc
      split at hc
      · cases hc
        exact h _ rfl
      · split at hc
        · cases hc
          exact Client.reachable_new
        · cases hc
    exact Plugin.clientReachable_some.mpr
      (hreach.step (.connect user pass host 5222 threadCreated))

theorem stopInterface_reachable (threadJoined : Bool) (h : p.ClientReachable) :
    (p.stopInterface threadJoined).1.ClientReachable := by
  cases p with
  | none =>
    simp only [Plugin.stopInterface]
    exact Plugin.clientReachable_none
  | some c =>
    have hstop := (Plugin.clientReachable_some.mp h).step (.disconnect threadJoined)
    simp only [Client.step] at hstop
    simp only [Plugin.stopInterface]
    generalize c.disconnect threadJoined = r at hstop ⊢
    obtain ⟨c', stopped⟩ := r
    cases stopped with
    | true => exact Plugin.clientReachable_none
    | false => exact Plugin.clientReachable_some.mpr hstop

theorem gameCall_reachable (message : String) (h : p.ClientReachable) :
    (Plugin.gameCall message p).1.ClientReachable := by
  cases p with
  | none => exact h
  | some c =>
    exact h.sendToConnected message

theorem getNextEvent_reachable (username message : Option Nat) (h : p.ClientReachable) :
    (p.getNextEvent username message).1.ClientReachable := by
  unfold Plugin.getNextEvent
  split
  · rename_i c
    split
    · exact h
    · rename_i evt rest hqueue
      have hpop := h.step .popEvent
      simp only [Client.step, hqueue, List.tail_cons] at hpop
      exact hpop
  · exact h

theorem getNextPresenceEvent_reachable (username : Option Nat) (h : p.ClientReachable) :
    (p.getNextPresenceEvent username).1.ClientReachable := by
  unfold Plugin.getNextPresenceEvent
  split
  · rename_i c
    split
    · exact h
    · rename_i evt rest hqueue
      have hpop := h.step .popPresence
      simp only [Client.step, hqueue, List.tail_cons] at hpop
      exact hpop
  · exact h

theorem getNextStatusChange_reachable (h : p.ClientReachable) :
    p.getNextStatusChange.1.ClientReachable := by
  unfold Plugin.getNextStatusChange
  split
  · rename_i c
    split
    · exact h
    · rename_i status rest hqueue
      have hpop := h.step .popState
      simp only [Client.step, hqueue, List.tail_cons] at hpop
      exact hpop
  · exact h

theorem dispatchEvent_reachable (recipient body : Option String) (h : p.ClientReachable) :
    (p.dispatchEvent recipient body).1.ClientReachable := by
  unfold Plugin.dispatchEvent
  split
  · rename_i recipient msg c
    exact h.step (.sendMessage recipient msg "")
  · exact h

/-- Every call keeps the client reachable. -/
theorem perform_reachable (call : PluginCall) (h : p.ClientReachable)
    (hperform : call.perform p = some q) : q.ClientReachable := by
  have hstart : ∀ username password hostname allocated threadCreated,
      (p.startInterface username password hostname allocated threadCreated).map (·.1) = some q →
      q.ClientReachable := by
    intro username password hostname allocated threadCreated hsome
    obtain ⟨⟨q', ret⟩, hcall, rfl⟩ := Option.map_eq_some_iff.mp hsome
    exact startInterface_reachable _ _ _ _ _ h hcall
  cases call with
  | startServerInterfaceWithHost hostname allocated threadCreated =>
    simp only [PluginCall.perform, startServerInterfaceWithHost_eq] at hperform
    exact hstart _ _ _ _ _ hperform
  | startLauncherInterface getHostName allocated threadCreated => exact hstart _ _ _ _ _ hperform
  | startDocentInterface hostname allocated threadCreated => exact hstart _ _ _ _ _ hperform
  | startServerInterface getHostName allocated threadCreated => exact hstart _ _ _ _ _ hperform
  | startClientInterface udid hostname allocated threadCreated =>
    simp only [PluginCall.perform, startClientInterface_eq] at hperform
    exact hstart _ _ _ _ _ hperform
  | startInterface username password hostname allocated threadCreated =>
    exact hstart _ _ _ _ _ hperform
  | stopInterface threadJoined =>
    cases hperform
    exact stopInterface_reachable threadJoined h
  | isConnected | hasMoreEvents | hasMorePresenceEvents | hasMoreStatusChanges =>
    cases hperform
    exact h
  | game call =>
    cases hperform
    cases call with
    | _ => exact gameCall_reachable _ h
  | getNextEvent username message =>
    cases hperform
    exact getNextEvent_reachable username message h
  | getNextPresenceEvent username =>
    cases hperform
    exact getNextPresenceEvent_reachable username h
  | getNextStatusChange =>
    cases hperform
    exact getNextStatusChange_reachable h
  | dispatchEvent recipient body =>
    cases hperform
    exact dispatchEvent_reachable recipient body h
  | broadcastEvent body =>
    cases body with
    | none =>
      cases hperform
      exact h
    | some body =>
      cases p with
      | none => cases hperform
      | some c =>
        cases hperform
        exact h.sendToConnected body

end calls

theorem happen_reachable (s : Option Plugin) (e : PluginEvent)
    (h : ∀ p, s = some p → p.ClientReachable) (q : Plugin) (hq : happen s e = some q) :
    q.ClientReachable := by
  cases s with
  | none => cases e <;> cases hq
  | some p =>
    cases e with
    | call c =>
      simp only [happen, Option.bind_some] at hq
      exact perform_reachable c (h p rfl) hq
    | callback a =>
      simp only [happen, Option.map_some, Option.some.injEq] at hq
      subst hq
      have hp := h p rfl
      split
      · cases p with
        | none =>
          simp only [Option.map_none]
          exact Plugin.clientReachable_none
        | some c =>
          simp only [Option.map_some]
          exact hp.step a
      · exact hp

theorem run_reachable (es : List PluginEvent) {p : Plugin}
    (h : run happen (some none) es = some p) : p.ClientReachable := by
  have hstart : ∀ q, some (none : Plugin) = some q → Plugin.ClientReachable q := by
    intro q hq
    cases hq
    exact Plugin.clientReachable_none
  exact run_inv (I := fun s : Option Plugin => ∀ p, s = some p → p.ClientReachable)
    happen_reachable hstart p h

/-! ## What a game call does -/

/-- The text of a game call. -/
def GameCall.message : GameCall → String
  | .startGame => "gameStart"
  | .cancelGame => "gameCancel"
  | .endGame => "gameEnd"
  | .startRound => "startRound"
  | .cancelRound => "cancelRound"
  | .endRound => "endRound"
  | .pauseGame state => "pause:" ++ if state then "true" else "false"

theorem GameCall.perform_eq (call : GameCall) (p : Plugin) :
    call.perform p = Plugin.gameCall call.message p := by
  cases call <;> rfl

theorem GameCall.message_ne (call : GameCall) : call.message ≠ "" := by
  cases call with
  | pauseGame state => cases state <;> decide
  | _ => decide

/-- The loop of a game call over these roster entries, with the user name and the value of each
call of `sendMessage`. The source drops the values. -/
def sendLog (message : String) : List (String × Peer) → Client → Client × List (String × Bool)
  | [], c => (c, [])
  | (_, peer) :: entries, c =>
    if peer.mConnected then
      let (c, accepted) := c.sendMessage peer.mUsername message ""
      let (c, log) := sendLog message entries c
      (c, (peer.mUsername, accepted) :: log)
    else sendLog message entries c

/-- Beside the values it is the loop of the source. -/
theorem sendLog_fst (message : String) (c : Client) :
    (sendLog message c.mRoster.toList c).1 = Plugin.sendToConnected message c := by
  unfold Plugin.sendToConnected
  generalize c.mRoster.toList = entries
  induction entries generalizing c with
  | nil => rfl
  | cons entry entries ih =>
    obtain ⟨name, peer⟩ := entry
    rw [List.foldl_cons, sendLog]
    by_cases hpeer : peer.mConnected = true
    · simp only [hpeer, if_true]
      exact ih _
    · simp only [hpeer, Bool.false_eq_true, if_false]
      exact ih _

/-- `Listener::sendMessage` gets past its checks of the connection. -/
def Client.accepts (c : Client) : Bool := c.mListener.mIsConnected && c.mListener.mClient.isSome

theorem sendMessage_accepted (c : Client) (recipient : String) {message : String}
    (hmessage : message ≠ "") :
    (c.sendMessage recipient message "").2 = (decide (recipient ≠ "") && c.accepts) := by
  unfold Client.sendMessage Listener.sendMessage Client.accepts
  by_cases hr : recipient = ""
  · simp [hr]
  · cases hconn : c.mListener.mIsConnected <;> cases hm : c.mListener.mClient <;>
      simp [hr, hmessage]

theorem sendMessage_accepts (c : Client) (recipient message : String) :
    (c.sendMessage recipient message "").1.accepts = c.accepts := by
  unfold Client.sendMessage Listener.sendMessage
  split
  · rfl
  · simp only [Client.accepts]
    split
    · rfl
    · simp

theorem sendLog_snd {message : String} (hmessage : message ≠ "") (entries : List (String × Peer))
    (c : Client) : (sendLog message entries c).2 =
      (entries.filter (·.2.mConnected)).map fun entry =>
        (entry.2.mUsername, decide (entry.2.mUsername ≠ "") && c.accepts) := by
  induction entries generalizing c with
  | nil => rfl
  | cons entry entries ih =>
    obtain ⟨name, peer⟩ := entry
    by_cases hpeer : peer.mConnected = true
    · simp only [sendLog, hpeer, if_true, List.filter_cons_of_pos, List.map_cons,
        sendMessage_accepted c _ hmessage, ih, sendMessage_accepts]
    · simp only [sendLog, hpeer, Bool.false_eq_true, if_false, not_false_eq_true,
        List.filter_cons_of_neg, ih]

/-! ## The contract -/

/-- What the documentation promises of a game call. -/
structure KeepsContract (call : GameCall) (p : Plugin) : Prop where
  notConnected : (call.perform p).2 = -1 ↔ p.isConnected = false
  accepted : (call.perform p).2 = 0 → ∀ c, p = some c → ∀ u, c.isPeerConnected u = true →
    (u, true) ∈ (sendLog call.message c.mRoster.toList c).2

theorem isPeerConnected_iff (c : Client) (u : String) : c.isPeerConnected u = true ↔
    ∃ peer, (u, peer) ∈ c.mRoster.toList ∧ peer.mConnected = true := by
  unfold Client.isPeerConnected
  simp only [Std.TreeMap.mem_toList_iff_getElem?_eq_some]
  cases c.mRoster[u]? with
  | none => simp
  | some peer => simp

theorem Client.Reachable.mUsername {c : Client} (h : c.Reachable) {u : String} {peer : Peer}
    (hmem : (u, peer) ∈ c.mRoster.toList) : peer.mUsername = u := by
  obtain ⟨as, rfl⟩ := h
  obtain ⟨presence, -, rfl⟩ := (Client.mem_toList_mRoster as u peer).mp hmem
  exact peerOf_mUsername u presence

/-- A call of a reachable client sends to its connected peers, and gets through to each but the
one without a name. -/
theorem mem_sendLog {c : Client} (h : c.Reachable) {message : String} (hmessage : message ≠ "")
    (u : String) : (u, true) ∈ (sendLog message c.mRoster.toList c).2 ↔
      c.isPeerConnected u = true ∧ u ≠ "" ∧ c.accepts = true := by
  rw [sendLog_snd hmessage, isPeerConnected_iff]
  simp only [List.mem_map, List.mem_filter, Prod.exists, Prod.mk.injEq, Bool.and_eq_true,
    decide_eq_true_eq]
  constructor
  · rintro ⟨key, peer, ⟨hmem, hpeer⟩, rfl, hne, haccepts⟩
    have hkey := h.mUsername hmem
    exact ⟨⟨peer, hkey ▸ hmem, hpeer⟩, hne, haccepts⟩
  · rintro ⟨⟨peer, hmem, hpeer⟩, hne, haccepts⟩
    have hkey := h.mUsername hmem
    exact ⟨u, peer, ⟨hmem, hpeer⟩, hkey, hkey ▸ hne, haccepts⟩

/-- A game call keeps its contract exactly where there is no client, or the client is connected
and no peer without a name is. -/
theorem game_calls_keep_their_contract_iff (es : List PluginEvent) (p : Plugin)
    (h : run happen (some none) es = some p) (call : GameCall) :
    KeepsContract call p ↔
      ∀ c, p = some c → p.isConnected = true ∧ c.isPeerConnected "" = false := by
  have hreach := run_reachable es h
  cases p with
  | none =>
    have hret : (call.perform none).2 = -1 := by
      rw [GameCall.perform_eq]
      rfl
    refine iff_of_true ⟨iff_of_true hret rfl, ?_⟩ ?_
    · intro hzero
      rw [hret] at hzero
      cases hzero
    · intro c hc
      cases hc
  | some c =>
    have hc := Plugin.clientReachable_some.mp hreach
    have hret : (call.perform (some c)).2 = 0 := by
      rw [GameCall.perform_eq]
      rfl
    constructor
    · rintro ⟨hconn, haccepted⟩ d ⟨⟩
      rw [hret] at hconn
      refine ⟨by simpa using hconn, ?_⟩
      rw [← Bool.not_eq_true]
      intro hpeer
      have hmem := haccepted hret c rfl "" hpeer
      exact ((mem_sendLog hc call.message_ne "").mp hmem).2.1 rfl
    · intro hcond
      obtain ⟨hconn, hname⟩ := hcond c rfl
      have haccepts : c.accepts = true := by
        obtain ⟨as, rfl⟩ := hc
        have hclient := Client.run_live as (.inl hconn)
        change (_ && _) = true
        rw [Bool.and_eq_true, Option.isSome_iff_ne_none]
        exact ⟨hconn, hclient⟩
      constructor
      · rw [hret]
        simp [hconn]
      · rintro - d ⟨⟩ u hu
        refine (mem_sendLog hc call.message_ne u).mpr ⟨hu, ?_, haccepts⟩
        rintro rfl
        rw [hname] at hu
        cases hu

theorem game_calls_keep_their_contract_bob :
    KeepsContract .startGame (some (run Client.step {} [.connect "docent" "docent" "host" 5222 true,
      .onConnect 0, .handleRoster [⟨"bob"⟩],
      .handleRosterPresence ⟨"bob"⟩ "phone" .available ""])) := by
  refine (game_calls_keep_their_contract_iff
    [.call (.startDocentInterface (some "host") true true), .callback (.onConnect 0),
      .callback (.handleRoster [⟨"bob"⟩]),
      .callback (.handleRosterPresence ⟨"bob"⟩ "phone" .available "")] _ rfl .startGame).mpr ?_
  rintro c ⟨⟩
  exact ⟨by decide, by decide⟩

/-- The client is there and not connected: the call answers 0. -/
theorem a_call_without_a_connection_returns_zero :
    ∃ p, run happen (some none) [.call (.startDocentInterface (some "host") true true)] = some p ∧
      p.isConnected = false ∧ (GameCall.startGame.perform p).2 = 0 ∧
      ¬ KeepsContract .startGame p := by
  refine ⟨some (run Client.step {} [.connect "docent" "docent" "host" 5222 true]), rfl, rfl, rfl,
    fun h => ?_⟩
  have hret := h.notConnected.mpr rfl
  cases hret

end esc_platform.xmpp
