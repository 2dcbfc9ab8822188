-- When the docent application forgets that a game is paused. The flag of a
-- started game is cleared in five places and that of a paused one in two of
-- them, so a pause outlives its game, and the next game starts with it.
import EscPlatform.Docent.EventEffects
import EscPlatform.Lib.Runs

namespace esc_platform.docent.DocentApp

open runs

/-- No game is paused that is not started. -/
def PausedWhileStarted (s : DocentApp) : Prop :=
  s.model.gamePaused = true → s.model.isGameStarted = true

instance (s : DocentApp) : Decidable s.PausedWhileStarted := inferInstanceAs (Decidable (_ → _))

/-- The condition on an action: while a game is paused, nothing ends it without the quit command
of a detail view, and a game that is not started is not paused. -/
def KeepsPause (s : DocentApp) : Action → Prop
  | .alertOK sent =>
    s.initializing = [] → s.model.gamePaused = true →
      (∀ gameidToLoad, s.alert ≠ some (.load gameidToLoad)) ∧
        ∀ c ∈ s.observers, s.alert = some (.quit c.serial) → sent = true
  | .pauseButton sent =>
    ∀ c, s.Touched c → c.pauseButton = true → sent = true → s.model.isGameStarted = true
  | .event (some eventMessage) _ sent =>
    s.model.gamePaused = true →
      (hasPrefix kGameEnd eventMessage = true → ∃ c ∈ s.observers, sent c.serial = true) ∧
        (hasPrefix kGamePreviouslyLoadedKey eventMessage = true →
          PairsHaveValues (removeOccurrences kGamePreviouslyLoadedKey eventMessage) →
            gameStartedOf eventMessage ≠ some false)
  | _ => True

/-! ## The actions one by one -/

theorem held_iff_of_flags {s : DocentApp} {started paused loaded : Bool} {id : Option NSString}
    (h : s.model.flags = (started, paused, loaded, id)) :
    s.PausedWhileStarted ↔ (paused = true → started = true) := by
  simp only [GameModel.flags, Prod.mk.injEq] at h
  rw [PausedWhileStarted, h.1, h.2.1]

theorem PausedWhileStarted.of_model {s s' : DocentApp} (hs : s.PausedWhileStarted)
    (h : s'.model = s.model) : s'.PausedWhileStarted := by
  unfold PausedWhileStarted
  rw [h]
  exact hs

theorem didSelectRow_held {s : DocentApp} (hs : s.PausedWhileStarted) (row : Nat) :
    (s.didSelectRow row).PausedWhileStarted := by
  unfold didSelectRow
  split
  · split
    · split
      · exact hs
      · exact hs
    · exact hs
  · exact hs

theorem startButton_held {s : DocentApp} (hs : s.PausedWhileStarted) (sent : Bool) :
    (s.act (.startButton sent)).PausedWhileStarted := by
  apply button_induction hs
  intro c covered
  exact fun _ => rfl

theorem stopButton_held {s : DocentApp} (hs : s.PausedWhileStarted) (sent : Bool) :
    (s.act (.stopButton sent)).PausedWhileStarted := by
  apply button_induction hs
  intro c covered
  exact fun h => absurd h (by simp [GameModel.stop])

theorem menuButton_held {s : DocentApp} (hs : s.PausedWhileStarted) :
    (s.act .menuButton).PausedWhileStarted := by
  apply touchDetail_induction hs
  intro c covered
  exact hs.of_model (popToRoot_model s c)

theorem quitButton_held {s : DocentApp} (hs : s.PausedWhileStarted) :
    (s.act .quitButton).PausedWhileStarted := by
  apply touchDetail_induction hs
  intro c covered
  exact hs

theorem pauseButton_held_iff {s : DocentApp} (hs : s.PausedWhileStarted) (sent : Bool) :
    (s.act (.pauseButton sent)).PausedWhileStarted ↔ s.KeepsPause (.pauseButton sent) := by
  simp only [act, KeepsPause]
  rcases touchDetail_cases s _ with ⟨c, hc, heq⟩ | ⟨hnot, heq⟩
  · have honly : ∀ d, s.Touched d ↔ d = c :=
      fun d => ⟨fun hd => touched_unique hc hd, fun hd => hd ▸ hc⟩
    rw [heq]
    simp only [honly, forall_eq]
    split
    · next hpress =>
      rw [Bool.and_eq_true] at hpress
      simp only [hpress, forall_const]
      cases hp : s.model.gamePaused with
      | true => exact iff_of_true (fun h => by simp [GameModel.pause, hp] at h) (hs hp)
      | false => simp [PausedWhileStarted, GameModel.pause, hp]
    · next hpress =>
      rw [Bool.and_eq_true, not_and] at hpress
      exact iff_of_true hs fun hbutton hsent => absurd hsent (hpress hbutton)
  · rw [heq]
    exact iff_of_true hs fun c hc => absurd hc (hnot c)

theorem alertOK_held_iff {s : DocentApp} (hs : s.PausedWhileStarted) (sent : Bool) :
    (s.act (.alertOK sent)).PausedWhileStarted ↔ s.KeepsPause (.alertOK sent) := by
  simp only [act, KeepsPause]
  split
  · next hinit =>
    simp only [hinit, forall_const]
    unfold didDismissWithOK
    rcases halert : s.alert with _ | ⟨gameidToLoad | serial⟩
    · exact iff_of_true hs (by simp)
    · simp only [PausedWhileStarted, load_model]
      refine ⟨fun h hp => absurd (h hp) (by decide), fun h hp => ?_⟩
      exact absurd rfl ((h hp).1 gameidToLoad)
    · rcases hfind : s.observers.find? (fun c => c.serial == serial) with _ | c
      · have hnone := List.find?_eq_none.mp hfind
        simp only [hfind]
        refine iff_of_true hs fun _ => ⟨by simp, fun c hc halert => ?_⟩
        have hserial : serial = c.serial := by simpa using halert
        exact absurd (by simp [hserial]) (hnone c hc)
      · have hc := List.mem_of_find?_eq_some hfind
        have hserial : c.serial = serial := by simpa using List.find?_some hfind
        simp only [hfind, PausedWhileStarted, quit_model]
        refine ⟨fun h hp => ⟨by simp, fun d hd _ => ?_⟩, fun h hp => ?_⟩
        · by_contra hsent
          rw [Bool.not_eq_true] at hsent
          exact absurd (h (by simp [hp, hsent])) (by decide)
        · rw [Bool.and_eq_true] at hp
          have hsent := (h hp.1).2 c hc (by rw [hserial])
          simp [hsent] at hp
  · next hinit => exact iff_of_true hs fun h => absurd h hinit

theorem event_held_iff {s : DocentApp} (hs : s.PausedWhileStarted) (m date : NSString)
    (sent : Nat → Bool) :
    (s.act (.event (some m) date sent)).PausedWhileStarted ↔
      s.KeepsPause (.event (some m) date sent) := by
  simp only [act, KeepsPause]
  cases handle_effect s m date sent with
  | gameEnd h hf hhistory =>
    have hprev := hasPrefix_other (by decide) h kGamePreviouslyLoadedKey (by decide)
    split at hf
    · next hany =>
      rw [held_iff_of_flags hf]
      exact iff_of_true (by simp) fun _ => ⟨fun _ => List.any_eq_true.mp hany, by simp [hprev]⟩
    · next hany =>
      rw [held_iff_of_flags hf]
      refine ⟨fun hp hpaused => absurd (hp hpaused) (by decide), fun hkeep hpaused => ?_⟩
      exact absurd (List.any_eq_true.mpr ((hkeep hpaused).1 h)) hany
  | gameLoaded h hf hhistory =>
    have hend := hasPrefix_other (by decide) h kGameEnd (by decide)
    have hprev := hasPrefix_other (by decide) h kGamePreviouslyLoadedKey (by decide)
    rw [held_iff_of_flags hf]
    exact iff_of_true hs (by simp [hend, hprev])
  | previouslyLoaded h hvalues hf hhistory =>
    have hend := hasPrefix_other (by decide) h kGameEnd (by decide)
    rw [held_iff_of_flags hf]
    rcases hstated : gameStartedOf m with _ | started
    · exact iff_of_true hs (by simp [hend])
    · cases started
      · simp [hend, h, hvalues]
      · simp [hend]
  | quiet hend hloaded hprev hf hhistory =>
    rw [held_iff_of_flags hf]
    exact iff_of_true hs fun _ => ⟨by simp [hend], fun h hvalues => absurd hvalues (hprev h)⟩

theorem act_held_iff {s : DocentApp} (hs : s.PausedWhileStarted) (a : Action) :
    (s.act a).PausedWhileStarted ↔ s.KeepsPause a := by
  cases a with
  | didSelectRow row => exact iff_of_true (touch_induction hs (didSelectRow_held hs row)) trivial
  | alertOK sent => exact alertOK_held_iff hs sent
  | alertCancel => exact iff_of_true (hs.of_model (alertCancel_keeps s).1) trivial
  | startButton sent => exact iff_of_true (startButton_held hs sent) trivial
  | pauseButton sent => exact pauseButton_held_iff hs sent
  | stopButton sent => exact iff_of_true (stopButton_held hs sent) trivial
  | menuButton => exact iff_of_true (menuButton_held hs) trivial
  | quitButton => exact iff_of_true (quitButton_held hs) trivial
  | event eventMessage date sent =>
    cases eventMessage with
    | none => exact iff_of_true hs trivial
    | some m => exact event_held_iff hs m date sent
  | initReturns => exact iff_of_true (hs.of_model (initReturns_keeps s).1) trivial
  | dealloc serial => exact iff_of_true hs trivial

/-! ## Runs -/

/-- A step keeps the flags together exactly where its action meets the condition. -/
theorem step_held_iff {s : DocentApp} (hs : s.PausedWhileStarted) (a : Action) :
    (s.step a).PausedWhileStarted ↔ (s.ended = false → s.KeepsPause a) :=
  step_iff hs (act_held_iff hs a)

theorem launched_held (defaults : UserDefaults) : (launched defaults).PausedWhileStarted :=
  fun h => Bool.noConfusion h

/-- Over a run from any launch, no game is paused that is not started, exactly where each action
meets the condition. -/
theorem a_paused_game_is_started_iff (defaults : UserDefaults) (as : List Action) :
    Always step PausedWhileStarted (launched defaults) as ↔
      EachStep step (fun s a => s.ended = false → s.KeepsPause a) (launched defaults) as :=
  always_iff_eachStep (I := fun _ => True) (fun _ _ _ => trivial)
    (fun _ a _ hs => step_held_iff hs a) trivial (launched_held defaults)

/-- The defaults with one game. -/
def oneGame : UserDefaults :=
  { kGameTitleKey := [literal "Alpha"], kGameListKey := [literal "alpha"] }

/-- The quit command of a paused game is not sent. -/
theorem a_pause_outlives_its_game :
    ¬ Always step PausedWhileStarted (launched oneGame)
      [.didSelectRow 0, .alertOK true, .initReturns,
        .event (some (literal "gameLoaded")) [] (fun _ => true),
        .startButton true, .pauseButton true, .quitButton, .alertOK false] := by
  intro h
  exact absurd (h _ (List.prefix_refl _)) (by decide)

end esc_platform.docent.DocentApp
