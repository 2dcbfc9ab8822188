-- When the docent application takes a game for loaded. One flag says that a
-- game is loaded and another field which game is meant, and neither a load nor
-- a quit resets the flag, so a view can open with the settings of a game that
-- is still loading.
import EscPlatform.Docent.EventEffects
import EscPlatform.Lib.Runs

namespace esc_platform.docent

/-! ## What the history says about a game -/

def Happening.isLoadSent : Happening → Bool
  | .loadSent _ => true
  | _ => false

def Happening.isPreviouslyLoaded : Happening → Bool
  | .gamePreviouslyLoaded _ => true
  | _ => false

/-- A load or a quit of another game. -/
def Happening.ofOther (gameID : NSString) : Happening → Bool
  | .loadSent gameid => decide (gameid ≠ gameID)
  | .quitSent quitID => decide (quitID ≠ some gameID)
  | _ => false

def Happening.loadedGame : Happening → Option NSString
  | .loadSent gameid => some gameid
  | _ => none

def Happening.previousGame : Happening → Option (Option NSString)
  | .gamePreviouslyLoaded gameId => some gameId
  | _ => none

/-- The game of the last load command that was sent. -/
def lastLoad (history : List Happening) : Option NSString :=
  history.findSome? Happening.loadedGame

/-- The last load command was for the game, and a message that it is loaded arrived since. -/
def LoadedSince (history : List Happening) (gameID : NSString) : Prop :=
  lastLoad history = some gameID ∧
    .gameLoaded ∈ history.takeWhile fun h => !h.isLoadSent

/-- The last message about a game loaded before named the game, and no other game was loaded or
quit since. -/
def PreviouslyLoaded (history : List Happening) (gameID : NSString) : Prop :=
  history.findSome? Happening.previousGame = some (some gameID) ∧
    ∀ h ∈ history.takeWhile (fun h => !h.isPreviouslyLoaded), h.ofOther gameID = false

def Warranted (history : List Happening) (gameID : NSString) : Prop :=
  LoadedSince history gameID ∨ PreviouslyLoaded history gameID

instance (history : List Happening) (gameID : NSString) : Decidable (Warranted history gameID) :=
  inferInstanceAs (Decidable ((_ ∧ _) ∨ (_ ∧ _)))

/-- Each view that opened with its settings was warranted when it opened. -/
def OpeningsWarranted : List Happening → Prop
  | [] => True
  | h :: history =>
    (∀ gameID, h = .opened (some gameID) true → Warranted history gameID) ∧
      OpeningsWarranted history

section history

variable {history : List Happening} {gameID : NSString}

@[simp] theorem loadedSince_opened (id : Option NSString) (b : Bool) :
    LoadedSince (.opened id b :: history) gameID ↔ LoadedSince history gameID := by
  simp [LoadedSince, lastLoad, List.findSome?_cons, Happening.loadedGame, Happening.isLoadSent]

@[simp] theorem previouslyLoaded_opened (id : Option NSString) (b : Bool) :
    PreviouslyLoaded (.opened id b :: history) gameID ↔ PreviouslyLoaded history gameID := by
  simp [PreviouslyLoaded, List.findSome?_cons, Happening.previousGame,
    Happening.isPreviouslyLoaded, Happening.ofOther]

@[simp] theorem loadedSince_gameLoaded :
    LoadedSince (.gameLoaded :: history) gameID ↔ lastLoad history = some gameID := by
  simp [LoadedSince, lastLoad, List.findSome?_cons, Happening.loadedGame, Happening.isLoadSent]

@[simp] theorem previouslyLoaded_gameLoaded :
    PreviouslyLoaded (.gameLoaded :: history) gameID ↔ PreviouslyLoaded history gameID := by
  simp [PreviouslyLoaded, List.findSome?_cons, Happening.previousGame,
    Happening.isPreviouslyLoaded, Happening.ofOther]

@[simp] theorem loadedSince_gamePreviouslyLoaded (id : Option NSString) :
    LoadedSince (.gamePreviouslyLoaded id :: history) gameID ↔ LoadedSince history gameID := by
  simp [LoadedSince, lastLoad, List.findSome?_cons, Happening.loadedGame, Happening.isLoadSent]

@[simp] theorem previouslyLoaded_gamePreviouslyLoaded (id : Option NSString) :
    PreviouslyLoaded (.gamePreviouslyLoaded id :: history) gameID ↔ id = some gameID := by
  simp [PreviouslyLoaded, List.findSome?_cons, Happening.previousGame,
    Happening.isPreviouslyLoaded]

@[simp] theorem loadedSince_loadSent (gameid : NSString) :
    ¬ LoadedSince (.loadSent gameid :: history) gameID := by
  simp [LoadedSince, Happening.isLoadSent]

@[simp] theorem previouslyLoaded_loadSent :
    PreviouslyLoaded (.loadSent gameID :: history) gameID ↔ PreviouslyLoaded history gameID := by
  simp [PreviouslyLoaded, List.findSome?_cons, Happening.previousGame,
    Happening.isPreviouslyLoaded, Happening.ofOther]

theorem openingsWarranted_append {quits : List Happening}
    (h : ∀ q ∈ quits, ∃ id, q = .quitSent id) :
    OpeningsWarranted (quits ++ history) ↔ OpeningsWarranted history := by
  induction quits with
  | nil => rfl
  | cons q quits ih =>
    obtain ⟨id, rfl⟩ := h q (by simp)
    rw [List.cons_append, OpeningsWarranted, ih fun r hr => h r (List.mem_cons_of_mem _ hr)]
    simp

end history

namespace DocentApp

open runs

/-! ## The view and the history -/

/-- A view shows its settings when it opens, now or before, only for a game that was loaded. -/
def ShowsLoadedGames (s : DocentApp) : Prop :=
  OpeningsWarranted s.history ∧
    ∀ gameID, showsSettings s.model (some gameID) = true → Warranted s.history gameID

/-- The condition on an action: no load is confirmed while the flag of another game is set, no
answer is taken for a game whose load was not sent, and no message about a game loaded before
leaves the game open. -/
def KeepsReadiness (s : DocentApp) : Action → Prop
  | .alertOK sent =>
    ∀ gameidToLoad, s.initializing = [] → s.alert = some (.load gameidToLoad) →
      s.model.isGameLoaded = true →
        PreviouslyLoaded s.history gameidToLoad ∨
          sent = false ∧ LoadedSince s.history gameidToLoad
  | .event (some eventMessage) _ _ =>
    (hasPrefix kGameLoaded eventMessage = true →
      ∀ gameID, s.model.gameIDToBeLoaded = some gameID →
        lastLoad s.history = some gameID ∨ PreviouslyLoaded s.history gameID) ∧
    (hasPrefix kGamePreviouslyLoadedKey eventMessage = true →
      PairsHaveValues (removeOccurrences kGamePreviouslyLoadedKey eventMessage) →
        gameIdOf eventMessage = none →
          ∀ gameID, s.model.gameIDToBeLoaded = some gameID → LoadedSince s.history gameID)
  | _ => True

theorem showsSettings_iff (model : GameModel) (gameID : NSString) :
    showsSettings model (some gameID) = true ↔
      model.isGameLoaded = true ∧ model.gameIDToBeLoaded = some gameID := by
  simp only [showsSettings, isEqualToString, Bool.and_eq_true, decide_eq_true_eq]
  refine ⟨fun h => ⟨h.1, h.2.2⟩, fun h => ⟨h.1, by simp [h.2], h.2⟩⟩

theorem shows_iff_of_flags {s : DocentApp} {started paused loaded : Bool} {id : Option NSString}
    (h : s.model.flags = (started, paused, loaded, id)) :
    s.ShowsLoadedGames ↔ OpeningsWarranted s.history ∧
      ∀ gameID, loaded = true → id = some gameID → Warranted s.history gameID := by
  simp only [GameModel.flags, Prod.mk.injEq] at h
  simp only [ShowsLoadedGames, showsSettings_iff, h.2.2.1, h.2.2.2, and_imp]

/-- What the view looks at, and the history. -/
def SameReadiness (s s' : DocentApp) : Prop :=
  s'.model.isGameLoaded = s.model.isGameLoaded ∧
    s'.model.gameIDToBeLoaded = s.model.gameIDToBeLoaded ∧ s'.history = s.history

theorem SameReadiness.refl (s : DocentApp) : SameReadiness s s := ⟨rfl, rfl, rfl⟩

theorem SameReadiness.of_keeps {s s' : DocentApp}
    (h : s'.model = s.model ∧ s'.history = s.history) : SameReadiness s s' :=
  ⟨by rw [h.1], by rw [h.1], h.2⟩

theorem SameReadiness.shows {s s' : DocentApp} (h : SameReadiness s s') :
    s'.ShowsLoadedGames ↔ s.ShowsLoadedGames := by
  obtain ⟨hloaded, hid, hhistory⟩ := h
  simp only [ShowsLoadedGames, showsSettings_iff, hloaded, hid, hhistory]

/-- Opening a view changes nothing: its test is that of the property. -/
theorem initDetail_shows (s : DocentApp) (gameID : Option NSString) :
    (s.initDetail gameID).ShowsLoadedGames ↔ s.ShowsLoadedGames := by
  simp only [ShowsLoadedGames, initDetail, OpeningsWarranted, Warranted, loadedSince_opened,
    previouslyLoaded_opened]
  refine ⟨fun h => ⟨h.1.2, h.2⟩, fun h => ⟨⟨?_, h.1⟩, h.2⟩⟩
  intro id heq
  injection heq with hgame hshown
  subst hgame
  exact h.2 id hshown

theorem didSelectRow_shows {s : DocentApp} (hs : s.ShowsLoadedGames) (row : Nat) :
    (s.didSelectRow row).ShowsLoadedGames := by
  simp only [didSelectRow]
  split
  · next gameidToLoad _ _ =>
    split
    · split
      · next hequal =>
        simp only [isEqualToString, Bool.and_eq_true, decide_eq_true_eq] at hequal
        have hsame : SameReadiness s
            { s with model := { s.model with gameIDToBeLoaded := some gameidToLoad } } :=
          ⟨rfl, hequal.2.symm, rfl⟩
        rw [showGameDetailView, initDetail_shows]
        exact hsame.shows.mpr hs
      · exact hs
    · exact hs
  · exact hs

theorem menuButton_sameReadiness (s : DocentApp) : SameReadiness s (s.act .menuButton) := by
  apply touchDetail_induction (SameReadiness.refl s)
  intro c covered
  exact .of_keeps ⟨popToRoot_model s c, popToRoot_history s c⟩

theorem quitButton_sameReadiness (s : DocentApp) : SameReadiness s (s.act .quitButton) := by
  apply touchDetail_induction (SameReadiness.refl s)
  intro c covered
  exact ⟨rfl, rfl, rfl⟩

theorem alertOK_shows_iff {s : DocentApp} (hs : s.ShowsLoadedGames) (sent : Bool) :
    (s.act (.alertOK sent)).ShowsLoadedGames ↔ s.KeepsReadiness (.alertOK sent) := by
  simp only [act, KeepsReadiness]
  split
  · next hinit =>
    unfold didDismissWithOK
    rcases halert : s.alert with _ | ⟨gameidToLoad | serial⟩
    · exact iff_of_true hs (by simp)
    · have hloads : ∀ id, some (Alert.load gameidToLoad) = some (Alert.load id) ↔
          id = gameidToLoad := by simp [eq_comm]
      simp only [showGameDetailView, initDetail_shows, hinit, hloads, forall_const, forall_eq]
      cases sent
      · simp [sendLoadMessage, ShowsLoadedGames, showsSettings_iff, hs.1, Warranted, or_comm]
      · simp [sendLoadMessage, note, ShowsLoadedGames, showsSettings_iff, OpeningsWarranted, hs.1,
          Warranted]
    · refine iff_of_true ?_ (by simp)
      simp only
      split
      · next c _ =>
        refine ⟨?_, ?_⟩
        · rw [popToRoot_history, sendQuitMessage_history]
          split
          · exact ⟨by simp, hs.1⟩
          · exact hs.1
        · intro gameID hshown
          rw [showsSettings_iff, quit_model] at hshown
          exact absurd hshown.2 (by simp)
      · exact hs
  · next hinit => exact iff_of_true hs fun _ h => absurd h hinit

theorem event_shows_iff {s : DocentApp} (hs : s.ShowsLoadedGames) (m date : NSString)
    (sent : Nat → Bool) :
    (s.act (.event (some m) date sent)).ShowsLoadedGames ↔
      s.KeepsReadiness (.event (some m) date sent) := by
  simp only [act, KeepsReadiness]
  cases handle_effect s m date sent with
  | gameEnd h hf hhistory =>
    obtain ⟨quits, hhistory, hquits⟩ := hhistory
    have hloaded := hasPrefix_other (by decide) h kGameLoaded (by decide)
    have hprev := hasPrefix_other (by decide) h kGamePreviouslyLoadedKey (by decide)
    have hopen : OpeningsWarranted (s.handle (some m) date sent).history := by
      rw [hhistory, openingsWarranted_append hquits]
      exact hs.1
    refine iff_of_true ?_ (by simp [hloaded, hprev])
    split at hf
    · rw [shows_iff_of_flags hf]
      exact ⟨hopen, by simp⟩
    · rw [shows_iff_of_flags hf]
      exact ⟨hopen, by simp⟩
  | gameLoaded h hf hhistory =>
    have hprev := hasPrefix_other (by decide) h kGamePreviouslyLoadedKey (by decide)
    rw [shows_iff_of_flags hf, hhistory]
    simp [OpeningsWarranted, hs.1, h, hprev, Warranted]
  | previouslyLoaded h hvalues hf hhistory =>
    have hloaded := hasPrefix_other (by decide) h kGameLoaded (by decide)
    rw [shows_iff_of_flags hf, hhistory]
    rcases gameIdOf m with _ | named
    · simp [OpeningsWarranted, hs.1, hloaded, h, hvalues, Warranted]
      exact fun hsince gameID hid _ => hsince gameID hid
    · simp [OpeningsWarranted, hs.1, hloaded, Warranted]
  | quiet hend hloaded hprev hf hhistory =>
    have hsame : (s.handle (some m) date sent).ShowsLoadedGames := by
      rw [shows_iff_of_flags hf, hhistory]
      refine ⟨hs.1, fun gameID hflag hid => hs.2 gameID ?_⟩
      exact (showsSettings_iff s.model gameID).mpr ⟨hflag, hid⟩
    exact iff_of_true hsame ⟨by simp [hloaded], fun h hvalues => absurd hvalues (hprev h)⟩

theorem act_shows_iff {s : DocentApp} (hs : s.ShowsLoadedGames) (a : Action) :
    (s.act a).ShowsLoadedGames ↔ s.KeepsReadiness a := by
  have hsame : ∀ {s'}, SameReadiness s s' → (s'.ShowsLoadedGames ↔ True) :=
    fun h => iff_of_true (h.shows.mpr hs) trivial
  cases a with
  | didSelectRow row => exact iff_of_true (touch_induction hs (didSelectRow_shows hs row)) trivial
  | alertOK sent => exact alertOK_shows_iff hs sent
  | alertCancel => exact hsame (.of_keeps (alertCancel_keeps s))
  | startButton sent => exact hsame (button_induction (.refl s) fun c covered => ⟨rfl, rfl, rfl⟩)
  | pauseButton sent => exact hsame (button_induction (.refl s) fun c covered => ⟨rfl, rfl, rfl⟩)
  | stopButton sent => exact hsame (button_induction (.refl s) fun c covered => ⟨rfl, rfl, rfl⟩)
  | menuButton => exact hsame (menuButton_sameReadiness s)
  | quitButton => exact hsame (quitButton_sameReadiness s)
  | event eventMessage date sent =>
    cases eventMessage with
    | none => exact hsame (.refl s)
    | some m => exact event_shows_iff hs m date sent
  | initReturns => exact hsame (.of_keeps (initReturns_keeps s))
  | dealloc serial => exact hsame ⟨rfl, rfl, rfl⟩

/-! ## Runs -/

/-- A step keeps the property exactly where its action meets the condition. -/
theorem step_shows_iff {s : DocentApp} (hs : s.ShowsLoadedGames) (a : Action) :
    (s.step a).ShowsLoadedGames ↔ (s.ended = false → s.KeepsReadiness a) :=
  step_iff hs (act_shows_iff hs a)

theorem launched_shows (defaults : UserDefaults) : (launched defaults).ShowsLoadedGames :=
  ⟨trivial, fun _ h => Bool.noConfusion h⟩

theorem run_shows_iff (defaults : UserDefaults) (as : List Action) :
    Always step ShowsLoadedGames (launched defaults) as ↔
      EachStep step (fun s a => s.ended = false → s.KeepsReadiness a) (launched defaults) as :=
  always_iff_eachStep (I := fun _ => True) (fun _ _ _ => trivial)
    (fun _ a _ hs => step_shows_iff hs a) trivial (launched_shows defaults)

/-! ## A step that does not keep readiness -/

theorem opened_not_warranted {history : List Happening} {gameID : NSString}
    (h : ¬ Warranted history gameID) :
    ¬ OpeningsWarranted (.opened (some gameID) true :: history) :=
  fun hopen => h (hopen.1 gameID rfl)

/-- A load that is confirmed against the condition opens its view with the settings. -/
theorem alertOK_opens {s : DocentApp} {sent : Bool} (h : ¬ s.KeepsReadiness (.alertOK sent)) :
    ¬ OpeningsWarranted (s.act (.alertOK sent)).history := by
  simp only [KeepsReadiness, not_forall, not_or, not_and] at h
  obtain ⟨gameidToLoad, hinit, halert, hloaded, hprev, hsince⟩ := h
  simp only [act, hinit, if_true, didDismissWithOK, halert]
  have hshown : showsSettings { s.model with
      isGameStarted := false
      gameIDToBeLoaded := some gameidToLoad } (some gameidToLoad) = true :=
    (showsSettings_iff _ _).mpr ⟨hloaded, rfl⟩
  cases sent with
  | true =>
    simp only [sendLoadMessage, note, if_true, showGameDetailView, initDetail]
    rw [hshown]
    apply opened_not_warranted
    rintro (hl | hp)
    · exact loadedSince_loadSent _ hl
    · exact hprev (previouslyLoaded_loadSent.mp hp)
  | false =>
    simp only [sendLoadMessage, Bool.false_eq_true, if_false, showGameDetailView, initDetail]
    rw [hshown]
    apply opened_not_warranted
    rintro (hl | hp)
    · exact hsince rfl hl
    · exact hprev hp

/-- A message about a game loaded before opens the view of the game that is meant. -/
theorem previouslyLoaded_opens {s : DocentApp} {m date gameID : NSString} {sent : Nat → Bool}
    (hprev : hasPrefix kGamePreviouslyLoadedKey m = true)
    (hvalues : PairsHaveValues (removeOccurrences kGamePreviouslyLoadedKey m))
    (hnone : gameIdOf m = none) (hmeant : s.model.gameIDToBeLoaded = some gameID)
    (hsince : ¬ LoadedSince s.history gameID) :
    ¬ OpeningsWarranted (s.act (.event (some m) date sent)).history := by
  have hother := hasPrefix_other (by decide) hprev
  simp only [act]
  cases handle_effect s m date sent with
  | gameEnd h =>
    rw [hother kGameEnd (by decide)] at h
    cases h
  | gameLoaded h =>
    rw [hother kGameLoaded (by decide)] at h
    cases h
  | previouslyLoaded _ _ _ hhistory =>
    rw [hhistory, hnone, hmeant]
    apply opened_not_warranted
    rintro (hl | hp)
    · exact hsince (loadedSince_gamePreviouslyLoaded none |>.mp hl)
    · cases (previouslyLoaded_gamePreviouslyLoaded none).mp hp
  | quiet _ _ h => exact absurd hvalues (h hprev)

/-! ### Back to the table -/

/-- The `init`s return, the alert is cancelled and the detail view is left. -/
def backToTable (s : DocentApp) : List Action :=
  List.replicate s.initializing.length .initReturns ++ [.alertCancel, .menuButton]

theorem run_initReturns {s : DocentApp} (hrun : s.ended = false) :
    ∃ s', run step s (List.replicate s.initializing.length .initReturns) = s' ∧
      s'.initializing = [] ∧ s'.model = s.model ∧ s'.history = s.history ∧ s'.ended = false := by
  generalize hinit : s.initializing = cs
  induction cs generalizing s with
  | nil => exact ⟨s, rfl, hinit, rfl, rfl, hrun⟩
  | cons c cs ih =>
    have hstep : s.step .initReturns =
        { s with initializing := cs, navigation := c :: s.navigation } := by
      simp [step, hrun, act, hinit]
    obtain ⟨s', heq, hlast⟩ := ih (s := s.step .initReturns) (by rw [hstep]; exact hrun)
      (by rw [hstep])
    rw [hstep] at hlast heq
    refine ⟨s', ?_, hlast⟩
    rw [List.length_cons, List.replicate_succ, run_cons, hstep]
    exact heq

theorem menuButton_leaves {s : DocentApp} (hrun : s.ended = false) (hinit : s.initializing = [])
    (halert : s.alert = none) : ∃ s', s.step .menuButton = s' ∧ s'.initializing = [] ∧
      s'.alert = none ∧ s'.navigation = [] ∧ s'.model = s.model ∧ s'.history = s.history ∧
      s'.ended = false := by
  cases hnav : s.navigation with
  | nil =>
    have hmenu : s.step .menuButton = s := by
      simp [step, hrun, act, touchDetail, touch, hinit, halert, hnav]
    exact ⟨s, hmenu, hinit, halert, hnav, rfl, rfl, hrun⟩
  | cons c covered =>
    have hmenu : s.step .menuButton =
        { s with navigation := [], popped := (c :: covered) ++ s.popped } := by
      simp [step, hrun, act, touchDetail, touch, hinit, halert, hnav, popToRoot]
    exact ⟨_, hmenu, hinit, halert, rfl, rfl, rfl, hrun⟩

/-- That leads to the table, and changes nothing about the games. -/
theorem run_backToTable {s : DocentApp} (hrun : s.ended = false) :
    ∃ s', run step s s.backToTable = s' ∧ s'.initializing = [] ∧ s'.alert = none ∧
      s'.navigation = [] ∧ s'.model = s.model ∧ s'.history = s.history ∧ s'.ended = false := by
  obtain ⟨s₁, heq, hinit, hmodel, hhistory, hended⟩ := run_initReturns hrun
  have hcancel : s₁.step .alertCancel = { s₁ with alert := none } := by
    simp [step, hended, act, hinit]
  simp only [backToTable, run_append, heq, run_cons, run_nil, hcancel, ← hmodel, ← hhistory]
  exact menuButton_leaves (s := { s₁ with alert := none }) hended hinit rfl

theorem backToTable_keeps {s : DocentApp} {row : Nat} {a : Action}
    (ha : a ∈ s.backToTable ++ [.didSelectRow row]) (s' : DocentApp) : s'.KeepsReadiness a := by
  simp only [backToTable, List.mem_append, List.mem_replicate, List.mem_cons,
    List.not_mem_nil, or_false] at ha
  rcases ha with (⟨-, rfl⟩ | rfl | rfl) | rfl
  all_goals trivial

/-- The game that is meant has its row in the table. -/
def InTable (s : DocentApp) : Prop :=
  ∃ row, row < s.model.gameTitle.length ∧ s.model.gameList[row]? = s.model.gameIDToBeLoaded

/-- From the table, the row of the game that is meant opens its view. -/
theorem table_opens {s : DocentApp} {gameID : NSString} {row : Nat} (hrun : s.ended = false)
    (hrow : row < s.model.gameTitle.length)
    (hgame : s.model.gameList[row]? = some gameID)
    (hmeant : s.model.gameIDToBeLoaded = some gameID) (hloaded : s.model.isGameLoaded = true) :
    (run step s (s.backToTable ++ [.didSelectRow row])).history =
      .opened (some gameID) true :: s.history := by
  obtain ⟨s', heq, hinit, halert, hnav, hmodel, hhistory, hended⟩ := run_backToTable hrun
  rw [run_append, heq]
  have hshown : showsSettings { s'.model with gameIDToBeLoaded := some gameID } (some gameID) =
      true := by
    simp [showsSettings_iff, hmodel, hloaded]
  simp [step, hended, act, touch, hinit, halert, didSelectRow, hnav, hmodel, hgame, hrow, hmeant,
    isEqualToString, showGameDetailView, initDetail, hhistory]
  rw [← hmodel]
  exact hshown

/-- What "gameLoaded" leaves of the application. -/
theorem handle_gameLoaded {s : DocentApp} {m : NSString} (h : hasPrefix kGameLoaded m = true)
    (date : NSString) (sent : Nat → Bool) :
    (s.handle (some m) date sent).model =
        { s.model with isGameLoaded := true, posted := [.gameLoaded] } ∧
      (s.handle (some m) date sent).history = .gameLoaded :: s.history ∧
      (s.handle (some m) date sent).ended = s.ended := by
  have hother := hasPrefix_other (by decide) h
  have hrun : (handleEvent (some m) date).run { s.model with posted := [] } =
      .ok () { s.model with isGameLoaded := true, posted := [.gameLoaded] } := by
    rw [handleEvent_run, if_neg (by simp [hother kGameList (by decide)]),
      if_neg (by simp [hother kGameEnd (by decide)]), if_pos h, onGameLoaded, if_pos h]
    rfl
  unfold handle
  rw [hrun]
  refine ⟨rfl, ?_, rfl⟩
  simp [notify, heard, h]

/-- A message about a game loaded before that names none. -/
def namesNoGame : Action := .event (some kGamePreviouslyLoadedKey) [] fun _ => true

/-- An answer to a load that was not sent can be followed by the view of the game that is meant:
from its row in the table, or else by a message about a game loaded before. -/
theorem gameLoaded_leads_on {s : DocentApp} {m date gameID : NSString} {sent : Nat → Bool}
    (hrun : s.ended = false) (h : hasPrefix kGameLoaded m = true)
    (hmeant : s.model.gameIDToBeLoaded = some gameID)
    (hlast : lastLoad s.history ≠ some gameID) (hprev : ¬ PreviouslyLoaded s.history gameID) :
    ∃ bs, ¬ OpeningsWarranted (run step (s.act (.event (some m) date sent)) bs).history ∧
      (s.InTable → ∀ a ∈ bs, ∀ s' : DocentApp, s'.KeepsReadiness a) := by
  obtain ⟨hmodel, hhistory, hended⟩ := handle_gameLoaded (s := s) h date sent
  simp only [act]
  generalize s.handle (some m) date sent = s₁ at hmodel hhistory hended ⊢
  have hmeant₁ : s₁.model.gameIDToBeLoaded = some gameID := by rw [hmodel]; exact hmeant
  by_cases htable : s.InTable
  · obtain ⟨row, hrow, hgame⟩ := htable
    refine ⟨s₁.backToTable ++ [.didSelectRow row], ?_, fun _ a ha => backToTable_keeps ha⟩
    rw [table_opens (hended.trans hrun) (by rw [hmodel]; exact hrow)
      (by rw [hmodel]; exact hgame.trans hmeant) hmeant₁ (by rw [hmodel]), hhistory]
    apply opened_not_warranted
    rintro (hl | hp)
    · exact hlast (loadedSince_gameLoaded.mp hl)
    · exact hprev (previouslyLoaded_gameLoaded.mp hp)
  · refine ⟨[namesNoGame], ?_, fun hin => absurd hin htable⟩
    simp only [run_cons, run_nil, step, hended, hrun, Bool.false_eq_true, if_false]
    apply previouslyLoaded_opens (m := kGamePreviouslyLoadedKey) _ _ _ hmeant₁
    · rw [hhistory]
      exact fun hl => hlast (loadedSince_gameLoaded.mp hl)
    · decide
    · exact fun hne => absurd (by decide) hne
    · decide

/-- An action that does not keep readiness can be continued to an opening without warrant. -/
theorem act_leads_on {s : DocentApp} {a : Action} (hrun : s.ended = false)
    (h : ¬ s.KeepsReadiness a) : ∃ bs, ¬ OpeningsWarranted (run step (s.act a) bs).history ∧
      (s.InTable → ∀ b ∈ bs, ∀ s' : DocentApp, s'.KeepsReadiness b) := by
  cases a with
  | alertOK sent => exact ⟨[], alertOK_opens h, fun _ b hb => absurd hb (by simp)⟩
  | event eventMessage date sent =>
    cases eventMessage with
    | none => exact absurd trivial h
    | some m =>
      simp only [KeepsReadiness, not_and_or, not_forall] at h
      rcases h with ⟨hloaded, gameID, hmeant, hnot⟩ | ⟨hprev, hvalues, hnone, gameID, hmeant, hnot⟩
      · rw [not_or] at hnot
        exact gameLoaded_leads_on hrun hloaded hmeant hnot.1 hnot.2
      · exact ⟨[], previouslyLoaded_opens hprev hvalues hnone hmeant hnot,
          fun _ b hb => absurd hb (by simp)⟩
  | didSelectRow | alertCancel | startButton | pauseButton | stopButton | menuButton
  | quitButton | initReturns | dealloc => exact absurd trivial h

/-! ## The law -/

/-- Every opening with the settings is warranted in a run, from any launch, whose actions meet the
condition. An action that does not can be continued to an opening without warrant, and without
another such action where the game that is meant has its row in the table. -/
theorem views_with_settings_are_warranted (defaults : UserDefaults) (as : List Action) :
    (EachStep step (fun s a => s.ended = false → s.KeepsReadiness a) (launched defaults) as →
      Always step (fun s => OpeningsWarranted s.history) (launched defaults) as) ∧
    ∀ a, ¬ ((run step (launched defaults) as).ended = false →
        (run step (launched defaults) as).KeepsReadiness a) →
      ∃ bs, ¬ OpeningsWarranted (run step (launched defaults) (as ++ a :: bs)).history ∧
        ((run step (launched defaults) as).InTable →
          EachStep step (fun s a => s.ended = false → s.KeepsReadiness a)
            (run step (launched defaults) (as ++ [a])) bs) := by
  constructor
  · intro h bs hbs
    exact ((run_shows_iff defaults as).mpr h bs hbs).1
  · intro a h
    rw [not_forall] at h
    obtain ⟨hrun, hbreaks⟩ := h
    simp only [run_append, run_cons, run_nil, step, hrun, Bool.false_eq_true, if_false]
    obtain ⟨bs, hopen, hkeeps⟩ := act_leads_on hrun hbreaks
    exact ⟨bs, hopen, fun hin cs b hcs _ => hkeeps hin b (hcs.subset (by simp)) _⟩

/-- The defaults with two games. -/
def twoGames : UserDefaults :=
  { kGameTitleKey := [literal "Alpha", literal "Beta"]
    kGameListKey := [literal "alpha", literal "beta"] }

/-- A game is loaded and answered, and its row opens it again. -/
theorem a_loaded_game_opens_with_its_settings :
    Always step (fun s => OpeningsWarranted s.history) (launched twoGames)
      [.didSelectRow 0, .alertOK true, .initReturns,
        .event (some (literal "gameLoaded")) [] (fun _ => true), .menuButton, .didSelectRow 0] := by
  apply (views_with_settings_are_warranted twoGames _).1
  simp only [eachStep_cons, eachStep_nil, and_true]
  refine ⟨fun _ => trivial, fun _ id _ _ hloaded => absurd hloaded (by decide), fun _ => trivial,
    fun _ => ⟨fun _ gameID hmeant => Or.inl ?_, fun hprev => absurd hprev (by decide)⟩,
    fun _ => trivial, fun _ => trivial⟩
  rw [← hmeant]
  decide

/-- After the first game was loaded, the second is. Its view opens with the settings. -/
def secondLoad : List Action :=
  [.didSelectRow 0, .alertOK true, .initReturns,
    .event (some (literal "gameLoaded")) [] (fun _ => true), .menuButton,
    .didSelectRow 1, .alertOK true]

theorem a_second_game_shows_its_settings_while_it_loads :
    ¬ Always step (fun s => OpeningsWarranted s.history) (launched twoGames) secondLoad := by
  intro h
  have hopen : OpeningsWarranted (run step (launched twoGames) secondLoad).history :=
    h _ (List.prefix_refl _)
  have hhistory : (run step (launched twoGames) secondLoad).history =
      .opened (some (literal "beta")) true ::
        (run step (launched twoGames) secondLoad).history.tail := by decide
  rw [hhistory] at hopen
  exact absurd (hopen.1 _ rfl) (by decide)

end DocentApp

end esc_platform.docent
