-- What one event message does to the flags of the model. A message has at most
-- one branch, and only three branches touch the flags.
import EscPlatform.Docent.AdvancedSettings
import EscPlatform.Docent.GameLists
import EscPlatform.Docent.ViewControllers

namespace esc_platform.docent

/-! ## The pairs of a message about a game loaded before -/

/-- What a pair says about the start of the game. -/
def gameStartedValue (keyValuePair : NSString) : Option Bool :=
  if hasRange (literal "gameId") (pairKey keyValuePair) then none
  else if hasRange (literal "gameStarted") (pairKey keyValuePair) then
    if pairValue keyValuePair = literal "True" then some true
    else if pairValue keyValuePair = literal "False" then some false
    else none
  else none

/-- What the message says about it: of several pairs, the last. -/
def gameStartedOf (eventMessage : NSString) : Option Bool :=
  ((pairsOf (removeOccurrences kGamePreviouslyLoadedKey eventMessage)).filterMap
    gameStartedValue).getLast?

/-- The model with the pairs set one by one. -/
def setLoadedPairs (g : GameModel) (pairs : List NSString) : GameModel :=
  pairs.foldl (fun g pair => g.setLoaded (pairKey pair) (pairValue pair)) g

theorem setLoadedPairs_eq (g : GameModel) (pairs : List NSString) :
    setLoadedPairs g pairs =
      { g with
        gameIDToBeLoaded :=
          ((pairs.filter fun pair => hasRange (literal "gameId") (pairKey pair)).getLast?.map
            pairValue).or g.gameIDToBeLoaded
        isGameStarted := (pairs.filterMap gameStartedValue).getLast?.getD g.isGameStarted } := by
  unfold setLoadedPairs
  induction pairs using List.reverseRecOn with
  | nil => rfl
  | append_singleton pairs pair ih =>
    rw [List.foldl_concat, ih, GameModel.setLoaded, List.filter_append, List.filterMap_append]
    by_cases hid : hasRange (literal "gameId") (pairKey pair) = true
    · simp [hid, gameStartedValue]
    · rw [if_neg hid]
      by_cases hstart : hasRange (literal "gameStarted") (pairKey pair) = true
      · rw [if_pos hstart]
        by_cases htrue : pairValue pair = literal "True"
        · simp [hid, hstart, htrue, gameStartedValue]
        · by_cases hfalse : pairValue pair = literal "False"
          · have hne : literal "False" ≠ literal "True" := by decide
            simp [hid, hstart, hfalse, hne, gameStartedValue]
          · simp [hid, hstart, htrue, hfalse, gameStartedValue]
      · simp [hid, hstart, gameStartedValue]

/-! ## One message -/

/-- The flags of the model, with the game they are about. -/
def GameModel.flags (g : GameModel) : Bool × Bool × Bool × Option NSString :=
  (g.isGameStarted, g.gamePaused, g.isGameLoaded, g.gameIDToBeLoaded)

theorem setParams_flags (g : GameModel) (pairs : List NSString) :
    (setParams g pairs).flags = g.flags ∧ (setParams g pairs).posted = g.posted := by
  unfold setParams
  induction pairs generalizing g with
  | nil => exact ⟨rfl, rfl⟩
  | cons pair pairs ih =>
    obtain ⟨hflags, hposted⟩ := ih (g.setParam (pairKey pair) (pairValue pair))
    rw [List.foldl_cons, hflags, hposted]
    unfold GameModel.setParam
    split
    · exact ⟨rfl, rfl⟩
    · split
      · exact ⟨rfl, rfl⟩
      · split
        · exact ⟨rfl, rfl⟩
        · exact ⟨rfl, rfl⟩

/-- The model after the end of a game. -/
def GameModel.gameEnd (g : GameModel) : GameModel :=
  (({ g with isGameStarted := false, isGameLoaded := false }.clearAdvancedParameters).post
    .gameEnd).post .gameAdvancedSettings

/-- The model after a message about a game loaded before. -/
def GameModel.previouslyLoaded (g : GameModel) (eventMessage : NSString) : GameModel :=
  ({ g with
    isGameLoaded := true
    gameIDToBeLoaded := (gameIdOf eventMessage).or g.gameIDToBeLoaded
    isGameStarted := (gameStartedOf eventMessage).getD g.isGameStarted }).post
      .gamePreviouslyLoaded

/-- How a message can end. -/
inductive EventEffect (m : NSString) (g : GameModel) :
    EStateM.Result NSException GameModel Unit → Prop
  | gameEnd (h : hasPrefix kGameEnd m = true) : EventEffect m g (.ok () g.gameEnd)
  | gameLoaded (h : hasPrefix kGameLoaded m = true) :
      EventEffect m g (.ok () ({ g with isGameLoaded := true }.post .gameLoaded))
  | previouslyLoaded (h : hasPrefix kGamePreviouslyLoadedKey m = true)
      (hvalues : PairsHaveValues (removeOccurrences kGamePreviouslyLoadedKey m)) :
      EventEffect m g (.ok () (g.previouslyLoaded m))
  | quiet (hend : hasPrefix kGameEnd m = false) (hloaded : hasPrefix kGameLoaded m = false)
      (hprev : hasPrefix kGamePreviouslyLoadedKey m = false) {g' : GameModel}
      (hflags : g'.flags = g.flags)
      (hposted : ∃ quiet, g'.posted = g.posted ++ quiet ∧
        ∀ n ∈ quiet, n = .gameListChanged ∨ n = .gameAdvancedSettings) :
      EventEffect m g (.ok () g')
  | exception (hend : hasPrefix kGameEnd m = false) (hloaded : hasPrefix kGameLoaded m = false)
      (hprev : hasPrefix kGamePreviouslyLoadedKey m = true →
        ¬ PairsHaveValues (removeOccurrences kGamePreviouslyLoadedKey m))
      (e : NSException) (g' : GameModel) : EventEffect m g (.error e g')

theorem onGamePreviouslyLoaded_run {m : NSString}
    (hpre : hasPrefix kGamePreviouslyLoadedKey m = true)
    (hvalues : PairsHaveValues (removeOccurrences kGamePreviouslyLoadedKey m)) (g : GameModel) :
    (onGamePreviouslyLoaded m).run g = .ok () (g.previouslyLoaded m) := by
  have hturns := forM_run fun pair hp =>
    @setPair_run GameModel.setLoaded pair ((pairsHaveValues_iff _).mp hvalues pair hp)
  have hset := setLoadedPairs_eq { g with isGameLoaded := true }
    (pairsOf (removeOccurrences kGamePreviouslyLoadedKey m))
  unfold setLoadedPairs at hset
  rw [onGamePreviouslyLoaded, if_pos hpre, forPairs_eq]
  simp only [EStateM.run_bind, EStateM.run_modify, hturns, hset]
  rfl

theorem onGamePreviouslyLoaded_error {m : NSString}
    (hpre : hasPrefix kGamePreviouslyLoadedKey m = true)
    (hvalues : ¬ PairsHaveValues (removeOccurrences kGamePreviouslyLoadedKey m))
    (g : GameModel) : ∃ e g', (onGamePreviouslyLoaded m).run g = .error e g' := by
  obtain ⟨e, g', hrun⟩ := forPairs_error (fun _ h g => @setPair_run GameModel.setLoaded _ h g)
    (fun _ h g => setPair_error h g) hvalues { g with isGameLoaded := true }
  rw [onGamePreviouslyLoaded, if_pos hpre]
  simp only [EStateM.run_bind, EStateM.run_modify, hrun]
  exact ⟨e, g', rfl⟩

/-- The effect of a message, whatever it is. -/
theorem handleEvent_effect (m date : NSString) (g : GameModel) :
    EventEffect m g ((handleEvent (some m) date).run g) := by
  rw [handleEvent_run]
  split
  · next hgames =>
    have hrest := hasPrefix_other (by decide) hgames
    have hend := hrest kGameEnd (by decide)
    have hloaded := hrest kGameLoaded (by decide)
    have hprev := hrest kGamePreviouslyLoadedKey (by decide)
    by_cases hvalues : PairsHaveValues (removeOccurrences kGameList m)
    · rw [onGameList_run hgames hvalues]
      exact .quiet hend hloaded hprev rfl ⟨[.gameListChanged], rfl, by simp⟩
    · obtain ⟨e, g', hrun⟩ := onGameList_error hgames hvalues date g
      rw [hrun]
      exact .exception hend hloaded (by simp [hprev]) e g'
  · split
    · next hend =>
      rw [onGameEnd, if_pos hend]
      exact .gameEnd hend
    · next hend =>
      split
      · next hloaded =>
        rw [onGameLoaded, if_pos hloaded]
        exact .gameLoaded hloaded
      · next hloaded =>
        rw [Bool.not_eq_true] at hend hloaded
        split
        · next hprev =>
          by_cases hvalues : PairsHaveValues (removeOccurrences kGamePreviouslyLoadedKey m)
          · rw [onGamePreviouslyLoaded_run hprev hvalues]
            exact .previouslyLoaded hprev hvalues
          · obtain ⟨e, g', hrun⟩ := onGamePreviouslyLoaded_error hprev hvalues g
            rw [hrun]
            exact .exception hend hloaded (fun _ => hvalues) e g'
        · next hprev =>
          rw [Bool.not_eq_true] at hprev
          by_cases hset : hasPrefix kGameAdvancedSettings m = true
          · by_cases hvalues : PairsHaveValues (removeOccurrences kGameAdvancedSettingsKey m)
            · rw [onAdvancedSettings_run hset hvalues]
              obtain ⟨hflags, hposted⟩ := setParams_flags g
                (pairsOf (removeOccurrences kGameAdvancedSettingsKey m))
              exact .quiet hend hloaded hprev hflags
                ⟨[.gameAdvancedSettings], congrArg (· ++ _) hposted, by simp⟩
            · obtain ⟨e, g', hrun⟩ := onAdvancedSettings_error hset hvalues g
              rw [hrun]
              exact .exception hend hloaded (by simp [hprev]) e g'
          · rw [onAdvancedSettings, if_neg hset]
            exact .quiet hend hloaded hprev rfl ⟨[], by simp, by simp⟩

/-! ## One message in the application -/

namespace DocentApp

theorem popToRoot_model (s : DocentApp) (c : GameDetailViewController) :
    (s.popToRoot c).model = s.model := by
  unfold popToRoot
  split
  · rfl
  · rfl

theorem popToRoot_history (s : DocentApp) (c : GameDetailViewController) :
    (s.popToRoot c).history = s.history := by
  unfold popToRoot
  split
  · rfl
  · rfl

theorem sendQuitMessage_model (s : DocentApp) (c : GameDetailViewController) (sent : Bool) :
    (s.sendQuitMessage c sent).model = if sent then s.model.quit else s.model := by
  unfold sendQuitMessage
  split
  · rw [popToRoot_model]
    rfl
  · rw [popToRoot_model]

theorem sendQuitMessage_history (s : DocentApp) (c : GameDetailViewController) (sent : Bool) :
    (s.sendQuitMessage c sent).history =
      if sent then .quitSent c.gameID :: s.history else s.history := by
  unfold sendQuitMessage
  split
  · rw [popToRoot_history]
    rfl
  · rw [popToRoot_history]

theorem quit_quit (g : GameModel) : g.quit.quit = g.quit := rfl

/-- The quit commands of the observers, one after the other. -/
def quitAll (sent : Nat → Bool) (s : DocentApp) (cs : List GameDetailViewController) : DocentApp :=
  cs.foldl (fun s c => s.sendQuitMessage c (sent c.serial)) s

theorem quitAll_model (sent : Nat → Bool) (s : DocentApp) (cs : List GameDetailViewController) :
    (quitAll sent s cs).model =
      if cs.any (fun c => sent c.serial) then s.model.quit else s.model := by
  unfold quitAll
  induction cs generalizing s with
  | nil => rfl
  | cons c cs ih =>
    rw [List.foldl_cons, ih, sendQuitMessage_model, List.any_cons]
    cases sent c.serial
    · simp
    · simp [quit_quit]

theorem quitAll_history (sent : Nat → Bool) (s : DocentApp) (cs : List GameDetailViewController) :
    ∃ quits, (quitAll sent s cs).history = quits ++ s.history ∧
      ∀ h ∈ quits, ∃ gameID, h = .quitSent gameID := by
  unfold quitAll
  induction cs generalizing s with
  | nil => exact ⟨[], rfl, by simp⟩
  | cons c cs ih =>
    obtain ⟨quits, heq, hquits⟩ := ih (s.sendQuitMessage c (sent c.serial))
    rw [sendQuitMessage_history] at heq
    rw [List.foldl_cons, heq]
    split
    · refine ⟨quits ++ [.quitSent c.gameID], by simp, ?_⟩
      intro h hmem
      rcases List.mem_append.mp hmem with hq | hq
      · exact hquits h hq
      · exact ⟨c.gameID, List.mem_singleton.mp hq⟩
    · exact ⟨quits, rfl, hquits⟩

/-- A load that is confirmed ends the started game, and leaves it paused. -/
theorem load_model (s : DocentApp) (gameidToLoad : NSString) (sent : Bool) :
    (({ s with alert := none, model := { s.model with isGameStarted := false } }.sendLoadMessage
      gameidToLoad sent).showGameDetailView gameidToLoad).model =
        { s.model with isGameStarted := false, gameIDToBeLoaded := some gameidToLoad } := by
  unfold sendLoadMessage
  split
  · rfl
  · rfl

/-- A quit that is confirmed ends the started game, and the pause where its command is sent. -/
theorem quit_model (s : DocentApp) (c : GameDetailViewController) (sent : Bool) :
    (({ s with
        alert := none
        model := { s.model with isGameStarted := false, gameIDToBeLoaded := none }
      }.sendQuitMessage c sent).popToRoot c).model =
        { s.model with
          isGameStarted := false
          gamePaused := s.model.gamePaused && !sent
          gameIDToBeLoaded := none } := by
  rw [popToRoot_model, sendQuitMessage_model]
  cases sent
  · simp
  · simp [GameModel.quit]

/-- What a message can do to the flags and to the history. -/
inductive HandleEffect (s : DocentApp) (m : NSString) (sent : Nat → Bool) (s' : DocentApp) : Prop
  | gameEnd (h : hasPrefix kGameEnd m = true)
      (hflags : s'.model.flags =
        if s.observers.any (fun c => sent c.serial) then (false, false, false, none)
        else (false, s.model.gamePaused, false, s.model.gameIDToBeLoaded))
      (hhistory : ∃ quits, s'.history = quits ++ s.history ∧
        ∀ h ∈ quits, ∃ gameID, h = .quitSent gameID)
  | gameLoaded (h : hasPrefix kGameLoaded m = true)
      (hflags : s'.model.flags =
        (s.model.isGameStarted, s.model.gamePaused, true, s.model.gameIDToBeLoaded))
      (hhistory : s'.history = .gameLoaded :: s.history)
  | previouslyLoaded (h : hasPrefix kGamePreviouslyLoadedKey m = true)
      (hvalues : PairsHaveValues (removeOccurrences kGamePreviouslyLoadedKey m))
      (hflags : s'.model.flags = ((gameStartedOf m).getD s.model.isGameStarted,
        s.model.gamePaused, true, (gameIdOf m).or s.model.gameIDToBeLoaded))
      (hhistory : s'.history =
        .opened ((gameIdOf m).or s.model.gameIDToBeLoaded)
            ((gameIdOf m).or s.model.gameIDToBeLoaded).isSome ::
          .gamePreviouslyLoaded (gameIdOf m) :: s.history)
  | quiet (hend : hasPrefix kGameEnd m = false) (hloaded : hasPrefix kGameLoaded m = false)
      (hprev : hasPrefix kGamePreviouslyLoadedKey m = true →
        ¬ PairsHaveValues (removeOccurrences kGamePreviouslyLoadedKey m))
      (hflags : s'.model.flags = s.model.flags) (hhistory : s'.history = s.history)

/-- Two of the notifications have no observer that writes a flag. -/
theorem foldl_notify_quiet (sent : Nat → Bool) (s : DocentApp) {posts : List Notification}
    (h : ∀ n ∈ posts, n = .gameListChanged ∨ n = .gameAdvancedSettings) :
    posts.foldl (notify sent) s = s := by
  induction posts with
  | nil => rfl
  | cons n posts ih =>
    have hsame : notify sent s n = s := by
      rcases h n (by simp) with rfl | rfl
      · rfl
      · rfl
    rw [List.foldl_cons, hsame]
    exact ih fun k hk => h k (List.mem_cons_of_mem _ hk)

theorem heard_of_gameEnd {m : NSString} (h : hasPrefix kGameEnd m = true) : heard m = [] := by
  have hother := hasPrefix_other (by decide) h
  have hloaded := hother kGameLoaded (by decide)
  have hprev := hother kGamePreviouslyLoadedKey (by decide)
  simp [heard, hloaded, hprev]

theorem handle_effect (s : DocentApp) (m date : NSString) (sent : Nat → Bool) :
    HandleEffect s m sent (s.handle (some m) date sent) := by
  have heffect := handleEvent_effect m date { s.model with posted := [] }
  generalize hrun : (handleEvent (some m) date).run { s.model with posted := [] } = result
    at heffect
  unfold handle
  rw [hrun]
  cases heffect with
  | gameEnd h =>
    let ended : DocentApp :=
      { s with
        model := { s.model with posted := [] }.gameEnd
        history := (some m).toList.flatMap heard ++ s.history }
    have hmodel := quitAll_model sent ended s.observers
    obtain ⟨quits, hhistory, hquits⟩ := quitAll_history sent ended s.observers
    refine .gameEnd h ?_ ⟨quits, ?_, hquits⟩
    · change (quitAll sent ended s.observers).model.flags = _
      rw [hmodel]
      split
      · rfl
      · rfl
    · change (quitAll sent ended s.observers).history = _
      rw [hhistory]
      simp [ended, heard_of_gameEnd h]
  | gameLoaded h =>
    refine .gameLoaded h rfl ?_
    change (some m).toList.flatMap heard ++ s.history = _
    simp [heard, h]
  | previouslyLoaded h hvalues =>
    have hloaded := hasPrefix_other (by decide) h kGameLoaded (by decide)
    have hshown : showsSettings ({ s.model with posted := [] }.previouslyLoaded m)
        ((gameIdOf m).or s.model.gameIDToBeLoaded) =
          ((gameIdOf m).or s.model.gameIDToBeLoaded).isSome := by
      simp [showsSettings, isEqualToString, GameModel.previouslyLoaded, GameModel.post]
    have hheard : (some m).toList.flatMap heard = [.gamePreviouslyLoaded (gameIdOf m)] := by
      simp [heard, hloaded, h]
    refine .previouslyLoaded h hvalues rfl ?_
    change .opened ((gameIdOf m).or s.model.gameIDToBeLoaded)
      (showsSettings ({ s.model with posted := [] }.previouslyLoaded m)
        ((gameIdOf m).or s.model.gameIDToBeLoaded)) ::
      ((some m).toList.flatMap heard ++ s.history) = _
    rw [hshown, hheard]
    rfl
  | quiet hend hloaded hprev hflags hposted =>
    rename_i g'
    obtain ⟨quiet, heq, hquiet⟩ := hposted
    have hposts : ∀ n ∈ g'.posted, n = .gameListChanged ∨ n = .gameAdvancedSettings := by
      rw [heq]
      simpa using hquiet
    refine .quiet hend hloaded (by simp [hprev]) ?_ ?_
    · simp only [foldl_notify_quiet sent _ hposts]
      exact hflags
    · simp only [foldl_notify_quiet sent _ hposts]
      simp [heard, hloaded, hprev]
  | exception hend hloaded hprev e g' => exact .quiet hend hloaded hprev rfl rfl

end DocentApp

end esc_platform.docent
