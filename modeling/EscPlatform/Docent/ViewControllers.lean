-- The docent application around its model: the table of games, the detail
-- views above it, and what the operator and the server do to them. Handlers of
-- both view controllers and the event loop write the flags of the model.
import EscPlatform.Docent.EventTexts

namespace esc_platform.docent

/-! ## Strings and flags -/

/-- `[receiver isEqualToString:aString]`. A `nil` receiver equals nothing. -/
def isEqualToString (receiver aString : Option NSString) : Bool :=
  receiver.isSome && decide (receiver = aString)

/-- What a command of the detail view changes when it was sent. -/
def GameModel.start (g : GameModel) : GameModel := { g with isGameStarted := true }

def GameModel.stop (g : GameModel) : GameModel :=
  { g with isGameStarted := false, gamePaused := false }

def GameModel.pause (g : GameModel) : GameModel := { g with gamePaused := !g.gamePaused }

def GameModel.quit (g : GameModel) : GameModel :=
  { g with isGameStarted := false, gamePaused := false, gameIDToBeLoaded := none }

/-! ## What happens -/

/-- What an observer of the application sees. -/
inductive Happening
  | loadSent (gameid : NSString)
  | quitSent (gameID : Option NSString)
  | gameLoaded
  /-- The message names a game, if it has a pair for it. -/
  | gamePreviouslyLoaded (gameId : Option NSString)
  /-- A detail view is created, with its settings or with the loading screen. -/
  | opened (gameID : Option NSString) (settings : Bool)
  deriving DecidableEq, Repr

/-- The game that a message about a game loaded before names: of several, the last. -/
def gameIdOf (eventMessage : NSString) : Option NSString :=
  ((pairsOf (removeOccurrences kGamePreviouslyLoadedKey eventMessage)).filter
    fun pair => hasRange (literal "gameId") (pairKey pair)).getLast?.map pairValue

def heard (eventMessage : NSString) : List Happening :=
  if hasPrefix kGameLoaded eventMessage then [.gameLoaded]
  else if hasPrefix kGamePreviouslyLoadedKey eventMessage then
    [.gamePreviouslyLoaded (gameIdOf eventMessage)]
  else []

/-! ## The detail view -/

structure GameDetailViewController where
  /-- Which of the controllers it is. -/
  serial : Nat
  gameID : Option NSString
  /-- The buttons that `alpha` shows, of the last call of `showSettingsView`. -/
  startButton : Bool := false
  pauseButton : Bool := false
  stopButton : Bool := false
  /-- A stop button of an earlier call, which nothing hides or covers. -/
  earlierStopButton : Bool := false
  deriving DecidableEq, Repr

namespace GameDetailViewController

/-- The buttons of an earlier call stay where they are. The new start and pause buttons lie
over them, one of the two visible. -/
def showSettingsView (model : GameModel) (c : GameDetailViewController) :
    GameDetailViewController :=
  let running := model.isGameStarted && isEqualToString model.gameIDToBeLoaded c.gameID
  { c with
    startButton := !running
    pauseButton := running
    stopButton := running
    earlierStopButton := c.earlierStopButton || c.stopButton }

/-- The buttons after `sendStartMessage`. -/
def started (c : GameDetailViewController) : GameDetailViewController :=
  { c with startButton := false, pauseButton := true, stopButton := true }

/-- The buttons after `sendStopMessage`. -/
def stopped (c : GameDetailViewController) : GameDetailViewController :=
  { c with startButton := true, pauseButton := false, stopButton := false }

end GameDetailViewController

/-! ## The application -/

/-- The alert over the views. The quit alert answers to the controller that showed it. -/
inductive Alert
  | load (gameidToLoad : NSString)
  | quit (serial : Nat)
  deriving DecidableEq, Repr

structure DocentApp where
  model : GameModel := {}
  /-- How many detail view controllers there were. -/
  created : Nat := 0
  /-- The detail views over the table, the visible one first. -/
  navigation : List GameDetailViewController := []
  /-- Controllers whose `init` runs the event loop, the innermost first. They do not observe
  notifications yet, and nothing else runs. -/
  initializing : List GameDetailViewController := []
  /-- Controllers that left the screen and still exist. -/
  popped : List GameDetailViewController := []
  alert : Option Alert := none
  /-- An exception ended the process, or a message to a controller that is gone. -/
  ended : Bool := false
  /-- The newest first. -/
  history : List Happening := []
  deriving DecidableEq, Repr

namespace DocentApp

/-- The application after its launch. -/
def launched (defaults : UserDefaults) : DocentApp := { model := GameModel.init defaults }

def note (s : DocentApp) (h : Happening) : DocentApp := { s with history := h :: s.history }

/-- The test of `initWithGameTitle:andGameID:`. -/
def showsSettings (model : GameModel) (gameID : Option NSString) : Bool :=
  model.isGameLoaded && isEqualToString model.gameIDToBeLoaded gameID

/-- `initWithGameTitle:andGameID:`, as far as its call of `checkConnection`. -/
def initDetail (s : DocentApp) (gameID : Option NSString) : DocentApp :=
  let c : GameDetailViewController := { serial := s.created, gameID }
  let settings := showsSettings s.model gameID
  { s with
    created := s.created + 1
    initializing := (if settings then c.showSettingsView s.model else c) :: s.initializing
    history := .opened gameID settings :: s.history }

def showGameDetailView (s : DocentApp) (gameidToLoad : NSString) : DocentApp :=
  { s with model := { s.model with gameIDToBeLoaded := some gameidToLoad } }.initDetail
    (some gameidToLoad)

def sendLoadMessage (s : DocentApp) (gameidToLoad : NSString) (sent : Bool) : DocentApp :=
  if sent then s.note (.loadSent gameidToLoad) else s

/-- `popToRootViewControllerAnimated:` of the controller's navigation controller. A controller
that was popped has none. -/
def popToRoot (s : DocentApp) (c : GameDetailViewController) : DocentApp :=
  if s.navigation.any (fun d => d.serial == c.serial) then
    { s with navigation := [], popped := s.navigation ++ s.popped }
  else s

def sendQuitMessage (s : DocentApp) (c : GameDetailViewController) (sent : Bool) : DocentApp :=
  if sent then ({ s with model := s.model.quit }.note (.quitSent c.gameID)).popToRoot c
  else s.popToRoot c

/-- The detail view controllers that receive notifications. -/
def observers (s : DocentApp) : List GameDetailViewController := s.navigation ++ s.popped

/-- The observers of a notification, run by its post. Whether a controller's quit command is
sent depends on the controller. -/
def notify (sent : Nat → Bool) (s : DocentApp) : Notification → DocentApp
  | .gameListChanged => s
  | .gameEnd => s.observers.foldl (fun s c => s.sendQuitMessage c (sent c.serial)) s
  | .gameLoaded =>
    { s with
      navigation := s.navigation.map fun c => c.showSettingsView s.model
      popped := s.popped.map fun c => c.showSettingsView s.model }
  | .gamePreviouslyLoaded => s.initDetail s.model.gameIDToBeLoaded
  | .gameAdvancedSettings => s

/-- A turn of the event loop. The posts are the last thing that the branch of a message does,
and no message has two branches. -/
def handle (s : DocentApp) (eventMessage : Option NSString) (date : NSString)
    (sent : Nat → Bool) : DocentApp :=
  match (handleEvent eventMessage date).run { s.model with posted := [] } with
  | .ok _ model =>
    model.posted.foldl (notify sent)
      { s with model := model, history := eventMessage.toList.flatMap heard ++ s.history }
  | .error _ _ => { s with ended := true }

/-! ## The operator -/

/-- A touch, where no alert and no running `init` is in its way. -/
def touch (s : DocentApp) (handler : DocentApp → DocentApp) : DocentApp :=
  if s.alert = none ∧ s.initializing = [] then handler s else s

/-- A touch of the detail view on top. -/
def touchDetail (s : DocentApp)
    (handler : GameDetailViewController → List GameDetailViewController → DocentApp) :
    DocentApp :=
  s.touch fun s =>
    match s.navigation with
    | [] => s
    | c :: covered => handler c covered

/-- The row of a game, in the table without a detail view over it. -/
def didSelectRow (s : DocentApp) (row : Nat) : DocentApp :=
  match s.navigation, s.model.gameList[row]? with
  | [], some gameidToLoad =>
    if row < s.model.gameTitle.length then
      if isEqualToString s.model.gameIDToBeLoaded (some gameidToLoad) then
        s.showGameDetailView gameidToLoad
      else { s with alert := some (.load gameidToLoad) }
    else { s with ended := true }
  | _, _ => s

/-- "OK" of an alert. -/
def didDismissWithOK (s : DocentApp) (sent : Bool) : DocentApp :=
  match s.alert with
  | none => s
  | some (.load gameidToLoad) =>
    ({ s with alert := none, model := { s.model with isGameStarted := false } }.sendLoadMessage
      gameidToLoad sent).showGameDetailView gameidToLoad
  | some (.quit serial) =>
    match s.observers.find? (fun c => c.serial == serial) with
    | some c =>
      ({ s with
          alert := none
          model := { s.model with isGameStarted := false, gameIDToBeLoaded := none }
        }.sendQuitMessage c sent).popToRoot c
    | none => { s with ended := true }

/-- What can happen next. A `sent` says whether `dispatchEvent` succeeds. -/
inductive Action
  | didSelectRow (row : Nat)
  | alertOK (sent : Bool)
  | alertCancel
  | startButton (sent : Bool)
  | pauseButton (sent : Bool)
  | stopButton (sent : Bool)
  | menuButton
  | quitButton
  /-- The event loop, of a timer or of an `init`, takes a message. -/
  | event (eventMessage : Option NSString) (date : NSString) (sent : Nat → Bool)
  /-- The event loop of the innermost `init` finds no more messages. -/
  | initReturns
  | dealloc (serial : Nat)

/-- A step of an application that has not ended. -/
def act (s : DocentApp) : Action → DocentApp
  | .didSelectRow row => s.touch fun s => s.didSelectRow row
  | .alertOK sent => if s.initializing = [] then s.didDismissWithOK sent else s
  | .alertCancel => if s.initializing = [] then { s with alert := none } else s
  | .startButton sent =>
    s.touchDetail fun c covered =>
      if c.startButton && sent then
        { s with model := s.model.start, navigation := c.started :: covered }
      else s
  | .pauseButton sent =>
    s.touchDetail fun c _ =>
      if c.pauseButton && sent then { s with model := s.model.pause } else s
  | .stopButton sent =>
    s.touchDetail fun c covered =>
      if (c.stopButton || c.earlierStopButton) && sent then
        { s with model := s.model.stop, navigation := c.stopped :: covered }
      else s
  | .menuButton => s.touchDetail fun c _ => s.popToRoot c
  | .quitButton => s.touchDetail fun c _ => { s with alert := some (.quit c.serial) }
  | .event eventMessage date sent => s.handle eventMessage date sent
  | .initReturns =>
    match s.initializing with
    | [] => s
    | c :: rest => { s with initializing := rest, navigation := c :: s.navigation }
  | .dealloc serial => { s with popped := s.popped.filter fun c => c.serial != serial }

def step (s : DocentApp) (a : Action) : DocentApp := if s.ended then s else s.act a

/-! ## A touch -/

/-- The controller on top, where a touch reaches it. -/
def Touched (s : DocentApp) (c : GameDetailViewController) : Prop :=
  s.alert = none ∧ s.initializing = [] ∧ s.navigation.head? = some c

theorem touchDetail_of_touched {s : DocentApp} {c : GameDetailViewController}
    (handler : GameDetailViewController → List GameDetailViewController → DocentApp)
    (h : s.Touched c) : s.touchDetail handler = handler c s.navigation.tail := by
  obtain ⟨halert, hinit, htop⟩ := h
  unfold touchDetail touch
  rw [if_pos ⟨halert, hinit⟩]
  rcases hnav : s.navigation with _ | ⟨d, covered⟩
  · simp [hnav] at htop
  · have hd : d = c := by simpa [hnav] using htop
    simp only [hnav, hd, List.tail_cons]

theorem touchDetail_of_not_touched {s : DocentApp}
    (handler : GameDetailViewController → List GameDetailViewController → DocentApp)
    (h : ∀ c, ¬ s.Touched c) : s.touchDetail handler = s := by
  unfold touchDetail touch
  split
  · next hfree =>
    rcases hnav : s.navigation with _ | ⟨c, covered⟩
    · simp only [hnav]
    · exact absurd ⟨hfree.1, hfree.2, by simp [hnav]⟩ (h c)
  · rfl

theorem touch_induction {P : DocentApp → Prop} {s : DocentApp} {handler : DocentApp → DocentApp}
    (hs : P s) (h : P (handler s)) : P (s.touch handler) := by
  unfold touch
  split
  · exact h
  · exact hs

/-- A touch does what the handler of the controller on top does, or nothing. -/
theorem touchDetail_cases (s : DocentApp)
    (handler : GameDetailViewController → List GameDetailViewController → DocentApp) :
    (∃ c, s.Touched c ∧ s.touchDetail handler = handler c s.navigation.tail) ∨
      (∀ c, ¬ s.Touched c) ∧ s.touchDetail handler = s := by
  by_cases htouched : ∃ c, s.Touched c
  · obtain ⟨c, hc⟩ := htouched
    exact Or.inl ⟨c, hc, touchDetail_of_touched handler hc⟩
  · rw [not_exists] at htouched
    exact Or.inr ⟨htouched, touchDetail_of_not_touched handler htouched⟩

/-- What holds before a touch and after its handler, whatever controller is on top. -/
theorem touchDetail_induction {P : DocentApp → Prop} {s : DocentApp}
    {handler : GameDetailViewController → List GameDetailViewController → DocentApp}
    (hs : P s) (h : ∀ c covered, P (handler c covered)) : P (s.touchDetail handler) := by
  rcases touchDetail_cases s handler with ⟨c, _, heq⟩ | ⟨_, heq⟩
  · rw [heq]
    exact h c _
  · rw [heq]
    exact hs

/-- The same of a button, whose handler runs where it is visible and its command is sent. -/
theorem button_induction {P : DocentApp → Prop} {s : DocentApp}
    {pressed : GameDetailViewController → Bool}
    {handler : GameDetailViewController → List GameDetailViewController → DocentApp}
    (hs : P s) (h : ∀ c covered, P (handler c covered)) :
    P (s.touchDetail fun c covered => if pressed c then handler c covered else s) := by
  apply touchDetail_induction hs
  intro c covered
  split
  · exact h c covered
  · exact hs

theorem touched_unique {s : DocentApp} {c d : GameDetailViewController} (hc : s.Touched c)
    (hd : s.Touched d) : d = c := Option.some.inj (hd.2.2.symm.trans hc.2.2)

/-! ## One step -/

/-- A step does what its action does, unless the application has ended. -/
theorem step_iff {P : DocentApp → Prop} {K : Prop} {s : DocentApp} {a : Action} (hs : P s)
    (h : P (s.act a) ↔ K) : P (s.step a) ↔ (s.ended = false → K) := by
  unfold step
  split
  · next hended => exact iff_of_true hs (by simp [hended])
  · next hended =>
    rw [Bool.not_eq_true] at hended
    simp only [hended, forall_const]
    exact h

theorem alertCancel_keeps (s : DocentApp) :
    (s.act .alertCancel).model = s.model ∧ (s.act .alertCancel).history = s.history := by
  simp only [act]
  split
  · exact ⟨rfl, rfl⟩
  · exact ⟨rfl, rfl⟩

theorem initReturns_keeps (s : DocentApp) :
    (s.act .initReturns).model = s.model ∧ (s.act .initReturns).history = s.history := by
  simp only [act]
  split
  · exact ⟨rfl, rfl⟩
  · exact ⟨rfl, rfl⟩

end DocentApp

end esc_platform.docent
