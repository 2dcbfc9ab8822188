-- `GameModel.mm` of the docent application: the handling of one event
-- message, with the arrays behind the table view. An index outside an array
-- throws, and nothing in the application catches it.
import Mathlib.Data.List.Infix

namespace esc_platform.docent

/-! ## Strings -/

/-- A string as its composed characters. These are what the searches of `NSString` compare. -/
abbrev NSString := List (List Char)

/-- A literal, of ASCII characters. -/
def literal (s : String) : NSString := s.toList.map fun c => [c]

def kGameList : NSString := literal "games:"
def kGameEnd : NSString := literal "gameEnd"
def kGameLoaded : NSString := literal "gameLoaded"
def kGamePreviouslyLoadedKey : NSString := literal "gamePreviouslyLoaded:"
def kGameAdvancedSettings : NSString := literal "applyParams"
def kGameAdvancedSettingsKey : NSString := literal "applyParams"

def hasPrefix (aString s : NSString) : Bool := aString.isPrefixOf s

/-- `[s rangeOfString:…].location != NSNotFound`. -/
def hasRange (searchString s : NSString) : Bool := decide (searchString <:+: s)

/-- The occurrences of a target, from the left, with the characters of the last one that are
still to be left out. -/
def removeFrom (target : NSString) : Nat → NSString → NSString
  | _, [] => []
  | skip + 1, _ :: s => removeFrom target skip s
  | 0, c :: s =>
    if target.isPrefixOf (c :: s) then removeFrom target (target.length - 1) s
    else c :: removeFrom target 0 s

/-- `stringByReplacingOccurrencesOfString:withString:@""`. -/
def removeOccurrences (target s : NSString) : NSString := removeFrom target 0 s

/-- `componentsSeparatedByString:` with one character. -/
def componentsSeparatedBy (c : Char) (s : NSString) : List NSString := s.splitOn [c]

/-! ## The model -/

inductive Notification
  | gameListChanged | gameEnd | gameLoaded | gamePreviouslyLoaded | gameAdvancedSettings
  deriving DecidableEq, Repr

/-- What `NSUserDefaults` keeps from one launch to the next. -/
structure UserDefaults where
  kGameTitleKey : List NSString := []
  kGameListKey : List NSString := []
  kGameListUpdateKey : Option NSString := none
  deriving DecidableEq, Repr

structure GameModel where
  isGameStarted : Bool := false
  gameIDToBeLoaded : Option NSString := none
  gamePaused : Bool := false
  isGameLoaded : Bool := false
  gameList : List NSString := []
  gameTitle : List NSString := []
  gameListDateLastUpdated : Option NSString := none
  advancedParam1 : Option NSString := none
  advancedParam2 : Option NSString := none
  advancedParam3 : Option NSString := none
  standardUserDefaults : UserDefaults := {}
  /-- The notifications so far, the oldest first. -/
  posted : List Notification := []
  deriving DecidableEq, Repr

namespace GameModel

/-- `init`: the arrays of the last saved list. -/
def init (defaults : UserDefaults) : GameModel :=
  { gameTitle := defaults.kGameTitleKey
    gameList := defaults.kGameListKey
    gameListDateLastUpdated := defaults.kGameListUpdateKey
    standardUserDefaults := defaults }

def post (g : GameModel) (n : Notification) : GameModel := { g with posted := g.posted ++ [n] }

def clearAdvancedParameters (g : GameModel) : GameModel :=
  { g with advancedParam1 := some [], advancedParam2 := some [], advancedParam3 := some [] }

/-- The writes to `NSUserDefaults`. -/
def save (g : GameModel) : GameModel :=
  { g with standardUserDefaults :=
      { kGameTitleKey := g.gameTitle
        kGameListKey := g.gameList
        kGameListUpdateKey := g.gameListDateLastUpdated } }

/-- A pair of a message about a game that was loaded before. -/
def setLoaded (g : GameModel) (key value : NSString) : GameModel :=
  if hasRange (literal "gameId") key then { g with gameIDToBeLoaded := some value }
  else if hasRange (literal "gameStarted") key then
    if value = literal "True" then { g with isGameStarted := true }
    else if value = literal "False" then { g with isGameStarted := false }
    else g
  else g

/-- A pair of the advanced settings. -/
def setParam (g : GameModel) (key value : NSString) : GameModel :=
  if hasRange (literal "param1") key then { g with advancedParam1 := some value }
  else if hasRange (literal "param2") key then { g with advancedParam2 := some value }
  else if hasRange (literal "param3") key then { g with advancedParam3 := some value }
  else g

end GameModel

/-! ## Messages -/

inductive NSException
  | rangeException
  deriving DecidableEq, Repr

abbrev GameM := EStateM NSException GameModel

def objectAtIndex (array : List NSString) (index : Nat) : GameM NSString :=
  match array[index]? with
  | some object => return object
  | none => throw .rangeException

/-- A turn of the loop over a game list. The title is added before the value is looked up. -/
def addGame (keyValuePair : NSString) : GameM Unit := do
  let pairComponents := componentsSeparatedBy '=' keyValuePair
  let key ← objectAtIndex pairComponents 0
  modify fun g => { g with gameTitle := g.gameTitle ++ [key] }
  let value ← objectAtIndex pairComponents 1
  modify fun g => { g with gameList := g.gameList ++ [value] }

/-- A turn of the two other loops. -/
def setPair (set : GameModel → NSString → NSString → GameModel) (keyValuePair : NSString) :
    GameM Unit := do
  let pairComponents := componentsSeparatedBy '=' keyValuePair
  let key ← objectAtIndex pairComponents 0
  let value ← objectAtIndex pairComponents 1
  modify fun g => set g key value

/-- A loop over the pairs of a message, if anything is left of it. -/
def forPairs (turn : NSString → GameM Unit) (newMessage : NSString) : GameM Unit :=
  if newMessage ≠ [] then (componentsSeparatedBy ',' newMessage).forM turn else pure ()

/-- The branch of `kGameList`, with the formatted date. -/
def onGameList (eventMessage date : NSString) : GameM Unit :=
  if hasPrefix kGameList eventMessage then do
    modify fun g => { g with gameTitle := [], gameList := [] }
    forPairs addGame (removeOccurrences kGameList eventMessage)
    modify fun g => ({ g with gameListDateLastUpdated := some date }.save).post .gameListChanged
  else pure ()

/-- The branch of `kGameEnd`. -/
def onGameEnd (eventMessage : NSString) : GameM Unit :=
  if hasPrefix kGameEnd eventMessage then
    modify fun g =>
      (({ g with isGameStarted := false, isGameLoaded := false }.clearAdvancedParameters).post
        .gameEnd).post .gameAdvancedSettings
  else pure ()

/-- The branch of `kGameLoaded`. -/
def onGameLoaded (eventMessage : NSString) : GameM Unit :=
  if hasPrefix kGameLoaded eventMessage then
    modify fun g => { g with isGameLoaded := true }.post .gameLoaded
  else pure ()

/-- The branch of `kGamePreviouslyLoadedKey`. -/
def onGamePreviouslyLoaded (eventMessage : NSString) : GameM Unit :=
  if hasPrefix kGamePreviouslyLoadedKey eventMessage then do
    modify fun g => { g with isGameLoaded := true }
    forPairs (setPair GameModel.setLoaded) (removeOccurrences kGamePreviouslyLoadedKey eventMessage)
    modify (·.post .gamePreviouslyLoaded)
  else pure ()

/-- The branch of `kGameAdvancedSettings`. -/
def onAdvancedSettings (eventMessage : NSString) : GameM Unit :=
  if hasPrefix kGameAdvancedSettings eventMessage then do
    forPairs (setPair GameModel.setParam) (removeOccurrences kGameAdvancedSettingsKey eventMessage)
    modify (·.post .gameAdvancedSettings)
  else pure ()

/-- The body of the event loop. `nil` has no prefix. -/
def handleEvent (eventMessage : Option NSString) (date : NSString) : GameM Unit :=
  match eventMessage with
  | none => pure ()
  | some eventMessage => do
    onGameList eventMessage date
    onGameEnd eventMessage
    onGameLoaded eventMessage
    onGamePreviouslyLoaded eventMessage
    onAdvancedSettings eventMessage

example : removeOccurrences kGameList (literal "games:a=1,games:b=2") = literal "a=1,b=2" := by
  decide

end esc_platform.docent
