-- `esc-update-games.py`: one pass over the game bundles. Each bundle gets a
-- name for the launcher, and the launcher's file the map of these names. A
-- `System` answers what Python and the file system say about names and files.
-- The tool `lsregister` is there, and what it does is no part of a bundle.
import EscPlatform.Setup.Plists

namespace esc_platform.setup

/-! ## Bundles -/

/-- An entry of `Contents/MacOS`. -/
structure Executable where
  name : String
  bytes : List UInt8
  deriving DecidableEq, Repr

/-- A bundle, with what the system answers about it. -/
structure Game where
  path : String
  infoPlist : InfoPlist
  /-- The file can be opened for writing. -/
  plistWritable : Bool
  /-- `error.format` takes the text with this path: a brace in it may be no field. -/
  errorFormats : Bool
  /-- The files of `Contents/MacOS`, or `none` where it cannot be listed. -/
  macOS : Option (List Executable)
  deriving DecidableEq

/-- A file of a bundle that was renamed to a place out of its directory. -/
structure Moved where
  bundle : String
  target : String
  file : Executable
  deriving DecidableEq, Repr

/-- What the script finds around it. -/
structure System where
  /-- `lower()` of one character. -/
  lower : Char → Char
  /-- A new name as the volume keeps it: it can decompose characters. -/
  stored : String → String
  /-- Names with one key are one entry of a directory: the volume can ignore the case. -/
  key : String → String
  /-- The entry of the bundle's `Contents/MacOS` that a name with a '/' leads to, or `none` where it
  leads out of this directory. -/
  leadsTo : String → String → Option String
  /-- `os.rename` of this file of the bundle to the target raises. -/
  refuses : String → String → Executable → Bool
  /-- A bundle behind a move: the file can be new in it, or take the place of one. -/
  lands : Moved → Game → Game
  /-- The games of the launcher's file behind a move. -/
  landsOnLauncher : Moved → Option Dict → Option Dict
  launcherWritable : Bool
  path_lands : ∀ m game, (lands m game).path = game.path
  /-- What was moved out of a directory is not in it. -/
  macOS_lands : ∀ m game, game.path = m.bundle → (lands m game).macOS = game.macOS

/-- The bundle behind all these moves. -/
def System.landAll (sys : System) (moved : List Moved) (game : Game) : Game :=
  moved.foldl (fun game m => sys.lands m game) game

/-- What ends a pass. -/
inductive Raised
  | nameError | keyError | osError | ioError | formatError | expatError
  deriving DecidableEq, Repr

variable (sys : System)

/-! ## Renaming -/

/-- The file of `Contents/MacOS` that `os.path.join( executablePath, name )` is. A name with a '/'
can be an absolute path, or climb out of the directory. -/
def System.entry (bundle name : String) : Option String :=
  if '/' ∈ name.toList then sys.leadsTo bundle name else some (sys.stored name)

/-- `os.rename` to the target raises. The first three are directories. -/
def System.raises (bundle target : String) (file : Executable) : Bool :=
  target = "" || target = "." || target = ".." || sys.refuses bundle target file

/-- `Contents/MacOS` while its files are renamed. -/
structure Directory where
  files : List Executable
  /-- The files that left it. -/
  left : List Executable := []
  deriving DecidableEq, Repr

/-- The path of the file leads to one that has the name of the target. -/
def Directory.isNamed (key : String → String) (entry : Option String) (file : Executable)
    (d : Directory) : Bool :=
  d.files.any fun f => key f.name = key file.name && entry = some f.name

/-- The file takes the place of the entry that the target is. -/
def Directory.move (key : String → String) (entry : Option String) (file : Executable)
    (d : Directory) : Directory :=
  match entry with
  | some name =>
    { d with
      files :=
        d.files.filter (fun f => key f.name ≠ key file.name ∧ key f.name ≠ key name) ++
          [{ file with name := name }] }
  | none => ⟨d.files.filter fun f => key f.name ≠ key file.name, d.left ++ [file]⟩

/-- `os.rename( path, target )` for a file of the listing. It does nothing where both are one file
with this name, so a file whose place another took before is not moved. -/
def rename (bundle target : String) (file : Executable) : EStateM Raised Directory Unit := do
  if (← get).isNamed sys.key (sys.entry bundle target) file then return
  if sys.raises bundle target file then throw .osError
  modify (·.move sys.key (sys.entry bundle target) file)

/-! ## One bundle -/

/-- `_name.replace(" ", "").lower()`. -/
def newName (lower : Char → Char) (name : String) : String :=
  String.ofList ((name.toList.filter (· ≠ ' ')).map lower)

/-- The plist with the attributes that the script sets. -/
def Plist.updated (lower : Char → Char) (pl : Plist) (name : String) : Plist :=
  { pl with
    cfBundleDisplayName := some name
    cfBundleName := some (newName lower name)
    cfBundleExecutable := some (newName lower name)
    cfBundleURLTypes := some [[newName lower name]] }

/-- A bundle in its turn, and the files that left it. -/
@[ext] structure Turn where
  game : Game
  left : List Moved := []
  deriving DecidableEq

/-- The moves of the files that left the directory. -/
def Directory.moves (bundle target : String) (d : Directory) : List Moved :=
  d.left.map fun file => ⟨bundle, target, file⟩

/-- The turn behind the renames, whether they came to an end or not. -/
def Turn.renamed (target : String) (d : Directory) (t : Turn) : Turn where
  game := sys.landAll (d.moves t.game.path target) { t.game with macOS := some d.files }
  left := t.left ++ d.moves t.game.path target

/-- The loop over `os.listdir( executablePath )`, which is read once. -/
def renameExecutables (target : String) : EStateM Raised Turn Unit := do
  let t ← get
  match t.game.macOS with
  | none => throw .osError
  | some files =>
    match (files.forM (rename sys t.game.path target)).run ⟨files, []⟩ with
    | .ok _ d => set (t.renamed sys target d)
    | .error e d =>
      set (t.renamed sys target d)
      throw e

/-- `plistlib.writePlist( pl, info_plist_path )`. A plist that could not be read is there then. -/
def writePlist (pl : Plist) : EStateM Raised Turn Unit := do
  let t ← get
  if !t.game.plistWritable then throw .ioError
  set { t with game := { t.game with infoPlist := .plist pl.written } }

/-- The `try` block. Behind the message the loop goes on with the `pl` that it has. -/
def readPlist (last : Option Plist) : EStateM Raised Turn Plist := do
  let t ← get
  match t.game.infoPlist with
  | .plist pl => return pl
  | .malformed => throw .expatError
  | .ioError =>
    if !t.game.errorFormats then throw .formatError
    match last with
    | none => throw .nameError
    | some pl => return pl

/-- The body of the loop behind the `try` block. The `pl` in memory keeps its texts as they are. -/
def updateBundle (pl : Plist) : EStateM Raised Turn (Plist × String) := do
  match pl.displayed with
  | none => throw .keyError
  | some name =>
    renameExecutables sys (newName sys.lower name)
    writePlist (pl.updated sys.lower name)
    return (pl.updated sys.lower name, name)

/-- The variables that the loop keeps: `pl` has no value before the first plist was read. -/
structure Pass where
  pl : Option Plist := none
  bundleNames : Dict := ∅
  updateLauncherFile : Bool := false

/-- One turn of the loop. -/
def updateGame (s : Pass) : EStateM Raised Turn Pass := do
  let pl ← readPlist s.pl
  let (pl, name) ← updateBundle sys pl
  return {
    pl := some pl
    bundleNames := s.bundleNames.insert name (newName sys.lower name)
    updateLauncherFile := true }

/-! ## A pass -/

/-- The loop, with the files that left the bundles of earlier turns: what they did to a bundle is
done when its turn comes, and what later ones do to it comes behind its turn. It gives the bundles,
the files that left them, and the variables. An exception ends it. -/
def updateGames : Pass → List Moved → List Game → List Game × List Moved × Except Raised Pass
  | s, _, [] => ([], [], .ok s)
  | s, earlier, game :: games =>
    match (updateGame sys s).run ⟨sys.landAll earlier game, []⟩ with
    | .error e t => (t.game :: games.map (sys.landAll (earlier ++ t.left)), t.left, .error e)
    | .ok s t =>
      let (games, later, result) := updateGames s (earlier ++ t.left) games
      (sys.landAll later t.game :: games, t.left ++ later, result)

/-- The games that are read back from the launcher's file, where the end of the script writes it.
`writes` says whether it does, by the value of `updateLauncherFile`. -/
def launcherFile (writes : Bool → Bool) : Except Raised Pass → Option Dict
  | .ok s =>
    if writes s.updateLauncherFile && sys.launcherWritable then some (plistDict s.bundleNames)
    else none
  | .error _ => none

/-- One pass: the bundles, and the games of the launcher's file. -/
def runPass (writes : Bool → Bool) (launcher : Option Dict) (games : List Game) :
    List Game × Option Dict :=
  let (after, moved, result) := updateGames sys {} [] games
  (after, launcherFile sys writes result <|>
    moved.foldl (fun launcher m => sys.landsOnLauncher m launcher) launcher)

/-- `esc-update-games.py`. -/
def updatePass (launcher : Option Dict) (games : List Game) : List Game × Option Dict :=
  runPass sys (fun updateLauncherFile => updateLauncherFile) launcher games

/-- `esc-game-sync.py`, a copy of the script that does not test `updateLauncherFile`. -/
def syncPass (launcher : Option Dict) (games : List Game) : List Game × Option Dict :=
  runPass sys (fun _ => true) launcher games

end esc_platform.setup
