-- Passes in which no file gets from its bundle into another one. Each turn then
-- depends on its own bundle and on the variables of the loop only, and the pass
-- is that of a system in which moves land nowhere.
import EscPlatform.Setup.UpdateTurns

namespace esc_platform.setup

open checked

variable {sys : System} {game : Game} {games : List Game} {s : Pass} {paths : List String}

/-! ## Bundles each for itself -/

/-- The loop where a turn changes no other bundle. -/
def updateEach (sys : System) : Pass → List Game → List Game × Except Raised Pass
  | s, [] => ([], .ok s)
  | s, game :: games =>
    match (updateGame sys s).run ⟨game, []⟩ with
    | .error e t => (t.game :: games, .error e)
    | .ok s t => (t.game :: (updateEach sys s games).1, (updateEach sys s games).2)

/-- The pass with this loop. -/
def runEach (sys : System) (writes : Bool → Bool) (launcher : Option Dict) (games : List Game) :
    List Game × Option Dict :=
  ((updateEach sys {} games).1, launcherFile sys writes (updateEach sys {} games).2 <|> launcher)

theorem updateEach_error {e : Raised} {t : Turn} (games : List Game)
    (h : (updateGame sys s).run ⟨game, []⟩ = .error e t) :
    updateEach sys s (game :: games) = (t.game :: games, .error e) := by
  rw [updateEach, h]

theorem updateEach_ok {s' : Pass} {t : Turn} (games : List Game)
    (h : (updateGame sys s).run ⟨game, []⟩ = .ok s' t) :
    updateEach sys s (game :: games) =
      (t.game :: (updateEach sys s' games).1, (updateEach sys s' games).2) := by
  rw [updateEach, h]

theorem updateEach_head (sys : System) (s : Pass) (game : Game) (games : List Game) :
    ∃ rest, (updateEach sys s (game :: games)).1 =
      (turnAfter ((updateGame sys s).run ⟨game, []⟩)).game :: rest := by
  rcases h : (updateGame sys s).run ⟨game, []⟩ with ⟨s', t⟩ | ⟨e, t⟩
  · exact ⟨_, by rw [updateEach_ok games h]; rfl⟩
  · exact ⟨_, by rw [updateEach_error games h]; rfl⟩

/-- The system in which a file that leaves its directory is gone. -/
def System.apart (sys : System) : System :=
  { sys with
    lands := fun _ game => game
    landsOnLauncher := fun _ launcher => launcher
    path_lands := fun _ _ => rfl
    macOS_lands := fun _ _ _ => rfl }

/-- No move changes a bundle. -/
def System.Apart (sys : System) : Prop := ∀ m game, sys.lands m game = game

theorem System.apart_apart (sys : System) : sys.apart.Apart := fun _ _ => rfl

theorem System.Apart.staysOut (h : sys.Apart) (game : Game) (target : String) :
    game.StaysOut sys target := fun _ _ _ _ => h _ _

/-! ## Contained passes -/

/-- The name that a game's own plist gives it. -/
def Game.ownName (game : Game) : Option String :=
  match game.infoPlist with
  | .plist pl => pl.displayed
  | _ => none

/-- The move changes none of these bundles, and not the launcher's file. -/
def System.Untouched (sys : System) (paths : List String) (m : Moved) : Prop :=
  (∀ game, game.path ∈ paths → sys.lands m game = game) ∧
    ∀ launcher, sys.landsOnLauncher m launcher = launcher

/-- What leaves the directory of one of the bundles for the target touches none of them. -/
def System.Harmless (sys : System) (paths : List String) (target : String) : Prop :=
  ∀ bundle ∈ paths, sys.entry bundle target = none →
    ∀ file, sys.Untouched paths ⟨bundle, target, file⟩

/-- No new name leads into another place of a bundle, or to the launcher's file. -/
def Contained (sys : System) (games : List Game) : Prop :=
  ∀ name ∈ games.filterMap Game.ownName,
    sys.Harmless (games.map Game.path) (newName sys.lower name)

/-- A name without a '/' leads out of no directory. -/
theorem harmless_of_inside {target : String} (h : '/' ∉ target.toList) :
    sys.Harmless paths target := by
  intro bundle _ hentry
  rw [System.entry, if_neg h] at hentry
  cases hentry

theorem contained_of_inside
    (h : ∀ name ∈ games.filterMap Game.ownName, '/' ∉ (newName sys.lower name).toList) :
    Contained sys games := fun name hname => harmless_of_inside (h name hname)

/-- The last plist has such a name too. -/
def Pass.Contained (sys : System) (paths : List String) (s : Pass) : Prop :=
  ∀ pl name, s.pl = some pl → pl.displayed = some name →
    sys.Harmless paths (newName sys.lower name)

theorem afterRenames_harmless {target : String} (hpath : game.path ∈ paths)
    (h : sys.Harmless paths target) (files : List Executable) :
    game.afterRenames sys target files = game.afterRenames sys.apart target files ∧
      ∀ m ∈ (game.afterRenames sys target files).left, sys.Untouched paths m := by
  have hstays : game.StaysOut sys target := fun hentry file game' hgame' =>
    (h game.path hpath hentry file).1 game' (hgame' ▸ hpath)
  have hgame := afterRenames_game hstays files
  have happart := afterRenames_game (sys.apart_apart.staysOut game target) files
  constructor
  · exact Turn.ext (hgame.trans happart.symm) rfl
  · intro m hm
    obtain ⟨hentry, file, rfl⟩ := mem_afterRenames_left hm
    exact h game.path hpath hentry file

/-- A turn that is contained. -/
theorem updateGame_contained (hpath : game.path ∈ paths)
    (hown : ∀ name, game.ownName = some name → sys.Harmless paths (newName sys.lower name))
    (hs : s.Contained sys paths) :
    (updateGame sys s).run ⟨game, []⟩ = (updateGame sys.apart s).run ⟨game, []⟩ ∧
      (∀ m ∈ (turnAfter ((updateGame sys s).run ⟨game, []⟩)).left, sys.Untouched paths m) ∧
      (turnAfter ((updateGame sys s).run ⟨game, []⟩)).game.path = game.path ∧
      ∀ s' t, (updateGame sys s).run ⟨game, []⟩ = .ok s' t → s'.Contained sys paths := by
  rcases updateGame_cases s game with ⟨e, hrun⟩ | ⟨pl, name, files, hread, hfrom, hname, hfiles⟩
  · rw [hrun, hrun]
    exact ⟨rfl, by simp [turnAfter], rfl, by simp⟩
  have hharmless : sys.Harmless paths (newName sys.lower name) := by
    rcases hfrom with hpl | ⟨-, hpl⟩
    · apply hown
      rw [Game.ownName, hpl]
      exact hname
    · exact hs pl name hpl hname
  have hrun := updateGame_named sys hread hname hfiles
  have happart := updateGame_named sys.apart hread hname hfiles
  obtain ⟨hrenames, hleft⟩ := afterRenames_harmless hpath hharmless files
  have hstays : game.StaysOut sys (newName sys.lower name) := fun hentry file game' hgame' =>
    (hharmless game.path hpath hentry file).1 game' (hgame' ▸ hpath)
  have hpathAfter : (game.afterRenames sys (newName sys.lower name) files).game.path =
      game.path := by
    rw [afterRenames_game hstays files]
  constructor
  · rw [hrun, hrenames]
    exact happart.symm
  rcases updateGame_renames sys hread hname hfiles with ⟨e, hends⟩ | hends
  · rw [hends]
    exact ⟨hleft, hpathAfter, by simp⟩
  · rw [hends]
    refine ⟨hleft, hpathAfter, fun s' t hok => ?_⟩
    injection hok with hs' _
    intro pl' name' hpl' hname'
    rw [← hs'] at hpl'
    obtain rfl := Option.some.inj hpl'
    obtain rfl := Option.some.inj hname'
    exact hharmless

/-- In a pass that is contained, each bundle goes its own way. -/
theorem updateGames_contained {earlier : List Moved} (hpaths : ∀ game ∈ games, game.path ∈ paths)
    (hown : ∀ name ∈ games.filterMap Game.ownName, sys.Harmless paths (newName sys.lower name))
    (hs : s.Contained sys paths) (hearlier : ∀ m ∈ earlier, sys.Untouched paths m) :
    ∃ moved, updateGames sys s earlier games =
        ((updateEach sys.apart s games).1, moved, (updateEach sys.apart s games).2) ∧
      ∀ m ∈ moved, sys.Untouched paths m := by
  induction games generalizing s earlier with
  | nil => exact ⟨[], rfl, by simp⟩
  | cons game games ih =>
    obtain ⟨hpath, hpaths⟩ := List.forall_mem_cons.mp hpaths
    have hland : ∀ {moved : List Moved} {game : Game}, (∀ m ∈ moved, sys.Untouched paths m) →
        game.path ∈ paths → sys.landAll moved game = game := fun hmoved hpath =>
      landAll_eq_self fun m hm => (hmoved m hm).1 _ hpath
    obtain ⟨hsame, hleft, hkept, hnext⟩ := updateGame_contained hpath (fun name hname =>
      hown name (List.mem_filterMap.mpr ⟨game, by simp, hname⟩)) hs
    rw [updateGames, hland hearlier hpath]
    rcases hrun : (updateGame sys s).run ⟨game, []⟩ with ⟨s', t⟩ | ⟨e, t⟩
    · rw [hrun] at hsame hleft hkept
      have hall : ∀ m ∈ earlier ++ t.left, sys.Untouched paths m :=
        List.forall_mem_append.mpr ⟨hearlier, hleft⟩
      obtain ⟨moved, hgames, hmoved⟩ := ih hpaths (fun name hname => hown name (by
        rw [List.mem_filterMap] at hname ⊢
        obtain ⟨game', hgame', hname⟩ := hname
        exact ⟨game', List.mem_cons_of_mem _ hgame', hname⟩)) (hnext s' t hrun) hall
      refine ⟨t.left ++ moved, ?_, List.forall_mem_append.mpr ⟨hleft, hmoved⟩⟩
      rw [updateEach_ok games hsame.symm]
      simp only [hgames]
      rw [hland hmoved (show t.game.path ∈ paths from hkept ▸ hpath)]
    · rw [hrun] at hsame hleft
      have hall : ∀ m ∈ earlier ++ t.left, sys.Untouched paths m :=
        List.forall_mem_append.mpr ⟨hearlier, hleft⟩
      refine ⟨t.left, ?_, hleft⟩
      rw [updateEach_error games hsame.symm]
      have hrest : games.map (sys.landAll (earlier ++ t.left)) = games := by
        conv_rhs => rw [← List.map_id games]
        apply List.map_congr_left
        intro game' hgame'
        exact hland hall (hpaths game' hgame')
      simp only [hrest]

/-- From the start of a pass. -/
theorem updateGames_start (h : Contained sys games) :
    ∃ moved, updateGames sys {} [] games =
        ((updateEach sys.apart {} games).1, moved, (updateEach sys.apart {} games).2) ∧
      ∀ m ∈ moved, sys.Untouched (games.map Game.path) m := by
  apply updateGames_contained (fun game hgame => List.mem_map_of_mem hgame) h
  · simp [Pass.Contained]
  · simp

theorem runPass_contained (h : Contained sys games) (writes : Bool → Bool)
    (launcher : Option Dict) :
    runPass sys writes launcher games = runEach sys.apart writes launcher games := by
  obtain ⟨moved, hgames, hmoved⟩ := updateGames_start h
  have hlauncher : moved.foldl (fun launcher m => sys.landsOnLauncher m launcher) launcher =
      launcher := by
    clear hgames
    induction moved with
    | nil => rfl
    | cons m ms ih =>
      obtain ⟨hm, hms⟩ := List.forall_mem_cons.mp hmoved
      rw [List.foldl_cons, hm.2, ih hms]
  unfold runPass runEach
  rw [hgames]
  simp only [hlauncher]
  rfl

/-- A pass over some of the games is contained where that over all of them is. -/
theorem Contained.sublist {games' : List Game} (h : Contained sys games)
    (hsub : games'.Sublist games) : Contained sys games' := by
  intro name hname bundle hbundle hentry file
  have hpaths : games'.map Game.path ⊆ games.map Game.path := (hsub.map _).subset
  obtain ⟨hgame, hlauncher⟩ := h name ((hsub.filterMap _).subset hname) bundle (hpaths hbundle)
    hentry file
  exact ⟨fun game hpath => hgame game (hpaths hpath), hlauncher⟩

/-! ## A plain system -/

/-- Every name is one of its own directory, and nothing is refused. -/
def plainSystem : System where
  lower := Char.toLower
  stored name := name
  key name := name
  leadsTo _ _ := none
  refuses _ _ _ := false
  lands _ game := game
  landsOnLauncher _ launcher := launcher
  launcherWritable := true
  path_lands _ _ := rfl
  macOS_lands _ _ _ := rfl

/-- A bundle as it is installed, before the first pass. -/
def built (name : String) (files : List Executable) : Game where
  path := "escgames/" ++ name ++ ".app"
  infoPlist := .plist ⟨none, some name, some name, none, ∅⟩
  plistWritable := true
  errorFormats := true
  macOS := some files

theorem contained_plain (games : List Game) : Contained plainSystem games :=
  fun _ _ _ _ _ _ => ⟨fun _ _ => rfl, fun _ => rfl⟩

end esc_platform.setup
