-- The turn of a game that has a plist of its own, where moves land nowhere: it
-- is done, or it ends the pass, and either way the condition for it to leave the
-- bundle alone is one on the bundle.
import EscPlatform.Setup.ContainedPasses

namespace esc_platform.setup

open checked

variable {sys : System} {game : Game} {s : Pass} {pl : Plist} {name : String}
variable {files : List Executable}

def Game.readable (game : Game) : Bool := game.infoPlist ≠ .ioError

/-- `Contents/MacOS` can be listed, and no rename of its files raises. -/
def Game.renames (sys : System) (game : Game) (target : String) : Bool :=
  match game.macOS with
  | none => false
  | some files => game.reached sys target files = files

/-- The name of a readable game whose update does not end the pass. -/
def Game.completes (sys : System) (game : Game) : Option String :=
  game.ownName.filter fun name =>
    game.renames sys (newName sys.lower name) && game.plistWritable

/-- The update of a readable game finds nothing to change before it ends the pass or is done. -/
def Game.UpToDate (sys : System) (game : Game) : Prop :=
  ∀ pl name, game.infoPlist = .plist pl → pl.displayed = some name →
    game.Settled sys (newName sys.lower name) ∧
      (game.renames sys (newName sys.lower name) = true → game.plistWritable = true →
        (pl.updated sys.lower name).written = pl)

theorem renames_some (h : game.macOS = some files) (target : String) :
    game.renames sys target = true ↔ game.reached sys target files = files := by
  rw [Game.renames, h]
  exact decide_eq_true_iff

theorem ownName_eq_some_iff : game.ownName = some name ↔
    ∃ pl, game.infoPlist = .plist pl ∧ pl.displayed = some name := by
  unfold Game.ownName
  rcases game.infoPlist with pl | _ | _
  · simp
  · simp
  · simp

theorem completes_eq_some_iff : game.completes sys = some name ↔
    ∃ pl files, game.infoPlist = .plist pl ∧ pl.displayed = some name ∧
      game.macOS = some files ∧
        game.reached sys (newName sys.lower name) files = files ∧
          game.plistWritable = true := by
  unfold Game.completes
  rw [Option.filter_eq_some_iff, ownName_eq_some_iff, Bool.and_eq_true]
  rcases hfiles : game.macOS with _ | files
  · simp [Game.renames, hfiles]
  · rw [renames_some hfiles]
    constructor
    · rintro ⟨⟨pl, hpl, hname⟩, hall, hwritable⟩
      exact ⟨pl, files, hpl, hname, rfl, hall, hwritable⟩
    · rintro ⟨pl, files', hpl, hname, hfiles', hall, hwritable⟩
      obtain rfl := Option.some.inj hfiles'
      exact ⟨⟨pl, hpl, hname⟩, hall, hwritable⟩

/-- The condition for the game's own plist. -/
theorem upToDate_own (hpl : game.infoPlist = .plist pl) (hname : pl.displayed = some name) :
    game.UpToDate sys ↔ game.Settled sys (newName sys.lower name) ∧
      (game.renames sys (newName sys.lower name) = true → game.plistWritable = true →
        (pl.updated sys.lower name).written = pl) := by
  refine ⟨fun h => h pl name hpl hname, fun h pl' name' hpl' hname' => ?_⟩
  obtain rfl : pl = pl' := InfoPlist.plist.inj (hpl.symm.trans hpl')
  obtain rfl : name = name' := Option.some.inj (hname.symm.trans hname')
  exact h

theorem bundle_eq_iff {pl' : Plist} (hpl : game.infoPlist = .plist pl) :
    { game with macOS := some files, infoPlist := .plist pl' } = game ↔
      game.macOS = some files ∧ pl' = pl := by
  obtain ⟨path, infoPlist, writable, formats, macOS⟩ := game
  simp only at hpl
  subst hpl
  simp only [Game.mk.injEq, InfoPlist.plist.injEq, true_and]
  rw [and_comm, eq_comm]

/-- A turn that gets to the renames, where moves land nowhere. -/
theorem updateGame_apart (hsys : sys.Apart)
    (h : (readPlist s.pl).run ⟨game, []⟩ = .ok pl ⟨game, []⟩) (hname : pl.displayed = some name)
    (hfiles : game.macOS = some files) :
    (updateGame sys s).run ⟨game, []⟩ =
      let t := game.afterRenames sys (newName sys.lower name) files
      if game.reached sys (newName sys.lower name) files = files then
        if game.plistWritable then .ok (s.next sys pl name) (t.wrote sys pl name)
        else .error .ioError t
      else .error .osError t := by
  have hwritable : (game.afterRenames sys (newName sys.lower name) files).game.plistWritable =
      game.plistWritable := by
    rw [afterRenames_game (hsys.staysOut game _)]
  rw [updateGame_named sys h hname hfiles]
  dsimp only
  rw [hwritable]

/-- Everything that a turn that ends without an exception does. -/
theorem updateGame_inv {s' : Pass} {t : Turn} (hsys : sys.Apart)
    (h : (updateGame sys s).run ⟨game, []⟩ = .ok s' t) :
    ∃ pl name files,
      (game.infoPlist = .plist pl ∨ (game.infoPlist = .ioError ∧ s.pl = some pl)) ∧
      pl.displayed = some name ∧ game.macOS = some files ∧
      game.reached sys (newName sys.lower name) files = files ∧
      game.plistWritable = true ∧ s' = s.next sys pl name ∧
      t = (game.afterRenames sys (newName sys.lower name) files).wrote sys pl name := by
  rcases updateGame_cases s game with ⟨e, hrun⟩ | ⟨pl, name, files, hread, hfrom, hname, hfiles⟩
  · rw [hrun] at h
    cases h
  rw [updateGame_apart hsys hread hname hfiles] at h
  dsimp only at h
  split at h
  · next hall =>
    split at h
    · next hwritable =>
      injection h with hs ht
      exact ⟨pl, name, files, hfrom, hname, hfiles, hall, hwritable, hs.symm, ht.symm⟩
    · cases h
  · cases h

/-- An update that is done leaves the bundle alone where it was up to date. -/
theorem updateGame_completes (hsys : sys.Apart) (s : Pass) (h : game.completes sys = some name) :
    ∃ pl t, (updateGame sys s).run ⟨game, []⟩ = .ok (s.next sys pl name) t ∧
      t.game.infoPlist = .plist (pl.updated sys.lower name).written ∧
        (t.game = game ↔ game.UpToDate sys) := by
  obtain ⟨pl, files, hpl, hname, hfiles, hall, hwritable⟩ := completes_eq_some_iff.mp h
  have hrun := updateGame_apart hsys (readPlist_own s.pl hpl) hname hfiles
  simp only [hall, hwritable, if_true] at hrun
  refine ⟨pl, _, hrun, rfl, ?_⟩
  rw [upToDate_own hpl hname, renames_some hfiles, settled_iff hfiles, Turn.wrote,
    afterRenames_game (hsys.staysOut game _), bundle_eq_iff hpl, hfiles]
  simp only [hall, hwritable, Option.some.injEq, forall_const]
  rw [eq_comm]

/-- So does an update that ends the pass. -/
theorem updateGame_stops (hsys : sys.Apart) (s : Pass) (hreadable : game.infoPlist ≠ .ioError)
    (h : game.completes sys = none) :
    ∃ e t, (updateGame sys s).run ⟨game, []⟩ = .error e t ∧
      (t.game = game ↔ game.UpToDate sys) := by
  rcases hpl : game.infoPlist with pl | _ | _
  · have hread : (readPlist s.pl).run ⟨game, []⟩ = .ok pl ⟨game, []⟩ := readPlist_own s.pl hpl
    rcases hname : pl.displayed with _ | name
    · refine ⟨_, _, updateGame_unnamed hread hname, iff_of_true rfl fun pl' name hpl' hname' => ?_⟩
      obtain rfl : pl = pl' := InfoPlist.plist.inj (hpl.symm.trans hpl')
      exact absurd (hname.symm.trans hname') nofun
    rcases hfiles : game.macOS with _ | files
    · refine ⟨_, _, updateGame_unlisted hread hname hfiles, iff_of_true rfl ?_⟩
      rw [upToDate_own hpl hname]
      simp [Game.Settled, Game.renames, hfiles]
    have hrun := updateGame_apart hsys hread hname hfiles
    have hdone : ¬ (game.reached sys (newName sys.lower name) files = files ∧
        game.plistWritable = true) := by
      rintro ⟨hall, hwritable⟩
      have hcompletes := completes_eq_some_iff.mpr ⟨pl, files, hpl, hname, hfiles, hall, hwritable⟩
      exact absurd (h.symm.trans hcompletes) nofun
    have hsame : game.UpToDate sys ↔ game.Settled sys (newName sys.lower name) := by
      rw [upToDate_own hpl hname, renames_some hfiles]
      exact and_iff_left fun hall hwritable => absurd ⟨hall, hwritable⟩ hdone
    rw [hsame, ← afterRenames_game_eq_iff sys _ hfiles]
    by_cases hall : game.reached sys (newName sys.lower name) files = files
    · have hwritable : game.plistWritable = false := by
        rw [← Bool.not_eq_true]
        exact fun hw => hdone ⟨hall, hw⟩
      simp only [hall, hwritable, if_true, Bool.false_eq_true, if_false] at hrun
      exact ⟨_, _, hrun, Iff.rfl⟩
    · simp only [hall, if_false] at hrun
      exact ⟨_, _, hrun, Iff.rfl⟩
  · exact absurd hpl hreadable
  · refine ⟨.expatError, ⟨game, []⟩, run_bind_error (readPlist_malformed s.pl hpl),
      iff_of_true rfl fun pl name hpl' => ?_⟩
    exact absurd (hpl.symm.trans hpl') nofun

end esc_platform.setup
