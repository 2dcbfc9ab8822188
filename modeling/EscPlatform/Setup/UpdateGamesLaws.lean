-- The pass with and without the games whose plist cannot be read. Such a
-- game is updated with the plist of the game before it, or ends the pass.
import EscPlatform.Setup.OwnTurns

namespace esc_platform.setup

open checked

variable {sys : System} {game : Game} {games : List Game} {s : Pass}

/-! ## A game whose plist cannot be read -/

/-- The name of the last update. -/
def Pass.lastName (sys : System) (s : Pass) : Option String :=
  (s.pl.bind Plist.displayed).map (newName sys.lower)

/-- What holds of the pass between two turns. -/
structure Pass.Valid (s : Pass) : Prop where
  named : ∀ pl, s.pl = some pl → pl.displayed.isSome
  started : s.updateLauncherFile = s.pl.isSome

theorem Pass.Valid.lastName_isSome (hs : s.Valid) :
    (s.lastName sys).isSome = s.updateLauncherFile := by
  rw [hs.started, Pass.lastName, Option.isSome_map]
  rcases hpl : s.pl with _ | pl
  · rfl
  · exact hs.named pl hpl

theorem valid_start : Pass.Valid {} where
  named := by simp
  started := rfl

theorem valid_next (sys : System) (s : Pass) (pl : Plist) (name : String) :
    (s.next sys pl name).Valid where
  named := by
    intro pl' h
    rw [← Option.some.inj h]
    rfl
  started := rfl

theorem lastName_next (sys : System) (s : Pass) (pl : Plist) (name : String) :
    (s.next sys pl name).lastName sys = some (newName sys.lower name) := rfl

/-- The pass stops at an unreadable game and does not touch it: its path is no format, or no game
was updated before it, or its executables cannot be listed, or those that the renames come to have
the last name already and then a rename or the write of the plist raises. -/
def StopsUntouched (sys : System) (last : Option String) (game : Game) : Prop :=
  game.errorFormats = false ∨ ∀ target ∈ last, game.Settled sys target ∧
    (game.renames sys target = true → game.plistWritable = false)

/-- Behind the plist of an earlier game, which is written over the one that could not be read. -/
theorem updateGame_kept (hsys : sys.Apart) {pl : Plist} {name : String} {files : List Executable}
    (hioError : game.infoPlist = .ioError)
    (hread : (readPlist s.pl).run ⟨game, []⟩ = .ok pl ⟨game, []⟩)
    (hname : pl.displayed = some name) (hfiles : game.macOS = some files) :
    let stops := game.Settled sys (newName sys.lower name) ∧
      (game.reached sys (newName sys.lower name) files = files → game.plistWritable = false)
    (stops → ∃ e, (updateGame sys s).run ⟨game, []⟩ = .error e ⟨game, []⟩) ∧
      (¬ stops → (turnAfter ((updateGame sys s).run ⟨game, []⟩)).game ≠ game) := by
  intro stops
  rcases updateGame_renames sys hread hname hfiles with ⟨e, hrun⟩ | hrun
  · -- the renames may have changed the files
    have hstops : game.reached sys (newName sys.lower name) files = files →
        game.plistWritable = false := by
      intro hall
      rw [updateGame_apart hsys hread hname hfiles] at hrun
      dsimp only at hrun
      rw [if_pos hall] at hrun
      rw [← Bool.not_eq_true]
      intro hwritable
      rw [if_pos hwritable] at hrun
      cases hrun
    rw [hrun]
    refine ⟨fun h => ⟨e, by rw [afterRenames_settled hfiles h.1]⟩, fun h hsame => h ?_⟩
    exact ⟨(afterRenames_game_eq_iff sys _ hfiles).mp hsame, hstops⟩
  · have hwritten : (turnAfter ((updateGame sys s).run ⟨game, []⟩)).game ≠ game := by
      intro hsame
      rw [hrun] at hsame
      have hplist := congrArg Game.infoPlist hsame
      cases hplist.trans hioError
    refine ⟨fun h => ?_, fun _ => hwritten⟩
    rw [updateGame_apart hsys hread hname hfiles] at hrun
    dsimp only at hrun
    split at hrun
    · next hall =>
      rw [h.2 hall] at hrun
      cases hrun
    · cases hrun

theorem updateGame_unreadable (hsys : sys.Apart) (hs : s.Valid)
    (hioError : game.infoPlist = .ioError) :
    (StopsUntouched sys (s.lastName sys) game →
      ∃ e, (updateGame sys s).run ⟨game, []⟩ = .error e ⟨game, []⟩) ∧
    (¬ StopsUntouched sys (s.lastName sys) game →
      (turnAfter ((updateGame sys s).run ⟨game, []⟩)).game ≠ game) := by
  unfold StopsUntouched
  rcases hformat : game.errorFormats with _ | _
  · refine ⟨fun _ => ⟨.formatError, ?_⟩, fun h => absurd (.inl rfl) h⟩
    exact run_bind_error (readPlist_noFormat hioError hformat)
  rcases hpl : s.pl with _ | pl
  · have hlast : s.lastName sys = none := by
      rw [Pass.lastName, hpl]
      rfl
    refine ⟨fun _ => ⟨.nameError, ?_⟩, fun h => absurd (.inr (by simp [hlast])) h⟩
    rw [updateGame, hpl]
    exact run_bind_error (readPlist_first hioError hformat)
  obtain ⟨name, hname⟩ := Option.isSome_iff_exists.mp (hs.named pl hpl)
  have hlast : s.lastName sys = some (newName sys.lower name) := by
    rw [Pass.lastName, hpl, Option.bind_some, hname, Option.map_some]
  have hread : (readPlist s.pl).run ⟨game, []⟩ = .ok pl ⟨game, []⟩ := by
    rw [hpl]
    exact readPlist_kept pl hioError hformat
  rw [hlast]
  rcases hfiles : game.macOS with _ | files
  · refine ⟨fun _ => ⟨.osError, updateGame_unlisted hread hname hfiles⟩, fun h => ?_⟩
    exact absurd (.inr (by simp [Game.Settled, Game.renames, hfiles])) h
  · simp only [reduceCtorEq, Option.mem_some_iff, forall_eq', false_or, renames_some hfiles]
    exact updateGame_kept hsys hioError hread hname hfiles

/-! ## The loop -/

/-- The launcher's map that `esc-update-games.py` writes. -/
def written (sys : System) : Except Raised Pass → Option Dict :=
  launcherFile sys fun updateLauncherFile => updateLauncherFile

/-- The pass changes none of the games and does not write the launcher's file: each game up to one
that stops the pass is up to date. Where none stops it, nothing was updated before, or the file
cannot be written. -/
def Idle (sys : System) : Bool → List Game → Prop
  | started, [] => started = false ∨ sys.launcherWritable = false
  | _, game :: games =>
    game.UpToDate sys ∧ (game.completes sys ≠ none → Idle sys true games)

theorem idle_iff (hsys : sys.Apart) (s : Pass) (games : List Game)
    (h : ∀ game ∈ games, game.infoPlist ≠ .ioError) :
    (updateEach sys s games).1 = games ∧ written sys (updateEach sys s games).2 = none ↔
      Idle sys s.updateLauncherFile games := by
  induction games generalizing s with
  | nil =>
    simp only [updateEach, written, launcherFile, Idle, true_and]
    cases s.updateLauncherFile <;> simp
  | cons game games ih =>
    obtain ⟨hgame, hgames⟩ := List.forall_mem_cons.mp h
    rcases hcompletes : game.completes sys with _ | name
    · obtain ⟨e, t, hrun, hsame⟩ := updateGame_stops hsys s hgame hcompletes
      rw [updateEach_error games hrun]
      simp [Idle, written, launcherFile, hcompletes, hsame]
    · obtain ⟨pl, t, hrun, -, hsame⟩ := updateGame_completes hsys s hcompletes
      rw [updateEach_ok games hrun]
      have hrest := ih (s.next sys pl name) hgames
      simp only [Idle, hcompletes, List.cons.injEq, hsame, ne_eq, reduceCtorEq, not_false_eq_true,
        true_implies, and_assoc]
      rw [hrest]
      rfl

/-! ## Two passes side by side -/

/-- The bundles of the readable games behind a pass over `games`. -/
def readableBundles (games after : List Game) : List Game :=
  ((games.zip after).filter (·.1.readable)).map (·.2)

theorem readableBundles_pos {game' : Game} {after : List Game} (h : game.readable = true) :
    readableBundles (game :: games) (game' :: after) = game' :: readableBundles games after := by
  simp [readableBundles, h]

theorem readableBundles_neg {game' : Game} {after : List Game} (h : ¬ game.readable = true) :
    readableBundles (game :: games) (game' :: after) = readableBundles games after := by
  simp [readableBundles, h]

theorem readableBundles_self (games : List Game) :
    readableBundles games games = games.filter Game.readable := by
  induction games with
  | nil => rfl
  | cons game games ih =>
    by_cases h : game.readable = true
    · rw [readableBundles_pos h, List.filter_cons_of_pos h, ih]
    · rw [readableBundles_neg h, List.filter_cons_of_neg h, ih]

/-- From the pass `s` on: the unreadable games keep their bundles, and the others and the launcher's
file get what they would get without them. -/
def SameWithout (sys : System) (s : Pass) (games : List Game) : Prop :=
  (∀ p ∈ games.zip (updateEach sys s games).1, p.1.infoPlist = .ioError → p.2 = p.1) ∧
  readableBundles games (updateEach sys s games).1 =
    (updateEach sys s (games.filter Game.readable)).1 ∧
  written sys (updateEach sys s games).2 =
    written sys (updateEach sys s (games.filter Game.readable)).2

/-- The condition, behind an update with the name `last`: the pass does not get to an unreadable
game, or it stops at the first one and leaves it alone, and the readable games behind would not
have been changed nor the launcher's file written. -/
def Spares (sys : System) : Option String → List Game → Prop
  | _, [] => True
  | last, game :: games =>
    if game.infoPlist = .ioError then
      StopsUntouched sys last game ∧ Idle sys last.isSome (games.filter Game.readable)
    else ∀ name, game.completes sys = some name → Spares sys (some (newName sys.lower name)) games

theorem zip_self_eq {games : List Game} {p : Game × Game} (h : p ∈ games.zip games) :
    p.2 = p.1 := by
  induction games with
  | nil => cases h
  | cons game games ih =>
    rw [List.zip_cons_cons, List.mem_cons] at h
    rcases h with rfl | h
    · rfl
    · exact ih h

theorem filter_readable (games : List Game) :
    ∀ game ∈ games.filter Game.readable, game.infoPlist ≠ .ioError := by
  intro game h
  have hreadable := (List.mem_filter.mp h).2
  simpa [Game.readable] using hreadable

/-- At an unreadable game the two passes part. -/
theorem sameWithout_unreadable (hsys : sys.Apart) (hs : s.Valid)
    (hioError : game.infoPlist = .ioError) :
    SameWithout sys s (game :: games) ↔ StopsUntouched sys (s.lastName sys) game ∧
      Idle sys s.updateLauncherFile (games.filter Game.readable) := by
  have hnot : ¬ game.readable = true := by simp [Game.readable, hioError]
  obtain ⟨hstops, hchanges⟩ := updateGame_unreadable hsys hs hioError
  unfold SameWithout
  rw [List.filter_cons_of_neg hnot]
  by_cases h : StopsUntouched sys (s.lastName sys) game
  · obtain ⟨e, hrun⟩ := hstops h
    rw [updateEach_error games hrun, ← idle_iff hsys s _ (filter_readable games)]
    simp only [readableBundles_neg hnot, readableBundles_self, h, true_and, written, launcherFile]
    constructor
    · rintro ⟨-, hgames, hwritten⟩
      exact ⟨hgames.symm, hwritten.symm⟩
    · rintro ⟨hgames, hwritten⟩
      exact ⟨fun p hp _ => zip_self_eq hp, hgames.symm, hwritten.symm⟩
  · refine iff_of_false (fun ⟨hsame, _⟩ => ?_) (fun ⟨hstop, _⟩ => h hstop)
    obtain ⟨rest, hrest⟩ := updateEach_head sys s game games
    rw [hrest] at hsame
    exact hchanges h (hsame (game, (turnAfter ((updateGame sys s).run ⟨game, []⟩)).game) (by simp)
      hioError)

theorem sameWithout_stopped {e : Raised} {t : Turn} (hreadable : game.readable = true)
    (hrun : (updateGame sys s).run ⟨game, []⟩ = .error e t) :
    SameWithout sys s (game :: games) := by
  have hgame : game.infoPlist ≠ .ioError := by simpa [Game.readable] using hreadable
  unfold SameWithout
  rw [List.filter_cons_of_pos hreadable, updateEach_error games hrun,
    updateEach_error (games.filter Game.readable) hrun]
  refine ⟨fun p hp hioError => ?_, ?_, rfl⟩
  · rw [List.zip_cons_cons, List.mem_cons] at hp
    rcases hp with rfl | hp
    · exact absurd hioError hgame
    · exact zip_self_eq hp
  · rw [readableBundles_pos hreadable, readableBundles_self]

theorem sameWithout_next {s' : Pass} {t : Turn} (hreadable : game.readable = true)
    (hrun : (updateGame sys s).run ⟨game, []⟩ = .ok s' t) :
    SameWithout sys s (game :: games) ↔ SameWithout sys s' games := by
  have hgame : game.infoPlist ≠ .ioError := by simpa [Game.readable] using hreadable
  unfold SameWithout
  rw [List.filter_cons_of_pos hreadable, updateEach_ok games hrun,
    updateEach_ok (games.filter Game.readable) hrun]
  simp only [List.zip_cons_cons, List.forall_mem_cons, readableBundles_pos hreadable,
    List.cons.injEq, true_and, hgame, false_implies]

theorem sameWithout_iff (hsys : sys.Apart) (hs : s.Valid) (games : List Game) :
    SameWithout sys s games ↔ Spares sys (s.lastName sys) games := by
  induction games generalizing s with
  | nil => simp [SameWithout, Spares, updateEach, readableBundles]
  | cons game games ih =>
    by_cases hioError : game.infoPlist = .ioError
    · rw [sameWithout_unreadable hsys hs hioError, Spares, if_pos hioError, hs.lastName_isSome]
    · have hreadable : game.readable = true := by simpa [Game.readable] using hioError
      rw [Spares, if_neg hioError]
      rcases hcompletes : game.completes sys with _ | name
      · obtain ⟨e, t, hrun, -⟩ := updateGame_stops hsys s hioError hcompletes
        exact iff_of_true (sameWithout_stopped hreadable hrun) (by simp)
      · obtain ⟨pl, t, hrun, -⟩ := updateGame_completes hsys s hcompletes
        rw [sameWithout_next hreadable hrun, ih (valid_next sys s pl name), lastName_next]
        simp

/-! ## The law -/

/-- A pass leaves the bundles of the unreadable games alone, and the other bundles and the games of
the launcher's file, whatever it held, are as if the unreadable games were absent. -/
def IsolatesUnreadable (sys : System) (games : List Game) : Prop :=
  ∀ launcher,
    (∀ p ∈ games.zip (updatePass sys launcher games).1,
      p.1.infoPlist = .ioError → p.2 = p.1) ∧
    readableBundles games (updatePass sys launcher games).1 =
      (updatePass sys launcher (games.filter Game.readable)).1 ∧
    (updatePass sys launcher games).2 =
      (updatePass sys launcher (games.filter Game.readable)).2

/-- Two writes leave the same file behind every earlier one only where they are the same. -/
theorem orElse_eq_iff {w w' : Option Dict} :
    (∀ launcher : Option Dict, (w <|> launcher) = (w' <|> launcher)) ↔ w = w' := by
  refine ⟨fun h => ?_, fun h launcher => by rw [h]⟩
  rcases w with _ | names
  · rcases w' with _ | names'
    · rfl
    · have hnone := h none
      simp at hnone
  · rcases w' with _ | names'
    · have hnone := h none
      simp at hnone
    · have hnone := h none
      simpa using hnone

theorem idle_apart (started : Bool) (games : List Game) :
    Idle sys.apart started games ↔ Idle sys started games := by
  induction games generalizing started with
  | nil => rfl
  | cons game games ih =>
    unfold Idle
    rw [ih]
    rfl

theorem spares_apart (last : Option String) (games : List Game) :
    Spares sys.apart last games ↔ Spares sys last games := by
  induction games generalizing last with
  | nil => rfl
  | cons game games ih =>
    unfold Spares
    simp only [ih, idle_apart]
    rfl

theorem isolatesUnreadable_iff (hcontained : Contained sys games) :
    IsolatesUnreadable sys games ↔ Spares sys none games := by
  have hlast : (none : Option String) = Pass.lastName sys.apart {} := rfl
  rw [← spares_apart, hlast, ← sameWithout_iff sys.apart_apart valid_start]
  have hreadable : Contained sys (games.filter Game.readable) :=
    hcontained.sublist List.filter_sublist
  unfold IsolatesUnreadable SameWithout updatePass
  simp only [runPass_contained hcontained, runPass_contained hreadable, runEach]
  rw [← orElse_eq_iff]
  constructor
  · intro h
    exact ⟨(h none).1, (h none).2.1, fun launcher => (h launcher).2.2⟩
  · rintro ⟨hsame, hbundles, hlauncher⟩ launcher
    exact ⟨hsame, hbundles, hlauncher launcher⟩

/-- A game whose plist cannot be read. -/
def unread (name : String) : Game := { built name [⟨name, []⟩] with infoPlist := .ioError }

end esc_platform.setup
