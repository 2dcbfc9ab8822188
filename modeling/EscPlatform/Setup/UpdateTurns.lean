-- One turn of the update loop. The files up to the first that may not be
-- renamed go to the one new name, and the plist that is written has the name
-- that was read, so a turn with a plist of its own depends on the bundle alone.
import EscPlatform.Setup.UpdateGames
import EscPlatform.Lib.Checked
import Mathlib.Data.List.Basic

namespace esc_platform.setup

open checked

variable {sys : System} {game : Game} {games : List Game} {s : Pass} {t : Turn}
variable {key : String → String} {entry : Option String} {target name : String}
variable {files moved : List Executable} {file f : Executable} {d : Directory} {pl : Plist}

/-! ## The loop over the files -/

/-- The file is the entry. -/
def Executable.isAt (key : String → String) (entry : Option String) (file : Executable) : Bool :=
  entry.map key = some (key file.name)

/-- The directory has a file with the name of the entry, if the entry is in it. -/
def Directory.present (entry : Option String) (d : Directory) : Bool :=
  entry.all fun name => d.files.any (·.name = name)

/-- A rename that does not raise. -/
def Directory.place (key : String → String) (entry : Option String) (file : Executable)
    (d : Directory) : Directory :=
  if d.isNamed key entry file then d else d.move key entry file

/-- `Contents/MacOS` behind the renames of `moved`. -/
def placed (key : String → String) (entry : Option String) (files moved : List Executable) :
    Directory :=
  moved.foldl (fun d file => d.place key entry file) ⟨files, []⟩

@[simp] theorem isAt_none : file.isAt key none = false := rfl

@[simp] theorem isAt_some_iff : file.isAt key (some name) = true ↔ key name = key file.name := by
  simp [Executable.isAt]

theorem isAt_of_name (h : entry = some file.name) : file.isAt key entry = true := by
  rw [h, isAt_some_iff]

theorem isNamed_eq : d.isNamed key entry file = (d.present entry && file.isAt key entry) := by
  rcases entry with _ | name
  · simp [Directory.isNamed]
  · rw [Bool.eq_iff_iff, Bool.and_eq_true, isAt_some_iff]
    simp only [Directory.isNamed, Directory.present, Option.all_some, List.any_eq_true,
      Bool.and_eq_true, decide_eq_true_eq, Option.some.injEq]
    constructor
    · rintro ⟨f, hf, hkey, rfl⟩
      exact ⟨⟨f, hf, rfl⟩, hkey⟩
    · rintro ⟨⟨f, hf, rfl⟩, hkey⟩
      exact ⟨f, hf, hkey, rfl⟩

/-- Behind a rename the new name is there. -/
theorem present_place : (d.place key entry file).present entry = true := by
  unfold Directory.place
  split
  · next h =>
    rw [isNamed_eq, Bool.and_eq_true] at h
    exact h.1
  · rcases entry with _ | name
    · rfl
    · simp [Directory.present, Directory.move]

theorem present_placed (h : moved ≠ []) :
    (placed key entry files moved).present entry = true := by
  obtain ⟨ms, m, rfl⟩ := (List.eq_nil_or_concat' moved).resolve_left h
  rw [placed, List.foldl_append]
  exact present_place

/-- The rename of the file to the target does not raise. `present` says whether the new name is
there by then. -/
def System.allows (sys : System) (bundle target : String) (present : Bool) (file : Executable) :
    Bool :=
  present && file.isAt sys.key (sys.entry bundle target) || !sys.raises bundle target file

/-- The files that a loop comes to before it raises. Behind the first the new name is there. -/
def reached (allows : Bool → Executable → Bool) : Bool → List Executable → List Executable
  | _, [] => []
  | present, file :: files =>
    if allows present file then file :: reached allows true files else []

theorem rename_allowed {bundle : String}
    (h : sys.allows bundle target (d.present (sys.entry bundle target)) file = true) :
    (rename sys bundle target file).run d =
      .ok () (d.place sys.key (sys.entry bundle target) file) := by
  unfold rename Directory.place
  rw [EStateM.run_bind, EStateM.run_get]
  dsimp only
  split
  · rfl
  · next hnamed =>
    rw [isNamed_eq] at hnamed
    have hraises : sys.raises bundle target file = false := by
      simpa [System.allows, hnamed] using h
    simp only [hraises, Bool.false_eq_true, if_false]
    rfl

theorem rename_refused {bundle : String}
    (h : ¬ sys.allows bundle target (d.present (sys.entry bundle target)) file = true) :
    (rename sys bundle target file).run d = .error .osError d := by
  rw [System.allows, Bool.or_eq_true, Bool.not_eq_true', ← isNamed_eq, not_or,
    Bool.not_eq_false] at h
  unfold rename
  rw [EStateM.run_bind, EStateM.run_get]
  dsimp only
  rw [if_neg h.1]
  simp only [h.2, if_true]
  rfl

/-- The loop raises at the first file that may not be renamed. -/
theorem renames_run (sys : System) (bundle target : String) (files : List Executable)
    (d : Directory) :
    (files.forM (rename sys bundle target)).run d =
      let moved := reached (sys.allows bundle target) (d.present (sys.entry bundle target)) files
      let d' := moved.foldl (fun d file => d.place sys.key (sys.entry bundle target) file) d
      if moved = files then .ok () d' else .error .osError d' := by
  induction files generalizing d with
  | nil => rfl
  | cons f fs ih =>
    change (rename sys bundle target f >>= fun _ => fs.forM (rename sys bundle target)).run d = _
    rw [reached]
    split
    · next hallows =>
      rw [run_bind_ok (rename_allowed hallows), ih, present_place]
      simp only [List.foldl_cons, List.cons.injEq, true_and]
    · next hallows =>
      rw [run_bind_error (rename_refused hallows)]
      rfl

theorem mem_of_reached {allows : Bool → Executable → Bool} {present : Bool}
    (h : f ∈ reached allows present files) : f ∈ files := by
  induction files generalizing present with
  | nil => exact h
  | cons g gs ih =>
    unfold reached at h
    split at h
    · rcases List.mem_cons.mp h with rfl | h
      · exact List.mem_cons_self
      · exact List.mem_cons_of_mem _ (ih h)
    · cases h

theorem reached_eq_self {allows : Bool → Executable → Bool} {present : Bool}
    (h : ∀ f ∈ files, allows present f = true) (htrue : ∀ f ∈ files, allows true f = true) :
    reached allows present files = files := by
  induction files generalizing present with
  | nil => rfl
  | cons f fs ih =>
    obtain ⟨hf, -⟩ := List.forall_mem_cons.mp h
    obtain ⟨-, hfs⟩ := List.forall_mem_cons.mp htrue
    rw [reached, if_pos hf, ih hfs hfs]

/-- The files of the bundle that the loop comes to. -/
def Game.reached (sys : System) (game : Game) (target : String) (files : List Executable) :
    List Executable :=
  setup.reached (sys.allows game.path target)
    (Directory.present (sys.entry game.path target) ⟨files, []⟩) files

theorem reached_subset : game.reached sys target files ⊆ files := fun _ h => mem_of_reached h

/-- `Contents/MacOS` behind the loop. -/
def Game.placed (sys : System) (game : Game) (target : String) (files : List Executable) :
    Directory :=
  setup.placed sys.key (sys.entry game.path target) files (game.reached sys target files)

/-- Each file behind the renames has the new name, or was left alone. -/
theorem mem_foldl_place
    (h : f ∈ (moved.foldl (fun d file => d.place key entry file) d).files) :
    entry = some f.name ∨
      (f ∈ d.files ∧ ∀ m ∈ moved, m.isAt key entry = true ∨ key f.name ≠ key m.name) := by
  induction moved generalizing d with
  | nil => exact .inr ⟨h, by simp⟩
  | cons m ms ih =>
    rcases ih h with hname | ⟨hf, hms⟩
    · exact .inl hname
    · simp only [Directory.place] at hf
      split at hf
      · next hm =>
        rw [isNamed_eq, Bool.and_eq_true] at hm
        exact .inr ⟨hf, List.forall_mem_cons.mpr ⟨.inl hm.2, hms⟩⟩
      · unfold Directory.move at hf
        split at hf
        · next entry =>
          rcases List.mem_append.mp hf with hf | hf
          · obtain ⟨hf, hname⟩ := List.mem_filter.mp hf
            simp only [decide_eq_true_eq] at hname
            exact .inr ⟨hf, List.forall_mem_cons.mpr ⟨.inr hname.1, hms⟩⟩
          · rw [List.mem_singleton.mp hf]
            exact .inl rfl
        · obtain ⟨hf, hname⟩ := List.mem_filter.mp hf
          simp only [decide_eq_true_eq] at hname
          exact .inr ⟨hf, List.forall_mem_cons.mpr ⟨.inr hname, hms⟩⟩

/-- A file that the loop came to and that is there behind it is the entry. -/
theorem isAt_of_mem_placed (h : f ∈ (placed key entry files moved).files) (hf : f ∈ moved) :
    f.isAt key entry = true := by
  rcases mem_foldl_place h with hname | ⟨-, hmoved⟩
  · exact isAt_of_name hname
  · exact (hmoved f hf).resolve_right fun hne => hne rfl

/-- Where every file is renamed, each that is left is the entry, and has its name. -/
theorem isNamed_of_mem_placed (h : f ∈ (placed key entry files files).files) :
    f.isAt key entry = true ∧ (placed key entry files files).present entry = true := by
  have hfiles : files ≠ [] := by
    rintro rfl
    cases h
  refine ⟨?_, present_placed hfiles⟩
  rcases mem_foldl_place h with hname | ⟨hf, -⟩
  · exact isAt_of_name hname
  · exact isAt_of_mem_placed h hf

theorem placed_of_named
    (h : ∀ m ∈ moved, Directory.isNamed key entry m ⟨files, []⟩ = true) :
    placed key entry files moved = ⟨files, []⟩ := by
  unfold placed
  induction moved with
  | nil => rfl
  | cons m ms ih =>
    obtain ⟨hm, hms⟩ := List.forall_mem_cons.mp h
    rw [List.foldl_cons, Directory.place, if_pos hm]
    exact ih hms

/-- The renames leave the files alone exactly where those that they come to have the name. -/
theorem placed_files_eq_iff (h : moved ⊆ files) :
    (placed key entry files moved).files = files ↔
      ∀ m ∈ moved, Directory.isNamed key entry m ⟨files, []⟩ = true := by
  refine ⟨fun heq m hm => ?_, fun hnamed => by rw [placed_of_named hnamed]⟩
  have hpresent : (placed key entry files moved).present entry = true :=
    present_placed (List.ne_nil_of_mem hm)
  unfold Directory.present at hpresent
  rw [heq] at hpresent
  rw [isNamed_eq, Bool.and_eq_true]
  have hmem : m ∈ (placed key entry files moved).files := by
    rw [heq]
    exact h hm
  exact ⟨hpresent, isAt_of_mem_placed hmem hm⟩

/-- A name in the directory keeps all files in it. -/
theorem foldl_place_left (h : entry ≠ none) :
    (moved.foldl (fun d file => d.place key entry file) d).left = d.left := by
  obtain ⟨entry, rfl⟩ := Option.ne_none_iff_exists'.mp h
  induction moved generalizing d with
  | nil => rfl
  | cons m ms ih =>
    rw [List.foldl_cons, ih]
    unfold Directory.place
    split
    · rfl
    · rfl

/-- A rename of files that have the name does not raise. -/
theorem reached_of_named
    (h : ∀ f ∈ files,
      Directory.isNamed sys.key (sys.entry game.path target) f ⟨files, []⟩ = true) :
    game.reached sys target files = files := by
  apply reached_eq_self
  · intro f hf
    have hnamed := h f hf
    rw [isNamed_eq] at hnamed
    rw [System.allows, hnamed, Bool.true_or]
  · intro f hf
    have hnamed := h f hf
    rw [isNamed_eq, Bool.and_eq_true] at hnamed
    rw [System.allows, hnamed.2, Bool.true_and, Bool.true_or]

/-- The files have the name already that the target gives them, as far as the loop comes. -/
def Game.Settled (sys : System) (game : Game) (target : String) : Prop :=
  ∀ files ∈ game.macOS, ∀ f ∈ game.reached sys target files,
    Directory.isNamed sys.key (sys.entry game.path target) f ⟨files, []⟩ = true

theorem settled_iff (h : game.macOS = some files) :
    game.Settled sys target ↔ (game.placed sys target files).files = files := by
  unfold Game.Settled Game.placed
  rw [placed_files_eq_iff reached_subset]
  simp [h]

/-! ## The bundle behind the renames -/

theorem landAll_eq_self {left : List Moved} (h : ∀ m ∈ left, sys.lands m game = game) :
    sys.landAll left game = game := by
  unfold System.landAll
  induction left with
  | nil => rfl
  | cons m ms ih =>
    obtain ⟨hm, hms⟩ := List.forall_mem_cons.mp h
    rw [List.foldl_cons, hm]
    exact ih hms

theorem landAll_own {left : List Moved} (h : ∀ m ∈ left, m.bundle = game.path) :
    (sys.landAll left game).macOS = game.macOS := by
  unfold System.landAll
  induction left generalizing game with
  | nil => rfl
  | cons m ms ih =>
    obtain ⟨hm, hms⟩ := List.forall_mem_cons.mp h
    rw [List.foldl_cons, ih, sys.macOS_lands m game hm.symm]
    intro m' hm'
    rw [sys.path_lands]
    exact hms m' hm'

/-- The turn behind the renames. -/
def Game.afterRenames (sys : System) (game : Game) (target : String) (files : List Executable) :
    Turn :=
  Turn.renamed sys target (game.placed sys target files) ⟨game, []⟩

theorem afterRenames_macOS (sys : System) (game : Game) (target : String)
    (files : List Executable) :
    (game.afterRenames sys target files).game.macOS =
      some (game.placed sys target files).files := by
  unfold Game.afterRenames Turn.renamed
  apply landAll_own
  intro m hm
  obtain ⟨f, -, rfl⟩ := List.mem_map.mp hm
  rfl

theorem mem_afterRenames_left {m : Moved} (h : m ∈ (game.afterRenames sys target files).left) :
    sys.entry game.path target = none ∧ ∃ file, m = ⟨game.path, target, file⟩ := by
  unfold Game.afterRenames Turn.renamed at h
  simp only [List.nil_append] at h
  obtain ⟨f, hf, rfl⟩ := List.mem_map.mp h
  refine ⟨?_, f, rfl⟩
  by_contra hentry
  have hleft : (game.placed sys target files).left = [] := foldl_place_left hentry
  rw [hleft] at hf
  cases hf

/-- Files that leave the directory of the bundle for the target get to no other place of it. -/
def Game.StaysOut (sys : System) (game : Game) (target : String) : Prop :=
  sys.entry game.path target = none →
    ∀ file game', game'.path = game.path → sys.lands ⟨game.path, target, file⟩ game' = game'

theorem afterRenames_game (h : game.StaysOut sys target) (files : List Executable) :
    (game.afterRenames sys target files).game =
      { game with macOS := some (game.placed sys target files).files } := by
  have hleft : ∀ m ∈ (game.afterRenames sys target files).left, ∀ game',
      game'.path = game.path → sys.lands m game' = game' := by
    intro m hm game' hpath
    obtain ⟨hentry, file, rfl⟩ := mem_afterRenames_left hm
    exact h hentry file game' hpath
  unfold Game.afterRenames Turn.renamed at hleft ⊢
  exact landAll_eq_self fun m hm => hleft m hm _ rfl

/-- Where nothing has to be renamed, the turn is as before. -/
theorem afterRenames_settled (h : game.macOS = some files) (hsettled : game.Settled sys target) :
    game.afterRenames sys target files = ⟨game, []⟩ := by
  have hplaced : game.placed sys target files = ⟨files, []⟩ := placed_of_named (hsettled files h)
  unfold Game.afterRenames Turn.renamed System.landAll
  rw [hplaced]
  obtain ⟨path, infoPlist, writable, formats, macOS⟩ := game
  simp only at h
  rw [h]
  rfl

theorem afterRenames_game_eq_iff (sys : System) (target : String) (h : game.macOS = some files) :
    (game.afterRenames sys target files).game = game ↔ game.Settled sys target := by
  refine ⟨fun heq => ?_, fun hsettled => by rw [afterRenames_settled h hsettled]⟩
  rw [settled_iff h]
  have hmacOS := afterRenames_macOS sys game target files
  rw [heq, h] at hmacOS
  exact (Option.some.inj hmacOS).symm

/-! ## The body of the loop -/

theorem renameExecutables_unlisted (h : game.macOS = none) :
    (renameExecutables sys target).run ⟨game, []⟩ = .error .osError ⟨game, []⟩ := by
  unfold renameExecutables
  rw [EStateM.run_bind, EStateM.run_get]
  simp only [h]
  rfl

theorem renameExecutables_run (sys : System) (target : String) (h : game.macOS = some files) :
    (renameExecutables sys target).run ⟨game, []⟩ =
      if game.reached sys target files = files then
        .ok () (game.afterRenames sys target files)
      else .error .osError (game.afterRenames sys target files) := by
  have hrun : (files.forM (rename sys game.path target)).run ⟨files, []⟩ =
      if game.reached sys target files = files then .ok () (game.placed sys target files)
      else .error .osError (game.placed sys target files) :=
    renames_run sys game.path target files _
  unfold renameExecutables
  rw [EStateM.run_bind, EStateM.run_get]
  simp only [h, hrun]
  by_cases hall : game.reached sys target files = files
  · rw [if_pos hall, if_pos hall]
    rfl
  · rw [if_neg hall, if_neg hall]
    rfl

theorem writePlist_unwritable (pl : Plist) (h : t.game.plistWritable = false) :
    (writePlist pl).run t = .error .ioError t := by
  unfold writePlist
  rw [EStateM.run_bind, EStateM.run_get]
  simp only [h, Bool.not_false, if_true]
  rfl

theorem writePlist_run (pl : Plist) (h : t.game.plistWritable = true) :
    (writePlist pl).run t =
      .ok () { t with game := { t.game with infoPlist := .plist pl.written } } := by
  unfold writePlist
  rw [EStateM.run_bind, EStateM.run_get]
  simp only [h, Bool.not_true, Bool.false_eq_true, if_false]
  rfl

theorem updateBundle_unnamed (h : pl.displayed = none) :
    (updateBundle sys pl).run t = .error .keyError t := by
  unfold updateBundle
  rw [h]
  rfl

theorem updateBundle_raises {e : Raised} {t' : Turn} (hname : pl.displayed = some name)
    (h : (renameExecutables sys (newName sys.lower name)).run t = .error e t') :
    (updateBundle sys pl).run t = .error e t' := by
  unfold updateBundle
  rw [hname]
  exact run_bind_error h

/-- Behind the renames, the rest of the body. -/
theorem updateBundle_renamed {t' : Turn} (hname : pl.displayed = some name)
    (h : (renameExecutables sys (newName sys.lower name)).run t = .ok () t') :
    (updateBundle sys pl).run t =
      (writePlist (pl.updated sys.lower name) >>=
        fun _ => pure (pl.updated sys.lower name, name)).run t' := by
  unfold updateBundle
  rw [hname]
  exact run_bind_ok h

/-! ## A turn -/

/-- The pass after an update with the plist `pl`. -/
def Pass.next (sys : System) (s : Pass) (pl : Plist) (name : String) : Pass where
  pl := some (pl.updated sys.lower name)
  bundleNames := s.bundleNames.insert name (newName sys.lower name)
  updateLauncherFile := true

/-- The turn behind the write of the plist. -/
def Turn.wrote (sys : System) (t : Turn) (pl : Plist) (name : String) : Turn :=
  { t with game := { t.game with infoPlist := .plist (pl.updated sys.lower name).written } }

/-- The turn behind a result. -/
def turnAfter {α : Type} : EStateM.Result Raised Turn α → Turn
  | .ok _ t => t
  | .error _ t => t

theorem updateGame_eq (h : (readPlist s.pl).run t = .ok pl t) :
    (updateGame sys s).run t = (updateBundle sys pl >>= fun r => pure {
      pl := some r.1
      bundleNames := s.bundleNames.insert r.2 (newName sys.lower r.2)
      updateLauncherFile := true }).run t := by
  unfold updateGame
  rw [run_bind_ok h]

theorem updateGame_error {e : Raised} {t' : Turn} (h : (readPlist s.pl).run t = .ok pl t)
    (he : (updateBundle sys pl).run t = .error e t') :
    (updateGame sys s).run t = .error e t' := by
  rw [updateGame_eq h, run_bind_error he]

theorem updateGame_unnamed (h : (readPlist s.pl).run t = .ok pl t) (hname : pl.displayed = none) :
    (updateGame sys s).run t = .error .keyError t :=
  updateGame_error h (updateBundle_unnamed hname)

theorem updateGame_unlisted (h : (readPlist s.pl).run ⟨game, []⟩ = .ok pl ⟨game, []⟩)
    (hname : pl.displayed = some name) (hfiles : game.macOS = none) :
    (updateGame sys s).run ⟨game, []⟩ = .error .osError ⟨game, []⟩ :=
  updateGame_error h (updateBundle_raises hname (renameExecutables_unlisted hfiles))

/-- A turn with a name and a listing: the renames, and where they come to an end the plist. -/
theorem updateGame_named (sys : System) (h : (readPlist s.pl).run ⟨game, []⟩ = .ok pl ⟨game, []⟩)
    (hname : pl.displayed = some name) (hfiles : game.macOS = some files) :
    (updateGame sys s).run ⟨game, []⟩ =
      let t := game.afterRenames sys (newName sys.lower name) files
      if game.reached sys (newName sys.lower name) files = files then
        if t.game.plistWritable then .ok (s.next sys pl name) (t.wrote sys pl name)
        else .error .ioError t
      else .error .osError t := by
  have hrun := renameExecutables_run sys (newName sys.lower name) hfiles
  dsimp only
  split
  · next hall =>
    rw [if_pos hall] at hrun
    have hbody := updateBundle_renamed hname hrun
    split
    · next hwritable =>
      rw [run_bind_ok (writePlist_run _ hwritable)] at hbody
      rw [updateGame_eq h, run_bind_ok hbody]
      rfl
    · next hwritable =>
      rw [Bool.not_eq_true] at hwritable
      rw [run_bind_error (writePlist_unwritable _ hwritable)] at hbody
      exact updateGame_error h hbody
  · next hall =>
    rw [if_neg hall] at hrun
    exact updateGame_error h (updateBundle_raises hname hrun)

/-- The renames are behind it however it ends. -/
theorem updateGame_renames (sys : System)
    (h : (readPlist s.pl).run ⟨game, []⟩ = .ok pl ⟨game, []⟩)
    (hname : pl.displayed = some name) (hfiles : game.macOS = some files) :
    let t := game.afterRenames sys (newName sys.lower name) files
    (∃ e, (updateGame sys s).run ⟨game, []⟩ = .error e t) ∨
      (updateGame sys s).run ⟨game, []⟩ = .ok (s.next sys pl name) (t.wrote sys pl name) := by
  rw [updateGame_named sys h hname hfiles]
  dsimp only
  split
  · split
    · exact .inr rfl
    · exact .inl ⟨_, rfl⟩
  · exact .inl ⟨_, rfl⟩

theorem updateGame_macOS (sys : System) (h : (readPlist s.pl).run ⟨game, []⟩ = .ok pl ⟨game, []⟩)
    (hname : pl.displayed = some name) (hfiles : game.macOS = some files) :
    (turnAfter ((updateGame sys s).run ⟨game, []⟩)).game.macOS =
      some (game.placed sys (newName sys.lower name) files).files := by
  have hmacOS := afterRenames_macOS sys game (newName sys.lower name) files
  rcases updateGame_renames sys h hname hfiles with ⟨e, hrun⟩ | hrun
  · rw [hrun]
    exact hmacOS
  · rw [hrun]
    exact hmacOS

theorem readPlist_own (last : Option Plist) (h : t.game.infoPlist = .plist pl) :
    (readPlist last).run t = .ok pl t := by
  unfold readPlist
  rw [EStateM.run_bind, EStateM.run_get]
  simp only [h]
  rfl

theorem readPlist_malformed (last : Option Plist) (h : t.game.infoPlist = .malformed) :
    (readPlist last).run t = .error .expatError t := by
  unfold readPlist
  rw [EStateM.run_bind, EStateM.run_get]
  simp only [h]
  rfl

theorem readPlist_noFormat {last : Option Plist} (hioError : t.game.infoPlist = .ioError)
    (h : t.game.errorFormats = false) : (readPlist last).run t = .error .formatError t := by
  unfold readPlist
  rw [EStateM.run_bind, EStateM.run_get]
  simp only [hioError, h, Bool.not_false, if_true]
  rfl

theorem readPlist_first (hioError : t.game.infoPlist = .ioError)
    (h : t.game.errorFormats = true) : (readPlist none).run t = .error .nameError t := by
  unfold readPlist
  rw [EStateM.run_bind, EStateM.run_get]
  simp only [hioError, h, Bool.not_true, Bool.false_eq_true, if_false]
  rfl

/-- The defect: the plist of an earlier game stands for the one that could not be read. -/
theorem readPlist_kept (pl : Plist) (hioError : t.game.infoPlist = .ioError)
    (h : t.game.errorFormats = true) : (readPlist (some pl)).run t = .ok pl t := by
  unfold readPlist
  rw [EStateM.run_bind, EStateM.run_get]
  simp only [hioError, h, Bool.not_true, Bool.false_eq_true, if_false]
  rfl

/-- Reading leaves the turn as it is, and a plist that is read is the bundle's own or the last. -/
theorem readPlist_cases (last : Option Plist) (t : Turn) :
    (∃ e, (readPlist last).run t = .error e t) ∨
      ∃ pl, (readPlist last).run t = .ok pl t ∧
        (t.game.infoPlist = .plist pl ∨ (t.game.infoPlist = .ioError ∧ last = some pl)) := by
  rcases hinfo : t.game.infoPlist with pl | _ | _
  · exact .inr ⟨pl, readPlist_own last hinfo, .inl rfl⟩
  · rcases hformat : t.game.errorFormats with _ | _
    · exact .inl ⟨_, readPlist_noFormat hinfo hformat⟩
    · rcases last with _ | pl
      · exact .inl ⟨_, readPlist_first hinfo hformat⟩
      · exact .inr ⟨pl, readPlist_kept pl hinfo hformat, .inr ⟨rfl, rfl⟩⟩
  · exact .inl ⟨_, readPlist_malformed last hinfo⟩

/-- A turn that touches nothing, or one that gets to the renames. -/
theorem updateGame_cases (s : Pass) (game : Game) :
    (∃ e, ∀ sys, (updateGame sys s).run ⟨game, []⟩ = .error e ⟨game, []⟩) ∨
      ∃ pl name files, (readPlist s.pl).run ⟨game, []⟩ = .ok pl ⟨game, []⟩ ∧
        (game.infoPlist = .plist pl ∨ (game.infoPlist = .ioError ∧ s.pl = some pl)) ∧
          pl.displayed = some name ∧ game.macOS = some files := by
  rcases readPlist_cases s.pl ⟨game, []⟩ with ⟨e, hread⟩ | ⟨pl, hread, hfrom⟩
  · exact .inl ⟨e, fun _ => run_bind_error hread⟩
  rcases hname : pl.displayed with _ | name
  · exact .inl ⟨_, fun _ => updateGame_unnamed hread hname⟩
  rcases hfiles : game.macOS with _ | files
  · exact .inl ⟨_, fun _ => updateGame_unlisted hread hname hfiles⟩
  · exact .inr ⟨pl, name, files, hread, hfrom, hname, rfl⟩

end esc_platform.setup
