-- What the renames leave of the files. Each file of `Contents/MacOS` is renamed
-- to the one new name, over the file that has it, so of the contents that the
-- loop comes to one is left. Where the new name leads out of the directory, none
-- is. And the plist names the file with its line endings made newlines.
import EscPlatform.Setup.ContainedPasses
import Mathlib.Data.List.Induction
import Mathlib.Data.List.Nodup

namespace esc_platform.setup

variable {sys : System} {game : Game} {s : Pass} {key : String → String} {entry : Option String}
variable {files moved : List Executable} {f g : Executable} {name : String}

/-! ## The files behind the loop -/

/-- The file is none of those that were renamed, and no rename took its place. -/
def Spared (key : String → String) (entry : Option String) (files moved : List Executable)
    (f : Executable) : Prop :=
  f ∈ files ∧ f ∉ moved ∧ f.isAt key entry = false

/-- The file whose content has the new name at the end: the last one that was renamed to it, or
where none was, the one that is the entry already. -/
def onTop (key : String → String) (entry : Option String) (files moved : List Executable) :
    Option Executable :=
  (moved.filter fun f => !f.isAt key entry).getLast? <|> files.find? (·.isAt key entry)

theorem onTop_append (m : Executable) : onTop key entry files (moved ++ [m]) =
    if m.isAt key entry then onTop key entry files moved else some m := by
  unfold onTop
  rw [List.filter_append]
  split
  · next h => simp [h]
  · next h => simp [h]

theorem eq_of_key (hnodup : (files.map (key ·.name)).Nodup) (hf : f ∈ files) (hg : g ∈ files)
    (h : key f.name = key g.name) : f = g := List.inj_on_of_nodup_map hnodup hf hg h

theorem find_isAt (hnodup : (files.map (key ·.name)).Nodup) (hf : f ∈ files)
    (h : f.isAt key entry = true) : files.find? (·.isAt key entry) = some f := by
  obtain ⟨g, hg⟩ : ∃ g, files.find? (·.isAt key entry) = some g := by
    rw [← Option.isSome_iff_exists, List.find?_isSome]
    exact ⟨f, hf, h⟩
  have hfound : g.isAt key entry = true := List.find?_some hg
  obtain ⟨name, rfl⟩ : ∃ name, entry = some name := by
    rcases entry with _ | name
    · cases h
    · exact ⟨name, rfl⟩
  rw [isAt_some_iff] at h hfound
  rw [hg, eq_of_key hnodup (List.mem_of_find?_eq_some hg) hf (hfound.symm.trans h)]

theorem placed_append (m : Executable) : placed key entry files (moved ++ [m]) =
    (placed key entry files moved).place key entry m := by
  rw [placed, List.foldl_append]
  rfl

/-- A file that is not the entry is there where the loop did not come to it. -/
theorem mem_placed_iff (hnodup : (files.map (key ·.name)).Nodup) (hmoved : moved ⊆ files)
    (hf : f.isAt key entry = false) :
    f ∈ (placed key entry files moved).files ↔ Spared key entry files moved f := by
  have hspared : ∀ ms, Spared key entry files ms f ↔ f ∈ files ∧ f ∉ ms := fun ms => by
    rw [Spared, hf, eq_self_iff_true, and_true]
  rw [hspared]
  induction moved using List.reverseRecOn with
  | nil => simp [placed]
  | append_singleton ms m ih =>
    obtain ⟨hms, hm⟩ := List.append_subset.mp hmoved
    have hmem : m ∈ files := hm (by simp)
    rw [placed_append, Directory.place]
    split
    · next hnamed =>
      rw [isNamed_eq, Bool.and_eq_true] at hnamed
      have hne : f ≠ m := by
        rintro rfl
        rw [hnamed.2] at hf
        cases hf
      simp [ih hms, hne]
    · have hmove : f ∈ ((placed key entry files ms).move key entry m).files ↔
          f ∈ (placed key entry files ms).files ∧ key f.name ≠ key m.name := by
        unfold Directory.move
        rcases entry with _ | name
        · simp
        · have hkey : key f.name ≠ key name := fun h => by
            rw [isAt_some_iff.mpr h.symm] at hf
            cases hf
          have hne : f ≠ ⟨name, m.bytes⟩ := fun h => hkey (by rw [h])
          simp [hkey, hne]
      have hbefore : f ∈ (placed key entry files ms).files ↔ f ∈ files ∧ f ∉ ms := ih hms
      rw [hmove, hbefore, List.mem_append, List.mem_singleton, not_or, and_assoc]
      refine and_congr_right fun hfile => and_congr_right fun _ => not_congr ⟨?_, ?_⟩
      · exact eq_of_key hnodup hfile hmem
      · rintro rfl
        rfl

/-- The entry has the content on top. -/
theorem entry_placed_iff (hnodup : (files.map (key ·.name)).Nodup) (hmoved : moved ⊆ files)
    (name : String) (bytes : List UInt8) :
    (∃ f ∈ (placed key (some name) files moved).files,
        f.isAt key (some name) = true ∧ f.bytes = bytes) ↔
      ∃ g, onTop key (some name) files moved = some g ∧ g.bytes = bytes := by
  induction moved using List.reverseRecOn with
  | nil =>
    constructor
    · rintro ⟨f, hf, hat, hbytes⟩
      exact ⟨f, find_isAt hnodup hf hat, hbytes⟩
    · rintro ⟨g, hfind, hbytes⟩
      exact ⟨g, List.mem_of_find?_eq_some hfind, List.find?_some hfind, hbytes⟩
  | append_singleton ms m ih =>
    obtain ⟨hms, hm⟩ := List.append_subset.mp hmoved
    have hmem : m ∈ files := hm (by simp)
    rw [placed_append, onTop_append, Directory.place]
    split
    · next hnamed =>
      rw [isNamed_eq, Bool.and_eq_true] at hnamed
      rw [if_pos hnamed.2]
      exact ih hms
    · next hnamed =>
      have htop : (if m.isAt key (some name) then onTop key (some name) files ms else some m) =
          some m := by
        split
        · next hat =>
          -- the name was not there before, so nothing was renamed
          have hnil : ms = [] := by
            by_contra hne
            rw [isNamed_eq, present_placed hne, hat] at hnamed
            exact hnamed rfl
          rw [hnil]
          exact find_isAt hnodup hmem hat
        · rfl
      rw [htop]
      have hat : ∀ f : Executable, f.isAt key (some name) = true →
          (f ∈ ((placed key (some name) files ms).move key (some name) m).files ↔
            f = ⟨name, m.bytes⟩) := by
        intro f hf
        rw [isAt_some_iff] at hf
        simp [Directory.move, hf]
      constructor
      · rintro ⟨f, hf, hfat, hbytes⟩
        rw [(hat f hfat).mp hf] at hbytes
        exact ⟨m, rfl, hbytes⟩
      · rintro ⟨g, hg, hbytes⟩
        obtain rfl := Option.some.inj hg
        have hself : Executable.isAt key (some name) ⟨name, m.bytes⟩ = true := isAt_of_name rfl
        exact ⟨_, (hat _ hself).mpr rfl, hself, hbytes⟩

/-! ## A turn -/

/-- A bundle as it is installed: its plist, its files and the file that the plist names. -/
structure Game.Installed (sys : System) (game : Game) (pl : Plist) (files : List Executable)
    (old : Executable) : Prop where
  infoPlist : game.infoPlist = .plist pl
  macOS : game.macOS = some files
  /-- The names are those of different entries. -/
  nodup : (files.map (sys.key ·.name)).Nodup
  mem : old ∈ files
  executable : ∃ name, pl.cfBundleExecutable = some name ∧
    old.isAt sys.key (sys.entry game.path name) = true

/-- A turn loses no content of the files, and the file that the written plist names holds what the
old executable held. -/
def KeepsContents (sys : System) (result : EStateM.Result Raised Turn Pass)
    (files : List Executable) (old : Executable) : Prop :=
  ∃ files', (turnAfter result).game.macOS = some files' ∧
    (∀ f ∈ files, ∃ f' ∈ files', f'.bytes = f.bytes) ∧
    ∀ s t, result = .ok s t → ∃ pl executable, t.game.infoPlist = .plist pl ∧
      pl.cfBundleExecutable = some executable ∧
        ∃ f' ∈ files', f'.isAt sys.key (sys.entry t.game.path executable) = true ∧
          f'.bytes = old.bytes

/-- The file's content is there behind the renames. -/
def Survives (key : String → String) (entry : Option String) (files moved : List Executable)
    (f : Executable) : Prop :=
  Spared key entry files moved f ∨ (entry.isSome ∧ onTop key entry files moved = some f)

/-- The condition: each content is that of a file that survives, and where the plist is written, the
new name leads to the same entry as the plist has it. -/
def Game.KeepsCopies (sys : System) (game : Game) (pl : Plist) (files : List Executable) : Prop :=
  ∀ name, pl.displayed = some name →
    let target := newName sys.lower name
    (∀ f ∈ files, ∃ g,
      Survives sys.key (sys.entry game.path target) files (game.reached sys target files) g ∧
        g.bytes = f.bytes) ∧
    (game.reached sys target files = files → game.plistWritable = true →
      (sys.entry game.path (plistText target)).map sys.key =
        (sys.entry game.path target).map sys.key)

theorem contents_placed_iff (hnodup : (files.map (key ·.name)).Nodup) (hmoved : moved ⊆ files)
    (bytes : List UInt8) : (∃ f ∈ (placed key entry files moved).files, f.bytes = bytes) ↔
      ∃ g, Survives key entry files moved g ∧ g.bytes = bytes := by
  constructor
  · rintro ⟨f, hf, hbytes⟩
    rcases hat : f.isAt key entry with _ | _
    · exact ⟨f, .inl ((mem_placed_iff hnodup hmoved hat).mp hf), hbytes⟩
    · rcases entry with _ | name
      · cases hat
      · obtain ⟨g, htop, hg⟩ := (entry_placed_iff hnodup hmoved name bytes).mp ⟨f, hf, hat, hbytes⟩
        exact ⟨g, .inr ⟨rfl, htop⟩, hg⟩
  · rintro ⟨g, hspared | ⟨hentry, htop⟩, hbytes⟩
    · exact ⟨g, (mem_placed_iff hnodup hmoved hspared.2.2).mpr hspared, hbytes⟩
    · obtain ⟨name, rfl⟩ := Option.isSome_iff_exists.mp hentry
      obtain ⟨f, hf, -, hf'⟩ := (entry_placed_iff hnodup hmoved name bytes).mpr ⟨g, htop, hbytes⟩
      exact ⟨f, hf, hf'⟩

theorem keepsContents_error (sys : System) {e : Raised} {t : Turn} {files' : List Executable}
    {old : Executable} (h : t.game.macOS = some files') :
    KeepsContents sys (.error e t) files old ↔ ∀ f ∈ files, ∃ f' ∈ files', f'.bytes = f.bytes := by
  unfold KeepsContents
  simp [turnAfter, h]

/-- Where the plist is written behind the renames. -/
theorem keepsContents_wrote_iff {name : String} {old : Executable} (hold : old ∈ files)
    (hall : game.reached sys (newName sys.lower name) files = files)
    (hpath : (game.afterRenames sys (newName sys.lower name) files).game.path = game.path)
    (s' : Pass) (pl : Plist) :
    KeepsContents sys
        (.ok s' ((game.afterRenames sys (newName sys.lower name) files).wrote sys pl name))
          files old ↔
      (∀ f ∈ files, ∃ f' ∈ (game.placed sys (newName sys.lower name) files).files,
        f'.bytes = f.bytes) ∧
      (sys.entry game.path (plistText (newName sys.lower name))).map sys.key =
        (sys.entry game.path (newName sys.lower name)).map sys.key := by
  have hmacOS := afterRenames_macOS sys game (newName sys.lower name) files
  have hat : ∀ f' ∈ (game.placed sys (newName sys.lower name) files).files,
      (sys.entry game.path (newName sys.lower name)).map sys.key = some (sys.key f'.name) := by
    intro f' hf'
    rw [Game.placed, hall] at hf'
    exact of_decide_eq_true (isNamed_of_mem_placed hf').1
  unfold KeepsContents
  simp only [turnAfter, Turn.wrote, hmacOS, Option.some.injEq, ↓existsAndEq, true_and,
    Executable.isAt, decide_eq_true_eq]
  refine and_congr_right fun hcontents => ⟨fun hwritten => ?_, fun hentry s₁ t hok => ?_⟩
  · obtain ⟨pl', executable, hpl, hexecutable, f', hf', hf'at, -⟩ := hwritten s' _ rfl
    obtain rfl := InfoPlist.plist.inj hpl
    obtain rfl : plistText (newName sys.lower name) = executable := Option.some.inj hexecutable
    rw [hat f' hf', ← hf'at, hpath]
  · obtain ⟨f', hf', hbytes⟩ := hcontents old hold
    injection hok with _ ht
    rw [← ht]
    refine ⟨_, _, rfl, rfl, f', hf', ?_, hbytes⟩
    rw [hpath, hentry, hat f' hf']

/-- A turn keeps the contents exactly where each content has a copy that survives, and a written
plist names the file. -/
theorem contents_are_kept_iff (sys : System) (s : Pass) {pl : Plist} {files : List Executable}
    {old : Executable} (h : game.Installed sys pl files old) :
    KeepsContents sys ((updateGame sys s).run ⟨game, []⟩) files old ↔
      game.KeepsCopies sys pl files := by
  have hread : (readPlist s.pl).run ⟨game, []⟩ = .ok pl ⟨game, []⟩ :=
    readPlist_own s.pl h.infoPlist
  unfold Game.KeepsCopies
  rcases hname : pl.displayed with _ | name
  · rw [updateGame_unnamed hread hname, keepsContents_error sys h.macOS]
    exact iff_of_true (fun f hf => ⟨f, hf, rfl⟩) nofun
  simp only [Option.some.injEq, forall_eq']
  have hcontents : (∀ f ∈ files, ∃ f' ∈ (game.placed sys (newName sys.lower name) files).files,
      f'.bytes = f.bytes) ↔
        ∀ f ∈ files, ∃ g, Survives sys.key (sys.entry game.path (newName sys.lower name)) files
          (game.reached sys (newName sys.lower name) files) g ∧ g.bytes = f.bytes :=
    forall₂_congr fun f _ => contents_placed_iff h.nodup reached_subset f.bytes
  have hmacOS := afterRenames_macOS sys game (newName sys.lower name) files
  rw [← hcontents]
  by_cases hall : game.reached sys (newName sys.lower name) files = files
  · rcases hentry : sys.entry game.path (newName sys.lower name) with _ | entry
    · -- every file left the directory
      have hnone : ¬ ∀ f ∈ files, ∃ f' ∈ (game.placed sys (newName sys.lower name) files).files,
          f'.bytes = f.bytes := by
        intro hkept
        obtain ⟨f', hf', -⟩ := hkept old h.mem
        rw [Game.placed, hall, hentry] at hf'
        exact absurd (isNamed_of_mem_placed hf').1 nofun
      refine iff_of_false (fun hkeeps => hnone ?_) fun hcond => hnone hcond.1
      obtain ⟨files', hfiles', hkept, -⟩ := hkeeps
      rwa [Option.some.inj (hfiles'.symm.trans (updateGame_macOS sys hread hname h.macOS))] at hkept
    · have hstays : game.StaysOut sys (newName sys.lower name) := fun hnone =>
        absurd (hentry.symm.trans hnone) nofun
      have hgame := afterRenames_game hstays files
      rw [updateGame_named sys hread hname h.macOS]
      dsimp only
      rw [if_pos hall]
      rcases hwritable : game.plistWritable with _ | _
      · rw [hgame, if_neg (by simp [hwritable]), keepsContents_error sys hmacOS]
        simp
      · rw [if_pos (by rw [hgame]; exact hwritable),
          keepsContents_wrote_iff h.mem hall (by rw [hgame]), hentry]
        simp [hall]
  · rw [updateGame_named sys hread hname h.macOS]
    dsimp only
    rw [if_neg hall, keepsContents_error sys hmacOS]
    simp [hall]

theorem a_single_executable_is_kept :
    KeepsContents plainSystem
      ((updateGame plainSystem {}).run ⟨built "Alpha" [⟨"Alpha", [1]⟩], []⟩)
      [⟨"Alpha", [1]⟩] ⟨"Alpha", [1]⟩ :=
  (contents_are_kept_iff plainSystem {} ⟨rfl, rfl, by simp, by simp, _, rfl, by decide⟩).mpr
    fun _ hname => by
      obtain rfl := Option.some.inj hname
      refine ⟨?_, fun _ _ => by decide⟩
      intro f hf
      refine ⟨⟨"Alpha", [1]⟩, .inr ⟨rfl, by decide⟩, ?_⟩
      rw [List.mem_singleton.mp hf]

/-- A second file takes the place of the executable. -/
theorem a_second_file_replaces_the_executable :
    ¬ ∀ sys s game pl files old, Game.Installed sys game pl files old →
      KeepsContents sys ((updateGame sys s).run ⟨game, []⟩) files old := by
  intro h
  let files : List Executable := [⟨"Alpha", [1]⟩, ⟨"helper", [2]⟩]
  have hinstalled : (built "Alpha" files).Installed plainSystem _ files ⟨"Alpha", [1]⟩ :=
    ⟨rfl, rfl, by decide, by decide, _, rfl, by decide⟩
  obtain ⟨files', hfiles', hkeeps, -⟩ := h plainSystem {} _ _ _ _ hinstalled
  have hafter : (turnAfter ((updateGame plainSystem {}).run
      ⟨built "Alpha" files, []⟩)).game.macOS = some [⟨"alpha", [2]⟩] := by decide
  obtain rfl := Option.some.inj (hafter.symm.trans hfiles')
  exact absurd (hkeeps ⟨"Alpha", [1]⟩ (by decide)) (by decide)

end esc_platform.setup
