-- The launcher's map against the installed bundles. The map is keyed by the
-- display names and the ids come from them, so two names that differ in spaces
-- or in case only give two entries with one id, and equal names give one entry.
-- The file has both with newlines for their line endings, and it is not written
-- at all where no bundle is left.
import EscPlatform.Setup.OwnTurns
import Mathlib.Data.List.Forall2
import Mathlib.Data.List.Nodup

namespace esc_platform.setup

open dictionaries

variable {sys : System} {game : Game} {games : List Game} {s : Pass}

/-! ## What the launcher should list -/

/-- The bundle is listed with its display name and its one URL scheme. -/
def Game.ListedAs (game : Game) (entry : String × String) : Prop :=
  ∃ pl, game.infoPlist = .plist pl ∧ pl.displayed = some entry.1 ∧
    pl.cfBundleURLTypes = some [[entry.2]]

/-- The map has one entry for each bundle and no other, and no two bundles have one id. -/
def ListsEach (map : Dict) (bundles : List Game) : Prop :=
  ∃ entries : List (String × String), List.Forall₂ Game.ListedAs bundles entries ∧
    (∀ key id, map[key]? = some id ↔ (key, id) ∈ entries) ∧
      (entries.map Prod.fst).Nodup ∧ (entries.map Prod.snd).Nodup

/-- Whatever the launcher's file held, after the pass its map lists each of the bundles. -/
def ListsInstalled (pass : Option Dict → List Game → List Game × Option Dict)
    (games : List Game) : Prop :=
  ∀ launcher, ∃ map, (pass launcher games).2 = some map ∧ ListsEach map (pass launcher games).1

/-- The display names of the games whose update does not end the pass. -/
def displayNames (sys : System) (games : List Game) : List String :=
  games.filterMap (Game.completes sys)

/-- The entry that an update makes, as the files have it. -/
def entryOf (sys : System) (name : String) : String × String :=
  (plistText name, plistText (newName sys.lower name))

/-- The condition: no update ends the pass, and the files have different names and different ids. -/
structure Distinct (sys : System) (games : List Game) : Prop where
  completes : ∀ game ∈ games, (game.completes sys).isSome = true
  names : ((displayNames sys games).map fun name => (entryOf sys name).1).Nodup
  ids : ((displayNames sys games).map fun name => (entryOf sys name).2).Nodup

/-! ## The loop over readable games -/

theorem updateGame_lists (hsys : sys.Apart) (s : Pass) {name : String}
    (h : game.completes sys = some name) :
    ∃ s' t, (updateGame sys s).run ⟨game, []⟩ = .ok s' t ∧
      t.game.ListedAs (entryOf sys name) ∧ s'.updateLauncherFile = true ∧
        s'.bundleNames = s.bundleNames.insert name (newName sys.lower name) := by
  obtain ⟨pl, t, hrun, hplist, -⟩ := updateGame_completes hsys s h
  exact ⟨_, t, hrun, ⟨_, hplist, rfl, rfl⟩, rfl, rfl⟩

/-- Where no update ends the pass, the map gets an entry for each display name. -/
theorem updateEach_lists (hsys : sys.Apart) (s : Pass)
    (h : ∀ game ∈ games, (game.completes sys).isSome = true) :
    ∃ after s', updateEach sys s games = (after, .ok s') ∧
      List.Forall₂ Game.ListedAs after ((displayNames sys games).map (entryOf sys)) ∧
      s'.updateLauncherFile = (s.updateLauncherFile || !games.isEmpty) ∧
      ∀ key, s'.bundleNames[key]? =
        if key ∈ displayNames sys games then some (newName sys.lower key)
        else s.bundleNames[key]? := by
  induction games generalizing s with
  | nil => exact ⟨[], s, rfl, .nil, by simp, by simp [displayNames]⟩
  | cons game games ih =>
    obtain ⟨hgame, hgames⟩ := List.forall_mem_cons.mp h
    obtain ⟨name, hname⟩ := Option.isSome_iff_exists.mp hgame
    obtain ⟨s₁, t, hrun, hlisted, hflag, hnames⟩ := updateGame_lists hsys s hname
    obtain ⟨after, s', hrest, hlist, hflag', hnames'⟩ := ih s₁ hgames
    have hcons : displayNames sys (game :: games) = name :: displayNames sys games := by
      rw [displayNames, List.filterMap_cons_some hname]
      rfl
    refine ⟨t.game :: after, s', ?_, ?_, by simp [hflag', hflag], fun key => ?_⟩
    · rw [updateEach_ok games hrun]
      simp only [hrest]
    · rw [hcons, List.map_cons]
      exact .cons hlisted hlist
    · rw [hnames', hnames, hcons, Std.ExtTreeMap.getElem?_insert]
      by_cases hkey : name = key
      · subst hkey
        simp
      · simp [hkey, Ne.symm hkey]

/-- Where an update ends the pass, the map is not written. -/
theorem updateEach_ends (hsys : sys.Apart) (s : Pass)
    (hread : ∀ game ∈ games, game.infoPlist ≠ .ioError)
    (h : ¬ ∀ game ∈ games, (game.completes sys).isSome = true) :
    ∃ e, (updateEach sys s games).2 = .error e := by
  induction games generalizing s with
  | nil => exact absurd (by simp) h
  | cons game games ih =>
    obtain ⟨hgame, hgames⟩ := List.forall_mem_cons.mp hread
    rcases hname : game.completes sys with _ | name
    · obtain ⟨e, t, hrun, -⟩ := updateGame_stops hsys s hgame hname
      exact ⟨e, by rw [updateEach_error games hrun]⟩
    · obtain ⟨s₁, t, hrun, -⟩ := updateGame_lists hsys s hname
      have hrest : ¬ ∀ game ∈ games, (game.completes sys).isSome = true := fun hall =>
        h (List.forall_mem_cons.mpr ⟨by simp [hname], hall⟩)
      obtain ⟨e, he⟩ := ih s₁ hgames hrest
      exact ⟨e, by rw [updateEach_ok games hrun, he]⟩

/-! ## The map behind the loop -/

theorem listedAs_unique : Relator.RightUnique Game.ListedAs := by
  rintro game ⟨key, id⟩ ⟨key', id'⟩ ⟨pl, hpl, hkey, hid⟩ ⟨pl', hpl', hkey', hid'⟩
  obtain rfl : pl = pl' := InfoPlist.plist.inj (hpl.symm.trans hpl')
  have hsame : key = key' := Option.some.inj (hkey.symm.trans hkey')
  have hid : id = id' := by simpa using hid.symm.trans hid'
  rw [hsame, hid]

/-- The file of a map with these names has their entries, where the names stay different. -/
theorem plistDict_entries {dict : Dict} {names : List String}
    (hdict : ∀ key, dict[key]? = if key ∈ names then some (newName sys.lower key) else none)
    (hnodup : (names.map fun name => (entryOf sys name).1).Nodup) (key id : String) :
    (plistDict dict)[key]? = some id ↔ (key, id) ∈ names.map (entryOf sys) := by
  have hmem : ∀ key, key ∈ dict ↔ key ∈ names := by
    intro key
    rw [Std.ExtTreeMap.mem_iff_isSome_getElem?, hdict]
    split <;> simp [*]
  rw [List.mem_map]
  constructor
  · intro h
    obtain ⟨name, id₀, hget, rfl, rfl⟩ := mem_of_getElem?_rewrite h
    rw [hdict] at hget
    split at hget
    · next hname => exact ⟨name, hname, by rw [entryOf, Option.some.inj hget]⟩
    · cases hget
  · rintro ⟨name, hname, hentry⟩
    obtain ⟨rfl, rfl⟩ := Prod.mk.inj hentry
    apply getElem?_rewrite
    · intro k₁ k₂ h₁ h₂ heq
      exact List.inj_on_of_nodup_map hnodup ((hmem k₁).mp h₁) ((hmem k₂).mp h₂) heq
    · rw [hdict, if_pos hname]

/-- The file of a map with these names lists each bundle exactly where names and ids differ. -/
theorem listsEach_iff {dict : Dict} {after : List Game} {names : List String}
    (hlist : List.Forall₂ Game.ListedAs after (names.map (entryOf sys)))
    (hdict : ∀ key, dict[key]? = if key ∈ names then some (newName sys.lower key) else none) :
    ListsEach (plistDict dict) after ↔ (names.map fun name => (entryOf sys name).1).Nodup ∧
      (names.map fun name => (entryOf sys name).2).Nodup := by
  have hkeys : (names.map (entryOf sys)).map Prod.fst =
      names.map fun name => (entryOf sys name).1 := List.map_map
  have hids : (names.map (entryOf sys)).map Prod.snd =
      names.map fun name => (entryOf sys name).2 := List.map_map
  constructor
  · rintro ⟨entries, hentries, -, hnames, hnodup⟩
    rw [List.right_unique_forall₂' listedAs_unique hentries hlist] at hnames hnodup
    exact ⟨hkeys ▸ hnames, hids ▸ hnodup⟩
  · rintro ⟨hnames, hnodup⟩
    exact ⟨names.map (entryOf sys), hlist, plistDict_entries hdict hnames, hkeys ▸ hnames,
      hids ▸ hnodup⟩

/-- The end of either script. -/
theorem runEach_lists_iff (hsys : sys.Apart) (writes : Bool → Bool)
    (hread : ∀ game ∈ games, game.infoPlist ≠ .ioError) :
    ListsInstalled (runEach sys writes) games ↔
      (writes (!games.isEmpty) = true ∧ sys.launcherWritable = true) ∧ Distinct sys games := by
  unfold ListsInstalled runEach
  by_cases hall : ∀ game ∈ games, (game.completes sys).isSome = true
  · obtain ⟨after, s, hrun, hlist, hflag, hnames⟩ := updateEach_lists hsys {} hall
    have heach := listsEach_iff hlist (by simpa using hnames)
    rw [Bool.false_or] at hflag
    simp only [hrun, launcherFile, hflag, ← Bool.and_eq_true]
    rcases hwrites : writes (!games.isEmpty) && sys.launcherWritable with _ | _
    · refine iff_of_false (fun h => ?_) (by simp)
      obtain ⟨map, hmap, -⟩ := h none
      simp at hmap
    · refine ⟨fun h => ?_, fun h launcher => ?_⟩
      · obtain ⟨map, hmap, hlists⟩ := h none
        obtain rfl := Option.some.inj hmap
        obtain ⟨hnames, hids⟩ := heach.mp hlists
        exact ⟨rfl, hall, hnames, hids⟩
      · exact ⟨plistDict s.bundleNames, rfl, heach.mpr ⟨h.2.names, h.2.ids⟩⟩
  · obtain ⟨e, he⟩ := updateEach_ends hsys {} hread hall
    refine iff_of_false (fun h => ?_) fun h => hall h.2.completes
    obtain ⟨map, hmap, -⟩ := h none
    rw [he] at hmap
    cases hmap

/-! ## The two scripts -/

theorem distinct_apart : Distinct sys.apart games ↔ Distinct sys games :=
  ⟨fun h => ⟨h.completes, h.names, h.ids⟩, fun h => ⟨h.completes, h.names, h.ids⟩⟩

theorem runPass_lists_iff (hcontained : Contained sys games) (writes : Bool → Bool)
    (hread : ∀ game ∈ games, game.infoPlist ≠ .ioError) :
    ListsInstalled (runPass sys writes) games ↔
      (writes (!games.isEmpty) = true ∧ sys.launcherWritable = true) ∧ Distinct sys games := by
  have heach := runEach_lists_iff sys.apart_apart writes hread
  unfold ListsInstalled at heach ⊢
  simp only [runPass_contained hcontained]
  rw [heach, distinct_apart]
  rfl

end esc_platform.setup
