-- A second pass right behind the first. It reads the display names that the
-- first one wrote, and a name with a carriage return was written as another one.
-- So what it does depends on the name that comes of the written name: whether it
-- is the same text in the plist, and the same entry for the file that is left.
import EscPlatform.Setup.OwnTurns
import EscPlatform.Setup.ExecutableLaws

namespace esc_platform.setup

open checked dictionaries

variable {sys : System} {game : Game} {games after : List Game} {s s' s₂ : Pass} {t : Turn}
variable {key : String → String} {entry last : Option String} {name : String}
variable {names paths : List String} {pl : Plist} {files moved : List Executable} {d : Directory}

/-! ## The directory behind a turn -/

theorem nodup_foldl_place (h : (d.files.map (key ·.name)).Nodup) :
    ((moved.foldl (fun d file => d.place key entry file) d).files.map (key ·.name)).Nodup := by
  induction moved generalizing d with
  | nil => exact h
  | cons m ms ih =>
    apply ih
    simp only [Directory.place]
    split
    · exact h
    · unfold Directory.move
      split
      · next name =>
        rw [List.map_append, List.nodup_append]
        refine ⟨h.sublist (List.filter_sublist.map _), List.nodup_singleton _, ?_⟩
        intro k hk k' hk' heq
        obtain ⟨f, hf, rfl⟩ := List.mem_map.mp hk
        have hother := (List.mem_filter.mp hf).2
        simp only [List.map_cons, List.map_nil, List.mem_singleton] at hk'
        simp only [decide_eq_true_eq] at hother
        exact hother.2 (heq.trans hk')
      · exact h.sublist (List.filter_sublist.map _)

/-- Where every file was renamed, one is left, with the name of the entry and the content on top. -/
theorem placed_all (hnodup : (files.map (key ·.name)).Nodup) (hfiles : files ≠ []) (name : String) :
    ∃ f, onTop key (some name) files files = some f ∧
      (placed key (some name) files files).files = [⟨name, f.bytes⟩] := by
  have hat : ∀ f ∈ (placed key (some name) files files).files, key name = key f.name :=
    fun f hf => isAt_some_iff.mp (isNamed_of_mem_placed hf).1
  have hkeys : ((placed key (some name) files files).files.map (key ·.name)).Nodup :=
    nodup_foldl_place hnodup
  have hpresent : (placed key (some name) files files).present (some name) = true :=
    present_placed hfiles
  obtain ⟨f, hf, hname⟩ : ∃ f ∈ (placed key (some name) files files).files, f.name = name := by
    simpa [Directory.present] using hpresent
  have hone : (placed key (some name) files files).files = [f] := by
    apply List.perm_singleton.mp
    apply (List.perm_ext_iff_of_nodup (List.Nodup.of_map _ hkeys) (List.nodup_singleton f)).mpr
    intro g
    rw [List.mem_singleton]
    refine ⟨fun hg => ?_, fun hg => hg ▸ hf⟩
    exact eq_of_key hkeys hg hf ((hat g hg).symm.trans (hat f hf))
  obtain ⟨g, htop, hbytes⟩ := (entry_placed_iff hnodup (List.Subset.refl files) name f.bytes).mp
    ⟨f, hf, isAt_of_name (by rw [hname]), rfl⟩
  refine ⟨g, htop, ?_⟩
  rw [hone, hbytes, ← hname]

/-! ## A second turn -/

theorem displayed_written (sys : System) (pl : Plist) (name : String) :
    (pl.updated sys.lower name).written.displayed = some (plistText name) := rfl

/-- The new name that the first turn wrote is the one that the second turn writes. -/
def SameText (sys : System) (name : String) : Prop :=
  plistText (newName sys.lower (plistText name)) = plistText (newName sys.lower name)

/-- An update of a written plist with the written name. -/
theorem written_again_iff (pl : Plist) (name : String) :
    ((pl.updated sys.lower name).written.updated sys.lower (plistText name)).written =
        (pl.updated sys.lower name).written ↔ SameText sys name := by
  unfold SameText
  constructor
  · intro h
    have hname := congrArg Plist.cfBundleName h
    exact Option.some.inj hname
  · intro h
    simp only [Plist.updated, Plist.written, Option.map_some, List.map_cons, List.map_nil, h,
      plistText_plistText, plistDict_plistDict]

/-- The bundle behind a turn that ended well. -/
theorem wrote_game (hsys : sys.Apart) (game : Game) (pl : Plist) (name : String)
    (files : List Executable) :
    ((game.afterRenames sys (newName sys.lower name) files).wrote sys pl name).game =
      { game with
        macOS := some (game.placed sys (newName sys.lower name) files).files
        infoPlist := .plist (pl.updated sys.lower name).written } := by
  rw [Turn.wrote, afterRenames_game (hsys.staysOut game _)]

/-- The names of a directory are those of different entries. -/
def Game.Tidy (sys : System) (game : Game) : Prop :=
  ∀ files ∈ game.macOS, (files.map (sys.key ·.name)).Nodup

/-- Where a file is left, the name as it was written leads to it by its name. -/
def Game.KeepsEntry (sys : System) (game : Game) (name : String) : Prop :=
  ∀ files ∈ game.macOS, files ≠ [] → ∀ entry ∈ sys.entry game.path (newName sys.lower name),
    sys.entry game.path (newName sys.lower (plistText name)) = some entry

/-- The rename of the file that is left, which has the content on top, is refused. -/
def Game.RefusesAgain (sys : System) (game : Game) (name : String) : Prop :=
  ∀ files ∈ game.macOS, ∀ entry ∈ sys.entry game.path (newName sys.lower name),
    ∀ f ∈ onTop sys.key (some entry) files files,
      sys.raises game.path (newName sys.lower (plistText name)) ⟨entry, f.bytes⟩ = true

/-- A bundle behind its first turn, and what the second one finds in it. -/
structure Wrote (sys : System) (game : Game) (name : String) (game' : Game) : Prop where
  path : game'.path = game.path
  writable : game'.plistWritable = true
  plist : ∃ pl : Plist, game'.infoPlist = .plist (pl.updated sys.lower name).written
  macOS : ∃ files ∈ game.macOS,
    game'.macOS = some
      (placed sys.key (sys.entry game.path (newName sys.lower name)) files files).files

theorem wrote_of_turn {t : Turn} {pl : Plist} (hsys : sys.Apart) (hfiles : game.macOS = some files)
    (hall : game.reached sys (newName sys.lower name) files = files)
    (hwritable : game.plistWritable = true)
    (ht : t = (game.afterRenames sys (newName sys.lower name) files).wrote sys pl name) :
    Wrote sys game name t.game := by
  have hgame := wrote_game hsys game pl name files
  rw [← ht] at hgame
  rw [hgame]
  refine ⟨rfl, hwritable, ⟨pl, rfl⟩, files, hfiles, ?_⟩
  rw [Game.placed, hall]

/-- The second turn, where the name leads to the file that is left. -/
theorem keepsEntry_turn {game' : Game} (hsys : sys.Apart) (h : Wrote sys game name game')
    (hkeeps : game.KeepsEntry sys name) (s₂ : Pass) :
    ∃ t pl₂, (updateGame sys s₂).run ⟨game', []⟩ = .ok (s₂.next sys pl₂ (plistText name)) t ∧
      (t.game = game' ↔ SameText sys name) := by
  obtain ⟨pl, hpl⟩ := h.plist
  obtain ⟨files, hfiles, hmacOS⟩ := h.macOS
  have hnamed : ∀ f ∈ (placed sys.key (sys.entry game.path (newName sys.lower name)) files
      files).files,
      Directory.isNamed sys.key (sys.entry game'.path (newName sys.lower (plistText name))) f
        ⟨(placed sys.key (sys.entry game.path (newName sys.lower name)) files files).files, []⟩ =
          true := by
    intro f hf
    have hne : files ≠ [] := by
      rintro rfl
      cases hf
    obtain ⟨hat, hpresent⟩ := isNamed_of_mem_placed hf
    rcases hentry : sys.entry game.path (newName sys.lower name) with _ | entry
    · rw [hentry] at hat
      cases hat
    · rw [h.path, hkeeps files hfiles hne entry hentry, ← hentry, isNamed_eq, Bool.and_eq_true]
      exact ⟨hpresent, hat⟩
  have hcompletes : game'.completes sys = some (plistText name) :=
    completes_eq_some_iff.mpr ⟨_, _, hpl, displayed_written sys pl name, hmacOS,
      reached_of_named hnamed, h.writable⟩
  obtain ⟨pl₂, t, hrun, -, hsame⟩ := updateGame_completes hsys s₂ hcompletes
  refine ⟨t, pl₂, hrun, ?_⟩
  rw [hsame, upToDate_own hpl (displayed_written sys pl name), written_again_iff]
  refine ⟨fun hupToDate => ?_, fun htext => ⟨?_, fun _ _ => htext⟩⟩
  · exact hupToDate.2 ((renames_some hmacOS _).mpr (reached_of_named hnamed)) h.writable
  · intro files' hfiles' f hf
    rw [hmacOS] at hfiles'
    obtain rfl := Option.some.inj hfiles'
    exact hnamed f (reached_subset hf)

/-- Where it would rename the file that is left, this is the only one, and its rename decides. -/
theorem file_left {game' : Game} (h : Wrote sys game name game') (htidy : game.Tidy sys)
    (hkeeps : ¬ game.KeepsEntry sys name) :
    ∃ f, game'.macOS = some [f] ∧
      Directory.isNamed sys.key (sys.entry game'.path (newName sys.lower (plistText name))) f
        ⟨[f], []⟩ = false ∧
      (game.RefusesAgain sys name ↔
        sys.raises game'.path (newName sys.lower (plistText name)) f = true) := by
  obtain ⟨files, hfiles, hmacOS⟩ := h.macOS
  simp only [Game.KeepsEntry, Option.mem_def, not_forall] at hkeeps
  obtain ⟨files', hfiles', hne, entry, hentry, hother⟩ := hkeeps
  obtain rfl : files = files' := Option.some.inj (hfiles.symm.trans hfiles')
  obtain ⟨f, htop, hone⟩ := placed_all (htidy files hfiles) hne entry
  rw [hentry, hone] at hmacOS
  refine ⟨_, hmacOS, ?_, ?_⟩
  · rw [h.path]
    simp [Directory.isNamed, hother]
  · unfold Game.RefusesAgain
    rw [h.path, hfiles]
    simp only [Option.mem_def, Option.some.injEq, forall_eq', hentry, htop]

/-- The loop over one file that has another name. -/
theorem reached_one {f : Executable} {target : String}
    (h : Directory.isNamed sys.key (sys.entry game.path target) f ⟨[f], []⟩ = false) :
    game.reached sys target [f] = if sys.raises game.path target f then [] else [f] := by
  rw [Game.reached, reached, System.allows, ← isNamed_eq, h, Bool.false_or]
  cases sys.raises game.path target f
  · rfl
  · rfl

/-- The second turn, where it would rename the file that is left. -/
theorem not_keepsEntry_turn {game' : Game} (hsys : sys.Apart) (h : Wrote sys game name game')
    (htidy : game.Tidy sys) (hkeeps : ¬ game.KeepsEntry sys name) (s₂ : Pass) :
    (game.RefusesAgain sys name → ∃ e, (updateGame sys s₂).run ⟨game', []⟩ =
      .error e ⟨game', []⟩) ∧
    (¬ game.RefusesAgain sys name →
      (turnAfter ((updateGame sys s₂).run ⟨game', []⟩)).game ≠ game') := by
  obtain ⟨pl, hpl⟩ := h.plist
  obtain ⟨f, hmacOS, hunnamed, hrefuses⟩ := file_left h htidy hkeeps
  have hread : (readPlist s₂.pl).run ⟨game', []⟩ =
      .ok (pl.updated sys.lower name).written ⟨game', []⟩ := readPlist_own s₂.pl hpl
  have hname := displayed_written sys pl name
  have hreached := reached_one hunnamed
  rw [hrefuses]
  refine ⟨fun hraises => ?_, fun hraises hsame => ?_⟩
  · rw [if_pos hraises] at hreached
    have hsettled : game'.Settled sys (newName sys.lower (plistText name)) := by
      intro files' hfiles' f' hf'
      obtain rfl := Option.some.inj (hmacOS.symm.trans hfiles')
      rw [hreached] at hf'
      cases hf'
    have hrun := updateGame_apart hsys hread hname hmacOS
    dsimp only at hrun
    rw [hreached, if_neg (by simp), afterRenames_settled hmacOS hsettled] at hrun
    exact ⟨_, hrun⟩
  · rw [if_neg hraises] at hreached
    have hafter := updateGame_macOS sys hread hname hmacOS
    rw [hsame, hmacOS] at hafter
    have hsettled := (settled_iff hmacOS).mpr (Option.some.inj hafter).symm
    have hnamed := hsettled _ hmacOS f (by rw [hreached]; simp)
    rw [hunnamed] at hnamed
    cases hnamed

/-- A turn and the turn of the second pass behind it. -/
theorem updateGame_again (hsys : sys.Apart) (htidy : game.Tidy sys)
    (h : (updateGame sys s).run ⟨game, []⟩ = .ok s' t) :
    ∃ pl name, s' = s.next sys pl name ∧
      (game.ownName <|> s.pl.bind Plist.displayed) = some name ∧
      ∀ s₂ : Pass,
        (game.KeepsEntry sys name → ∃ t₂ pl₂,
          (updateGame sys s₂).run ⟨t.game, []⟩ = .ok (s₂.next sys pl₂ (plistText name)) t₂ ∧
            (t₂.game = t.game ↔ SameText sys name)) ∧
        (¬ game.KeepsEntry sys name →
          (game.RefusesAgain sys name →
            ∃ e, (updateGame sys s₂).run ⟨t.game, []⟩ = .error e ⟨t.game, []⟩) ∧
          (¬ game.RefusesAgain sys name →
            (turnAfter ((updateGame sys s₂).run ⟨t.game, []⟩)).game ≠ t.game)) := by
  obtain ⟨pl, name, files, hfrom, hname, hfiles, hall, hwritable, hs', ht⟩ := updateGame_inv hsys h
  have hwrote := wrote_of_turn hsys hfiles hall hwritable ht
  refine ⟨pl, name, hs', ?_, fun s₂ => ⟨fun hkeeps => keepsEntry_turn hsys hwrote hkeeps s₂,
    fun hkeeps => not_keepsEntry_turn hsys hwrote htidy hkeeps s₂⟩⟩
  rcases hfrom with hpl | ⟨hioError, hpl⟩
  · rw [ownName_eq_some_iff.mpr ⟨pl, hpl, hname⟩]
    rfl
  · rw [Game.ownName, hioError, hpl]
    exact hname

/-! ## A second loop -/

/-- The condition: up to a bundle at which the second pass ends, what comes of the written name is
the same text and leads to the file that is left. A game that cannot be read has the name of the
last update. -/
def Resettles (sys : System) : Option String → List Game → Prop
  | _, [] => True
  | last, game :: games =>
    ∀ name ∈ game.ownName <|> last,
      (game.KeepsEntry sys name → SameText sys name ∧ Resettles sys (some name) games) ∧
        (¬ game.KeepsEntry sys name → game.RefusesAgain sys name)

theorem updateEach_again_iff (hsys : sys.Apart) (htidy : ∀ game ∈ games, game.Tidy sys)
    (h : updateEach sys s games = (after, .ok s')) (s₂ : Pass) :
    (updateEach sys s₂ after).1 = after ↔ Resettles sys (s.pl.bind Plist.displayed) games := by
  induction games generalizing s s₂ after with
  | nil =>
    rw [updateEach, Prod.mk.injEq] at h
    obtain ⟨rfl, -⟩ := h
    exact iff_of_true rfl trivial
  | cons game games ih =>
    obtain ⟨hgame, hgames⟩ := List.forall_mem_cons.mp htidy
    rcases hrun : (updateGame sys s).run ⟨game, []⟩ with ⟨s₁, t⟩ | ⟨e, t⟩
    · obtain ⟨pl, name, rfl, hname, hagain⟩ := updateGame_again hsys hgame hrun
      obtain ⟨hkeeps, hmoves⟩ := hagain s₂
      rw [updateEach_ok games hrun, Prod.mk.injEq] at h
      obtain ⟨rfl, hs'⟩ := h
      rw [Resettles, hname]
      simp only [Option.mem_some_iff, forall_eq']
      by_cases hentry : game.KeepsEntry sys name
      · obtain ⟨t₂, pl₂, hrun₂, hsame⟩ := hkeeps hentry
        have hrest := ih hgames (Prod.ext rfl hs') (s₂.next sys pl₂ (plistText name))
        rw [updateEach_ok _ hrun₂, List.cons.injEq, hsame, hrest]
        simp only [hentry, true_implies, not_true_eq_false, false_implies, and_true]
        rfl
      · obtain ⟨hends, hchanges⟩ := hmoves hentry
        simp only [hentry, false_implies, not_false_eq_true, true_implies, true_and]
        refine ⟨fun hafter => ?_, fun hrefuses => ?_⟩
        · by_contra hrefuses
          obtain ⟨rest, hrest⟩ := updateEach_head sys s₂ t.game (updateEach sys (s.next sys pl name)
            games).1
          rw [hrest] at hafter
          exact hchanges hrefuses (List.cons.inj hafter).1
        · obtain ⟨e, hrun₂⟩ := hends hrefuses
          rw [updateEach_error _ hrun₂]
    · rw [updateEach_error games hrun] at h
      cases h

/-! ## The launcher's file -/

/-- The dictionary has these display names. -/
def Pass.Lists (sys : System) (names : List String) (s : Pass) : Prop :=
  ∀ key, s.bundleNames[key]? = if key ∈ names then some (newName sys.lower key) else none

theorem lists_next (h : s.Lists sys names) (pl : Plist) (name : String) :
    (s.next sys pl name).Lists sys (name :: names) := by
  intro key
  rw [Pass.next, Std.ExtTreeMap.getElem?_insert, h key]
  by_cases hkey : name = key
  · subst hkey
    simp
  · simp [hkey, Ne.symm hkey]

/-- What a reader finds of names whose new names stay the same text. -/
theorem plistDict_lists (h : s.Lists sys names) (htext : ∀ name ∈ names, SameText sys name)
    (key : String) : (plistDict s.bundleNames)[key]? =
      if key ∈ names.map plistText then some (plistText (newName sys.lower key)) else none := by
  have hfound : ∀ id, (plistDict s.bundleNames)[key]? = some id →
      key ∈ names.map plistText ∧ id = plistText (newName sys.lower key) := by
    intro id hid
    obtain ⟨name, id₀, hget, rfl, rfl⟩ := mem_of_getElem?_rewrite hid
    rw [h name] at hget
    split at hget
    · next hname =>
      rw [← Option.some.inj hget]
      exact ⟨List.mem_map_of_mem hname, (htext name hname).symm⟩
    · cases hget
  rcases hget : (plistDict s.bundleNames)[key]? with _ | id
  · rw [if_neg]
    intro hkey
    obtain ⟨name, hname, rfl⟩ := List.mem_map.mp hkey
    have hmem : plistText name ∈ plistDict s.bundleNames := by
      apply mem_rewrite_iff.mpr
      refine ⟨name, ?_, rfl⟩
      rw [Std.ExtTreeMap.mem_iff_isSome_getElem?, h name, if_pos hname]
      rfl
    rw [Std.ExtTreeMap.mem_iff_isSome_getElem?, hget] at hmem
    cases hmem
  · obtain ⟨hkey, rfl⟩ := hfound id hget
    rw [if_pos hkey]

/-- A second loop that ends well has the names that a reader finds, and makes the same file. -/
theorem updateEach_again_file (hsys : sys.Apart) (htidy : ∀ game ∈ games, game.Tidy sys)
    (h : updateEach sys s games = (after, .ok s'))
    (hresettles : Resettles sys (s.pl.bind Plist.displayed) games)
    (hlists : s.Lists sys names) (htext : ∀ name ∈ names, SameText sys name)
    (hlists₂ : s₂.Lists sys (names.map plistText))
    (hflag : s₂.updateLauncherFile = s.updateLauncherFile) {s₂' : Pass}
    (hagain : (updateEach sys s₂ after).2 = .ok s₂') :
    s₂'.updateLauncherFile = s'.updateLauncherFile ∧
      plistDict s₂'.bundleNames = plistDict s'.bundleNames := by
  induction games generalizing s s₂ after names with
  | nil =>
    rw [updateEach, Prod.mk.injEq] at h
    obtain ⟨rfl, hs'⟩ := h
    obtain rfl := Except.ok.inj hs'
    obtain rfl := Except.ok.inj hagain
    refine ⟨hflag, ?_⟩
    apply Std.ExtTreeMap.ext_getElem?
    intro key
    have htext₂ : ∀ name ∈ names.map plistText, SameText sys name := by
      intro name hname
      obtain ⟨name₀, -, rfl⟩ := List.mem_map.mp hname
      rw [SameText, plistText_plistText]
    rw [plistDict_lists hlists htext, plistDict_lists hlists₂ htext₂, List.map_map]
    simp only [Function.comp_def, plistText_plistText]
  | cons game games ih =>
    obtain ⟨hgame, hgames⟩ := List.forall_mem_cons.mp htidy
    rcases hrun : (updateGame sys s).run ⟨game, []⟩ with ⟨s₁, t⟩ | ⟨e, t⟩
    · obtain ⟨pl, name, rfl, hname, hturn⟩ := updateGame_again hsys hgame hrun
      obtain ⟨hkeeps, hmoves⟩ := hturn s₂
      rw [updateEach_ok games hrun, Prod.mk.injEq] at h
      obtain ⟨rfl, hs'⟩ := h
      rw [Resettles, hname] at hresettles
      simp only [Option.mem_some_iff, forall_eq'] at hresettles
      by_cases hentry : game.KeepsEntry sys name
      · obtain ⟨hsame, hrest⟩ := hresettles.1 hentry
        obtain ⟨t₂, pl₂, hrun₂, -⟩ := hkeeps hentry
        rw [updateEach_ok _ hrun₂] at hagain
        exact ih hgames (Prod.ext rfl hs') hrest (lists_next hlists pl name)
          (List.forall_mem_cons.mpr ⟨hsame, htext⟩) (lists_next hlists₂ pl₂ (plistText name)) rfl
          hagain
      · obtain ⟨e, hrun₂⟩ := (hmoves hentry).1 (hresettles.2 hentry)
        rw [updateEach_error _ hrun₂] at hagain
        cases hagain
    · rw [updateEach_error games hrun] at h
      cases h

/-! ## Two passes -/

/-- The bundles behind a pass stand where they stood, and have names that were there as they are
written. -/
theorem updateEach_names (hsys : sys.Apart) (h : updateEach sys s games = (after, .ok s')) :
    after.map Game.path = games.map Game.path ∧
      ∀ name' ∈ after.filterMap Game.ownName, ∃ name, name' = plistText name ∧
        (name ∈ games.filterMap Game.ownName ∨
          ∃ pl, s.pl = some pl ∧ pl.displayed = some name) := by
  induction games generalizing s after with
  | nil =>
    rw [updateEach, Prod.mk.injEq] at h
    obtain ⟨rfl, -⟩ := h
    exact ⟨rfl, by simp⟩
  | cons game games ih =>
    rcases hrun : (updateGame sys s).run ⟨game, []⟩ with ⟨s₁, t⟩ | ⟨e, t⟩
    · obtain ⟨pl, name, files, hfrom, hname, -, -, -, rfl, ht⟩ := updateGame_inv hsys hrun
      have hgame := wrote_game hsys game pl name files
      rw [← ht] at hgame
      rw [updateEach_ok games hrun, Prod.mk.injEq] at h
      obtain ⟨rfl, hs'⟩ := h
      obtain ⟨hpaths, hafter⟩ := ih (Prod.ext rfl hs')
      have hused : name ∈ (game :: games).filterMap Game.ownName ∨
          ∃ pl, s.pl = some pl ∧ pl.displayed = some name := by
        rcases hfrom with hpl | ⟨-, hpl⟩
        · refine .inl (List.mem_filterMap.mpr ⟨game, by simp, ?_⟩)
          exact ownName_eq_some_iff.mpr ⟨pl, hpl, hname⟩
        · exact .inr ⟨pl, hpl, hname⟩
      refine ⟨by rw [List.map_cons, List.map_cons, hpaths, hgame], fun name' hname' => ?_⟩
      obtain ⟨game', hgame', hown'⟩ := List.mem_filterMap.mp hname'
      rcases List.mem_cons.mp hgame' with rfl | hgame'
      · have hsame : some (plistText name) = some name' := by
          rw [← hown', Game.ownName, hgame]
          rfl
        exact ⟨name, (Option.some.inj hsame).symm, hused⟩
      · obtain ⟨name₀, hname₀, hgames | ⟨pl', hpl', hdisplayed⟩⟩ :=
          hafter name' (List.mem_filterMap.mpr ⟨game', hgame', hown'⟩)
        · obtain ⟨game'', hgame'', hown''⟩ := List.mem_filterMap.mp hgames
          exact ⟨name₀, hname₀,
            .inl (List.mem_filterMap.mpr ⟨game'', List.mem_cons_of_mem _ hgame'', hown''⟩)⟩
        · obtain rfl := Option.some.inj hpl'
          obtain rfl := Option.some.inj hdisplayed
          exact ⟨_, hname₀, hused⟩
    · rw [updateEach_error games hrun] at h
      cases h

/-- The loop ends without an exception, and so does the write of the launcher's file. -/
def Finishes (sys : System) (writes : Bool → Bool) (games : List Game) : Prop :=
  ∃ s, (updateGames sys {} [] games).2.2 = .ok s ∧
    (writes s.updateLauncherFile = true → sys.launcherWritable = true)

/-- A second pass leaves the bundles and the launcher's file as the first one left them. -/
def Repeats (pass : Option Dict → List Game → List Game × Option Dict) (games : List Game) : Prop :=
  ∀ launcher, pass (pass launcher games).2 (pass launcher games).1 = pass launcher games

/-- The loop of a contained pass that finishes, each bundle for itself. -/
theorem finishes_contained {writes : Bool → Bool} (hcontained : Contained sys games)
    (h : Finishes sys writes games) : ∃ after s, updateEach sys.apart {} games = (after, .ok s) ∧
      after.map Game.path = games.map Game.path ∧
        ∀ name' ∈ after.filterMap Game.ownName, ∃ name ∈ games.filterMap Game.ownName,
          name' = plistText name := by
  obtain ⟨s, hs, -⟩ := h
  obtain ⟨moved, hgames, -⟩ := updateGames_start hcontained
  rw [hgames] at hs
  have hloop : updateEach sys.apart {} games = ((updateEach sys.apart {} games).1, .ok s) :=
    Prod.ext rfl hs
  obtain ⟨hpaths, hnames⟩ := updateEach_names sys.apart_apart hloop
  refine ⟨_, s, hloop, hpaths, fun name' hname' => ?_⟩
  obtain ⟨name, hwritten, hname⟩ := hnames name' hname'
  exact ⟨name, hname.resolve_right (by simp), hwritten⟩

/-- Nor do the new names that come of the written names. -/
def ContainedAgain (sys : System) (games : List Game) : Prop :=
  ∀ name ∈ games.filterMap Game.ownName,
    sys.Harmless (games.map Game.path) (newName sys.lower (plistText name))

theorem resettles_apart (last : Option String) (games : List Game) :
    Resettles sys.apart last games ↔ Resettles sys last games := by
  induction games generalizing last with
  | nil => rfl
  | cons game games ih =>
    unfold Resettles
    simp only [ih]
    rfl

theorem runPass_repeats_iff (hcontained : Contained sys games) (hagain : ContainedAgain sys games)
    (htidy : ∀ game ∈ games, game.Tidy sys) {writes : Bool → Bool} (h : Finishes sys writes games) :
    Repeats (runPass sys writes) games ↔ Resettles sys none games := by
  obtain ⟨after, s, hfirst, hpaths, hown⟩ := finishes_contained hcontained h
  have hcontained' : Contained sys after := by
    intro name' hname'
    obtain ⟨name, hname, rfl⟩ := hown name' hname'
    rw [hpaths]
    exact hagain name hname
  have hloop : (updateEach sys.apart {} after).1 = after ↔ Resettles sys.apart none games :=
    updateEach_again_iff sys.apart_apart htidy hfirst {}
  rw [← resettles_apart, ← hloop]
  unfold Repeats
  simp only [runPass_contained hcontained, runEach, hfirst]
  simp only [runPass_contained hcontained', runEach]
  refine ⟨fun hrepeats => congrArg Prod.fst (hrepeats none), fun hafter launcher => ?_⟩
  apply Prod.ext hafter
  dsimp only
  rcases hsecond : (updateEach sys.apart {} after).2 with e | s₂
  · rfl
  · have hlists : Pass.Lists sys.apart [] {} := by simp [Pass.Lists]
    obtain ⟨hflag, hmap⟩ := updateEach_again_file sys.apart_apart htidy hfirst
      (hloop.mp hafter) hlists (by simp) hlists rfl hsecond
    have hfile : launcherFile sys.apart writes (.ok s₂) =
        launcherFile sys.apart writes (.ok s) := by
      simp only [launcherFile, hmap, hflag]
    rw [hfile]
    rcases launcherFile sys.apart writes (.ok s) with _ | map
    · rfl
    · rfl

/-! ## The law -/

/-- Where a pass of either script finishes, and no new name leads from one bundle into another, a
second pass changes nothing exactly where the written names come to what the names came to. -/
theorem a_second_pass_changes_nothing_iff (hcontained : Contained sys games)
    (hagain : ContainedAgain sys games) (htidy : ∀ game ∈ games, game.Tidy sys) :
    (Finishes sys (fun updateLauncherFile => updateLauncherFile) games →
        (Repeats (updatePass sys) games ↔ Resettles sys none games)) ∧
      (Finishes sys (fun _ => true) games →
        (Repeats (syncPass sys) games ↔ Resettles sys none games)) :=
  ⟨runPass_repeats_iff hcontained hagain htidy, runPass_repeats_iff hcontained hagain htidy⟩

/-- Names without a carriage return are written as they are. -/
theorem resettles_of_unixed (h : ∀ name ∈ games.filterMap Game.ownName, Unixed name)
    (hlast : ∀ name ∈ last, Unixed name) : Resettles sys last games := by
  induction games generalizing last with
  | nil => trivial
  | cons game games ih =>
    intro name hname
    have hunixed : Unixed name := by
      rcases hown : game.ownName with _ | own
      · rw [hown] at hname
        exact hlast name hname
      · rw [hown] at hname
        obtain rfl := Option.some.inj hname
        exact h own (List.mem_filterMap.mpr ⟨game, by simp, hown⟩)
    have hsame : plistText name = name := plistText_eq_self_iff.mpr hunixed
    have hkeeps : game.KeepsEntry sys name := by
      intro files hfiles hne entry hentry
      rw [hsame]
      exact hentry
    refine ⟨fun _ => ⟨by rw [SameText, hsame], ih (fun name' hname' => ?_) ?_⟩,
      fun hnot => absurd hkeeps hnot⟩
    · obtain ⟨game', hgame', hown'⟩ := List.mem_filterMap.mp hname'
      exact h name' (List.mem_filterMap.mpr ⟨game', List.mem_cons_of_mem _ hgame', hown'⟩)
    · intro name' hname'
      rwa [← Option.some.inj hname']

theorem a_second_pass_keeps_a_game :
    Repeats (updatePass plainSystem) [built "Alpha" [⟨"Alpha", []⟩]] ∧
      Repeats (syncPass plainSystem) [built "Alpha" [⟨"Alpha", []⟩]] := by
  have hresettles : Resettles plainSystem none [built "Alpha" [⟨"Alpha", []⟩]] :=
    resettles_of_unixed (by decide) (by simp)
  have hcontained : Contained plainSystem [built "Alpha" [⟨"Alpha", []⟩]] :=
    contained_of_inside (by decide)
  have hagain : ContainedAgain plainSystem [built "Alpha" [⟨"Alpha", []⟩]] :=
    fun name hname => harmless_of_inside (by revert name; decide)
  have htidy : ∀ game ∈ [built "Alpha" [⟨"Alpha", []⟩]], game.Tidy plainSystem := by
    simp [Game.Tidy, built]
  obtain ⟨hupdate, hsync⟩ := a_second_pass_changes_nothing_iff hcontained hagain htidy
  exact ⟨(hupdate ⟨_, rfl, fun _ => rfl⟩).mpr hresettles,
    (hsync ⟨_, rfl, fun _ => rfl⟩).mpr hresettles⟩

/-- The first pass names the file with the carriage return and writes a newline into the plist, and
the second renames the file. -/
theorem a_carriage_return_is_renamed :
    Finishes plainSystem (fun updateLauncherFile => updateLauncherFile)
        [built "Alpha\rTwo" [⟨"Alpha", []⟩]] ∧
      ¬ Repeats (updatePass plainSystem) [built "Alpha\rTwo" [⟨"Alpha", []⟩]] := by
  refine ⟨⟨_, rfl, fun _ => rfl⟩, fun hrepeats => ?_⟩
  have hbundles := congrArg (fun after => after.1.map Game.macOS) (hrepeats none)
  exact absurd hbundles (by decide)

end esc_platform.setup
