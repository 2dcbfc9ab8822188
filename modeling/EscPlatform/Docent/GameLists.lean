-- The list of games as the docent application reads it back. The prefix of
-- the message is removed wherever it stands, so a title or an id that contains
-- it is shortened; apart from that the list arrives as it was sent, unless a
-- text begins with a character that joins the separator in front of it.
import EscPlatform.Docent.EventTexts

namespace esc_platform.docent

open checked clustering

/-- The message with the titles and the ids of the games. -/
def gamesMessage (games : List (List Char × List Char)) : List Char :=
  "games:".toList ++ pairsText ',' '=' games

/-- A text without separators. -/
def NoSeparators (text : List Char) : Prop := ',' ∉ text ∧ '=' ∉ text

instance (text : List Char) : Decidable (NoSeparators text) :=
  inferInstanceAs (Decidable (_ ∧ _))

/-- Whatever the arrays hold, the message is handled and leaves these games in them. -/
def ListArrives (joins : List Char → Char → Bool) (games : List (List Char × List Char)) : Prop :=
  ∀ g date, ∃ g',
    (handleEvent (some (composed joins (gamesMessage games))) date).run g = .ok () g' ∧
      g'.gameTitle.map List.flatten = games.map Prod.fst ∧
      g'.gameList.map List.flatten = games.map Prod.snd

/-- No text joins the separator in front of it, and none contains the prefix. -/
structure ListReads (joins : List Char → Char → Bool) (games : List (List Char × List Char)) :
    Prop where
  first : ∀ game ∈ games.head?, alone joins ':' game.1 = true
  title : ∀ game ∈ games.tail, alone joins ',' game.1 = true
  id : ∀ game ∈ games, alone joins '=' game.2 = true
  unmarked : ∀ game ∈ games, ∀ text ∈ [game.1, game.2], ¬ kGameList <:+: composed joins text

variable {joins : List Char → Char → Bool}

/-! ## The message -/

theorem composed_gamesMessage (hstart : PrintableStarts joins)
    (games : List (List Char × List Char)) :
    composed joins (gamesMessage games) =
      literal "games" ++ clusterFrom joins [':'] (pairsText ',' '=' games) :=
  composed_prefix hstart (s := "games") (by decide) (by decide) _

/-- Only the branch of the game list can handle the message. -/
theorem handleEvent_games {m : NSString} (h : hasPrefix (literal "games") m = true)
    (date : NSString) (g : GameModel) :
    (handleEvent (some m) date).run g = (onGameList m date).run g := by
  have hother : ∀ a ∈ prefixes.tail, hasPrefix a m = false := by
    have happart : ∀ a ∈ prefixes.tail, hasPrefix a (literal "games") = false ∧
        hasPrefix (literal "games") a = false := by decide
    exact fun a ha => hasPrefix_of_ne h (happart a ha).2 (happart a ha).1
  rw [handleEvent_run]
  split
  · rfl
  · next hgames =>
    rw [hother kGameEnd (by decide), hother kGameLoaded (by decide),
      hother kGamePreviouslyLoadedKey (by decide), onAdvancedSettings,
      hother kGameAdvancedSettings (by decide), onGameList, if_neg hgames]
    rfl

theorem onGameList_run {m : NSString} (hpre : hasPrefix kGameList m = true)
    (hvalues : PairsHaveValues (removeOccurrences kGameList m)) (date : NSString) (g : GameModel) :
    (onGameList m date).run g = .ok ()
      (({ g with
          gameTitle := (pairsOf (removeOccurrences kGameList m)).map pairKey
          gameList := (pairsOf (removeOccurrences kGameList m)).map pairValue
          gameListDateLastUpdated := some date }.save).post .gameListChanged) := by
  have hturns := forM_run fun pair hp => addGame_run ((pairsHaveValues_iff _).mp hvalues pair hp)
  rw [onGameList, if_pos hpre, forPairs_eq]
  simp only [EStateM.run_bind, EStateM.run_modify, hturns, foldl_addGame, List.nil_append]

theorem onGameList_error {m : NSString} (hpre : hasPrefix kGameList m = true)
    (hvalues : ¬ PairsHaveValues (removeOccurrences kGameList m)) (date : NSString)
    (g : GameModel) : ∃ e g', (onGameList m date).run g = .error e g' := by
  obtain ⟨e, g', hrun⟩ := forPairs_error (fun _ h g => addGame_run h g)
    (fun _ h g => addGame_error h g) hvalues { g with gameTitle := [], gameList := [] }
  rw [onGameList, if_pos hpre]
  simp only [EStateM.run_bind, EStateM.run_modify, hrun]
  exact ⟨e, g', rfl⟩

/-- What the arrays are read from, where the prefix stands in front. -/
theorem listArrives_iff {games : List (List Char × List Char)} {m : NSString}
    (hm : composed joins (gamesMessage games) = m) (hpre : hasPrefix kGameList m = true) :
    ListArrives joins games ↔
      PairsHaveValues (removeOccurrences kGameList m) ∧
        ((pairsOf (removeOccurrences kGameList m)).map pairKey).map List.flatten =
          games.map Prod.fst ∧
        ((pairsOf (removeOccurrences kGameList m)).map pairValue).map List.flatten =
          games.map Prod.snd := by
  have hgames : hasPrefix (literal "games") m = true := by
    have hlit : literal "games" <+: kGameList := ⟨[[':']], rfl⟩
    exact List.isPrefixOf_iff_prefix.mpr (hlit.trans (List.isPrefixOf_iff_prefix.mp hpre))
  unfold ListArrives
  simp only [hm, handleEvent_games hgames]
  refine ⟨fun h => ?_, fun ⟨hvalues, htitle, hid⟩ g date => ?_⟩
  · obtain ⟨g', hrun, htitle, hid⟩ := h {} []
    have hvalues : PairsHaveValues (removeOccurrences kGameList m) := by
      by_contra hnot
      obtain ⟨e, g'', herror⟩ := onGameList_error hpre hnot [] {}
      rw [hrun] at herror
      exact absurd herror nofun
    rw [onGameList_run hpre hvalues] at hrun
    injection hrun with _ hg
    subst hg
    exact ⟨hvalues, htitle, hid⟩
  · exact ⟨_, onGameList_run hpre hvalues date g, htitle, hid⟩

/-! ## Where nothing joins a separator -/

theorem kGameList_marker : Marker kGameList := ⟨by decide, by decide, by decide⟩

/-- Nothing joins the ':' of the prefix, unless the first title does. -/
theorem alone_colon (hstart : PrintableStarts joins) (games : List (List Char × List Char)) :
    alone joins ':' (pairsText ',' '=' games) = true ↔
      ∀ game ∈ games.head?, alone joins ':' game.1 = true := by
  cases games with
  | nil => exact iff_of_true rfl (by simp)
  | cons game games =>
    rw [alone_pairsText (starts_equals hstart)]
    simp

/-- The message has its prefix, where nothing joins the ':' of it. -/
theorem composed_behind_games (hstart : PrintableStarts joins)
    {games : List (List Char × List Char)}
    (hfirst : ∀ game ∈ games.head?, alone joins ':' game.1 = true) :
    composed joins (gamesMessage games) =
      kGameList ++ composed joins (pairsText ',' '=' games) := by
  rw [composed_gamesMessage hstart, clusterFrom_alone ((alone_colon hstart games).mpr hfirst)]
  rfl

theorem listArrives_behind_games (hstart : PrintableStarts joins)
    {games : List (List Char × List Char)}
    (hfirst : ∀ game ∈ games.head?, alone joins ':' game.1 = true) :
    ListArrives joins games ↔ PairsHaveValues (received joins kGameList games) ∧
      ((pairsOf (received joins kGameList games)).map pairKey).map List.flatten =
        games.map Prod.fst ∧
      ((pairsOf (received joins kGameList games)).map pairValue).map List.flatten =
        games.map Prod.snd :=
  listArrives_iff (composed_behind_games hstart hfirst) (hasPrefix_append _ _)

theorem NoSeparators.unsplit {text : List Char} (h : NoSeparators text) : Unsplit joins text :=
  unsplit_of_not_mem h.1 h.2

/-- Then the arrays hold what removing the prefix leaves of each text. -/
theorem listArrives_apart (hstart : PrintableStarts joins) {games : List (List Char × List Char)}
    (hclean : ∀ game ∈ games, NoSeparators game.1 ∧ NoSeparators game.2)
    (hfirst : ∀ game ∈ games.head?, alone joins ':' game.1 = true)
    (htitle : ∀ game ∈ games.tail, alone joins ',' game.1 = true)
    (hid : ∀ game ∈ games, alone joins '=' game.2 = true) :
    ListArrives joins games ↔ ∀ game ∈ games, ∀ text ∈ [game.1, game.2],
      (kept joins kGameList text).flatten = text := by
  have hpairs := pairsOf_received kGameList_marker hstart htitle hid
    fun game hg => ⟨(hclean game hg).1.unsplit, (hclean game hg).2.unsplit⟩
  have hkept : ∀ game ∈ games, ['='] ∉ kept joins kGameList game.1 ∧
      ['='] ∉ kept joins kGameList game.2 := fun game hg =>
    ⟨(hclean game hg).1.unsplit.kept.2, (hclean game hg).2.unsplit.kept.2⟩
  have hvalues : PairsHaveValues (received joins kGameList games) := by
    rw [pairsHaveValues_iff, hpairs, List.forall_mem_map]
    simp
  have hkeys : (pairsOf (received joins kGameList games)).map pairKey =
      games.map fun game => kept joins kGameList game.1 := by
    rw [hpairs, List.map_map]
    exact List.map_congr_left fun game hg => pairKey_pair (hkept game hg).1 (hkept game hg).2
  have hids : (pairsOf (received joins kGameList games)).map pairValue =
      games.map fun game => kept joins kGameList game.2 := by
    rw [hpairs, List.map_map]
    exact List.map_congr_left fun game hg => pairValue_pair (hkept game hg).1 (hkept game hg).2
  rw [listArrives_behind_games hstart hfirst, hkeys, hids, List.map_map, List.map_map,
    List.map_inj_left, List.map_inj_left]
  refine ⟨fun ⟨_, htitles, hlist⟩ game hg text ht => ?_, fun h => ⟨hvalues, ?_, ?_⟩⟩
  · rcases List.mem_pair.mp ht with rfl | rfl
    · exact htitles game hg
    · exact hlist game hg
  · exact fun game hg => h game hg game.1 (by simp)
  · exact fun game hg => h game hg game.2 (by simp)

/-! ## What the list needs -/

/-- The first title does not join the prefix: else the message has none. -/
theorem ListArrives.first (hstart : PrintableStarts joins)
    {games : List (List Char × List Char)} (h : ListArrives joins games) :
    ∀ game ∈ games.head?, alone joins ':' game.1 = true := by
  by_contra hjoin
  rw [← alone_colon hstart, Bool.not_eq_true] at hjoin
  obtain ⟨c, more, rest, hhead⟩ := head_clusterFrom_of_not_alone hjoin
  have hm := composed_gamesMessage hstart games
  rw [hhead] at hm
  have hpre : hasPrefix kGameList (composed joins (gamesMessage games)) = false := by
    rw [hm]
    rfl
  have hgames : hasPrefix (literal "games") (composed joins (gamesMessage games)) = true := by
    rw [hm]
    exact hasPrefix_append _ _
  cases games with
  | nil => simp [pairsText, alone] at hjoin
  | cons game games =>
    obtain ⟨g', hrun, htitle, _⟩ := h {} []
    rw [handleEvent_games hgames, onGameList, hpre] at hrun
    injection hrun with _ hg
    subst hg
    simp at htitle

/-- The other texts do not join theirs: else there are too few pairs, or one without a value. -/
theorem ListArrives.later (hstart : PrintableStarts joins)
    {games : List (List Char × List Char)}
    (hclean : ∀ game ∈ games, NoSeparators game.1 ∧ NoSeparators game.2)
    (h : ListArrives joins games) :
    (∀ game ∈ games.tail, alone joins ',' game.1 = true) ∧
      ∀ game ∈ games, alone joins '=' game.2 = true := by
  obtain ⟨hvalues, htitles, _⟩ := (listArrives_behind_games hstart (h.first hstart)).mp h
  cases games with
  | nil => exact ⟨by simp, by simp⟩
  | cons game games =>
    have hlen : (pairsOf (received joins kGameList (game :: games))).length =
        games.length + 1 := by
      simpa using congrArg List.length htitles
    have hne : received joins kGameList (game :: games) ≠ [] := by
      intro hnil
      simp [hnil, pairsOf] at hlen
    have hcommas := received_length kGameList_marker hstart
      (loneInside_eq_zero fun g hg =>
        ⟨lone_eq_zero (hclean g hg).1.1, lone_eq_zero (hclean g hg).2.1⟩) hne
    have hequals := received_length_le kGameList_marker hstart
      (loneInside_eq_zero fun g hg =>
        ⟨lone_eq_zero (hclean g hg).1.2, lone_eq_zero (hclean g hg).2.2⟩) hvalues
    have hle : (game :: games).countP (fun pair => alone joins '=' pair.2) ≤ games.length + 1 :=
      List.countP_le_length
    have htail : games.countP (fun later => alone joins ',' later.1) = games.length := by omega
    have hall : (game :: games).countP (fun pair => alone joins '=' pair.2) =
        (game :: games).length := by
      rw [List.length_cons]
      omega
    exact ⟨List.countP_eq_length.mp htail, List.countP_eq_length.mp hall⟩

/-- The list arrives as it was sent exactly where no text joins the separator in front of it
and none contains the prefix of the message. -/
theorem game_list_arrives_iff (hstart : PrintableStarts joins)
    (games : List (List Char × List Char))
    (hclean : ∀ game ∈ games, NoSeparators game.1 ∧ NoSeparators game.2) :
    ListArrives joins games ↔ ListReads joins games := by
  refine ⟨fun h => ?_, fun h => ?_⟩
  · obtain ⟨htitle, hid⟩ := h.later hstart hclean
    refine ⟨h.first hstart, htitle, hid, fun game hg text ht => ?_⟩
    rw [← flatten_kept_iff kGameList_marker]
    exact (listArrives_apart hstart hclean (h.first hstart) htitle hid).mp h game hg text ht
  · rw [listArrives_apart hstart hclean h.first h.title h.id]
    intro game hg text ht
    rw [flatten_kept_iff kGameList_marker]
    exact h.unmarked game hg text ht

/-- A game without a title and an id, behind one with both. -/
theorem a_list_with_an_empty_pair_arrives :
    ListArrives combiningMarks [("Escape".toList, "escape".toList), ([], [])] :=
  (game_list_arrives_iff combiningMarks_printable _ (by decide)).mpr
    ⟨by decide, by decide, by decide, by decide⟩

/-- A title that contains the prefix loses it. -/
theorem a_title_with_the_prefix_is_shortened :
    ¬ ListArrives combiningMarks [("Mind games: 1".toList, "mind1".toList)] := by
  rw [listArrives_iff rfl (by decide)]
  rintro ⟨_, htitle, _⟩
  exact absurd htitle (by decide)

end esc_platform.docent
