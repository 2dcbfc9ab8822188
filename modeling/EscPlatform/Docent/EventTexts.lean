-- The texts of the event messages. A text is typed and sent character by
-- character, and the searches of the event loop see composed characters, so a
-- separator is found only where no character behind it joins it. Which
-- characters join is the table of the string library.
import EscPlatform.Docent.GameModelLaws
import EscPlatform.Lib.Clusters

namespace esc_platform.docent

open checked clustering

/-! ## Composed characters -/

/-- The string of a text. -/
abbrev composed (joins : List Char → Char → Bool) (text : List Char) : NSString :=
  clusters joins text

/-- A printable character of ASCII. -/
def printable (c : Char) : Bool := decide (32 ≤ c.toNat) && decide (c.toNat < 127)

/-- No printable character of ASCII joins the character in front of it. -/
def PrintableStarts (joins : List Char → Char → Bool) : Prop :=
  ∀ c, printable c = true → Starts joins c

/-- The combining diacritical marks join any character. -/
def combiningMarks (_ : List Char) (c : Char) : Bool :=
  decide (0x300 ≤ c.toNat) && decide (c.toNat ≤ 0x36F)

theorem combiningMarks_printable : PrintableStarts combiningMarks := by
  intro c hc cur
  simp only [printable, Bool.and_eq_true, decide_eq_true_eq] at hc
  simp only [combiningMarks, Bool.and_eq_false_iff, decide_eq_false_iff_not]
  omega

section Composed

variable {joins : List Char → Char → Bool}

theorem composed_literal (hstart : PrintableStarts joins) {s : String}
    (hs : s.toList.all printable = true) : composed joins s.toList = literal s :=
  clusters_of_starts fun c hc => hstart c (List.all_eq_true.mp hs c hc)

/-- Nothing joins a character in front of a printable text. -/
theorem alone_of_printable (hstart : PrintableStarts joins) {text : List Char}
    (h : text.all printable = true) (x : Char) : alone joins x text = true := by
  cases text with
  | nil => rfl
  | cons c text =>
    have hc : printable c = true := List.all_eq_true.mp h c (by simp)
    simp [alone, hstart c hc [x]]

/-- A message behind its prefix. The last character of the prefix may be joined. -/
theorem composed_prefix (hstart : PrintableStarts joins) {s : String}
    (hs : s.toList.all printable = true) {c : Char} (hc : printable c = true) (text : List Char) :
    composed joins (s.toList ++ c :: text) = literal s ++ clusterFrom joins [c] text := by
  rw [composed, clusters_append (hstart c hc)]
  exact congrArg (· ++ _) (composed_literal hstart hs)

theorem starts_comma (hstart : PrintableStarts joins) : Starts joins ',' := hstart ',' (by decide)

theorem starts_equals (hstart : PrintableStarts joins) : Starts joins '=' := hstart '=' (by decide)

end Composed

/-! ## Prefixes -/

/-- A message has one kind: two of the prefixes, neither of them a prefix of the other, do not
both stand in front of it. -/
theorem hasPrefix_of_ne {a b m : NSString} (h : hasPrefix a m = true)
    (hab : hasPrefix a b = false) (hba : hasPrefix b a = false) : hasPrefix b m = false := by
  by_contra hb
  have hpa := List.isPrefixOf_iff_prefix.mp h
  have hpb : b <+: m := by simpa [hasPrefix] using hb
  rcases List.prefix_or_prefix_of_prefix hpa hpb with hle | hle
  · exact Bool.eq_false_iff.mp hab (List.isPrefixOf_iff_prefix.mpr hle)
  · exact Bool.eq_false_iff.mp hba (List.isPrefixOf_iff_prefix.mpr hle)

/-- The prefixes that the event loop tests. -/
def prefixes : List NSString :=
  [kGameList, kGameEnd, kGameLoaded, kGamePreviouslyLoadedKey, kGameAdvancedSettings]

theorem hasPrefix_other {a m : NSString} (ha : a ∈ prefixes) (h : hasPrefix a m = true) :
    ∀ b ∈ prefixes.erase a, hasPrefix b m = false := by
  intro b hb
  have hnodup : prefixes.Nodup := by decide
  have happart : ∀ a ∈ prefixes, ∀ b ∈ prefixes, a ≠ b → hasPrefix a b = false := by decide
  obtain ⟨hne, hb⟩ := hnodup.mem_erase_iff.mp hb
  exact hasPrefix_of_ne h (happart a ha b hb hne.symm) (happart b hb a ha hne)

/-- So a message is handled by one branch at most. -/
theorem handleEvent_run (m date : NSString) (g : GameModel) :
    (handleEvent (some m) date).run g =
      if hasPrefix kGameList m then (onGameList m date).run g
      else if hasPrefix kGameEnd m then (onGameEnd m).run g
      else if hasPrefix kGameLoaded m then (onGameLoaded m).run g
      else if hasPrefix kGamePreviouslyLoadedKey m then (onGamePreviouslyLoaded m).run g
      else (onAdvancedSettings m).run g := by
  unfold handleEvent onGameEnd onGameLoaded onGamePreviouslyLoaded onAdvancedSettings
  by_cases hgames : hasPrefix kGameList m = true
  · have hrest := hasPrefix_other (by decide) hgames
    simp [hgames, hrest kGameEnd (by decide), hrest kGameLoaded (by decide),
      hrest kGamePreviouslyLoadedKey (by decide), hrest kGameAdvancedSettings (by decide)]
  · by_cases hend : hasPrefix kGameEnd m = true
    · have hrest := hasPrefix_other (by decide) hend
      simp [onGameList, hgames, hend, hrest kGameLoaded (by decide),
        hrest kGamePreviouslyLoadedKey (by decide), hrest kGameAdvancedSettings (by decide)]
    · by_cases hloaded : hasPrefix kGameLoaded m = true
      · have hrest := hasPrefix_other (by decide) hloaded
        simp [onGameList, hgames, hend, hloaded,
          hrest kGamePreviouslyLoadedKey (by decide), hrest kGameAdvancedSettings (by decide)]
      · by_cases hprev : hasPrefix kGamePreviouslyLoadedKey m = true
        · have hrest := hasPrefix_other (by decide) hprev
          simp [onGameList, hgames, hend, hloaded, hprev,
            hrest kGameAdvancedSettings (by decide)]
        · simp [onGameList, hgames, hend, hloaded, hprev]

theorem hasPrefix_append (a s : NSString) : hasPrefix a (a ++ s) = true :=
  List.isPrefixOf_iff_prefix.mpr (List.prefix_append a s)

/-! ## Removing a target -/

theorem removeFrom_sublist (target : NSString) (skip : Nat) (s : NSString) :
    (removeFrom target skip s).Sublist s := by
  induction s generalizing skip with
  | nil => cases skip <;> exact List.Sublist.refl []
  | cons c s ih =>
    cases skip with
    | succ skip => exact (ih skip).cons c
    | zero =>
      unfold removeFrom
      split
      · exact (ih _).cons c
      · exact (ih 0).cons_cons c

/-- A string is left as it is exactly where the target does not stand in it. -/
theorem removeOccurrences_eq_self_iff {target : NSString} (htarget : target ≠ []) (s : NSString) :
    removeOccurrences target s = s ↔ ¬ target <:+: s := by
  unfold removeOccurrences
  induction s with
  | nil =>
    simpa [removeFrom] using htarget
  | cons c s ih =>
    unfold removeFrom
    split
    · next hpre =>
      have hinfix := (List.isPrefixOf_iff_prefix.mp hpre).isInfix
      have hlen := (removeFrom_sublist target (target.length - 1) s).length_le
      refine iff_of_false (fun heq => ?_) (fun hnot => hnot hinfix)
      rw [heq, List.length_cons] at hlen
      omega
    · next hpre =>
      have hpre' : ¬ target <+: c :: s := fun h => hpre (List.isPrefixOf_iff_prefix.mpr h)
      rw [List.infix_cons_iff, not_or, List.cons.injEq, ih]
      simp [hpre']

theorem removeFrom_count {target : NSString} (htarget : target ≠ []) {x : List Char}
    (hx : x ∉ target) (s : NSString) :
    ∀ skip, x ∉ s.take skip → (removeFrom target skip s).count x = s.count x := by
  induction s with
  | nil =>
    intro skip _
    cases skip <;> rfl
  | cons c s ih =>
    intro skip hskip
    cases skip with
    | succ skip =>
      simp only [List.take_succ_cons, List.mem_cons, not_or] at hskip
      rw [removeFrom, ih skip hskip.2, List.count_cons]
      simp [Ne.symm hskip.1]
    | zero =>
      unfold removeFrom
      split
      · next hpre =>
        obtain ⟨rest, hrest⟩ := List.isPrefixOf_iff_prefix.mp hpre
        cases target with
        | nil => exact absurd rfl htarget
        | cons t target =>
          simp only [List.cons_append, List.cons.injEq] at hrest
          simp only [List.mem_cons, not_or] at hx
          obtain ⟨rfl, rfl⟩ := hrest
          rw [ih _ (by simpa using hx.2), List.count_cons]
          simp [Ne.symm hx.1]
      · rw [List.count_cons, List.count_cons, ih 0 (by simp)]

/-- Removing a target leaves every character that is not in it. -/
theorem removeOccurrences_count {target : NSString} (htarget : target ≠ []) {x : List Char}
    (hx : x ∉ target) (s : NSString) : (removeOccurrences target s).count x = s.count x :=
  removeFrom_count htarget hx s 0 (by simp)

theorem isPrefixOf_append_sep {target : NSString} {sep : List Char} (hsep : sep ∉ target)
    (s t : NSString) : target.isPrefixOf (s ++ sep :: t) = target.isPrefixOf s := by
  induction target generalizing s with
  | nil => simp
  | cons c target ih =>
    simp only [List.mem_cons, not_or] at hsep
    cases s with
    | nil => simp [List.isPrefixOf, Ne.symm hsep.1]
    | cons d s => simp only [List.cons_append, List.isPrefixOf, ih hsep.2]

theorem removeFrom_append {target : NSString} (htarget : target ≠ []) {sep : List Char}
    (hsep : sep ∉ target) (s t : NSString) : ∀ skip ≤ s.length,
    removeFrom target skip (s ++ sep :: t) =
      removeFrom target skip s ++ sep :: removeOccurrences target t := by
  induction s with
  | nil =>
    intro skip hskip
    have hzero : skip = 0 := by simpa using hskip
    have hpre := isPrefixOf_append_sep hsep [] t
    subst hzero
    cases target with
    | nil => exact absurd rfl htarget
    | cons c target =>
      rw [List.nil_append] at hpre
      have hnot : ¬ (c :: target).isPrefixOf (sep :: t) = true := by simp [hpre]
      rw [List.nil_append, removeFrom, removeFrom, if_neg hnot]
      rfl
  | cons c s ih =>
    intro skip hskip
    cases skip with
    | succ skip => exact ih skip (by simpa using hskip)
    | zero =>
      have hpre := isPrefixOf_append_sep hsep (c :: s) t
      rw [List.cons_append] at hpre
      rw [List.cons_append, removeFrom, removeFrom, hpre]
      split
      · next h =>
        have hlen := (List.isPrefixOf_iff_prefix.mp h).length_le
        rw [List.length_cons] at hlen
        exact ih _ (by omega)
      · rw [ih 0 (by omega), List.cons_append]

/-- A target without the separator is removed on each side of it. -/
theorem removeOccurrences_append {target : NSString} (htarget : target ≠ []) {sep : List Char}
    (hsep : sep ∉ target) (s t : NSString) :
    removeOccurrences target (s ++ sep :: t) =
      removeOccurrences target s ++ sep :: removeOccurrences target t :=
  removeFrom_append htarget hsep s t 0 (Nat.zero_le _)

/-- A target in front of a string is removed first. -/
theorem removeOccurrences_prefix {target : NSString} (htarget : target ≠ []) (s : NSString) :
    removeOccurrences target (target ++ s) = removeOccurrences target s := by
  have hskip : ∀ rest : NSString, removeFrom target rest.length (rest ++ s) =
      removeFrom target 0 s := by
    intro rest
    induction rest with
    | nil => rfl
    | cons c rest ih => exact ih
  cases target with
  | nil => exact absurd rfl htarget
  | cons c target =>
    have hpre : (c :: target).isPrefixOf (c :: (target ++ s)) = true :=
      List.isPrefixOf_iff_prefix.mpr (List.prefix_append (c :: target) s)
    rw [removeOccurrences, List.cons_append, removeFrom, if_pos hpre]
    exact hskip target

/-- Over pairs, a target without the separators is removed in the keys and in the values. -/
theorem removeOccurrences_pairsText {target : NSString} (htarget : target ≠ [])
    {sep eq : List Char} (hsep : sep ∉ target) (heq : eq ∉ target)
    (items : List (NSString × NSString)) :
    removeOccurrences target (pairsText sep eq items) =
      pairsText sep eq (items.map fun item =>
        (removeOccurrences target item.1, removeOccurrences target item.2)) := by
  induction items with
  | nil => rfl
  | cons item items ih =>
    cases items with
    | nil =>
      rw [List.map_singleton, pairsText_singleton, pairsText_singleton,
        removeOccurrences_append htarget heq]
    | cons next items =>
      rw [pairsText_cons_cons, removeOccurrences_append htarget heq,
        removeOccurrences_append htarget hsep, ih]
      simp only [List.map_cons]
      rw [pairsText_cons_cons]

/-! ## A loop over pairs -/

theorem mem_splitOn {α : Type} [BEq α] [LawfulBEq α] {x : α} {s : List α} :
    ∀ l ∈ s.splitOn x, x ∉ l ∧ l ⊆ s := by
  induction s with
  | nil => simp
  | cons y s ih =>
    intro l hl
    rw [List.splitOn_cons_eq_if_modifyHead] at hl
    split at hl
    · rcases List.mem_cons.mp hl with rfl | hrest
      · simp
      · exact ⟨(ih l hrest).1, List.subset_cons_of_subset y (ih l hrest).2⟩
    · next hne =>
      obtain ⟨component, rest, hcomp⟩ := List.exists_cons_of_ne_nil (List.splitOn_ne_nil x s)
      rw [hcomp] at ih hl
      rcases List.mem_cons.mp hl with rfl | hrest
      · obtain ⟨hx, hsub⟩ := ih component (by simp)
        have hxy : x ≠ y := fun h => hne (by simp [h])
        exact ⟨by simp [hxy, hx], List.cons_subset_cons y hsub⟩
      · obtain ⟨hx, hsub⟩ := ih l (by simp [hrest])
        exact ⟨hx, List.subset_cons_of_subset y hsub⟩

theorem sum_count_splitOn {α : Type} [BEq α] [LawfulBEq α] {x sep : α} (hne : x ≠ sep)
    (l : List α) :
    ((l.splitOn sep).map (List.count x)).sum = l.count x := by
  induction l with
  | nil => simp
  | cons y l ih =>
    rw [List.splitOn_cons_eq_if_modifyHead]
    split
    · next heq =>
      have hy : y = sep := by simpa using heq
      simp [ih, hy, Ne.symm hne]
    · obtain ⟨component, rest, hcomp⟩ := List.exists_cons_of_ne_nil (List.splitOn_ne_nil sep l)
      rw [hcomp] at ih ⊢
      simp only [List.map_cons, List.sum_cons] at ih
      simp only [List.modifyHead_cons, List.map_cons, List.sum_cons, List.count_cons, ← ih]
      omega

/-- The key and the value of a pair, where it has a value. -/
def pairKey (keyValuePair : NSString) : NSString :=
  (componentsSeparatedBy '=' keyValuePair).getD 0 []

def pairValue (keyValuePair : NSString) : NSString :=
  (componentsSeparatedBy '=' keyValuePair).getD 1 []

theorem componentsSeparatedBy_pair {key value : NSString} (hkey : ['='] ∉ key)
    (hvalue : ['='] ∉ value) :
    componentsSeparatedBy '=' (key ++ ['='] :: value) = [key, value] := by
  rw [componentsSeparatedBy, List.splitOn_append_cons_self_of_not_mem hkey,
    List.splitOn_eq_singleton hvalue]

theorem pairKey_pair {key value : NSString} (hkey : ['='] ∉ key) (hvalue : ['='] ∉ value) :
    pairKey (key ++ ['='] :: value) = key := by
  rw [pairKey, componentsSeparatedBy_pair hkey hvalue]
  rfl

theorem pairValue_pair {key value : NSString} (hkey : ['='] ∉ key) (hvalue : ['='] ∉ value) :
    pairValue (key ++ ['='] :: value) = value := by
  rw [pairValue, componentsSeparatedBy_pair hkey hvalue]
  rfl

/-- The pairs of a message, none if nothing is left of it. -/
def pairsOf (newMessage : NSString) : List NSString :=
  if newMessage ≠ [] then componentsSeparatedBy ',' newMessage else []

theorem forPairs_eq (turn : NSString → GameM Unit) (newMessage : NSString) :
    forPairs turn newMessage = (pairsOf newMessage).forM turn := by
  unfold forPairs pairsOf
  split
  · rfl
  · rfl

theorem pairsHaveValues_iff (newMessage : NSString) :
    PairsHaveValues newMessage ↔ ∀ pair ∈ pairsOf newMessage, ['='] ∈ pair := by
  unfold PairsHaveValues pairsOf
  split
  · next h => exact forall_prop_of_true h
  · next h => simp [h]

theorem pairsOf_length {newMessage : NSString} (h : newMessage ≠ []) :
    (pairsOf newMessage).length = newMessage.count [','] + 1 := by
  rw [pairsOf, if_pos h, componentsSeparatedBy_length]

/-- The value of a pair has no separator, and comes from the message. -/
theorem pairValue_subset {newMessage pair : NSString} (hpair : pair ∈ pairsOf newMessage) :
    [','] ∉ pairValue pair ∧ ['='] ∉ pairValue pair ∧ pairValue pair ⊆ newMessage := by
  have hcut : [','] ∉ pair ∧ pair ⊆ newMessage := by
    unfold pairsOf at hpair
    split at hpair
    · exact mem_splitOn pair hpair
    · simp at hpair
  unfold pairValue
  rcases Nat.lt_or_ge 1 (componentsSeparatedBy '=' pair).length with hlt | hge
  · have hmem : (componentsSeparatedBy '=' pair).getD 1 [] ∈ componentsSeparatedBy '=' pair := by
      rw [List.getD, List.getElem?_eq_getElem hlt]
      exact List.getElem_mem hlt
    obtain ⟨hequals, hsub⟩ := mem_splitOn _ hmem
    exact ⟨fun h => hcut.1 (hsub h), hequals, fun _ h => hcut.2 (hsub h)⟩
  · rw [List.getD, List.getElem?_eq_none hge]
    simp

theorem pairsOf_pairsText {items : List (NSString × NSString)}
    (h : ∀ item ∈ items, [','] ∉ item.1 ∧ [','] ∉ item.2) :
    pairsOf (pairsText [','] ['='] items) = items.map fun item => item.1 ++ ['='] :: item.2 := by
  cases items with
  | nil => rfl
  | cons item items =>
    have hne : pairsText [','] ['='] (item :: items) ≠ [] := by
      cases items with
      | nil => simp [pairsText_singleton]
      | cons next items => simp [pairsText_cons_cons]
    rw [pairsOf, if_pos hne]
    exact splitOn_pairsText (show [','] ≠ ['='] by decide) (by simp) h

/-- Each pair of a message with values takes an '=' of it. -/
theorem pairsOf_length_le {newMessage : NSString} (h : PairsHaveValues newMessage) :
    (pairsOf newMessage).length ≤ newMessage.count ['='] := by
  have hsum : ∀ pairs : List NSString, (∀ pair ∈ pairs, ['='] ∈ pair) →
      pairs.length ≤ (pairs.map (List.count ['='])).sum := by
    intro pairs
    induction pairs with
    | nil => simp
    | cons pair pairs ih =>
      intro hall
      have hpos := List.count_pos_iff.mpr (hall pair (by simp))
      have hrest := ih fun p hp => hall p (List.mem_cons_of_mem _ hp)
      simp only [List.length_cons, List.map_cons, List.sum_cons]
      omega
  have hle := hsum _ ((pairsHaveValues_iff _).mp h)
  unfold pairsOf at hle ⊢
  split
  · next hne =>
    rw [if_pos hne, componentsSeparatedBy, sum_count_splitOn (show ['='] ≠ [','] by decide)] at hle
    exact hle
  · simp

theorem objectAtIndex_run {array : List NSString} {index : Nat} (h : index < array.length)
    (g : GameModel) : (objectAtIndex array index).run g = .ok (array.getD index []) g := by
  simp only [objectAtIndex, List.getD, List.getElem?_eq_getElem h]
  rfl

theorem components_length {keyValuePair : NSString} (h : ['='] ∈ keyValuePair) :
    1 < (componentsSeparatedBy '=' keyValuePair).length := by
  have hpos := List.count_pos_iff.mpr h
  rw [componentsSeparatedBy_length]
  omega

theorem addGame_run {keyValuePair : NSString} (h : ['='] ∈ keyValuePair) (g : GameModel) :
    (addGame keyValuePair).run g = .ok ()
      { g with gameTitle := g.gameTitle ++ [pairKey keyValuePair]
               gameList := g.gameList ++ [pairValue keyValuePair] } := by
  have hlen := components_length h
  simp only [addGame, EStateM.run_bind, EStateM.run_modify,
    objectAtIndex_run (Nat.zero_lt_of_lt hlen), objectAtIndex_run hlen]
  rfl

theorem setPair_run {set : GameModel → NSString → NSString → GameModel}
    {keyValuePair : NSString} (h : ['='] ∈ keyValuePair) (g : GameModel) :
    (setPair set keyValuePair).run g = .ok ()
      (set g (pairKey keyValuePair) (pairValue keyValuePair)) := by
  have hlen := components_length h
  simp only [setPair, EStateM.run_bind, EStateM.run_modify,
    objectAtIndex_run (Nat.zero_lt_of_lt hlen), objectAtIndex_run hlen]
  rfl

theorem addGame_error {keyValuePair : NSString} (h : ['='] ∉ keyValuePair) (g : GameModel) :
    ∃ e g', (addGame keyValuePair).run g = .error e g' := by
  obtain ⟨key, hkey⟩ := objectAtIndex_zero '=' keyValuePair
  have hvalue := (objectAtIndex_one '=' keyValuePair).2 h
  simp only [addGame, EStateM.run_bind, EStateM.run_modify, hkey, hvalue]
  exact ⟨_, _, rfl⟩

theorem setPair_error {set : GameModel → NSString → NSString → GameModel}
    {keyValuePair : NSString} (h : ['='] ∉ keyValuePair) (g : GameModel) :
    ∃ e g', (setPair set keyValuePair).run g = .error e g' := by
  obtain ⟨key, hkey⟩ := objectAtIndex_zero '=' keyValuePair
  have hvalue := (objectAtIndex_one '=' keyValuePair).2 h
  simp only [setPair, EStateM.run_bind, hkey, hvalue]
  exact ⟨_, _, rfl⟩

/-- A loop with a pair without a value throws. -/
theorem forPairs_error {turn : NSString → GameM Unit} {f : GameModel → NSString → GameModel}
    (hok : ∀ pair, ['='] ∈ pair → ∀ g, (turn pair).run g = .ok () (f g pair))
    (herror : ∀ pair, ['='] ∉ pair → ∀ g, ∃ e g', (turn pair).run g = .error e g')
    {newMessage : NSString} (h : ¬ PairsHaveValues newMessage) (g : GameModel) :
    ∃ e g', (forPairs turn newMessage).run g = .error e g' := by
  have hturn : ∀ pair, Ends (fun _ => True) (fun _ => True) (turn pair) (['='] ∈ pair) := by
    refine fun pair g _ => ⟨fun hp => ⟨_, hok pair hp g, trivial⟩, fun hp => ?_⟩
    obtain ⟨e, g', hrun⟩ := herror pair hp g
    exact ⟨e, g', hrun, trivial⟩
  rw [pairsHaveValues_iff] at h
  obtain ⟨e, g', hrun, _⟩ := (Ends.forM (pairsOf newMessage) hturn g trivial).2 h
  exact ⟨e, g', by rw [forPairs_eq, hrun]⟩

/-- A loop all of whose turns succeed. -/
theorem forM_run {turn : NSString → GameM Unit} {f : GameModel → NSString → GameModel}
    {pairs : List NSString} (h : ∀ pair ∈ pairs, ∀ g, (turn pair).run g = .ok () (f g pair))
    (g : GameModel) : (pairs.forM turn).run g = .ok () (pairs.foldl f g) := by
  induction pairs generalizing g with
  | nil => rfl
  | cons pair pairs ih =>
    have hrest := ih fun p hp => h p (List.mem_cons_of_mem _ hp)
    rw [List.forM_eq_forM, List.forM_cons, EStateM.run_bind, h pair (by simp) g]
    exact hrest _

theorem foldl_addGame (pairs : List NSString) (g : GameModel) :
    pairs.foldl (fun g pair =>
      { g with gameTitle := g.gameTitle ++ [pairKey pair]
               gameList := g.gameList ++ [pairValue pair] }) g =
      { g with gameTitle := g.gameTitle ++ pairs.map pairKey
               gameList := g.gameList ++ pairs.map pairValue } := by
  induction pairs generalizing g with
  | nil => simp
  | cons pair pairs ih => simp [ih]

/-! ## The pairs of a message -/

/-- A prefix without separators. -/
structure Marker (target : NSString) : Prop where
  ne_nil : target ≠ []
  comma : [','] ∉ target
  equals : ['='] ∉ target

section Pairs

variable {joins : List Char → Char → Bool} {target : NSString}

/-- What removing a target leaves of a text. -/
def kept (joins : List Char → Char → Bool) (target : NSString) (text : List Char) : NSString :=
  removeOccurrences target (composed joins text)

/-- A text is left as it is exactly where it does not contain the target. -/
theorem flatten_kept_iff (htarget : Marker target) (text : List Char) :
    (kept joins target text).flatten = text ↔ ¬ target <:+: composed joins text := by
  rw [← removeOccurrences_eq_self_iff htarget.ne_nil]
  refine ⟨fun h => ?_, fun h => ?_⟩
  · apply eq_of_flatten_eq (removeFrom_sublist target 0 _) (ne_nil_of_mem_clusters text)
    rw [flatten_clusters]
    exact h
  · rw [kept, h, flatten_clusters]

/-- A text in which no search finds a separator. -/
def Unsplit (joins : List Char → Char → Bool) (text : List Char) : Prop :=
  [','] ∉ composed joins text ∧ ['='] ∉ composed joins text

theorem unsplit_of_not_mem {text : List Char} (hcomma : ',' ∉ text) (hequals : '=' ∉ text) :
    Unsplit joins text := ⟨not_mem_clusters hcomma, not_mem_clusters hequals⟩

theorem unsplit_iff_lone (hstart : PrintableStarts joins) (text : List Char) :
    Unsplit joins text ↔ lone joins ',' text = 0 ∧ lone joins '=' text = 0 := by
  rw [Unsplit, ← count_clusters (starts_comma hstart), ← count_clusters (starts_equals hstart),
    List.count_eq_zero, List.count_eq_zero]

theorem Unsplit.kept {text : List Char} (h : Unsplit joins text) :
    [','] ∉ kept joins target text ∧ ['='] ∉ kept joins target text :=
  ⟨fun hmem => h.1 ((removeFrom_sublist target 0 _).subset hmem),
    fun hmem => h.2 ((removeFrom_sublist target 0 _).subset hmem)⟩

/-- What is left of a message with these pairs behind a prefix. -/
def received (joins : List Char → Char → Bool) (target : NSString)
    (items : List (List Char × List Char)) : NSString :=
  removeOccurrences target (target ++ composed joins (pairsText ',' '=' items))

/-- Where nothing joins a separator, the pairs are those of the message. -/
theorem pairsOf_received (htarget : Marker target) (hstart : PrintableStarts joins)
    {items : List (List Char × List Char)}
    (hkey : ∀ item ∈ items.tail, alone joins ',' item.1 = true)
    (hvalue : ∀ item ∈ items, alone joins '=' item.2 = true)
    (hunsplit : ∀ item ∈ items, Unsplit joins item.1 ∧ Unsplit joins item.2) :
    pairsOf (received joins target items) =
      items.map fun item => kept joins target item.1 ++ ['='] :: kept joins target item.2 := by
  rw [received, removeOccurrences_prefix htarget.ne_nil, composed,
    clusters_pairsText (starts_comma hstart) (starts_equals hstart) items hkey hvalue,
    removeOccurrences_pairsText htarget.ne_nil htarget.comma htarget.equals, List.map_map,
    pairsOf_pairsText, List.map_map]
  · rfl
  · simp only [List.forall_mem_map]
    exact fun item hi => ⟨(hunsplit item hi).1.kept.1, (hunsplit item hi).2.kept.1⟩

theorem received_count (htarget : target ≠ []) {x : Char} (hx : Starts joins x)
    (hmem : [x] ∉ target) (items : List (List Char × List Char)) :
    (received joins target items).count [x] = lone joins x (pairsText ',' '=' items) := by
  rw [received, removeOccurrences_count htarget hmem, List.count_append,
    List.count_eq_zero.mpr hmem, Nat.zero_add, count_clusters hx]

/-- A value that is received has no separator that stands alone, however it was put together. -/
theorem pairValue_unsplit (hstart : PrintableStarts joins) {s : String}
    {items : List (List Char × List Char)} {pair : NSString}
    (hpair : pair ∈ pairsOf (received joins (literal s) items)) :
    Unsplit joins (pairValue pair).flatten := by
  obtain ⟨hcomma, hequals, hsub⟩ := pairValue_subset hpair
  have hclosed : ∀ x, Starts joins x → ∀ cluster ∈ pairValue pair, Closed joins x cluster := by
    intro x hx cluster hc
    have hmem := (removeFrom_sublist (literal s) 0 _).subset (hsub hc)
    rcases List.mem_append.mp hmem with htarget | htext
    · obtain ⟨y, _, rfl⟩ := List.mem_map.mp htarget
      exact ⟨by simp, fun _ => Or.inl rfl⟩
    · exact closed_clusters hx _ cluster htext
  rw [unsplit_iff_lone hstart]
  exact ⟨lone_flatten (hclosed ',' (starts_comma hstart)) hcomma,
    lone_flatten (hclosed '=' (starts_equals hstart)) hequals⟩

/-- A key behind a lone separator starts a pair. -/
theorem received_length (htarget : Marker target) (hstart : PrintableStarts joins)
    {item : List Char × List Char} {items : List (List Char × List Char)}
    (hinside : loneInside joins ',' (item :: items) = 0)
    (hne : received joins target (item :: items) ≠ []) :
    (pairsOf (received joins target (item :: items))).length =
      items.countP (fun later => alone joins ',' later.1) + 1 := by
  rw [pairsOf_length hne, received_count htarget.ne_nil (starts_comma hstart) htarget.comma,
    lone_sep_pairsText (starts_comma hstart) (starts_equals hstart) (by decide), hinside,
    Nat.zero_add]

/-- A value behind a joined separator leaves a pair without a value. -/
theorem received_length_le (htarget : Marker target) (hstart : PrintableStarts joins)
    {item : List Char × List Char} {items : List (List Char × List Char)}
    (hinside : loneInside joins '=' (item :: items) = 0)
    (hvalues : PairsHaveValues (received joins target (item :: items))) :
    (pairsOf (received joins target (item :: items))).length ≤
      (item :: items).countP fun pair => alone joins '=' pair.2 := by
  have hle := pairsOf_length_le hvalues
  rwa [received_count htarget.ne_nil (starts_equals hstart) htarget.equals,
    lone_eq_pairsText (starts_comma hstart) (starts_equals hstart) (by decide), hinside,
    Nat.zero_add] at hle

end Pairs

end esc_platform.docent
