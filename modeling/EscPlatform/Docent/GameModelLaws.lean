-- Which event messages the docent application survives. The three loops over
-- pairs look for a value behind the '=' of each pair, and do not check that
-- there is one.
import EscPlatform.Docent.GameModel
import EscPlatform.Lib.Checked
import EscPlatform.Lib.Runs

namespace esc_platform.docent

open checked runs

/-! ## Components -/

theorem length_splitOn {α : Type} [BEq α] [LawfulBEq α] (a : α) (l : List α) :
    (l.splitOn a).length = l.count a + 1 := by
  induction l with
  | nil => simp
  | cons x l ih =>
    have hlen : (l.splitOnP (· == a)).length = l.count a + 1 := ih
    simp only [List.splitOn, List.splitOnP_cons_eq_if_modifyHead, List.count_cons]
    by_cases h : x = a
    · simp [h, hlen]
    · simp [h, hlen]

theorem componentsSeparatedBy_length (c : Char) (s : NSString) :
    (componentsSeparatedBy c s).length = s.count [c] + 1 := length_splitOn [c] s

/-- There is always a first component, and a second one behind a separator only. -/
theorem objectAtIndex_zero (c : Char) (s : NSString) : ∃ key, ∀ g,
    (objectAtIndex (componentsSeparatedBy c s) 0).run g = .ok key g := by
  have hlen := componentsSeparatedBy_length c s
  cases hcomp : componentsSeparatedBy c s with
  | nil => simp [hcomp] at hlen
  | cons key rest => exact ⟨key, fun g => rfl⟩

theorem objectAtIndex_one (c : Char) (s : NSString) :
    ([c] ∈ s → ∃ value, ∀ g, (objectAtIndex (componentsSeparatedBy c s) 1).run g = .ok value g) ∧
    ([c] ∉ s → ∀ g, (objectAtIndex (componentsSeparatedBy c s) 1).run g =
      .error .rangeException g) := by
  have hlen := componentsSeparatedBy_length c s
  constructor
  · intro hmem
    have hpos := List.count_pos_iff.mpr hmem
    have hget : ∃ value, (componentsSeparatedBy c s)[1]? = some value :=
      ⟨_, List.getElem?_eq_getElem (by omega)⟩
    obtain ⟨value, hvalue⟩ := hget
    refine ⟨value, fun g => ?_⟩
    simp only [objectAtIndex, hvalue]
    rfl
  · intro hmem g
    have hzero := List.count_eq_zero.mpr hmem
    have hget : (componentsSeparatedBy c s)[1]? = none :=
      List.getElem?_eq_none (by omega)
    simp only [objectAtIndex, hget]
    rfl

/-! ## The arrays -/

namespace GameModel

/-- The saved arrays have the same number of elements. -/
def SavedTogether (g : GameModel) : Prop :=
  g.standardUserDefaults.kGameTitleKey.length = g.standardUserDefaults.kGameListKey.length

/-- The two arrays have the same number of elements, and so have the saved ones. -/
def Together (g : GameModel) : Prop :=
  g.gameTitle.length = g.gameList.length ∧ g.SavedTogether

theorem Together.setLoaded {g : GameModel} (h : g.Together) (key value : NSString) :
    (g.setLoaded key value).Together := by
  unfold GameModel.setLoaded
  split
  · exact h
  · split
    · split
      · exact h
      · split
        · exact h
        · exact h
    · exact h

theorem Together.setParam {g : GameModel} (h : g.Together) (key value : NSString) :
    (g.setParam key value).Together := by
  unfold GameModel.setParam
  split
  · exact h
  · split
    · exact h
    · split
      · exact h
      · exact h

end GameModel

open GameModel

theorem addGame_ends (keyValuePair : NSString) :
    Ends Together SavedTogether (addGame keyValuePair) (['='] ∈ keyValuePair) := by
  intro g hg
  obtain ⟨key, hkey⟩ := objectAtIndex_zero '=' keyValuePair
  obtain ⟨hvalue, hrange⟩ := objectAtIndex_one '=' keyValuePair
  simp only [addGame, EStateM.run_bind, hkey, EStateM.run_modify]
  constructor
  · intro hmem
    obtain ⟨value, hvalue⟩ := hvalue hmem
    rw [hvalue]
    refine ⟨_, rfl, ?_, hg.2⟩
    have hlen := hg.1
    simp only [List.length_append, List.length_singleton]
    omega
  · intro hmem
    rw [hrange hmem]
    exact ⟨_, _, rfl, hg.2⟩

theorem setPair_ends {set : GameModel → NSString → NSString → GameModel}
    (hset : ∀ g key value, g.Together → (set g key value).Together) (keyValuePair : NSString) :
    Ends Together SavedTogether (setPair set keyValuePair) (['='] ∈ keyValuePair) := by
  intro g hg
  obtain ⟨key, hkey⟩ := objectAtIndex_zero '=' keyValuePair
  obtain ⟨hvalue, hrange⟩ := objectAtIndex_one '=' keyValuePair
  simp only [setPair, EStateM.run_bind, hkey]
  constructor
  · intro hmem
    obtain ⟨value, hvalue⟩ := hvalue hmem
    rw [hvalue]
    exact ⟨_, rfl, hset g key value hg⟩
  · intro hmem
    rw [hrange hmem]
    exact ⟨_, _, rfl, hg.2⟩

/-! ## One message -/

/-- What is left of the message is nothing, or a list of pairs with an '=' each. -/
def PairsHaveValues (newMessage : NSString) : Prop :=
  newMessage ≠ [] → ∀ keyValuePair ∈ componentsSeparatedBy ',' newMessage, ['='] ∈ keyValuePair

/-- A message with one of the three prefixes has values behind it. -/
def WellFormed (eventMessage : NSString) : Prop :=
  ∀ key ∈ [kGameList, kGamePreviouslyLoadedKey, kGameAdvancedSettingsKey],
    hasPrefix key eventMessage = true → PairsHaveValues (removeOccurrences key eventMessage)

theorem forPairs_ends {turn : NSString → GameM Unit}
    (hturn : ∀ keyValuePair,
      Ends Together SavedTogether (turn keyValuePair) (['='] ∈ keyValuePair))
    (newMessage : NSString) :
    Ends Together SavedTogether (forPairs turn newMessage) (PairsHaveValues newMessage) :=
  (Ends.forM _ hturn).ite

theorem onGameList_ends (eventMessage date : NSString) :
    Ends Together SavedTogether (onGameList eventMessage date)
      (hasPrefix kGameList eventMessage = true →
        PairsHaveValues (removeOccurrences kGameList eventMessage)) := by
  have hclear : Ends Together SavedTogether
      (modify fun g => { g with gameTitle := [], gameList := [] } : GameM Unit) True :=
    Ends.modify fun g hg => ⟨rfl, hg.2⟩
  have hsave : Ends Together SavedTogether
      (modify fun g => ({ g with gameListDateLastUpdated := some date }.save).post
        .gameListChanged : GameM Unit) True :=
    Ends.modify fun g hg => ⟨hg.1, hg.1⟩
  exact ((hclear.seq ((forPairs_ends addGame_ends _).seq hsave)).congr (by simp)).ite

theorem onGameEnd_ends (eventMessage : NSString) :
    Ends Together SavedTogether (onGameEnd eventMessage) True := by
  have hend : Ends Together SavedTogether (modify fun g =>
      (({ g with isGameStarted := false, isGameLoaded := false }.clearAdvancedParameters).post
        .gameEnd).post .gameAdvancedSettings : GameM Unit) True :=
    Ends.modify fun g hg => hg
  exact hend.ite.congr (by simp)

theorem onGameLoaded_ends (eventMessage : NSString) :
    Ends Together SavedTogether (onGameLoaded eventMessage) True := by
  have hloaded : Ends Together SavedTogether
      (modify fun g => { g with isGameLoaded := true }.post .gameLoaded : GameM Unit) True :=
    Ends.modify fun g hg => hg
  exact hloaded.ite.congr (by simp)

theorem onGamePreviouslyLoaded_ends (eventMessage : NSString) :
    Ends Together SavedTogether (onGamePreviouslyLoaded eventMessage)
      (hasPrefix kGamePreviouslyLoadedKey eventMessage = true →
        PairsHaveValues (removeOccurrences kGamePreviouslyLoadedKey eventMessage)) := by
  have hpairs := forPairs_ends (setPair_ends fun g key value hg => hg.setLoaded key value)
    (removeOccurrences kGamePreviouslyLoadedKey eventMessage)
  have hloaded : Ends Together SavedTogether
      (modify fun g => { g with isGameLoaded := true } : GameM Unit) True :=
    Ends.modify fun g hg => hg
  have hpost : Ends Together SavedTogether
      (modify (·.post .gamePreviouslyLoaded) : GameM Unit) True :=
    Ends.modify fun g hg => hg
  exact ((hloaded.seq (hpairs.seq hpost)).congr (by simp)).ite

theorem onAdvancedSettings_ends (eventMessage : NSString) :
    Ends Together SavedTogether (onAdvancedSettings eventMessage)
      (hasPrefix kGameAdvancedSettings eventMessage = true →
        PairsHaveValues (removeOccurrences kGameAdvancedSettingsKey eventMessage)) := by
  have hpairs := forPairs_ends (setPair_ends fun g key value hg => hg.setParam key value)
    (removeOccurrences kGameAdvancedSettingsKey eventMessage)
  have hpost : Ends Together SavedTogether
      (modify (·.post .gameAdvancedSettings) : GameM Unit) True :=
    Ends.modify fun g hg => hg
  exact ((hpairs.seq hpost).congr (by simp)).ite

/-- A message is handled to its end exactly where it is well formed. -/
theorem handleEvent_ends (eventMessage : Option NSString) (date : NSString) :
    Ends Together SavedTogether (handleEvent eventMessage date)
      (∀ m, eventMessage = some m → WellFormed m) := by
  cases eventMessage with
  | none => exact Ends.pure.congr (by simp)
  | some m =>
    have hall := (onGameList_ends m date).seq ((onGameEnd_ends m).seq ((onGameLoaded_ends m).seq
      ((onGamePreviouslyLoaded_ends m).seq (onAdvancedSettings_ends m))))
    apply hall.congr
    simp [WellFormed, kGameAdvancedSettings, kGameAdvancedSettingsKey]

/-! ## Runs -/

/-- The process, with the exception that ended it. -/
structure Docent where
  model : GameModel := {}
  thrown : Option NSException := none
  deriving DecidableEq, Repr

inductive DocentAction
  | launch
  /-- An event message, and the date when it is handled. -/
  | event (eventMessage : Option NSString) (date : NSString)
  deriving DecidableEq, Repr

/-- A new process starts with what was saved. After an exception the process handles nothing. -/
def Docent.step (s : Docent) : DocentAction → Docent
  | .launch => { model := GameModel.init s.model.standardUserDefaults }
  | .event eventMessage date =>
    if s.thrown = none then
      match (handleEvent eventMessage date).run s.model with
      | .ok _ model => { s with model := model }
      | .error e model => { model := model, thrown := some e }
    else s

/-- No exception, and a title for each game. -/
def Docent.Handled (s : Docent) : Prop :=
  s.thrown = none ∧ s.model.gameTitle.length = s.model.gameList.length

/-- The condition on an action: a message is well formed. -/
def DocentAction.Survivable : DocentAction → Prop
  | .launch => True
  | .event eventMessage _ => ∀ m, eventMessage = some m → WellFormed m

/-- The saved arrays go together, and those of a living process do. -/
def ArraysTogether (s : Docent) : Prop :=
  s.model.SavedTogether ∧ (s.thrown = none → s.model.Together)

/-- What a message does to a living process. -/
theorem step_event {s : Docent} (hlive : s.thrown = none) (h : s.model.Together)
    (eventMessage : Option NSString) (date : NSString) :
    (DocentAction.Survivable (.event eventMessage date) →
      (s.step (.event eventMessage date)).thrown = none ∧
        (s.step (.event eventMessage date)).model.Together) ∧
    (¬ DocentAction.Survivable (.event eventMessage date) →
      (s.step (.event eventMessage date)).thrown ≠ none ∧
        (s.step (.event eventMessage date)).model.SavedTogether) := by
  obtain ⟨hok, herror⟩ := handleEvent_ends eventMessage date s.model h
  simp only [Docent.step, hlive, if_true]
  constructor
  · intro hform
    obtain ⟨g, hrun, hg⟩ := hok hform
    rw [hrun]
    exact ⟨rfl, hg⟩
  · intro hform
    obtain ⟨e, g, hrun, hg⟩ := herror hform
    rw [hrun]
    exact ⟨nofun, hg⟩

theorem step_arraysTogether (s : Docent) (a : DocentAction) (h : ArraysTogether s) :
    ArraysTogether (s.step a) := by
  cases a with
  | launch => exact ⟨h.1, fun _ => ⟨h.1, h.1⟩⟩
  | event eventMessage date =>
    by_cases hlive : s.thrown = none
    · obtain ⟨hok, herror⟩ := step_event hlive (h.2 hlive) eventMessage date
      by_cases hform : DocentAction.Survivable (.event eventMessage date)
      · exact ⟨(hok hform).2.2, fun _ => (hok hform).2⟩
      · exact ⟨(herror hform).2, fun hnone => absurd hnone (herror hform).1⟩
    · have hsame : s.step (.event eventMessage date) = s := by simp [Docent.step, hlive]
      rwa [hsame]

theorem step_handled (s : Docent) (a : DocentAction) (h : ArraysTogether s) (hs : s.Handled) :
    (s.step a).Handled ↔ a.Survivable := by
  cases a with
  | launch => exact iff_of_true ⟨rfl, h.1⟩ trivial
  | event eventMessage date =>
    obtain ⟨hok, herror⟩ := step_event hs.1 (h.2 hs.1) eventMessage date
    constructor
    · intro hafter
      by_contra hform
      exact (herror hform).1 hafter.1
    · intro hform
      exact ⟨(hok hform).1, (hok hform).2.1⟩

/-- Over all launches, every message is handled and leaves a title for each game, exactly where
every message is well formed. -/
theorem every_message_is_handled_iff (as : List DocentAction) :
    Always Docent.step Docent.Handled {} as ↔ ∀ a ∈ as, a.Survivable := by
  have hsteps : Always Docent.step Docent.Handled {} as ↔
      EachStep Docent.step (fun _ a => a.Survivable) {} as :=
    always_iff_eachStep step_arraysTogether step_handled ⟨rfl, fun _ => ⟨rfl, rfl⟩⟩ ⟨rfl, rfl⟩
  rw [hsteps, eachStep_const]

/-- A list of one game without a value. -/
theorem a_game_without_a_value_throws :
    ¬ Always Docent.step Docent.Handled {} [.event (some (literal "games:abc")) []] ∧
    (Docent.step {} (.event (some (literal "games:abc")) [])).thrown = some .rangeException := by
  constructor
  · intro h
    have hend := h _ (List.prefix_refl _)
    exact absurd hend.1 (by decide)
  · decide

end esc_platform.docent
