-- The advanced settings, from the form of `GameDetailViewController` to the
-- event loop of an application that the engine echoes them to. Nothing escapes
-- the typed texts, so the message is read back as it was meant only where no
-- text contains a separator or the prefix of the message.
import EscPlatform.Docent.EventTexts

namespace esc_platform.docent

open checked clustering

/-! ## The form -/

/-- `modeOneSelected` and its siblings: the index of the selected segment. -/
def modeSelected : Option (Fin 3) → List Char
  | none => "-1".toList
  | some segment => Nat.toDigits 10 segment

/-- What the operator has selected and typed. -/
structure SettingsForm where
  modeOne : Option (Fin 3) := none
  modeTwo : Option (Fin 3) := none
  modeThree : Option (Fin 3) := none
  parameterOneTextField : List Char := []
  parameterTwoTextField : List Char := []
  parameterThreeTextField : List Char := []
  deriving DecidableEq, Repr

namespace SettingsForm

/-- The message of `sendApplyMessage`. -/
def sendApplyMessage (form : SettingsForm) : List Char :=
  "applyParams:mode1=".toList ++ modeSelected form.modeOne ++
    ",mode2=".toList ++ modeSelected form.modeTwo ++
    ",mode3=".toList ++ modeSelected form.modeThree ++
    ",param1=".toList ++ form.parameterOneTextField ++
    ",param2=".toList ++ form.parameterTwoTextField ++
    ",param3=".toList ++ form.parameterThreeTextField

/-- The typed texts. -/
def texts (form : SettingsForm) : List (List Char) :=
  [form.parameterOneTextField, form.parameterTwoTextField, form.parameterThreeTextField]

/-- The keys and values of the message, behind its prefix. -/
def items (form : SettingsForm) : List (List Char × List Char) :=
  [(":mode1".toList, modeSelected form.modeOne), ("mode2".toList, modeSelected form.modeTwo),
    ("mode3".toList, modeSelected form.modeThree),
    ("param1".toList, form.parameterOneTextField), ("param2".toList, form.parameterTwoTextField),
    ("param3".toList, form.parameterThreeTextField)]

end SettingsForm

open SettingsForm

/-- The texts of the parameters of a model. -/
def GameModel.parameters (g : GameModel) : List (Option (List Char)) :=
  [g.advancedParam1.map List.flatten, g.advancedParam2.map List.flatten,
    g.advancedParam3.map List.flatten]

/-- Whatever the parameters are, the message is handled and leaves the typed texts in them. -/
def SettingsArrive (joins : List Char → Char → Bool) (form : SettingsForm) : Prop :=
  ∀ g date, ∃ g',
    (handleEvent (some (composed joins form.sendApplyMessage)) date).run g = .ok () g' ∧
      g'.parameters = form.texts.map some

/-- No search finds a separator or the prefix in the text, and it does not join the '=' in
front of it. -/
structure TextReads (joins : List Char → Char → Bool) (text : List Char) : Prop where
  alone : alone joins '=' text = true
  unsplit : Unsplit joins text
  unmarked : ¬ kGameAdvancedSettingsKey <:+: composed joins text

variable {joins : List Char → Char → Bool}

instance (text : List Char) : Decidable (TextReads joins text) :=
  decidable_of_iff (alone joins '=' text = true ∧
      ([','] ∉ composed joins text ∧ ['='] ∉ composed joins text) ∧
      ¬ kGameAdvancedSettingsKey <:+: composed joins text)
    ⟨fun h => ⟨h.1, h.2.1, h.2.2⟩, fun h => ⟨h.alone, h.unsplit, h.unmarked⟩⟩

/-! ## The message -/

/-- A part of the format is a separator, a key and an '='. -/
theorem format_parts :
    "applyParams:mode1=".toList = "applyParams".toList ++ (":mode1".toList ++ ['=']) ∧
      ",mode2=".toList = ',' :: ("mode2".toList ++ ['=']) ∧
      ",mode3=".toList = ',' :: ("mode3".toList ++ ['=']) ∧
      ",param1=".toList = ',' :: ("param1".toList ++ ['=']) ∧
      ",param2=".toList = ',' :: ("param2".toList ++ ['=']) ∧
      ",param3=".toList = ',' :: ("param3".toList ++ ['=']) := by decide

theorem sendApplyMessage_eq (form : SettingsForm) :
    form.sendApplyMessage = "applyParams".toList ++ pairsText ',' '=' form.items := by
  obtain ⟨h1, h2, h3, h4, h5, h6⟩ := format_parts
  unfold sendApplyMessage items
  simp only [h1, h2, h3, h4, h5, h6, pairsText_cons_cons, pairsText_singleton, List.append_assoc,
    List.cons_append, List.nil_append]

theorem kGameAdvancedSettingsKey_marker : Marker kGameAdvancedSettingsKey :=
  ⟨by decide, by decide, by decide⟩

theorem composed_sendApplyMessage (hstart : PrintableStarts joins) (form : SettingsForm) :
    composed joins form.sendApplyMessage =
      kGameAdvancedSettingsKey ++ composed joins (pairsText ',' '=' form.items) := by
  have hcolon : ":mode1".toList = ':' :: "mode1".toList := by decide
  have hbehind : pairsText ',' '=' form.items =
      ':' :: ("mode1".toList ++ '=' :: (modeSelected form.modeOne ++
        ',' :: pairsText ',' '=' form.items.tail)) := by
    unfold items
    simp only [pairsText_cons_cons, List.tail_cons, hcolon, List.cons_append]
  rw [sendApplyMessage_eq, hbehind, composed_prefix hstart (by decide) (by decide)]
  rfl

/-- A printable text without separators. -/
def Plain (text : List Char) : Prop :=
  text.all printable = true ∧ ',' ∉ text ∧ '=' ∉ text

instance (text : List Char) : Decidable (Plain text) := inferInstanceAs (Decidable (_ ∧ _ ∧ _))

theorem modeSelected_plain (segment : Option (Fin 3)) : Plain (modeSelected segment) := by
  cases segment with
  | none => decide
  | some segment =>
    revert segment
    decide

/-- Everything but the typed texts is plain. -/
theorem items_plain (form : SettingsForm) : ∀ item ∈ form.items,
    Plain item.1 ∧ (item.2 ∈ form.texts ∨ Plain item.2) := by
  have hkey : ∀ key ∈ [":mode1", "mode2", "mode3", "param1", "param2", "param3"],
      Plain (String.toList key) := by decide
  intro item hitem
  simp only [items, List.mem_cons, List.not_mem_nil, or_false] at hitem
  rcases hitem with rfl | rfl | rfl | rfl | rfl | rfl
  · exact ⟨hkey _ (by simp), Or.inr (modeSelected_plain _)⟩
  · exact ⟨hkey _ (by simp), Or.inr (modeSelected_plain _)⟩
  · exact ⟨hkey _ (by simp), Or.inr (modeSelected_plain _)⟩
  · exact ⟨hkey _ (by simp), Or.inl (by simp [texts])⟩
  · exact ⟨hkey _ (by simp), Or.inl (by simp [texts])⟩
  · exact ⟨hkey _ (by simp), Or.inl (by simp [texts])⟩

/-! ## The handler -/

/-- Only the branch of the advanced settings can handle the message. -/
theorem handleEvent_settings {m : NSString} (h : hasPrefix kGameAdvancedSettings m = true)
    (date : NSString) (g : GameModel) :
    (handleEvent (some m) date).run g = (onAdvancedSettings m).run g := by
  have hother := hasPrefix_other (by decide) h
  rw [handleEvent_run, hother kGameList (by decide), hother kGameEnd (by decide),
    hother kGameLoaded (by decide), hother kGamePreviouslyLoadedKey (by decide)]
  rfl

/-- The parameters after these pairs. -/
def setParams (g : GameModel) (pairs : List NSString) : GameModel :=
  pairs.foldl (fun g pair => g.setParam (pairKey pair) (pairValue pair)) g

theorem onAdvancedSettings_run {m : NSString} (hpre : hasPrefix kGameAdvancedSettings m = true)
    (hvalues : PairsHaveValues (removeOccurrences kGameAdvancedSettingsKey m)) (g : GameModel) :
    (onAdvancedSettings m).run g = .ok ()
      ((setParams g (pairsOf (removeOccurrences kGameAdvancedSettingsKey m))).post
        .gameAdvancedSettings) := by
  have hturns := forM_run fun pair hp =>
    @setPair_run GameModel.setParam pair ((pairsHaveValues_iff _).mp hvalues pair hp)
  rw [onAdvancedSettings, if_pos hpre, forPairs_eq]
  simp only [EStateM.run_bind, EStateM.run_modify, hturns]
  rfl

theorem onAdvancedSettings_error {m : NSString}
    (hpre : hasPrefix kGameAdvancedSettings m = true)
    (hvalues : ¬ PairsHaveValues (removeOccurrences kGameAdvancedSettingsKey m))
    (g : GameModel) : ∃ e g', (onAdvancedSettings m).run g = .error e g' := by
  obtain ⟨e, g', hrun⟩ := forPairs_error (fun _ h g => @setPair_run GameModel.setParam _ h g)
    (fun _ h g => setPair_error h g) hvalues g
  rw [onAdvancedSettings, if_pos hpre]
  simp only [EStateM.run_bind, hrun]
  exact ⟨e, g', rfl⟩

theorem parameters_post (g : GameModel) (n : Notification) :
    (g.post n).parameters = g.parameters := rfl

/-- What the parameters are read from. -/
theorem settingsArrive_iff {form : SettingsForm} {m : NSString}
    (hm : composed joins form.sendApplyMessage = m)
    (hpre : hasPrefix kGameAdvancedSettings m = true) :
    SettingsArrive joins form ↔
      PairsHaveValues (removeOccurrences kGameAdvancedSettingsKey m) ∧
        ∀ g, (setParams g (pairsOf (removeOccurrences kGameAdvancedSettingsKey m))).parameters =
          form.texts.map some := by
  unfold SettingsArrive
  simp only [hm, handleEvent_settings hpre]
  refine ⟨fun h => ?_, fun ⟨hvalues, hparams⟩ g _ => ?_⟩
  · have hvalues : PairsHaveValues (removeOccurrences kGameAdvancedSettingsKey m) := by
      obtain ⟨g', hrun, _⟩ := h {} []
      by_contra hnot
      obtain ⟨e, g'', herror⟩ := onAdvancedSettings_error hpre hnot {}
      rw [hrun] at herror
      exact absurd herror nofun
    refine ⟨hvalues, fun g => ?_⟩
    obtain ⟨g', hrun, hparams⟩ := h g []
    rw [onAdvancedSettings_run hpre hvalues] at hrun
    injection hrun with _ hg
    rwa [← hg, parameters_post] at hparams
  · refine ⟨_, onAdvancedSettings_run hpre hvalues g, ?_⟩
    rw [parameters_post]
    exact hparams g

theorem settingsArrive_received (hstart : PrintableStarts joins) (form : SettingsForm) :
    SettingsArrive joins form ↔
      PairsHaveValues (received joins kGameAdvancedSettingsKey form.items) ∧
        ∀ g, (setParams g
          (pairsOf (received joins kGameAdvancedSettingsKey form.items))).parameters =
            form.texts.map some :=
  settingsArrive_iff (composed_sendApplyMessage hstart form) (hasPrefix_append _ _)

/-! ## Where nothing joins a separator -/

/-- What the handler does with each key of the message. -/
theorem setParam_key (g : GameModel) (value : NSString) :
    (∀ key ∈ [":mode1", "mode2", "mode3"], g.setParam (literal key) value = g) ∧
      g.setParam (literal "param1") value = { g with advancedParam1 := some value } ∧
      g.setParam (literal "param2") value = { g with advancedParam2 := some value } ∧
      g.setParam (literal "param3") value = { g with advancedParam3 := some value } := by
  have hmode : ∀ key ∈ [":mode1", "mode2", "mode3"], ∀ param ∈ ["param1", "param2", "param3"],
      hasRange (literal param) (literal key) = false := by decide
  have hparam : ∀ param ∈ ["param1", "param2", "param3"],
      ∀ key ∈ ["param1", "param2", "param3"],
        hasRange (literal param) (literal key) = decide (param = key) := by decide
  refine ⟨fun key hkey => ?_, ?_, ?_, ?_⟩
  · simp [GameModel.setParam, hmode key hkey]
  · simp [GameModel.setParam, hparam]
  · simp [GameModel.setParam, hparam]
  · simp [GameModel.setParam, hparam]

theorem kept_key (hstart : PrintableStarts joins) :
    ∀ key ∈ [":mode1", "mode2", "mode3", "param1", "param2", "param3"],
    kept joins kGameAdvancedSettingsKey (String.toList key) = literal key := by
  have hprintable : ∀ key ∈ [":mode1", "mode2", "mode3", "param1", "param2", "param3"],
      (String.toList key).all printable = true := by decide
  have hkept : ∀ key ∈ [":mode1", "mode2", "mode3", "param1", "param2", "param3"],
      removeOccurrences kGameAdvancedSettingsKey (literal key) = literal key := by decide
  intro key hkey
  rw [kept, composed_literal hstart (hprintable key hkey), hkept key hkey]

theorem items_unsplit {form : SettingsForm} (h : ∀ text ∈ form.texts, Unsplit joins text) :
    ∀ item ∈ form.items, Unsplit joins item.1 ∧ Unsplit joins item.2 := by
  intro item hitem
  obtain ⟨⟨_, hcomma, hequals⟩, hvalue⟩ := items_plain form item hitem
  refine ⟨unsplit_of_not_mem hcomma hequals, ?_⟩
  rcases hvalue with htext | ⟨_, hcomma', hequals'⟩
  · exact h item.2 htext
  · exact unsplit_of_not_mem hcomma' hequals'

/-- Nothing joins the ',' in front of a key. -/
theorem items_key_alone (hstart : PrintableStarts joins) (form : SettingsForm) :
    ∀ item ∈ form.items.tail, alone joins ',' item.1 = true := fun item hitem =>
  alone_of_printable hstart (items_plain form item (List.mem_of_mem_tail hitem)).1.1 ','

theorem items_value_alone (hstart : PrintableStarts joins) {form : SettingsForm}
    (h : ∀ text ∈ form.texts, alone joins '=' text = true) :
    ∀ item ∈ form.items, alone joins '=' item.2 = true := by
  intro item hitem
  rcases (items_plain form item hitem).2 with htext | hplain
  · exact h item.2 htext
  · exact alone_of_printable hstart hplain.1 '='

/-- The pairs of the message are set one by one. -/
theorem setParams_pairs {items : List (List Char × List Char)}
    (hunsplit : ∀ item ∈ items, Unsplit joins item.1 ∧ Unsplit joins item.2) (g : GameModel) :
    setParams g (items.map fun item =>
      kept joins kGameAdvancedSettingsKey item.1 ++
        ['='] :: kept joins kGameAdvancedSettingsKey item.2) =
      items.foldl (fun g item => g.setParam (kept joins kGameAdvancedSettingsKey item.1)
        (kept joins kGameAdvancedSettingsKey item.2)) g := by
  rw [setParams, List.foldl_map]
  refine List.foldl_ext _ _ g fun g item hitem => ?_
  obtain ⟨hk, hv⟩ := hunsplit item hitem
  rw [pairKey_pair hk.kept.2 hv.kept.2, pairValue_pair hk.kept.2 hv.kept.2]

/-- The modes set nothing, and each text sets its parameter. -/
theorem foldl_setParam {f : List Char → NSString} {k1 k2 k3 k4 k5 k6 : List Char}
    (h1 : f k1 = literal ":mode1") (h2 : f k2 = literal "mode2") (h3 : f k3 = literal "mode3")
    (h4 : f k4 = literal "param1") (h5 : f k5 = literal "param2") (h6 : f k6 = literal "param3")
    (m1 m2 m3 p1 p2 p3 : List Char) (g : GameModel) :
    [(k1, m1), (k2, m2), (k3, m3), (k4, p1), (k5, p2), (k6, p3)].foldl
        (fun g item => g.setParam (f item.1) (f item.2)) g =
      { g with advancedParam1 := some (f p1)
               advancedParam2 := some (f p2)
               advancedParam3 := some (f p3) } := by
  have hmode := fun g value => (setParam_key g value).1
  have hparam := fun g value => (setParam_key g value).2
  simp only [List.foldl_cons, List.foldl_nil, h1, h2, h3, h4, h5, h6,
    hmode _ _ ":mode1" (by simp), hmode _ _ "mode2" (by simp), hmode _ _ "mode3" (by simp), hparam]

/-- The parameters that are set, where the texts are not split. -/
theorem setParams_items (hstart : PrintableStarts joins) {form : SettingsForm}
    (hunsplit : ∀ text ∈ form.texts, Unsplit joins text) (g : GameModel) :
    (setParams g (form.items.map fun item =>
      kept joins kGameAdvancedSettingsKey item.1 ++
        ['='] :: kept joins kGameAdvancedSettingsKey item.2)).parameters =
      form.texts.map fun text => some (kept joins kGameAdvancedSettingsKey text).flatten := by
  have hkey := kept_key hstart
  rw [setParams_pairs (items_unsplit hunsplit), items,
    foldl_setParam (hkey ":mode1" (by simp)) (hkey "mode2" (by simp)) (hkey "mode3" (by simp))
      (hkey "param1" (by simp)) (hkey "param2" (by simp)) (hkey "param3" (by simp))]
  simp only [GameModel.parameters, texts, Option.map_some, List.map_cons, List.map_nil]

theorem settingsArrive_apart (hstart : PrintableStarts joins) {form : SettingsForm}
    (halone : ∀ text ∈ form.texts, alone joins '=' text = true)
    (hunsplit : ∀ text ∈ form.texts, Unsplit joins text) :
    SettingsArrive joins form ↔
      ∀ text ∈ form.texts, (kept joins kGameAdvancedSettingsKey text).flatten = text := by
  have hpairs := pairsOf_received kGameAdvancedSettingsKey_marker hstart
    (items_key_alone hstart form) (items_value_alone hstart halone) (items_unsplit hunsplit)
  have hvalues : PairsHaveValues (received joins kGameAdvancedSettingsKey form.items) := by
    rw [pairsHaveValues_iff, hpairs, List.forall_mem_map]
    simp
  have hset : (∀ g, (setParams g (pairsOf
      (received joins kGameAdvancedSettingsKey form.items))).parameters = form.texts.map some) ↔
      ∀ text ∈ form.texts, (kept joins kGameAdvancedSettingsKey text).flatten = text := by
    simp only [hpairs, setParams_items hstart hunsplit, List.map_inj_left, Option.some.injEq]
    exact ⟨fun h => h {}, fun h _ => h⟩
  rw [settingsArrive_received hstart, hset]
  exact and_iff_right hvalues

/-! ## What the texts need -/

/-- Every parameter that is set has this property. -/
def ParametersAll (P : NSString → Prop) (g : GameModel) : Prop :=
  ∀ param ∈ [g.advancedParam1, g.advancedParam2, g.advancedParam3], ∀ value ∈ param, P value

theorem ParametersAll.setParam {P : NSString → Prop} {g : GameModel} (h : ParametersAll P g)
    (key : NSString) {value : NSString} (hvalue : P value) :
    ParametersAll P (g.setParam key value) := by
  have hset : ∀ v ∈ some value, P v := by
    rintro v ⟨⟩
    exact hvalue
  simp only [ParametersAll, List.forall_mem_cons] at h ⊢
  unfold GameModel.setParam
  split
  · exact ⟨hset, h.2⟩
  · split
    · exact ⟨h.1, hset, h.2.2⟩
    · split
      · exact ⟨h.1, h.2.1, hset, h.2.2.2⟩
      · exact h

theorem ParametersAll.setParams {P : NSString → Prop} {pairs : List NSString}
    (hpairs : ∀ pair ∈ pairs, P (pairValue pair)) {g : GameModel} (h : ParametersAll P g) :
    ParametersAll P (setParams g pairs) := by
  unfold docent.setParams
  induction pairs generalizing g with
  | nil => exact h
  | cons pair pairs ih =>
    exact ih (fun p hp => hpairs p (List.mem_cons_of_mem _ hp))
      (h.setParam _ (hpairs pair (by simp)))

/-- No search finds a separator in a text that arrives: a value is a part between separators. -/
theorem SettingsArrive.unsplit (hstart : PrintableStarts joins) {form : SettingsForm}
    (h : SettingsArrive joins form) : ∀ text ∈ form.texts, Unsplit joins text := by
  obtain ⟨_, hparams⟩ := (settingsArrive_received hstart form).mp h
  have hnone : ParametersAll (fun value => Unsplit joins value.flatten) {} := by
    simp [ParametersAll]
  have hall : ParametersAll (fun value => Unsplit joins value.flatten)
      (setParams {} (pairsOf (received joins kGameAdvancedSettingsKey form.items))) :=
    hnone.setParams fun pair hpair => pairValue_unsplit hstart hpair
  have htext : ∀ text, some text ∈ form.texts.map some → Unsplit joins text := by
    rw [← hparams {}]
    intro text hmem
    simp only [GameModel.parameters, List.mem_cons, List.not_mem_nil, or_false] at hmem
    simp only [ParametersAll, List.forall_mem_cons] at hall
    rcases hmem with h1 | h2 | h3
    · obtain ⟨value, hvalue, rfl⟩ := Option.map_eq_some_iff.mp h1.symm
      exact hall.1 value hvalue
    · obtain ⟨value, hvalue, rfl⟩ := Option.map_eq_some_iff.mp h2.symm
      exact hall.2.1 value hvalue
    · obtain ⟨value, hvalue, rfl⟩ := Option.map_eq_some_iff.mp h3.symm
      exact hall.2.2.1 value hvalue
  exact fun text hmem => htext text (List.mem_map.mpr ⟨text, hmem, rfl⟩)

/-- No text joins the '=' in front of it: else its pair has no value. -/
theorem SettingsArrive.alone (hstart : PrintableStarts joins) {form : SettingsForm}
    (h : SettingsArrive joins form) : ∀ text ∈ form.texts, alone joins '=' text = true := by
  have hkeys := items_key_alone hstart form
  have hunsplit := items_unsplit (h.unsplit hstart)
  have htexts : ∀ text ∈ form.texts, ∃ item ∈ form.items, item.2 = text := by
    simp [texts, items]
  obtain ⟨hvalues, hparams⟩ := (settingsArrive_received hstart form).mp h
  have hnone := hparams {}
  rcases hitems : form.items with _ | ⟨item, rest⟩
  · simp [items] at hitems
  · rw [hitems] at hkeys hunsplit hvalues hnone htexts
    have hne : received joins kGameAdvancedSettingsKey (item :: rest) ≠ [] := by
      intro hnil
      simp [hnil, pairsOf, setParams, GameModel.parameters, texts] at hnone
    have hlone := fun i hi => (unsplit_iff_lone hstart i.1).mp (hunsplit i hi).1
    have hlone' := fun i hi => (unsplit_iff_lone hstart i.2).mp (hunsplit i hi).2
    have hlen := received_length kGameAdvancedSettingsKey_marker hstart
      (loneInside_eq_zero fun i hi => ⟨(hlone i hi).1, (hlone' i hi).1⟩) hne
    have hle := received_length_le kGameAdvancedSettingsKey_marker hstart
      (loneInside_eq_zero fun i hi => ⟨(hlone i hi).2, (hlone' i hi).2⟩) hvalues
    have hall : rest.countP (fun later => clustering.alone joins ',' later.1) = rest.length :=
      List.countP_eq_length.mpr hkeys
    have hcount : (item :: rest).countP (fun pair => clustering.alone joins '=' pair.2) ≤
        (item :: rest).length := List.countP_le_length
    have heq : (item :: rest).countP (fun pair => clustering.alone joins '=' pair.2) =
        (item :: rest).length := by
      rw [List.length_cons] at hcount ⊢
      omega
    intro text ht
    obtain ⟨i, hi, rfl⟩ := htexts text ht
    exact List.countP_eq_length.mp heq i hi

/-- The message sets the parameters to the typed texts exactly where the searches of the event
loop see each text whole. -/
theorem applied_settings_arrive_iff (hstart : PrintableStarts joins) (form : SettingsForm) :
    SettingsArrive joins form ↔ ∀ text ∈ form.texts, TextReads joins text := by
  refine ⟨fun h text ht => ?_, fun h => ?_⟩
  · have hkept := (settingsArrive_apart hstart (h.alone hstart) (h.unsplit hstart)).mp h
    exact ⟨h.alone hstart text ht, h.unsplit hstart text ht,
      (flatten_kept_iff kGameAdvancedSettingsKey_marker text).mp (hkept text ht)⟩
  · rw [settingsArrive_apart hstart (fun text ht => (h text ht).alone)
      (fun text ht => (h text ht).unsplit)]
    exact fun text ht =>
      (flatten_kept_iff kGameAdvancedSettingsKey_marker text).mpr (h text ht).unmarked

/-- Texts with other punctuation, and with the name of a key. -/
theorem plain_settings_arrive :
    SettingsArrive combiningMarks
      { modeTwo := some 2, parameterOneTextField := "speed: 1.5".toList,
        parameterThreeTextField := "param1".toList } :=
  (applied_settings_arrive_iff combiningMarks_printable _).mpr (by decide)

/-- A comma ends its text, and what is behind it has no value. -/
theorem a_comma_is_a_separator :
    ¬ SettingsArrive combiningMarks { parameterOneTextField := "a,b".toList } := by
  rw [settingsArrive_iff rfl (by decide), pairsHaveValues_iff]
  rintro ⟨hvalues, _⟩
  exact absurd hvalues (by decide)

end esc_platform.docent
