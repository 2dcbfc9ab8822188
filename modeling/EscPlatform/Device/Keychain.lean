-- `PdKeychainBindings.m` and its controller, as iOS builds them. The keychain
-- belongs to the system: a call of it answers as documented or is refused, as
-- on a locked device. In front of it the controller keeps a buffer, which is
-- empty when the application starts.
import EscPlatform.Lib.Runs
import Mathlib.Logic.Function.Basic

namespace esc_platform.device

open runs

/-- A key whose path `values.` and the key leads to one entry of the buffer. -/
structure Key where
  name : String
  plain : '.' ∉ name.toList ∧ name.toList.head? ≠ some '@'
  deriving DecidableEq

/-- `PdKeychainBindingsController`. -/
structure Controller where
  /-- The items of the application in the keychain. They outlive the process. -/
  items : Key → Option String := fun _ => none
  valueBuffer : Key → Option String := fun _ => none

/-- Which calls of the keychain are answered while a value is set. -/
structure Answers where
  /-- The `SecItemCopyMatching` of `setValue`. -/
  copyMatching : Bool
  /-- The one of `storeString`. -/
  storeCopyMatching : Bool
  /-- `SecItemDelete`, `SecItemUpdate` or `SecItemAdd`. -/
  write : Bool
  deriving DecidableEq, Repr

namespace Controller

/-! ## The keychain -/

/-- `stringForKey`. -/
def stringForKey (c : Controller) (answered : Bool) (key : Key) : Option String :=
  if answered then c.items key else none

def setItem (c : Controller) (key : Key) (item : Option String) : Controller :=
  { c with items := Function.update c.items key item }

/-- `storeString`. A null string deletes the item. -/
def storeString (c : Controller) (a : Answers) (string : Option String) (key : Key) :
    Controller × Bool :=
  match string with
  | none =>
    -- `SecItemDelete` finds an item or fails
    if a.write = true ∧ c.items key ≠ none then (c.setItem key none, true) else (c, false)
  | some string =>
    match c.stringForKey a.storeCopyMatching key with
    | some _ => if a.write then (c.setItem key (some string), true) else (c, false)
    | none =>
      -- `SecItemAdd` makes no second item
      if a.write = true ∧ c.items key = none then (c.setItem key (some string), true)
      else (c, false)

/-! ## The buffer -/

/-- `[_valueBuffer setValue: value forKey: key]`. -/
def setBuffer (c : Controller) (key : Key) (value : Option String) : Controller :=
  { c with valueBuffer := Function.update c.valueBuffer key value }

/-- `valueForKeyPath`. -/
def valueForKeyPath (c : Controller) (answered : Bool) (key : Key) :
    Controller × Option String :=
  let c :=
    match c.stringForKey answered key with
    | some retrievedString =>
      if c.valueBuffer key = none ∨ c.valueBuffer key ≠ some retrievedString then
        c.setBuffer key (some retrievedString)
      else c
    | none => c
  (c, c.valueBuffer key)

/-- `setValue: forKeyPath: accessibleAttribute:`. No string is equal to a null string. -/
def setValue (c : Controller) (a : Answers) (value : Option String) (key : Key) : Controller :=
  let c :=
    match c.stringForKey a.copyMatching key with
    | some retrievedString =>
      let c := if value ≠ some retrievedString then (c.storeString a value key).1 else c
      if c.valueBuffer key = none ∨ c.valueBuffer key ≠ value then c.setBuffer key value else c
    | none => (c.storeString a value key).1.setBuffer key value
  c.setBuffer key value

/-! ## The bindings -/

/-- `objectForKey` and `stringForKey` of the bindings. -/
def objectForKey (c : Controller) (answered : Bool) (key : Key) : Controller × Option String :=
  c.valueForKeyPath answered key

/-- `setObject` and `setString`. -/
def setObject (c : Controller) (a : Answers) (value : Option String) (key : Key) : Controller :=
  c.setValue a value key

/-- `removeObjectForKey`. -/
def removeObjectForKey (c : Controller) (a : Answers) (key : Key) : Controller :=
  c.setValue a none key

/-- A new process on the same keychain. -/
def launch (c : Controller) : Controller := { c with valueBuffer := fun _ => none }

/-! ## What the operations do -/

section specs

variable (c : Controller) (a : Answers) (value : Option String) (answered : Bool) (key : Key)

@[simp] theorem setBuffer_items : (c.setBuffer key value).items = c.items := rfl

@[simp] theorem setBuffer_valueBuffer :
    (c.setBuffer key value).valueBuffer = Function.update c.valueBuffer key value := rfl

@[simp] theorem setItem_valueBuffer : (c.setItem key value).valueBuffer = c.valueBuffer := rfl

/-- The value gets into the keychain, or is there already. -/
def Lands : Prop :=
  c.items key = value ∨
    a.write = true ∧ (value = none ∨ c.items key = none ∨ a.storeCopyMatching = true)

instance : Decidable (c.Lands a value key) := inferInstanceAs (Decidable (_ ∨ _))

theorem storeString_valueBuffer : (c.storeString a value key).1.valueBuffer = c.valueBuffer := by
  unfold storeString
  split
  · split <;> rfl
  · split
    · split <;> rfl
    · split <;> rfl

/-- What does not land leaves the item. -/
theorem storeString_of_not_lands (h : ¬ c.Lands a value key) :
    (c.storeString a value key).1 = c := by
  obtain ⟨hvalue, hwrite⟩ := not_or.mp h
  unfold storeString
  cases value with
  | none => exact congrArg Prod.fst (if_neg fun hdelete => hwrite ⟨hdelete.1, .inl rfl⟩)
  | some string =>
    cases hcopy : c.stringForKey a.storeCopyMatching key with
    | some item =>
      -- the update is refused, since the copy was answered
      have hanswered : a.storeCopyMatching = true := by
        unfold stringForKey at hcopy
        split at hcopy
        · assumption
        · cases hcopy
      exact congrArg Prod.fst (if_neg fun hupdate => hwrite ⟨hupdate, .inr (.inr hanswered)⟩)
    | none => exact congrArg Prod.fst (if_neg fun hadd => hwrite ⟨hadd.1, .inr (.inl hadd.2)⟩)

/-- What lands is the item. -/
theorem storeString_of_lands (h : c.Lands a value key) :
    (c.storeString a value key).1.items = Function.update c.items key value := by
  have hstay : ∀ item, c.items key = item → Function.update c.items key item = c.items :=
    fun item hitem => hitem ▸ Function.update_eq_self key _
  rcases h with hvalue | ⟨hwrite, hroom⟩
  · -- whatever is answered, the item is the value already
    rw [hstay _ hvalue]
    unfold storeString
    cases value with
    | none => simp [hvalue]
    | some string =>
      cases c.stringForKey a.storeCopyMatching key with
      | none => simp [hvalue]
      | some item =>
        simp only
        split
        · exact hstay _ hvalue
        · rfl
  · unfold storeString
    cases value with
    | none =>
      by_cases hitem : c.items key = none
      · simp [hwrite, hitem, hstay]
      · simp [hwrite, hitem, setItem]
    | some string =>
      rcases hroom with hnull | hitem | hcopy
      · cases hnull
      · simp [stringForKey, hwrite, hitem, setItem]
      · cases hitem : c.items key with
        | none => simp [stringForKey, hwrite, hitem, setItem]
        | some item => simp [stringForKey, hwrite, hitem, hcopy, setItem]

theorem storeString_items : (c.storeString a value key).1.items =
    if c.Lands a value key then Function.update c.items key value else c.items := by
  split
  · rename_i hlands
    exact storeString_of_lands c a value key hlands
  · rename_i hlands
    rw [storeString_of_not_lands c a value key hlands]

theorem setValue_items : (c.setValue a value key).items =
    if c.Lands a value key then Function.update c.items key value else c.items := by
  unfold setValue
  cases hcopy : c.stringForKey a.copyMatching key with
  | none => simp only [setBuffer_items, storeString_items]
  | some retrieved =>
    by_cases hvalue : value = some retrieved
    · -- the keychain has the value
      have hitem : c.items key = value := by
        unfold stringForKey at hcopy
        split at hcopy
        · exact hcopy.trans hvalue.symm
        · cases hcopy
      have hsame : Function.update c.items key value = c.items :=
        hitem ▸ Function.update_eq_self key _
      have hlands : c.Lands a value key := .inl hitem
      rw [if_pos hlands, hsame]
      simp only [hvalue, ne_eq, not_true_eq_false, if_false, setBuffer_items]
      split <;> rfl
    · simp only [ne_eq, hvalue, not_false_eq_true, if_true, setBuffer_items]
      split
      · rw [setBuffer_items, storeString_items]
      · rw [storeString_items]

/-- The buffer has the value in any case. -/
theorem setValue_valueBuffer :
    (c.setValue a value key).valueBuffer = Function.update c.valueBuffer key value := by
  unfold setValue
  rw [setBuffer_valueBuffer]
  cases c.stringForKey a.copyMatching key with
  | none => simp [storeString_valueBuffer]
  | some retrieved =>
    by_cases hvalue : value = some retrieved
    · simp only [hvalue, ne_eq, not_true_eq_false, if_false]
      split <;> simp
    · simp only [ne_eq, hvalue, not_false_eq_true, if_true, storeString_valueBuffer]
      split <;> simp [storeString_valueBuffer]

/-- What a read finds: the item where the keychain answers with one, or else what is in the
buffer. -/
def found : Option String := (c.stringForKey answered key).or (c.valueBuffer key)

theorem objectForKey_eq : c.objectForKey answered key =
    (c.setBuffer key (c.found answered key), c.found answered key) := by
  unfold objectForKey valueForKeyPath found
  cases c.stringForKey answered key with
  | none => simp [setBuffer]
  | some retrieved =>
    simp only [Option.some_or]
    split
    · simp
    · rename_i hsame
      rw [not_or, not_not] at hsame
      rw [hsame.2]
      simp [setBuffer, ← hsame.2]

end specs

end Controller

end esc_platform.device
