-- Property lists, as `plistlib` reads and writes them. Its writer makes a
-- newline of every line ending in a text, so a text with a carriage return is
-- read back as another text.
import EscPlatform.Lib.Dictionaries

namespace esc_platform.setup

open dictionaries

/-! ## Texts -/

/-- `text.replace("\r\n", "\n")`. -/
def dosLines : List Char → List Char
  | [] => []
  | c :: cs => if c = '\r' ∧ cs.head? = some '\n' then dosLines cs else c :: dosLines cs

/-- `text.replace("\r", "\n")`. -/
def macLines (cs : List Char) : List Char := cs.map fun c => if c = '\r' then '\n' else c

/-- The text that a reader of the file finds. What `_escape` of `plistlib` makes of `&`, `<` and `>`
is read back as these characters. -/
def plistText (text : String) : String := .ofList (macLines (dosLines text.toList))

/-- No carriage return is in the text. -/
def Unixed (text : String) : Prop := '\r' ∉ text.toList

instance (text : String) : Decidable (Unixed text) := inferInstanceAs (Decidable (_ ∉ _))

theorem dosLines_eq_self {cs : List Char} (h : '\r' ∉ cs) : dosLines cs = cs := by
  induction cs with
  | nil => rfl
  | cons c cs ih =>
    rw [List.mem_cons, not_or] at h
    rw [dosLines, if_neg fun hc => h.1 hc.1.symm, ih h.2]

theorem plistText_unixed (text : String) : Unixed (plistText text) := by
  unfold Unixed plistText macLines
  rw [String.toList_ofList, List.mem_map]
  rintro ⟨c, -, hc⟩
  split at hc
  · exact absurd hc (by decide)
  · next hne => exact hne hc

theorem plistText_eq_self_iff {text : String} : plistText text = text ↔ Unixed text := by
  refine ⟨fun h => h ▸ plistText_unixed text, fun h => ?_⟩
  have hmac : macLines text.toList = text.toList := by
    unfold macLines
    conv_rhs => rw [← List.map_id text.toList]
    apply List.map_congr_left
    intro c hc
    have hne : c ≠ '\r' := by
      rintro rfl
      exact h hc
    rw [if_neg hne, id]
  rw [plistText, dosLines_eq_self h, hmac, String.ofList_toList]

@[simp] theorem plistText_plistText (text : String) :
    plistText (plistText text) = plistText text :=
  plistText_eq_self_iff.mpr (plistText_unixed text)

/-! ## Dictionaries -/

/-- A dictionary of texts. `plistlib` writes its items in the order of the keys. -/
abbrev Dict := Std.ExtTreeMap String String

/-- The dictionary that a reader of the file finds. -/
def plistDict (dict : Dict) : Dict := rewrite plistText plistText dict

@[simp] theorem plistDict_plistDict (dict : Dict) : plistDict (plistDict dict) = plistDict dict :=
  rewrite_rewrite plistText_plistText plistText_plistText

/-! ## `Info.plist` -/

/-- `Contents/Info.plist`. The script reads two of its values, which are texts. The others stand
for the texts of all other keys, and values without a text are written as they are. -/
structure Plist where
  cfBundleDisplayName : Option String
  cfBundleName : Option String
  cfBundleExecutable : Option String
  /-- The schemes of each entry of `CFBundleURLTypes`. -/
  cfBundleURLTypes : Option (List (List String))
  others : Dict
  deriving DecidableEq

/-- What a reader finds in the file that `plistlib.writePlist` makes of the plist. -/
def Plist.written (pl : Plist) : Plist where
  cfBundleDisplayName := pl.cfBundleDisplayName.map plistText
  cfBundleName := pl.cfBundleName.map plistText
  cfBundleExecutable := pl.cfBundleExecutable.map plistText
  cfBundleURLTypes := pl.cfBundleURLTypes.map (·.map (·.map plistText))
  others := plistDict pl.others

/-- The name that the launcher shows. -/
def Plist.displayed (pl : Plist) : Option String := pl.cfBundleDisplayName <|> pl.cfBundleName

/-- What `plistlib.readPlist` finds. -/
inductive InfoPlist
  | plist (pl : Plist)
  | ioError
  /-- The file can be read and is no property list. -/
  | malformed
  deriving DecidableEq

end esc_platform.setup
