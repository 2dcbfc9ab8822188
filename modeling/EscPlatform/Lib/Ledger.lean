-- A ledger is a history of lists and writes: a list says which keys are
-- known, a write gives a value to a key that is known. What is known of a
-- key is its last write since the last list. A tree map can follow a ledger.
import Mathlib.Data.List.Infix
import Std.Data.TreeMap.Lemmas

namespace ledger

variable {K V P : Type}

inductive Entry (K V : Type)
  /-- From here on exactly these keys are known, with no value yet. -/
  | list (keys : List K)
  | write (key : K) (value : V)

def Entry.isList : Entry K V → Bool
  | .list _ => true
  | .write _ _ => false

/-- The keys of the last list. -/
def lastList (es : List (Entry K V)) : List K :=
  es.foldl (fun keys e => match e with
    | .list keys => keys
    | .write _ _ => keys) []

@[simp] theorem lastList_nil : lastList ([] : List (Entry K V)) = [] := rfl

theorem lastList_snoc (es : List (Entry K V)) (e : Entry K V) :
    lastList (es ++ [e]) = match e with
      | .list keys => keys
      | .write _ _ => lastList es := by
  simp only [lastList, List.foldl_append, List.foldl_cons, List.foldl_nil]

section known

variable [DecidableEq K]

/-- One entry changes what is known: `none` is a key that is not known, `some none` a key with no
value. -/
def after (known : K → Option (Option V)) : Entry K V → K → Option (Option V)
  | .list keys, k => if k ∈ keys then some none else none
  | .write key value, k => if k = key then (known k).map fun _ => some value else known k

/-- What the entries leave known of each key. -/
def known (es : List (Entry K V)) : K → Option (Option V) := es.foldl after fun _ => none

/-- The value of the last write of the key. -/
def lastWrite (k : K) (es : List (Entry K V)) : Option V :=
  (es.filterMap fun
    | .list _ => none
    | .write key value => if k = key then some value else none).getLast?

@[simp] theorem known_nil (k : K) : known ([] : List (Entry K V)) k = none := rfl

@[simp] theorem known_snoc (es : List (Entry K V)) (e : Entry K V) :
    known (es ++ [e]) = after (known es) e := by
  simp [known]

/-- The known keys are those of the last list. -/
theorem known_isSome (es : List (Entry K V)) (k : K) :
    (known es k).isSome = true ↔ k ∈ lastList es := by
  induction es using List.reverseRecOn with
  | nil => simp
  | append_singleton es e ih =>
    rw [known_snoc, lastList_snoc]
    cases e with
    | list keys => by_cases hk : k ∈ keys <;> simp [after, hk]
    | write key value =>
      simp only [after]
      split
      · rw [Option.isSome_map, ih]
      · exact ih

theorem lastWrite_snoc (k : K) (es : List (Entry K V)) (e : Entry K V) :
    lastWrite k (es ++ [e]) = match e with
      | .list _ => lastWrite k es
      | .write key value => if k = key then some value else lastWrite k es := by
  unfold lastWrite
  rw [List.filterMap_append]
  cases e with
  | list keys => simp
  | write key value => by_cases hk : k = key <;> simp [hk]

/-- Since a list, what is known of its keys is their last write. -/
theorem known_since_list (before : List (Entry K V)) (keys : List K) (es : List (Entry K V))
    (h : ∀ e ∈ es, e.isList = false) (k : K) :
    known (before ++ .list keys :: es) k = if k ∈ keys then some (lastWrite k es) else none := by
  induction es using List.reverseRecOn with
  | nil => simp [after, lastWrite]
  | append_singleton es e ih =>
    have hes : ∀ e ∈ es, e.isList = false := fun d hd => h d (by simp [hd])
    have hsnoc : before ++ .list keys :: (es ++ [e]) = (before ++ .list keys :: es) ++ [e] := by
      simp
    rw [hsnoc, known_snoc, lastWrite_snoc]
    cases e with
    | list keys' => exact absurd (h (.list keys') (by simp)) (by simp [Entry.isList])
    | write key value =>
      simp only [after, ih hes]
      by_cases hk : k = key <;> by_cases hkeys : k ∈ keys <;> simp [hk, hkeys]

end known

/-! ## A tree map that follows a ledger -/

section follows

variable [DecidableEq K] [Ord K]

/-- The map holds for each known key what `entryOf` makes of it, and nothing else. -/
def Follows (t : Std.TreeMap K P) (entryOf : K → Option V → P) (es : List (Entry K V)) : Prop :=
  ∀ k, t[k]? = (known es k).map (entryOf k)

/-- A write of a key that is not known changes nothing. -/
theorem Follows.write_unknown {t : Std.TreeMap K P} {entryOf : K → Option V → P}
    {es : List (Entry K V)} (h : Follows t entryOf es) {key : K} (hkey : t[key]? = none)
    (value : V) : Follows t entryOf (es ++ [.write key value]) := by
  intro k
  rw [known_snoc, h k]
  by_cases hk : k = key
  · subst hk
    have hknown : known es k = none := by
      have hk := h k
      rw [hkey] at hk
      exact Option.map_eq_none_iff.mp hk.symm
    simp [after, hknown]
  · simp [after, hk]

variable [Std.TransOrd K]

theorem follows_nil (entryOf : K → Option V → P) :
    Follows (∅ : Std.TreeMap K P) entryOf ([] : List (Entry K V)) := by
  intro k
  simp

variable [Std.LawfulEqOrd K]

/-- The loop that inserts an entry for each element unless its key is there. -/
theorem getElem?_foldl_insertIfNew {ι : Type} (key : ι → K) (f : K → P) (xs : List ι)
    (t : Std.TreeMap K P) (k : K) :
    (xs.foldl (fun t x => t.insertIfNew (key x) (f (key x))) t)[k]? =
      if k ∈ t then t[k]? else if k ∈ xs.map key then some (f k) else none := by
  induction xs generalizing t with
  | nil =>
    by_cases hk : k ∈ t <;> simp [hk]
  | cons x xs ih =>
    rw [List.foldl_cons, ih]
    by_cases hk : k ∈ t
    · -- the key was there, so the insertion keeps its entry
      have hmem : k ∈ t.insertIfNew (key x) (f (key x)) := by simp [hk]
      have hkeep : ¬ (compare (key x) k = .eq ∧ ¬ key x ∈ t) := by
        rintro ⟨hx, hnew⟩
        exact hnew (Std.compare_eq_iff_eq.mp hx ▸ hk)
      rw [if_pos hmem, if_pos hk, Std.TreeMap.getElem?_insertIfNew, if_neg hkeep]
    · by_cases hx : key x = k
      · subst hx
        have hmem : key x ∈ t.insertIfNew (key x) (f (key x)) := by simp
        rw [if_pos hmem, if_neg hk, Std.TreeMap.getElem?_insertIfNew, if_pos ⟨by simp, hk⟩]
        simp
      · simp [hk, hx, Ne.symm hx]

/-- A new list is a new map, filled by that loop. -/
theorem Follows.list {ι : Type} (entryOf : K → Option V → P) (key : ι → K) (xs : List ι)
    (es : List (Entry K V)) :
    Follows (xs.foldl (fun t x => t.insertIfNew (key x) (entryOf (key x) none)) ∅) entryOf
      (es ++ [.list (xs.map key)]) := by
  intro k
  rw [getElem?_foldl_insertIfNew key (fun k => entryOf k none), known_snoc]
  by_cases hk : k ∈ xs.map key <;> simp [after, hk]

/-- A write of a known key replaces its entry. -/
theorem Follows.write_known {t : Std.TreeMap K P} {entryOf : K → Option V → P}
    {es : List (Entry K V)} (h : Follows t entryOf es) {key : K} {p : P} (hkey : t[key]? = some p)
    (value : V) : Follows (t.insert key (entryOf key (some value))) entryOf
      (es ++ [.write key value]) := by
  intro k
  rw [known_snoc, Std.TreeMap.getElem?_insert]
  by_cases hk : key = k
  · subst hk
    have hknown := h key
    rw [hkey] at hknown
    obtain ⟨v, hv, -⟩ := Option.map_eq_some_iff.mp hknown.symm
    simp [after, hv]
  · simp [after, hk, Ne.symm hk, h k]

end follows

end ledger
