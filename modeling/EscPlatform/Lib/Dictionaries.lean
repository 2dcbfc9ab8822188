-- Dictionaries that are written item by item, in the order of their keys, and
-- read back. What the writer makes of a key or of a value is what a reader
-- finds, and of the items whose keys it makes equal, the last one.
import Std.Data.ExtTreeMap.Lemmas
import Mathlib.Data.List.Induction
import Mathlib.Data.List.Pairwise

namespace dictionaries

open Std

variable {κ ν : Type} [Ord κ] [TransOrd κ] [LawfulEqOrd κ]
variable {t : ExtTreeMap κ ν} {l : List (κ × ν)} {f : κ → κ} {g : ν → ν} {k : κ} {v : ν}

/-- What a reader finds of `t`, when the writer makes `f` of the keys and `g` of the values. -/
def rewrite (f : κ → κ) (g : ν → ν) (t : ExtTreeMap κ ν) : ExtTreeMap κ ν :=
  .ofList (t.toList.map fun item => (f item.1, g item.2))

omit [LawfulEqOrd κ] in
theorem ofList_append_singleton (l : List (κ × ν)) (item : κ × ν) :
    (ExtTreeMap.ofList (l ++ [item]) : ExtTreeMap κ ν) =
      (ExtTreeMap.ofList l : ExtTreeMap κ ν).insert item.1 item.2 := by
  simp only [ExtTreeMap.ofList_eq_foldl, List.foldl_append, List.foldl_cons, List.foldl_nil]

/-- Nothing is found that was not written. -/
theorem mem_of_getElem?_ofList (h : (ExtTreeMap.ofList l : ExtTreeMap κ ν)[k]? = some v) :
    (k, v) ∈ l := by
  induction l using List.reverseRecOn with
  | nil => simp at h
  | append_singleton l item ih =>
    rw [ofList_append_singleton, ExtTreeMap.getElem?_insert] at h
    split at h
    · next hkey =>
      rw [← Std.compare_eq_iff_eq.mp hkey, ← Option.some.inj h]
      simp
    · exact List.mem_append_left _ (ih h)

theorem mem_of_getElem?_rewrite (h : (rewrite f g t)[k]? = some v) :
    ∃ k₀ v₀, t[k₀]? = some v₀ ∧ f k₀ = k ∧ g v₀ = v := by
  obtain ⟨⟨k₀, v₀⟩, hmem, hitem⟩ := List.mem_map.mp (mem_of_getElem?_ofList h)
  obtain ⟨rfl, rfl⟩ := Prod.mk.inj hitem
  exact ⟨k₀, v₀, ExtTreeMap.mem_toList_iff_getElem?_eq_some.mp hmem, rfl, rfl⟩

/-- Every key is found as it was written. -/
theorem mem_rewrite_iff : k ∈ rewrite f g t ↔ ∃ k₀ ∈ t, f k₀ = k := by
  classical
  rw [rewrite, ExtTreeMap.mem_ofList, List.contains_iff_mem, List.map_map, List.mem_map]
  constructor
  · rintro ⟨⟨k₀, v₀⟩, hitem, rfl⟩
    have hget := ExtTreeMap.mem_toList_iff_getElem?_eq_some.mp hitem
    exact ⟨k₀, by simp [ExtTreeMap.mem_iff_isSome_getElem?, hget], rfl⟩
  · rintro ⟨k₀, hk₀, rfl⟩
    obtain ⟨v₀, hget⟩ := Option.isSome_iff_exists.mp (ExtTreeMap.mem_iff_isSome_getElem?.mp hk₀)
    exact ⟨(k₀, v₀), ExtTreeMap.mem_toList_iff_getElem?_eq_some.mpr hget, rfl⟩

/-- Where no two keys become equal, each item is found. -/
theorem getElem?_rewrite
    (hf : ∀ k₁ k₂, k₁ ∈ t → k₂ ∈ t → f k₁ = f k₂ → k₁ = k₂) (h : t[k]? = some v) :
    (rewrite f g t)[f k]? = some (g v) := by
  apply ExtTreeMap.getElem?_ofList_of_mem (k := f k) (Std.compare_eq_iff_eq.mpr rfl)
  · rw [List.pairwise_map]
    have hkeys : ∀ item ∈ t.toList, item.1 ∈ t := by
      intro item hitem
      have hget := ExtTreeMap.mem_toList_iff_getElem?_eq_some.mp hitem
      simp [ExtTreeMap.mem_iff_isSome_getElem?, hget]
    apply (ExtTreeMap.distinct_keys_toList (t := t)).imp_of_mem
    intro a b ha hb hne heq
    apply hne
    rw [Std.compare_eq_iff_eq]
    exact hf _ _ (hkeys a ha) (hkeys b hb) (Std.compare_eq_iff_eq.mp heq)
  · exact List.mem_map.mpr ⟨(k, v), ExtTreeMap.mem_toList_iff_getElem?_eq_some.mpr h, rfl⟩

/-- A writer that changes neither a key nor a value gives the dictionary back. -/
theorem rewrite_eq_self (h : ∀ k v, t[k]? = some v → f k = k ∧ g v = v) : rewrite f g t = t := by
  have hmem : ∀ (k : κ) (v : ν), (rewrite f g t)[k]? = some v → t[k]? = some v := by
    intro k v hkv
    obtain ⟨k₀, v₀, hget, rfl, rfl⟩ := mem_of_getElem?_rewrite hkv
    obtain ⟨hk, hv⟩ := h k₀ v₀ hget
    rwa [hk, hv]
  have hinj : ∀ k₁ k₂, k₁ ∈ t → k₂ ∈ t → f k₁ = f k₂ → k₁ = k₂ := by
    intro k₁ k₂ h₁ h₂ heq
    obtain ⟨v₁, hv₁⟩ := Option.isSome_iff_exists.mp (ExtTreeMap.mem_iff_isSome_getElem?.mp h₁)
    obtain ⟨v₂, hv₂⟩ := Option.isSome_iff_exists.mp (ExtTreeMap.mem_iff_isSome_getElem?.mp h₂)
    rwa [(h k₁ v₁ hv₁).1, (h k₂ v₂ hv₂).1] at heq
  apply ExtTreeMap.ext_getElem?
  intro k
  rcases hget : t[k]? with _ | v
  · rcases hwrite : (rewrite f g t)[k]? with _ | v
    · rfl
    · exact absurd ((hmem k v hwrite).symm.trans hget) (by simp)
  · have hwrite := getElem?_rewrite (g := g) hinj hget
    obtain ⟨hk, hv⟩ := h k v hget
    rwa [hk, hv] at hwrite

/-- What a reader finds is written as it is. -/
theorem rewrite_rewrite (hf : ∀ k, f (f k) = f k) (hg : ∀ v, g (g v) = g v) :
    rewrite f g (rewrite f g t) = rewrite f g t := by
  apply rewrite_eq_self
  intro k v h
  obtain ⟨k₀, v₀, -, rfl, rfl⟩ := mem_of_getElem?_rewrite h
  exact ⟨hf k₀, hg v₀⟩

end dictionaries
