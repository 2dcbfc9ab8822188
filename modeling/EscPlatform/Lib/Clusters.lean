-- Lists cut into clusters: an element joins the cluster before it, or starts
-- one. Separators start clusters wherever they stand, but the element behind
-- a separator may join it, and then a search for the separator passes it by.
import Mathlib.Algebra.Ring.Nat
import Mathlib.Data.List.Flatten
import Mathlib.Data.List.Infix

namespace clustering

variable {α : Type}

/-! ## Clusters -/

/-- The clusters of a list, behind the cluster `cur`. -/
def clusterFrom (joins : List α → α → Bool) : List α → List α → List (List α)
  | cur, [] => [cur]
  | cur, x :: l =>
    if joins cur x then clusterFrom joins (cur ++ [x]) l else cur :: clusterFrom joins [x] l

def clusters (joins : List α → α → Bool) : List α → List (List α)
  | [] => []
  | x :: l => clusterFrom joins [x] l

/-- The element never joins. -/
def Starts (joins : List α → α → Bool) (x : α) : Prop := ∀ cur, joins cur x = false

/-- Nothing joins the element in front of this list. -/
def alone (joins : List α → α → Bool) (x : α) : List α → Bool
  | [] => true
  | y :: _ => !joins [x] y

variable {joins : List α → α → Bool} {x y : α}

theorem flatten_clusterFrom (joins : List α → α → Bool) (cur l : List α) :
    (clusterFrom joins cur l).flatten = cur ++ l := by
  induction l generalizing cur with
  | nil => simp [clusterFrom]
  | cons x l ih =>
    unfold clusterFrom
    split
    · rw [ih]
      simp
    · simp [ih]

theorem flatten_clusters (joins : List α → α → Bool) (l : List α) :
    (clusters joins l).flatten = l := by
  cases l with
  | nil => rfl
  | cons x l => exact flatten_clusterFrom joins [x] l

theorem ne_nil_of_mem_clusterFrom {cur : List α} (hcur : cur ≠ []) (l : List α) :
    ∀ cluster ∈ clusterFrom joins cur l, cluster ≠ [] := by
  induction l generalizing cur with
  | nil => simpa [clusterFrom] using hcur
  | cons x l ih =>
    unfold clusterFrom
    split
    · exact ih (by simp)
    · intro cluster hmem
      rcases List.mem_cons.mp hmem with heq | hrest
      · rwa [heq]
      · exact ih (by simp) cluster hrest

theorem ne_nil_of_mem_clusters (l : List α) : ∀ cluster ∈ clusters joins l, cluster ≠ [] := by
  cases l with
  | nil => simp [clusters]
  | cons x l => exact ne_nil_of_mem_clusterFrom (by simp) l

/-- A sublist with the same text has lost no cluster. -/
theorem eq_of_flatten_eq {v w : List (List α)} (hsub : v.Sublist w) (hne : ∀ c ∈ w, c ≠ [])
    (hflat : v.flatten = w.flatten) : v = w := by
  induction hsub with
  | slnil => rfl
  | @cons v w c hsub ih =>
    have hle := hsub.flatten.length_le
    have hpos := List.length_pos_iff.mpr (hne c (by simp))
    rw [hflat, List.flatten_cons, List.length_append] at hle
    omega
  | @cons_cons v w c hsub ih =>
    rw [List.flatten_cons, List.flatten_cons] at hflat
    rw [ih (fun d hd => hne d (List.mem_cons_of_mem _ hd)) (List.append_cancel_left hflat)]

theorem clusterFrom_append (hx : Starts joins x) (cur a b : List α) :
    clusterFrom joins cur (a ++ x :: b) =
      clusterFrom joins cur a ++ clusterFrom joins [x] b := by
  induction a generalizing cur with
  | nil => simp [clusterFrom, hx cur]
  | cons y a ih =>
    simp only [List.cons_append, clusterFrom]
    split
    · exact ih _
    · rw [ih, List.cons_append]

/-- An element that starts a cluster cuts the clusters in two. -/
theorem clusters_append (hx : Starts joins x) (a b : List α) :
    clusters joins (a ++ x :: b) = clusters joins a ++ clusterFrom joins [x] b := by
  cases a with
  | nil => rfl
  | cons y a => exact clusterFrom_append hx [y] a b

theorem clusterFrom_alone {l : List α} (h : alone joins x l = true) :
    clusterFrom joins [x] l = [x] :: clusters joins l := by
  cases l with
  | nil => rfl
  | cons y l =>
    simp only [alone, Bool.not_eq_true'] at h
    simp [clusterFrom, clusters, h]

theorem clusters_of_starts {l : List α} (h : ∀ x ∈ l, Starts joins x) :
    clusters joins l = l.map fun x => [x] := by
  induction l with
  | nil => rfl
  | cons x l ih =>
    have hrest := ih fun y hy => h y (List.mem_cons_of_mem _ hy)
    have halone : alone joins x l = true := by
      cases l with
      | nil => rfl
      | cons y l => simp [alone, h y (by simp) [x]]
    rw [clusters, clusterFrom_alone halone, hrest, List.map_cons]

theorem not_mem_clusters {l : List α} (h : x ∉ l) : [x] ∉ clusters joins l := by
  intro hmem
  have hflat : x ∈ (clusters joins l).flatten := List.mem_flatten.mpr ⟨[x], hmem, by simp⟩
  rw [flatten_clusters] at hflat
  exact h hflat

/-- A cluster only grows while elements join it. -/
theorem head_clusterFrom (joins : List α → α → Bool) (cur l : List α) :
    ∃ more rest, clusterFrom joins cur l = (cur ++ more) :: rest := by
  induction l generalizing cur with
  | nil => exact ⟨[], [], by simp [clusterFrom]⟩
  | cons x l ih =>
    unfold clusterFrom
    split
    · obtain ⟨more, rest, heq⟩ := ih (cur ++ [x])
      exact ⟨x :: more, rest, by simpa using heq⟩
    · exact ⟨[], clusterFrom joins [x] l, by simp⟩

/-- An element that is joined is no cluster. -/
theorem head_clusterFrom_of_not_alone {l : List α} (h : alone joins x l = false) :
    ∃ y more rest, clusterFrom joins [x] l = (x :: y :: more) :: rest := by
  cases l with
  | nil => simp [alone] at h
  | cons y l =>
    have hjoin : joins [x] y = true := by simpa [alone] using h
    obtain ⟨more, rest, heq⟩ := head_clusterFrom joins [x, y] l
    exact ⟨y, more, rest, by simpa [clusterFrom, hjoin] using heq⟩

/-- What stands behind a text does not matter, if it starts a cluster. -/
theorem alone_append (hy : Starts joins y) (l rest : List α) :
    alone joins x (l ++ y :: rest) = alone joins x l := by
  cases l with
  | nil => simp [alone, hy [x]]
  | cons z l => rfl

/-- A cluster in which `x` stands alone only if it is all of it. -/
def Closed (joins : List α → α → Bool) (x : α) (cluster : List α) : Prop :=
  x ∉ cluster.tail ∧
    (cluster.head? = some x → cluster.tail = [] ∨ alone joins x cluster.tail = false)

theorem Closed.snoc {cur : List α} (h : Closed joins x cur) (hcur : cur ≠ [])
    (hx : Starts joins x) (hjoin : joins cur y = true) : Closed joins x (cur ++ [y]) := by
  have hne : x ≠ y := by
    rintro rfl
    simp [hx cur] at hjoin
  cases cur with
  | nil => exact absurd rfl hcur
  | cons z t =>
    refine ⟨by simpa [hne] using h.1, fun hz => Or.inr ?_⟩
    have hzx : z = x := by simpa using hz
    subst hzx
    cases t with
    | nil => simpa [alone] using hjoin
    | cons w t => simpa [alone] using h.2 rfl

theorem closed_clusterFrom (hx : Starts joins x) {cur : List α} (hcur : cur ≠ [])
    (h : Closed joins x cur) (l : List α) :
    ∀ cluster ∈ clusterFrom joins cur l, Closed joins x cluster := by
  induction l generalizing cur with
  | nil =>
    intro cluster hmem
    rwa [List.mem_singleton.mp hmem]
  | cons y l ih =>
    unfold clusterFrom
    split
    · next hjoin => exact ih (by simp) (h.snoc hcur hx hjoin)
    · intro cluster hmem
      rcases List.mem_cons.mp hmem with heq | hrest
      · rwa [heq]
      · exact ih (by simp) ⟨by simp, fun _ => Or.inl rfl⟩ cluster hrest

theorem closed_clusters (hx : Starts joins x) (l : List α) :
    ∀ cluster ∈ clusters joins l, Closed joins x cluster := by
  cases l with
  | nil => simp [clusters]
  | cons y l => exact closed_clusterFrom hx (by simp) ⟨by simp, fun _ => Or.inl rfl⟩ l

/-! ## Elements that stand alone -/

section Lone

variable [DecidableEq α]

/-- How often an element stands alone in a list. -/
def lone (joins : List α → α → Bool) (x : α) : List α → Nat
  | [] => 0
  | y :: l => (if y = x ∧ alone joins x l = true then 1 else 0) + lone joins x l

theorem count_clusterFrom (hx : Starts joins x) {cur : List α} (hcur : cur ≠ []) (l : List α) :
    (clusterFrom joins cur l).count [x] =
      (if cur = [x] ∧ alone joins x l = true then 1 else 0) + lone joins x l := by
  induction l generalizing cur with
  | nil => simp [clusterFrom, lone, alone, List.count_singleton, beq_iff_eq]
  | cons y l ih =>
    unfold clusterFrom
    by_cases hjoin : joins cur y = true
    · have hne : y ≠ x := by
        rintro rfl
        simp [hx cur] at hjoin
      have hnot : ¬ (cur = [x] ∧ alone joins x (y :: l) = true) := by
        rintro ⟨rfl, halone⟩
        simp [alone, hjoin] at halone
      have hopen : cur ++ [y] ≠ [x] := by
        intro h
        have hlen := congrArg List.length h
        have hpos := List.length_pos_iff.mpr hcur
        simp only [List.length_append, List.length_singleton] at hlen
        omega
      rw [if_pos hjoin, ih (by simp), if_neg hnot, if_neg (fun h => hopen h.1)]
      simp [lone, hne]
    · have halone : cur = [x] → alone joins x (y :: l) = true := by
        rintro rfl
        simpa [alone] using hjoin
      rw [if_neg hjoin, List.count_cons, ih (by simp)]
      by_cases hcx : cur = [x]
      · simp [hcx, halone hcx, lone]
        omega
      · simp [hcx, lone]

/-- The clusters of one element `x` are the places where it stands alone. -/
theorem count_clusters (hx : Starts joins x) (l : List α) :
    (clusters joins l).count [x] = lone joins x l := by
  cases l with
  | nil => rfl
  | cons y l =>
    rw [clusters, count_clusterFrom hx (by simp)]
    simp [lone]

theorem lone_eq_zero {l : List α} (h : x ∉ l) : lone joins x l = 0 := by
  induction l with
  | nil => rfl
  | cons y l ih =>
    simp only [List.mem_cons, not_or] at h
    simp [lone, Ne.symm h.1, ih h.2]

theorem lone_append (hy : Starts joins y) (a b : List α) :
    lone joins x (a ++ y :: b) = lone joins x a + lone joins x (y :: b) := by
  induction a with
  | nil => simp [lone]
  | cons z a ih =>
    simp only [List.cons_append, lone, alone_append hy, ih]
    omega

theorem lone_cons_of_ne (h : y ≠ x) (l : List α) :
    lone joins x (y :: l) = lone joins x l := by simp [lone, h]

theorem lone_append_of_not_mem {a : List α} (h : x ∉ a) (b : List α) :
    lone joins x (a ++ b) = lone joins x b := by
  induction a with
  | nil => rfl
  | cons y a ih =>
    simp only [List.mem_cons, not_or] at h
    rw [List.cons_append, lone_cons_of_ne (Ne.symm h.1), ih h.2]

/-- Closed clusters, none of them `[x]`, have no lone `x`, in whatever order they stand. -/
theorem lone_flatten {v : List (List α)} (hclosed : ∀ cluster ∈ v, Closed joins x cluster)
    (hmem : [x] ∉ v) : lone joins x v.flatten = 0 := by
  induction v with
  | nil => rfl
  | cons cluster v ih =>
    simp only [List.mem_cons, not_or] at hmem
    have hrest := ih (fun c hc => hclosed c (List.mem_cons_of_mem _ hc)) hmem.2
    obtain ⟨htail, hhead⟩ := hclosed cluster (by simp)
    rw [List.flatten_cons]
    cases cluster with
    | nil => exact hrest
    | cons y t =>
      rw [List.tail_cons] at htail hhead
      rw [List.cons_append, lone, lone_append_of_not_mem htail, hrest]
      have hnot : ¬ (y = x ∧ alone joins x (t ++ v.flatten) = true) := by
        rintro ⟨rfl, halone⟩
        rcases hhead rfl with hnil | hjoin
        · exact hmem.1 (by simpa using hnil)
        · cases t with
          | nil => simp [alone] at hjoin
          | cons z t => simp_all [alone]
      simp [hnot]

end Lone

/-! ## Pairs -/

/-- Keys and values, one pair after the other. -/
def pairsText (sep eq : α) (items : List (List α × List α)) : List α :=
  [sep].intercalate (items.map fun item => item.1 ++ eq :: item.2)

variable {sep eq : α}

theorem pairsText_singleton (item : List α × List α) :
    pairsText sep eq [item] = item.1 ++ eq :: item.2 := by simp [pairsText]

theorem pairsText_cons_cons (item next : List α × List α) (items : List (List α × List α)) :
    pairsText sep eq (item :: next :: items) =
      item.1 ++ eq :: (item.2 ++ sep :: pairsText sep eq (next :: items)) := by
  simp [pairsText]

/-- Nothing joins the separator in front of a pair, unless it joins it in front of the key. -/
theorem alone_pairsText (heq : Starts joins eq) (item : List α × List α)
    (items : List (List α × List α)) :
    alone joins x (pairsText sep eq (item :: items)) = alone joins x item.1 := by
  cases items with
  | nil => rw [pairsText_singleton, alone_append heq]
  | cons next items => rw [pairsText_cons_cons, alone_append heq]

/-- Where nothing joins a separator, the clusters are those of the keys and of the values. -/
theorem clusters_pairsText (hsep : Starts joins sep) (heq : Starts joins eq)
    (items : List (List α × List α))
    (hkey : ∀ item ∈ items.tail, alone joins sep item.1 = true)
    (hvalue : ∀ item ∈ items, alone joins eq item.2 = true) :
    clusters joins (pairsText sep eq items) =
      pairsText [sep] [eq]
        (items.map fun item => (clusters joins item.1, clusters joins item.2)) := by
  induction items with
  | nil => rfl
  | cons item items ih =>
    have hval := hvalue item (by simp)
    cases items with
    | nil =>
      rw [List.map_singleton, pairsText_singleton, pairsText_singleton, clusters_append heq,
        clusterFrom_alone hval]
    | cons next items =>
      have hrest := ih (fun i hi => hkey i (List.mem_of_mem_tail hi))
        (fun i hi => hvalue i (List.mem_cons_of_mem _ hi))
      have hnext : alone joins sep (pairsText sep eq (next :: items)) = true := by
        rw [alone_pairsText heq]
        exact hkey next (by simp)
      rw [pairsText_cons_cons, clusters_append heq, clusterFrom_alone (by rwa [alone_append hsep]),
        clusters_append hsep, clusterFrom_alone hnext, hrest]
      simp only [List.map_cons]
      rw [pairsText_cons_cons]

theorem splitOn_pairsText [BEq α] [LawfulBEq α] (hne : sep ≠ eq) {items : List (List α × List α)}
    (hitems : items ≠ []) (h : ∀ item ∈ items, sep ∉ item.1 ∧ sep ∉ item.2) :
    (pairsText sep eq items).splitOn sep = items.map fun item => item.1 ++ eq :: item.2 := by
  refine List.splitOn_intercalate sep ?_ (by simpa using hitems)
  intro l hl
  obtain ⟨item, hmem, rfl⟩ := List.mem_map.mp hl
  simp [h item hmem, hne]

section Lone

variable [DecidableEq α]

/-- How often `x` stands alone in the keys and in the values. -/
def loneInside (joins : List α → α → Bool) (x : α) (items : List (List α × List α)) : Nat :=
  (items.map fun item => lone joins x item.1 + lone joins x item.2).sum

theorem loneInside_eq_zero {items : List (List α × List α)}
    (h : ∀ item ∈ items, lone joins x item.1 = 0 ∧ lone joins x item.2 = 0) :
    loneInside joins x items = 0 := by
  induction items with
  | nil => rfl
  | cons item items ih =>
    have hrest := ih fun i hi => h i (List.mem_cons_of_mem _ hi)
    have hitem := h item (by simp)
    unfold loneInside at hrest ⊢
    rw [List.map_cons, List.sum_cons, hrest, hitem.1, hitem.2]

/-- The separators of the pairs that stand alone: those in front of the later keys. -/
theorem lone_sep_pairsText (hsep : Starts joins sep) (heq : Starts joins eq) (hne : sep ≠ eq)
    (item : List α × List α) (items : List (List α × List α)) :
    lone joins sep (pairsText sep eq (item :: items)) =
      loneInside joins sep (item :: items) +
        items.countP fun later => alone joins sep later.1 := by
  induction items generalizing item with
  | nil =>
    rw [pairsText_singleton, lone_append heq, lone_cons_of_ne (Ne.symm hne)]
    simp [loneInside]
  | cons next items ih =>
    rw [pairsText_cons_cons, lone_append heq, lone_cons_of_ne (Ne.symm hne), lone_append hsep,
      lone, alone_pairsText heq, ih]
    simp only [loneInside, List.map_cons, List.sum_cons, List.countP_cons, true_and]
    omega

theorem lone_eq_pairsText (hsep : Starts joins sep) (heq : Starts joins eq) (hne : sep ≠ eq)
    (item : List α × List α) (items : List (List α × List α)) :
    lone joins eq (pairsText sep eq (item :: items)) =
      loneInside joins eq (item :: items) +
        (item :: items).countP fun pair => alone joins eq pair.2 := by
  induction items generalizing item with
  | nil =>
    rw [pairsText_singleton, lone_append heq, lone]
    simp only [loneInside, List.map_cons, List.map_nil, List.sum_cons, List.sum_nil,
      List.countP_cons, List.countP_nil, true_and]
    omega
  | cons next items ih =>
    rw [pairsText_cons_cons, lone_append heq, lone, alone_append hsep, lone_append hsep,
      lone_cons_of_ne hne, ih]
    simp only [loneInside, List.map_cons, List.sum_cons, List.countP_cons, true_and]
    omega

end Lone

end clustering
