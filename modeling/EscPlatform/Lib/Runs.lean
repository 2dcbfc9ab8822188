-- Runs of a deterministic machine over a list of actions. A property of
-- every state of a run is reduced to a condition on every step, and a
-- monitor remembers what a property needs of the history.
import Mathlib.Data.List.Infix

namespace runs

variable {σ μ α : Type}

/-- The state after the actions `as`, one after the other. -/
def run (step : σ → α → σ) (s : σ) (as : List α) : σ := as.foldl step s

section laws

variable {step : σ → α → σ} {s : σ} {a : α} {as bs : List α}

@[simp] theorem run_nil : run step s [] = s := rfl

@[simp] theorem run_cons : run step s (a :: as) = run step (step s a) as := rfl

@[simp] theorem run_append : run step s (as ++ bs) = run step (run step s as) bs :=
  List.foldl_append

/-- What every step preserves, every run preserves. -/
theorem run_inv {I : σ → Prop} (hstep : ∀ s a, I s → I (step s a)) (h : I s) :
    I (run step s as) := by
  induction as generalizing s with
  | nil => exact h
  | cons a as ih => exact ih (hstep s a h)

/-! ## Every state and every step of a run -/

/-- Every state of the run, the first and the last one included, meets `P`. -/
def Always (step : σ → α → σ) (P : σ → Prop) (s : σ) (as : List α) : Prop :=
  ∀ bs, bs <+: as → P (run step s bs)

/-- Every step of the run meets `C`, which sees the state before the step and its action. -/
def EachStep (step : σ → α → σ) (C : σ → α → Prop) (s : σ) (as : List α) : Prop :=
  ∀ bs a, bs ++ [a] <+: as → C (run step s bs) a

theorem always_nil {P : σ → Prop} : Always step P s [] ↔ P s := by
  constructor
  · intro h
    exact h [] List.nil_prefix
  · intro h bs hbs
    rwa [List.prefix_nil.mp hbs]

theorem always_cons {P : σ → Prop} :
    Always step P s (a :: as) ↔ P s ∧ Always step P (step s a) as := by
  constructor
  · intro h
    exact ⟨h [] List.nil_prefix, fun bs hbs => h (a :: bs) (List.cons_prefix_cons.mpr ⟨rfl, hbs⟩)⟩
  · rintro ⟨hs, h⟩ bs hbs
    rcases List.prefix_cons_iff.mp hbs with rfl | ⟨cs, rfl, hcs⟩
    · exact hs
    · exact h cs hcs

theorem eachStep_nil {C : σ → α → Prop} : EachStep step C s [] := by
  intro bs a h
  simpa using List.prefix_nil.mp h

theorem eachStep_cons {C : σ → α → Prop} :
    EachStep step C s (a :: as) ↔ C s a ∧ EachStep step C (step s a) as := by
  constructor
  · intro h
    refine ⟨h [] a (by simp), fun bs b hbs => ?_⟩
    exact h (a :: bs) b (List.cons_prefix_cons.mpr ⟨rfl, hbs⟩)
  · rintro ⟨hs, h⟩ bs b hbs
    cases bs with
    | nil =>
      obtain ⟨rfl, -⟩ := List.cons_prefix_cons.mp hbs
      exact hs
    | cons c bs =>
      obtain ⟨rfl, hpre⟩ := List.cons_prefix_cons.mp hbs
      exact h bs b hpre

theorem eachStep_append {C : σ → α → Prop} :
    EachStep step C s (as ++ bs) ↔ EachStep step C s as ∧ EachStep step C (run step s as) bs := by
  induction as generalizing s with
  | nil => simp [eachStep_nil]
  | cons a as ih => rw [List.cons_append, eachStep_cons, eachStep_cons, ih, run_cons, and_assoc]

/-- What a step that meets `C` preserves, a run whose steps all meet `C` preserves. -/
theorem run_inv_of_eachStep {I : σ → Prop} {C : σ → α → Prop}
    (hstep : ∀ s a, I s → C s a → I (step s a)) (h : I s) (hc : EachStep step C s as) :
    I (run step s as) := by
  induction as generalizing s with
  | nil => exact h
  | cons a as ih =>
    rw [eachStep_cons] at hc
    exact ih (hstep s a h hc.1) hc.2

/-- Two conditions that agree wherever `I` holds agree on runs. -/
theorem eachStep_congr {I : σ → Prop} {C D : σ → α → Prop}
    (hI : ∀ s a, I s → I (step s a)) (hCD : ∀ s a, I s → (C s a ↔ D s a)) (hi : I s) :
    EachStep step C s as ↔ EachStep step D s as := by
  induction as generalizing s with
  | nil => exact iff_of_true eachStep_nil eachStep_nil
  | cons a as ih => rw [eachStep_cons, eachStep_cons, hCD s a hi, ih (hI s a hi)]

/-- A condition on the actions alone. -/
theorem eachStep_const {C : α → Prop} :
    EachStep step (fun _ a => C a) s as ↔ ∀ a ∈ as, C a := by
  induction as generalizing s with
  | nil => exact iff_of_true eachStep_nil (by simp)
  | cons a as ih => rw [eachStep_cons, ih, List.forall_mem_cons]

theorem EachStep.of_prefix {C : σ → α → Prop} (h : EachStep step C s as) (hpre : bs <+: as) :
    EachStep step C s bs :=
  fun cs a hcs => h cs a (hcs.trans hpre)

/-- When a step keeps `P` exactly where it meets `C`, a run keeps `P` in every state exactly
where each of its steps meets `C`. The invariant `I` holds in any case. -/
theorem always_iff_eachStep {I P : σ → Prop} {C : σ → α → Prop}
    (hI : ∀ s a, I s → I (step s a)) (hP : ∀ s a, I s → P s → (P (step s a) ↔ C s a))
    (hi : I s) (hs : P s) : Always step P s as ↔ EachStep step C s as := by
  induction as generalizing s with
  | nil => exact ⟨fun _ => eachStep_nil, fun _ => always_nil.mpr hs⟩
  | cons a as ih =>
    rw [always_cons, eachStep_cons]
    constructor
    · rintro ⟨-, h⟩
      have hnext : P (step s a) := h [] List.nil_prefix
      exact ⟨(hP s a hi hs).mp hnext, (ih (hI s a hi) hnext).mp h⟩
    · rintro ⟨hc, h⟩
      have hnext := (hP s a hi hs).mpr hc
      exact ⟨hs, (ih (hI s a hi) hnext).mpr h⟩

/-! ## A measure that never falls -/

section measures

variable {m : σ → Nat} {p : α → Bool}

/-- A measure that the actions with `p` raise and the others leave alone counts the actions with
`p`, and is back at the end of a run exactly where there was none. -/
theorem measure_run_count (hstay : ∀ s a, p a = false → m (step s a) = m s)
    (hrise : ∀ s a, p a = true → m s < m (step s a)) (s : σ) (as : List α) :
    m s + as.countP p ≤ m (run step s as) ∧
      (m (run step s as) = m s ↔ ∀ a ∈ as, p a = false) := by
  induction as generalizing s with
  | nil => simp [run]
  | cons a as ih =>
    obtain ⟨hcount, hback⟩ := ih (step s a)
    rw [run_cons, List.countP_cons, List.forall_mem_cons]
    by_cases h : p a = true
    · have hfirst := hrise s a h
      rw [if_pos h]
      refine ⟨by omega, iff_of_false (by omega) fun hall => ?_⟩
      rw [hall.1] at h
      cases h
    · have hfirst := hstay s a (Bool.eq_false_iff.mpr h)
      rw [hfirst] at hcount hback
      rw [if_neg h]
      exact ⟨by omega, hback.trans (and_iff_right (Bool.eq_false_iff.mpr h)).symm⟩

end measures

end laws

/-! ## Threads that take turns -/

/-- Several threads work on one state. A step of a busy thread lowers the rank, no step raises it,
and a busy thread stays busy while the others work. -/
structure TakesTurns {ι : Type} (step : σ → α → σ) (thread : α → ι) (ok : α → Prop) (I : σ → Prop)
    (busy : ι → σ → Prop) (rank : σ → Nat) : Prop where
  keeps : ∀ s a, ok a → I s → I (step s a)
  lowers : ∀ s a, ok a → I s → busy (thread a) s → rank (step s a) < rank s
  stays : ∀ s a, ok a → I s → rank (step s a) ≤ rank s
  waits : ∀ s a i, ok a → I s → thread a ≠ i → busy i s → busy i (step s a)
  works : ∀ s, I s → 0 < rank s → ∃ i, busy i s

section rounds

variable {ι : Type} {step : σ → α → σ} {thread : α → ι} {ok : α → Prop} {I : σ → Prop}
  {busy : ι → σ → Prop} {rank : σ → Nat} {s : σ}

theorem TakesTurns.run_le (h : TakesTurns step thread ok I busy rank) {as : List α}
    (hok : ∀ a ∈ as, ok a) (hi : I s) : I (run step s as) ∧ rank (run step s as) ≤ rank s := by
  induction as generalizing s with
  | nil => exact ⟨hi, le_rfl⟩
  | cons a as ih =>
    obtain ⟨ha, has⟩ := List.forall_mem_cons.mp hok
    obtain ⟨hlast, hle⟩ := ih has (h.keeps s a ha hi)
    exact ⟨hlast, hle.trans (h.stays s a ha hi)⟩

/-- Steps with one of a busy thread among them. -/
theorem TakesTurns.run_lt (h : TakesTurns step thread ok I busy rank) {as : List α}
    (hok : ∀ a ∈ as, ok a) (hi : I s) {i : ι} (hbusy : busy i s) (hmem : ∃ a ∈ as, thread a = i) :
    rank (run step s as) < rank s := by
  induction as generalizing s with
  | nil => simp at hmem
  | cons a as ih =>
    obtain ⟨ha, has⟩ := List.forall_mem_cons.mp hok
    have hnext := h.keeps s a ha hi
    by_cases hthread : thread a = i
    · have hlow := h.lowers s a ha hi (by rwa [hthread])
      exact lt_of_le_of_lt (h.run_le has hnext).2 hlow
    · have hrest : ∃ b ∈ as, thread b = i := by
        obtain ⟨b, hb, hbi⟩ := hmem
        rcases List.mem_cons.mp hb with rfl | hb
        · exact absurd hbi hthread
        · exact ⟨b, hb, hbi⟩
      have hlow := ih has hnext (h.waits s a i ha hi hthread hbusy) hrest
      exact lt_of_lt_of_le hlow (h.stays s a ha hi)

/-- As many rounds as the rank says, with a step of every thread in each of them, end all work. -/
theorem TakesTurns.rounds (h : TakesTurns step thread ok I busy rank) {rounds : List (List α)}
    (hround : ∀ as ∈ rounds, (∀ a ∈ as, ok a) ∧ ∀ i, ∃ a ∈ as, thread a = i) (hi : I s)
    (hlength : rank s ≤ rounds.length) :
    I (run step s rounds.flatten) ∧ rank (run step s rounds.flatten) = 0 := by
  induction rounds generalizing s with
  | nil => exact ⟨hi, Nat.le_zero.mp hlength⟩
  | cons as rounds ih =>
    obtain ⟨⟨hok, hall⟩, hrest⟩ := List.forall_mem_cons.mp hround
    obtain ⟨hnext, hle⟩ := h.run_le hok hi
    rw [List.flatten_cons, run_append]
    apply ih hrest hnext
    rw [List.length_cons] at hlength
    by_cases hrank : 0 < rank s
    · obtain ⟨i, hbusy⟩ := h.works s hi hrank
      have hlow := h.run_lt hok hi hbusy (hall i)
      omega
    · omega

end rounds

/-! ## Monitors -/

/-- The machine with a monitor beside it, which sees the state before a step, its action and
the state after it. -/
def monitored (step : σ → α → σ) (see : μ → σ → α → σ → μ) (s : σ × μ) (a : α) : σ × μ :=
  (step s.1 a, see s.2 s.1 a (step s.1 a))

/-- A monitor does not change the run. -/
theorem run_monitored_fst (step : σ → α → σ) (see : μ → σ → α → σ → μ) (s : σ × μ)
    (as : List α) : (run (monitored step see) s as).1 = run step s.1 as := by
  induction as generalizing s with
  | nil => rfl
  | cons a as ih => exact ih _

/-- A condition that does not look at the monitor. -/
theorem eachStep_monitored (step : σ → α → σ) (see : μ → σ → α → σ → μ) (C : σ → α → Prop)
    (s : σ × μ) (as : List α) :
    EachStep (monitored step see) (fun s a => C s.1 a) s as ↔ EachStep step C s.1 as := by
  unfold EachStep
  simp only [run_monitored_fst]

end runs
