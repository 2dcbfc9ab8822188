-- Machines that answer each action. A relation between the states of two
-- machines that every action keeps, with the same answer on both sides,
-- makes the machines answer alike over whole runs.
import EscPlatform.Lib.Runs

namespace simulation

variable {σ τ α ο : Type}

/-- The answers to the actions `as`, one after the other. -/
def answers (m : σ → α → ο × σ) : σ → List α → List ο
  | _, [] => []
  | s, a :: as => (m s a).1 :: answers m (m s a).2 as

/-- The state after the actions `as`. -/
def last (m : σ → α → ο × σ) (s : σ) (as : List α) : σ := runs.run (fun s a => (m s a).2) s as

/-- Every action gets the same answer on both sides, and `R` holds again behind it. -/
def Simulates (R : σ → τ → Prop) (m : σ → α → ο × σ) (n : τ → α → ο × τ) : Prop :=
  ∀ s t a, R s t → (m s a).1 = (n t a).1 ∧ R (m s a).2 (n t a).2

variable {R : σ → τ → Prop} {m : σ → α → ο × σ} {n : τ → α → ο × τ} {s : σ} {t : τ}

theorem answers_append (as bs : List α) :
    answers m s (as ++ bs) = answers m s as ++ answers m (last m s as) bs := by
  induction as generalizing s with
  | nil => rfl
  | cons a as ih => exact congrArg ((m s a).1 :: ·) ih

theorem last_append (as bs : List α) : last m s (as ++ bs) = last m (last m s as) bs :=
  runs.run_append

/-- Related states answer every run alike and stay related. -/
theorem Simulates.run (h : Simulates R m n) (hR : R s t) (as : List α) :
    answers m s as = answers n t as ∧ R (last m s as) (last n t as) := by
  induction as generalizing s t with
  | nil => exact ⟨rfl, hR⟩
  | cons a as ih =>
    obtain ⟨hanswer, hnext⟩ := h s t a hR
    obtain ⟨hanswers, hlast⟩ := ih hnext
    refine ⟨?_, hlast⟩
    rw [answers, answers, hanswer, hanswers]

/-! ## Refused actions -/

section refusals

variable {ε : Type} {m : σ → α → Option ε × σ} {n : τ → α → Option ε × τ}

/-- The actions that were not refused, in order. -/
def accepted (m : σ → α → Option ε × σ) : σ → List α → List α
  | _, [] => []
  | s, a :: as =>
    if (m s a).1.isNone then a :: accepted m (m s a).2 as else accepted m (m s a).2 as

/-- No action of the run is refused. -/
def AllAccepted (m : σ → α → Option ε × σ) (s : σ) (as : List α) : Prop :=
  ∀ o ∈ answers m s as, o = none

theorem allAccepted_cons {a : α} {as : List α} : AllAccepted m s (a :: as) ↔
    (m s a).1 = none ∧ AllAccepted m (m s a).2 as := List.forall_mem_cons

theorem allAccepted_append {as bs : List α} : AllAccepted m s (as ++ bs) ↔
    AllAccepted m s as ∧ AllAccepted m (last m s as) bs := by
  unfold AllAccepted
  rw [answers_append, List.forall_mem_append]

theorem Simulates.accepted (h : Simulates R m n) (hR : R s t) (as : List α) :
    accepted m s as = accepted n t as := by
  induction as generalizing s t with
  | nil => rfl
  | cons a as ih =>
    obtain ⟨hanswer, hnext⟩ := h s t a hR
    rw [simulation.accepted, simulation.accepted, hanswer, ih hnext]

theorem Simulates.allAccepted (h : Simulates R m n) (hR : R s t) (as : List α) :
    AllAccepted m s as ↔ AllAccepted n t as := by
  unfold AllAccepted
  rw [(h.run hR as).1]

end refusals

end simulation
