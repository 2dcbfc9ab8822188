-- A computation that reads cells and logs each address it reads. It ends
-- with a value or an error, and the log is kept in both cases, so a law
-- can speak about what was read and not only about what was returned.
import Mathlib.Data.Set.Basic

namespace traced_reads

/-- The outcome of a computation, with the addresses that it read. -/
structure Traced (ε ι α : Type) where
  result : Except ε α
  reads : List ι

namespace Traced

variable {ε ι α β : Type}

def bind (m : Traced ε ι α) (f : α → Traced ε ι β) : Traced ε ι β :=
  match m.result with
  | .error e => ⟨.error e, m.reads⟩
  | .ok a => ⟨(f a).result, m.reads ++ (f a).reads⟩

instance : Monad (Traced ε ι) where
  pure a := ⟨.ok a, []⟩
  bind := bind

/-- Ends with the error `e`. -/
def fail (e : ε) : Traced ε ι α := ⟨.error e, []⟩

/-- Reads the cell at `p`. -/
def read (mem : ι → α) (p : ι) : Traced ε ι α := ⟨.ok (mem p), [p]⟩

/-! ## The result of a computation -/

@[simp] theorem result_pure (a : α) : (pure a : Traced ε ι α).result = .ok a := rfl

@[simp] theorem result_fail (e : ε) : (fail e : Traced ε ι α).result = .error e := rfl

@[simp] theorem result_read (mem : ι → α) (p : ι) :
    (read mem p : Traced ε ι α).result = .ok (mem p) := rfl

theorem result_bind (m : Traced ε ι α) (f : α → Traced ε ι β) :
    (m >>= f).result = m.result.bind (fun a => (f a).result) := by
  rcases m with ⟨_ | a, _⟩ <;> rfl

/-- A sequence ends with a value when each of its parts does. -/
theorem bind_ok {m : Traced ε ι α} {f : α → Traced ε ι β} {b : β} :
    (m >>= f).result = .ok b ↔ ∃ a, m.result = .ok a ∧ (f a).result = .ok b := by
  rw [result_bind]
  rcases h : m.result with e | a <;> simp [Except.bind]

/-- The step `f`, taken `k` times. -/
def iterate (f : α → Traced ε ι α) : Nat → α → Traced ε ι α
  | 0, a => pure a
  | k + 1, a => f a >>= iterate f k

/-- Behind a first step that ends with `b`, the other steps start at `b`. -/
theorem result_iterate_succ {f : α → Traced ε ι α} {a b : α} (h : (f a).result = .ok b)
    (k : Nat) : (iterate f (k + 1) a).result = (iterate f k b).result := by
  rw [iterate, result_bind, h]
  rfl

/-! ## What was read -/

@[simp] theorem reads_pure (a : α) : (pure a : Traced ε ι α).reads = [] := rfl

@[simp] theorem reads_fail (e : ε) : (fail e : Traced ε ι α).reads = [] := rfl

@[simp] theorem reads_read (mem : ι → α) (p : ι) : (read mem p : Traced ε ι α).reads = [p] := rfl

theorem mem_reads_bind {m : Traced ε ι α} {f : α → Traced ε ι β} {p : ι} :
    p ∈ (m >>= f).reads ↔ p ∈ m.reads ∨ ∃ a, m.result = .ok a ∧ p ∈ (f a).reads := by
  rcases m with ⟨_ | a, ps⟩ <;> simp [Bind.bind, bind]

/-! ## A value with every read inside a set -/

/-- The computation ends with `a`, and it read no address outside `S`. -/
def Yields (S : Set ι) (m : Traced ε ι α) (a : α) : Prop :=
  m.result = .ok a ∧ ∀ p ∈ m.reads, p ∈ S

theorem yields_pure (S : Set ι) (a : α) : Yields S (pure a : Traced ε ι α) a :=
  ⟨rfl, by simp⟩

theorem yields_read {S : Set ι} (mem : ι → α) {p : ι} (h : p ∈ S) :
    Yields S (read mem p : Traced ε ι α) (mem p) :=
  ⟨rfl, by simpa using h⟩

theorem yields_bind {S : Set ι} {m : Traced ε ι α} {f : α → Traced ε ι β} {a : α} {b : β}
    (hm : Yields S m a) (hf : Yields S (f a) b) : Yields S (m >>= f) b := by
  refine ⟨bind_ok.mpr ⟨a, hm.1, hf.1⟩, ?_⟩
  intro p hp
  rcases mem_reads_bind.mp hp with hp | ⟨a', ha', hp⟩
  · exact hm.2 p hp
  · rw [hm.1] at ha'
    cases ha'
    exact hf.2 p hp

theorem Yields.mono {S T : Set ι} {m : Traced ε ι α} {a : α} (h : Yields S m a) (hST : S ⊆ T) :
    Yields T m a :=
  ⟨h.1, fun p hp => hST (h.2 p hp)⟩

/-- A sequence that read no address outside `S` is made of two parts that did not. -/
theorem Yields.of_bind {S : Set ι} {m : Traced ε ι α} {f : α → Traced ε ι β} {b : β}
    (h : Yields S (m >>= f) b) : ∃ a, Yields S m a ∧ Yields S (f a) b := by
  obtain ⟨a, ha, hb⟩ := bind_ok.mp h.1
  refine ⟨a, ⟨ha, fun p hp => h.2 p ?_⟩, hb, fun p hp => h.2 p ?_⟩
  · exact mem_reads_bind.mpr (.inl hp)
  · exact mem_reads_bind.mpr (.inr ⟨a, ha, hp⟩)

/-! ## Reads inside a set on the way to another computation -/

/-- The computation `m` reads some addresses of `S` and then does what `m'` does. -/
structure Reaches (S : Set ι) (m m' : Traced ε ι α) : Prop where
  result : m.result = m'.result
  reads : ∀ p ∈ m.reads, p ∈ S ∨ p ∈ m'.reads
  reads_of : ∀ p ∈ m'.reads, p ∈ m.reads

theorem reaches_rfl (S : Set ι) (m : Traced ε ι α) : Reaches S m m :=
  ⟨rfl, fun _ hp => .inr hp, fun _ hp => hp⟩

theorem Reaches.trans {S : Set ι} {m m' m'' : Traced ε ι α} (h : Reaches S m m')
    (h' : Reaches S m' m'') : Reaches S m m'' where
  result := h.result.trans h'.result
  reads p hp := (h.reads p hp).elim .inl (h'.reads p)
  reads_of p hp := h.reads_of p (h'.reads_of p hp)

theorem reaches_bind {S : Set ι} {m : Traced ε ι α} {f : α → Traced ε ι β} {a : α}
    {m' : Traced ε ι β} (hm : Yields S m a) (hf : Reaches S (f a) m') :
    Reaches S (m >>= f) m' := by
  refine ⟨?_, fun p hp => ?_, fun p hp => ?_⟩
  · rw [result_bind, hm.1, ← hf.result]
    rfl
  · rcases mem_reads_bind.mp hp with hp | ⟨a', ha', hp⟩
    · exact .inl (hm.2 p hp)
    · rw [hm.1] at ha'
      cases ha'
      exact hf.reads p hp
  · exact mem_reads_bind.mpr (.inr ⟨a, hm.1, hf.reads_of p hp⟩)

theorem Reaches.yields {S : Set ι} {m m' : Traced ε ι α} {a : α} (h : Reaches S m m')
    (h' : Yields S m' a) : Yields S m a := by
  refine ⟨h.result.trans h'.1, fun p hp => ?_⟩
  rcases h.reads p hp with hp | hp
  · exact hp
  · exact h'.2 p hp

end Traced

end traced_reads
