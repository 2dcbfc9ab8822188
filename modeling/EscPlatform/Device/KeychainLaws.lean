-- The bindings over whole runs, with new launches among them. What was set
-- last is in the keychain, and every read gives it, exactly where each value
-- lands and no launch has to read through a keychain that refuses.
import EscPlatform.Device.Keychain

namespace esc_platform.device

open runs

/-- An operation of the bindings, or the start of a new process. -/
inductive KeychainAction
  | launch
  | objectForKey (answered : Bool) (key : Key)
  | setObject (a : Answers) (value : Option String) (key : Key)
  | removeObjectForKey (a : Answers) (key : Key)

namespace Controller

def step (c : Controller) : KeychainAction → Controller
  | .launch => c.launch
  | .objectForKey answered key => (c.objectForKey answered key).1
  | .setObject a value key => c.setObject a value key
  | .removeObjectForKey a key => c.removeObjectForKey a key

/-- What was set last under each key, and each read with what was set last under its key then. -/
structure Journal where
  last : Key → Option String
  reads : List (Option String × Option String) := []

/-- The items that are there at the start were set before. -/
def Journal.start (c : Controller) : Journal where
  last := c.items

def see (m : Journal) (c : Controller) (a : KeychainAction) (_ : Controller) : Journal :=
  match a with
  | .launch => m
  | .objectForKey answered key =>
    { m with reads := m.reads ++ [((c.objectForKey answered key).2, m.last key)] }
  | .setObject _ value key => { m with last := Function.update m.last key value }
  | .removeObjectForKey _ key => { m with last := Function.update m.last key none }

/-- The keychain holds what was set last, the buffer nothing else, and every read gave it. -/
structure Faithful (s : Controller × Journal) : Prop where
  items : ∀ key, s.1.items key = s.2.last key
  buffer : ∀ key, s.1.valueBuffer key = none ∨ s.1.valueBuffer key = s.2.last key
  reads : ∀ r ∈ s.2.reads, r.1 = r.2

/-- A value lands. A read is answered, or finds the buffer filled, or there is no item. -/
def Served (c : Controller) : KeychainAction → Prop
  | .launch => True
  | .objectForKey answered key =>
    answered = true ∨ c.valueBuffer key ≠ none ∨ c.items key = none
  | .setObject a value key => c.Lands a value key
  | .removeObjectForKey a key => c.Lands a none key

/-- With a buffer that holds nothing but the item, a read finds the item where it is served. -/
theorem found_eq_item {c : Controller} {key : Key}
    (h : c.valueBuffer key = none ∨ c.valueBuffer key = c.items key) (answered : Bool) :
    c.found answered key = c.items key ↔
      answered = true ∨ c.valueBuffer key ≠ none ∨ c.items key = none := by
  unfold found stringForKey
  cases answered with
  | true =>
    rcases h with hbuffer | hbuffer
    · cases hitem : c.items key <;> simp [hbuffer]
    · cases hitem : c.items key <;> simp [hbuffer, hitem]
  | false =>
    rcases h with hbuffer | hbuffer
    · simp [hbuffer, eq_comm]
    · rw [hbuffer]
      cases c.items key <;> simp

theorem faithful_read {c : Controller} {m : Journal} (h : Faithful (c, m)) (answered : Bool)
    (key : Key) : Faithful (monitored step see (c, m) (.objectForKey answered key)) ↔
      answered = true ∨ c.valueBuffer key ≠ none ∨ c.items key = none := by
  obtain ⟨hitems, hbuffer, hreads⟩ := h
  simp only at hitems hbuffer hreads
  have hbuffer' : c.valueBuffer key = none ∨ c.valueBuffer key = c.items key := by
    rw [hitems key]
    exact hbuffer key
  rw [← found_eq_item hbuffer' answered, hitems key]
  simp only [monitored, step, see, objectForKey_eq]
  constructor
  · intro hafter
    exact hafter.reads (c.found answered key, m.last key) (by simp)
  · intro hfound
    refine ⟨hitems, fun k => ?_, fun r hr => ?_⟩
    · rw [setBuffer_valueBuffer]
      by_cases hk : k = key
      · subst hk
        exact .inr (by rw [Function.update_self, hfound])
      · rw [Function.update_of_ne hk]
        exact hbuffer k
    · rcases List.mem_append.mp hr with hr | hr
      · exact hreads r hr
      · rw [List.mem_singleton.mp hr]
        exact hfound

/-- A value that does not land is not what the keychain holds. -/
theorem faithful_write {c : Controller} {m : Journal} (h : Faithful (c, m)) (a : Answers)
    (value : Option String) (key : Key) :
    Faithful (c.setValue a value key, { m with last := Function.update m.last key value }) ↔
      c.Lands a value key := by
  constructor
  · intro hafter
    by_contra hlands
    have hitem := hafter.items key
    simp only [setValue_items, if_neg hlands, Function.update_self] at hitem
    exact hlands (.inl hitem)
  · intro hlands
    refine ⟨fun k => ?_, fun k => ?_, h.reads⟩
    · simp only [setValue_items, if_pos hlands]
      by_cases hk : k = key
      · rw [hk, Function.update_self, Function.update_self]
      · rw [Function.update_of_ne hk, Function.update_of_ne hk]
        exact h.items k
    · simp only [setValue_valueBuffer]
      by_cases hk : k = key
      · rw [hk, Function.update_self, Function.update_self]
        exact .inr rfl
      · rw [Function.update_of_ne hk, Function.update_of_ne hk]
        exact h.buffer k

theorem faithful_step (s : Controller × Journal) (a : KeychainAction) (h : Faithful s) :
    Faithful (monitored step see s a) ↔ Served s.1 a := by
  obtain ⟨c, m⟩ := s
  cases a with
  | launch => exact iff_of_true ⟨h.items, fun _ => .inl rfl, h.reads⟩ trivial
  | objectForKey answered key => exact faithful_read h answered key
  | setObject a value key => exact faithful_write h a value key
  | removeObjectForKey a key => exact faithful_write h a none key

end Controller

end esc_platform.device
