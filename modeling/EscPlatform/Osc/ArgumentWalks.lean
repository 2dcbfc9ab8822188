-- The two walks over the arguments of a message: the loop of
-- `ReceivedMessage::Init`, which checks each argument against the end of the
-- message, and the iterator, which checks nothing. Each has its own `switch`
-- and its own string scanner, and both take the same steps.
import EscPlatform.Osc.ReceivedElements

namespace esc_platform.osc

open traced_reads Traced

variable {mem : Memory} {fin fuel n t a p q : Nat}

/-! ## The two string scanners -/

/-- Where the checked loop stops at a NUL, the unchecked one stops too. -/
theorem scanStr4_of_before (h : (scanStr4Before mem fin n p).result = .ok q) (hnul : mem q = 0)
    (hfuel : n ≤ fuel) : (scanStr4 mem fuel p).result = .ok q := by
  induction n generalizing p fuel with
  | zero => cases h
  | succ n ih =>
    obtain ⟨fuel, rfl⟩ : ∃ f, fuel = f + 1 := ⟨fuel - 1, by omega⟩
    unfold scanStr4Before at h
    apply bind_ok.mpr
    refine ⟨mem p, rfl, ?_⟩
    by_cases hend : p < fin
    · rw [if_pos hend] at h
      obtain ⟨c, hc, h⟩ := bind_ok.mp h
      cases hc
      by_cases hp : mem p = 0
      · rw [if_neg (by simpa using hp)] at h ⊢
        exact h
      · rw [if_pos hp] at h ⊢
        exact ih h (by omega)
    · -- the checked loop ran into the end, so `q` is `p`
      rw [if_neg hend] at h
      cases h
      rw [if_neg (by simpa using hnul)]
      rfl

/-- The unchecked `FindStr4End` returns what the checked one returned. -/
theorem findStr4End_of_before (h : (findStr4EndBefore mem p fin).result = .ok (some q))
    (hfuel : fin ≤ fuel) : (findStr4End mem fuel p).result = .ok q := by
  unfold findStr4EndBefore at h
  by_cases hend : p ≥ fin
  · rw [if_pos hend] at h
    cases h
  · rw [if_neg hend] at h
    obtain ⟨c, hc, h⟩ := bind_ok.mp h
    cases hc
    apply bind_ok.mpr
    refine ⟨mem p, rfl, ?_⟩
    by_cases hp : mem p = 0
    · rw [if_pos hp] at h ⊢
      cases h
      rfl
    · rw [if_neg hp] at h ⊢
      obtain ⟨r, hr, h⟩ := bind_ok.mp h
      obtain ⟨c, hc, h⟩ := bind_ok.mp h
      cases hc
      by_cases hnul : mem r = 0
      · rw [if_neg (by simpa using hnul)] at h
        cases h
        exact bind_ok.mpr ⟨r, scanStr4_of_before hr hnul (by omega), rfl⟩
      · rw [if_pos hnul] at h
        cases h

/-! ## One argument -/

/-- A range check that passes leaves the argument where it was. -/
theorem checkArgument_sized {next : Nat} (h : (do
      if a = fin then malformed "arguments exceed message size"
      if a + n > fin then malformed "arguments exceed message size"
      return a + n : ReadM Nat).result = .ok next) : next = a + n := by
  by_cases hend : a = fin
  · rw [if_pos hend] at h
    cases h
  · rw [if_neg hend] at h
    by_cases hlong : a + n > fin
    · rw [if_pos hlong] at h
      cases h
    · rw [if_neg hlong] at h
      cases h
      rfl

theorem checkArgument_string {next : Nat} (h : (do
      if a = fin then malformed "arguments exceed message size"
      match ← findStr4EndBefore mem a fin with
      | none => malformed "unterminated string argument"
      | some next => return next : ReadM Nat).result = .ok next) :
    (findStr4EndBefore mem a fin).result = .ok (some next) := by
  by_cases hend : a = fin
  · rw [if_pos hend] at h
    cases h
  · rw [if_neg hend] at h
    obtain ⟨found, hfound, h⟩ := bind_ok.mp h
    cases found with
    | none => cases h
    | some q =>
      cases h
      exact hfound

/-- An argument that the constructor accepts: the iterator steps over the same bytes. -/
theorem advance_of_check {next : Nat} (h : (checkArgument mem fin (mem t) a).result = .ok next)
    (hfuel : fin ≤ fuel) :
    (ReceivedMessageArgument.advance mem fuel ⟨some t, a⟩).result = .ok ⟨some (t + 1), next⟩ := by
  apply bind_ok.mpr
  refine ⟨mem t, rfl, ?_⟩
  unfold checkArgument at h
  cases htag : TypeTag.ofByte (mem t) with
  | none =>
    rw [htag] at h
    cases h
  | some tag =>
    rw [htag] at h
    cases tag
    case trueTag | falseTag | nil | infinitum =>
      cases h
      rfl
    case int32 | float | char | rgbaColor | midiMessage | int64 | timeTag | double =>
      obtain rfl := checkArgument_sized h
      rfl
    case string | symbol =>
      have hfind := findStr4End_of_before (checkArgument_string h) hfuel
      exact bind_ok.mpr ⟨next, hfind, rfl⟩
    case blob =>
      obtain ⟨blobSize, hsize, h⟩ := bind_ok.mp h
      cases h
      exact bind_ok.mpr ⟨blobSize, hsize, rfl⟩

/-! ## The whole walk -/

/-- The loop of `ReceivedMessage::Init`, with the type tag and the argument that each of its
turns leaves. -/
def checkedPositions (mem : Memory) (fin : Nat) : Nat → Nat → Nat → ReadM (List (Nat × Nat))
  | 0, _, _ => Traced.fail .outOfFuel
  | fuel + 1, typeTag, argument => do
    let next ← checkArgument mem fin (← readByte mem typeTag) argument
    if (← readByte mem (typeTag + 1)) ≠ 0 then
      let rest ← checkedPositions mem fin fuel (typeTag + 1) next
      return (typeTag + 1, next) :: rest
    else return [(typeTag + 1, next)]

/-- What the loop leaves in the constructor of the message `m`. It is not reached without type
tags. -/
def initPositions (mem : Memory) (message size : Nat) (m : ReceivedMessage) :
    ReadM (List (Nat × Nat)) :=
  match m.typeTagsBegin with
  | none => return []
  | some typeTag => checkedPositions mem (message + size) size typeTag m.arguments

/-- `k` calls of `Advance`. -/
def advanceTimes (mem : Memory) (fuel : Nat) :
    Nat → ReceivedMessageArgument → ReadM ReceivedMessageArgument :=
  iterate (ReceivedMessageArgument.advance mem fuel)

/-- The loop is the one of the constructor: it ends where that one ends, one type tag further for
each turn, and fails where that one fails. -/
theorem checkArguments_result : (checkArguments mem fin n t a).result =
    (checkedPositions mem fin n t a).result.map (fun log => t + log.length) := by
  induction n generalizing t a with
  | zero => rfl
  | succ n ih =>
    rw [checkArguments, checkedPositions]
    simp only [readByte, result_bind, result_read, Except.bind]
    cases (checkArgument mem fin (mem t) a).result with
    | error e => rfl
    | ok next =>
      by_cases hmore : mem (t + 1) ≠ 0
      · simp only [if_pos hmore, ih, result_bind]
        cases (checkedPositions mem fin n (t + 1) next).result with
        | error e => rfl
        | ok log =>
          simp only [Except.map, Except.bind, result_pure, List.length_cons, Except.ok.injEq]
          omega
      · simp only [if_neg hmore]
        rfl

theorem positions_of_check {e : Nat} (h : (checkArguments mem fin n t a).result = .ok e) :
    ∃ log, (checkedPositions mem fin n t a).result = .ok log ∧ e = t + log.length := by
  rw [checkArguments_result] at h
  cases hlog : (checkedPositions mem fin n t a).result with
  | error _ =>
    rw [hlog] at h
    cases h
  | ok log =>
    rw [hlog] at h
    cases h
    exact ⟨log, rfl, rfl⟩

/-- What a turn of the loop leaves, and whether it is the last one. -/
theorem checkedPositions_cases {log : List (Nat × Nat)}
    (h : (checkedPositions mem fin (n + 1) t a).result = .ok log) :
    ∃ next rest, (checkArgument mem fin (mem t) a).result = .ok next ∧
      log = (t + 1, next) :: rest ∧
      (rest = [] ∨ (checkedPositions mem fin n (t + 1) next).result = .ok rest) := by
  obtain ⟨c, hc, h⟩ := bind_ok.mp h
  cases hc
  obtain ⟨next, hnext, h⟩ := bind_ok.mp h
  obtain ⟨c', hc', h⟩ := bind_ok.mp h
  by_cases hnul : c' = 0
  · rw [if_neg (by simpa using hnul)] at h
    cases h
    exact ⟨next, [], hnext, rfl, .inl rfl⟩
  · rw [if_pos hnul] at h
    obtain ⟨rest, hrest, h⟩ := bind_ok.mp h
    cases h
    exact ⟨next, rest, hnext, rfl, .inr hrest⟩

/-- The `k`-th turn of the loop and the `k`-th step of the iterator end at the same place. -/
theorem advanceTimes_of_positions {log : List (Nat × Nat)}
    (h : (checkedPositions mem fin n t a).result = .ok log) (hfuel : fin ≤ fuel) (k : Nat)
    (hk : k < log.length) :
    log[k].1 = t + (k + 1) ∧
      (advanceTimes mem fuel (k + 1) ⟨some t, a⟩).result = .ok ⟨some log[k].1, log[k].2⟩ := by
  induction k generalizing n t a log with
  | zero =>
    cases n with
    | zero => cases h
    | succ n =>
      obtain ⟨next, rest, hnext, rfl, -⟩ := checkedPositions_cases h
      refine ⟨rfl, ?_⟩
      unfold advanceTimes
      rw [result_iterate_succ (advance_of_check hnext hfuel)]
      rfl
  | succ k ih =>
    cases n with
    | zero => cases h
    | succ n =>
      obtain ⟨next, rest, hnext, rfl, hrest⟩ := checkedPositions_cases h
      rcases hrest with rfl | hrest
      · simp at hk
      · obtain ⟨htag, hsteps⟩ := ih hrest (Nat.lt_of_succ_lt_succ hk)
        rw [List.getElem_cons_succ]
        refine ⟨by omega, ?_⟩
        unfold advanceTimes
        rw [result_iterate_succ (advance_of_check hnext hfuel)]
        exact hsteps

/-- What the constructor leaves: no type tags, or those that its loop went through. -/
def Walked (mem : Memory) (message size : Nat) (m : ReceivedMessage) : Prop :=
  (m.typeTagsBegin = none ∧ m.typeTagsEnd = none) ∨
    ∃ b e, m.typeTagsBegin = some b ∧ m.typeTagsEnd = some e ∧
      (checkArguments mem (message + size) size b m.arguments).result = .ok e

theorem initTypeTags_walked {message size b : Nat} {m : ReceivedMessage}
    (h : (initTypeTags mem message size b).result = .ok m) : Walked mem message size m := by
  unfold initTypeTags at h
  by_cases hend : b = message + size
  · rw [if_pos hend] at h
    cases h
    exact .inl ⟨rfl, rfl⟩
  · rw [if_neg hend] at h
    obtain ⟨c, -, h⟩ := bind_ok.mp h
    by_cases hcomma : c ≠ ascii ','
    · rw [if_pos hcomma] at h
      cases h
    · rw [if_neg hcomma] at h
      obtain ⟨c', -, h⟩ := bind_ok.mp h
      by_cases hnul : c' = 0
      · rw [if_pos hnul] at h
        cases h
        exact .inl ⟨rfl, rfl⟩
      · rw [if_neg hnul] at h
        obtain ⟨found, -, h⟩ := bind_ok.mp h
        cases found with
        | none => cases h
        | some arguments =>
          obtain ⟨e, he, h⟩ := bind_ok.mp h
          cases h
          exact .inr ⟨b + 1, e, rfl, rfl, he⟩

theorem receivedMessage_walked {message size : Nat} {m : ReceivedMessage}
    (h : (receivedMessage mem message size).result = .ok m) : Walked mem message size m := by
  unfold receivedMessage at h
  by_cases hzero : size = 0
  · rw [if_pos hzero] at h
    cases h
  · rw [if_neg hzero] at h
    by_cases hmod : size % 4 ≠ 0
    · rw [if_pos hmod] at h
      cases h
    · rw [if_neg hmod] at h
      obtain ⟨found, -, h⟩ := bind_ok.mp h
      cases found with
      | none => cases h
      | some b => exact initTypeTags_walked h

/-- Every message that the constructor accepts: each step of the iterator ends where the same
turn of the loop did, the iterator is at `ArgumentsEnd()` behind `ArgumentCount()` steps and at no
step before, and the two versions of `FindStr4End` agree where the checked one succeeds. -/
theorem the_unchecked_walk_stays_in_step {message size : Nat} {m : ReceivedMessage}
    (h : (receivedMessage mem message size).result = .ok m) (hfuel : message + size ≤ fuel) :
    ∃ log, (initPositions mem message size m).result = .ok log ∧
      log.length = m.argumentCount ∧
      (∀ k (hk : k < log.length), (advanceTimes mem fuel (k + 1) m.argumentsBegin).result =
        .ok ⟨some log[k].1, log[k].2⟩) ∧
      (∀ k ≤ m.argumentCount, ∃ a, (advanceTimes mem fuel k m.argumentsBegin).result = .ok a ∧
        (a.typeTag = m.argumentsEnd.typeTag ↔ k = m.argumentCount)) ∧
      ∀ p q, (findStr4EndBefore mem p (message + size)).result = .ok (some q) →
        (findStr4End mem fuel p).result = .ok q := by
  have hscan : ∀ p q, (findStr4EndBefore mem p (message + size)).result = .ok (some q) →
      (findStr4End mem fuel p).result = .ok q := fun p q hq => findStr4End_of_before hq hfuel
  rcases receivedMessage_walked h with ⟨hbegin, hend⟩ | ⟨b, e, hbegin, hend, hcheck⟩
  · have hcount : m.argumentCount = 0 := by
      unfold ReceivedMessage.argumentCount
      rw [hbegin, hend]
      rfl
    refine ⟨[], by simp [initPositions, hbegin], hcount.symm, by simp, ?_, hscan⟩
    intro k hk
    obtain rfl : k = 0 := by omega
    refine ⟨m.argumentsBegin, rfl, ?_⟩
    simp [ReceivedMessage.argumentsBegin, ReceivedMessage.argumentsEnd, hbegin, hend, hcount]
  · obtain ⟨log, hlog, rfl⟩ := positions_of_check hcheck
    have hcount : m.argumentCount = log.length := by
      unfold ReceivedMessage.argumentCount
      rw [hbegin, hend]
      exact Nat.add_sub_cancel_left b log.length
    have hsteps := advanceTimes_of_positions hlog hfuel
    refine ⟨log, by simpa [initPositions, hbegin] using hlog, hcount.symm, ?_, ?_, hscan⟩
    · intro k hk
      unfold ReceivedMessage.argumentsBegin
      rw [hbegin]
      exact (hsteps k hk).2
    · intro k hk
      rw [ReceivedMessage.argumentsBegin, ReceivedMessage.argumentsEnd, hbegin, hend, hcount]
      cases k with
      | zero =>
        refine ⟨⟨some b, m.arguments⟩, rfl, ?_⟩
        simp only [Option.some.injEq]
        omega
      | succ k =>
        obtain ⟨htag, hwalk⟩ := hsteps k (by omega)
        refine ⟨_, hwalk, ?_⟩
        simp [htag]

/-- A message with a string, a blob and a type without bytes. The string has a stray byte behind
its first NUL. -/
def strayMessage : Memory := fun p =>
  [47, 97, 0, 0, 44, 115, 98, 84, 0, 0, 0, 0, 97, 0, 120, 0, 0, 0, 0, 3, 1, 2, 3, 0].getD p 0

theorem a_message_is_walked_in_step :
    (initPositions strayMessage 0 24 ⟨0, some 5, some 8, 12⟩).result =
        .ok [(6, 16), (7, 24), (8, 24)] ∧
      (advanceTimes strayMessage 24 2 ⟨some 5, 12⟩).result = .ok ⟨some 7, 24⟩ := by
  have hinit : (receivedMessage strayMessage 0 24).result =
      .ok ⟨0, some 5, some 8, 12⟩ := by rfl
  have hlog : (initPositions strayMessage 0 24 ⟨0, some 5, some 8, 12⟩).result =
      .ok [(6, 16), (7, 24), (8, 24)] := by rfl
  obtain ⟨log, hpositions, -, hsteps, -⟩ :=
    the_unchecked_walk_stays_in_step hinit (le_refl (0 + 24))
  rw [hlog] at hpositions
  cases hpositions
  exact ⟨hlog, hsteps 1 (by decide)⟩

end esc_platform.osc
