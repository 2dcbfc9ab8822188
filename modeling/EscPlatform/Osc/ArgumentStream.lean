-- `ReceivedMessageArgumentStream`: the arguments of a message through `>>`,
-- each into a variable of the type that the caller expects. A failed `>>` is
-- an exception; the caller may catch it and go on behind the argument.
import EscPlatform.Lib.Checked
import EscPlatform.Lib.Simulation
import EscPlatform.Osc.MessageBounds

namespace esc_platform.osc

open bytes traced_reads Traced simulation checked ReceivedMessageArgument

/-! ## The stream -/

/-- What is thrown by `>>`. -/
inductive ExtractionFault
  | fault (e : Fault)
  /-- `ExcessArgumentException`. -/
  | excessArgument
  deriving DecidableEq, Repr

/-- The types that `>>` has an operator for. -/
inductive ArgumentType
  | bool | int32 | float | char | rgbaColor | midiMessage | int64 | timeTag | double | blob
  | string | symbol
  deriving DecidableEq, Repr

/-- The accessor that the operator calls, by a tag that it takes. -/
def ArgumentType.accessor : ArgumentType → TypeTag
  | .bool => .trueTag
  | .int32 => .int32
  | .float => .float
  | .char => .char
  | .rgbaColor => .rgbaColor
  | .midiMessage => .midiMessage
  | .int64 => .int64
  | .timeTag => .timeTag
  | .double => .double
  | .blob => .blob
  | .string => .string
  | .symbol => .symbol

inductive Extraction
  | argument (type : ArgumentType)
  | messageTerminator
  deriving DecidableEq, Repr

section stream

variable (mem : Memory) (fuel : Nat) (fin : ReceivedMessageArgument)

abbrev ExtractM := EStateM ExtractionFault ReceivedMessageArgument

def liftAccess {α : Type} (r : ReadM α) : ExtractM α :=
  match r.result with
  | .ok a => return a
  | .error e => throw (.fault e)

/-- `Eos`. The state of the stream is `p_`. -/
def eos : ExtractM Bool := do return (← get).typeTag = fin.typeTag

/-- `operator>>`, of all types. -/
def extract : Extraction → ExtractM (Option Value)
  | .argument type => do
    if ← eos fin then throw (.fault .missingArgument)
    else
      let p ← get
      -- `*p_++`: the iterator is moved in front of the accessor
      let next ← liftAccess (p.advance mem fuel)
      set next
      let value ← liftAccess (p.asTag mem fuel type.accessor)
      return some value
  | .messageTerminator => do
    if ← eos fin then return none
    else throw .excessArgument

/-- One `>>` whose exception the caller catches. -/
def extractStep (p : ReceivedMessageArgument) (x : Extraction) :
    Except ExtractionFault (Option Value) × ReceivedMessageArgument :=
  match (extract mem fuel fin x).run p with
  | .ok value p' => (.ok value, p')
  | .error e p' => (.error e, p')

end stream

/-! ## The list of the arguments -/

def Value.tag : Value → TypeTag
  | .bool value => if value then .trueTag else .falseTag
  | .nil => .nil
  | .infinitum => .infinitum
  | .int32 _ => .int32
  | .float _ => .float
  | .char _ => .char
  | .rgbaColor _ => .rgbaColor
  | .midiMessage _ => .midiMessage
  | .int64 _ => .int64
  | .timeTag _ => .timeTag
  | .double _ => .double
  | .string _ => .string
  | .symbol _ => .symbol
  | .blob _ => .blob

/-- The operator takes the value: it has the type, and a `bool` may be true or false. -/
def ArgumentType.takes (type : ArgumentType) (v : Value) : Bool :=
  v.tag = type.accessor || (type = .bool && v.tag = .falseTag)

/-- The front of the list is taken, or thrown away when it has another type. -/
def takeStep : List Value → Extraction →
    Except ExtractionFault (Option Value) × List Value
  | [], .argument _ => (.error (.fault .missingArgument), [])
  | v :: vs, .argument type =>
    if type.takes v then (.ok (some v), vs) else (.error (.fault .wrongArgumentType), vs)
  | [], .messageTerminator => (.ok none, [])
  | v :: vs, .messageTerminator => (.error .excessArgument, v :: vs)

/-! ## One argument -/

section arguments

variable {mem : Memory} {fin fuel t a n : Nat} {v : Value} {tag : TypeTag}

theorem parseArg_tag {bs rest : List UInt8} (h : parseArg tag bs = some (v, rest)) :
    v.tag = tag := by
  cases tag
  case trueTag | falseTag | nil | infinitum =>
    cases h
    rfl
  all_goals
    obtain ⟨x, -, hx⟩ := Option.map_eq_some_iff.mp h
    cases hx
    rfl

theorem asChecked_other {α : Type} (unchecked : ReadM α) (h : mem t ≠ tag.byte) :
    (asChecked mem ⟨some t, a⟩ tag unchecked).result = .error .wrongArgumentType := by
  unfold asChecked
  rw [result_bind, (isType_yields mem a (Set.mem_univ t) tag).1]
  simp [Except.bind, h]

theorem bind_result_error {α β : Type} {r : ReadM α} {k : α → ReadM β} {e : Fault}
    (h : r.result = .error e) : (r >>= k).result = .error e := by
  rw [result_bind, h]
  rfl

/-- `AsBool` takes `T` and `F` only. -/
theorem asBool_other (htrue : mem t ≠ TypeTag.trueTag.byte)
    (hfalse : mem t ≠ TypeTag.falseTag.byte) :
    (asBool mem ⟨some t, a⟩).result = .error .wrongArgumentType := by
  unfold asBool
  rw [result_bind, (isType_yields mem a (Set.mem_univ t) .trueTag).1]
  simpa [Except.bind, htrue] using asChecked_other (return false) hfalse

/-- An accessor of another type throws. -/
theorem asTag_other (fuel : Nat) (type : ArgumentType) (hm : mem t = v.tag.byte)
    (h : type.takes v = false) :
    (asTag mem ⟨some t, a⟩ fuel type.accessor).result = .error .wrongArgumentType := by
  have hne : ∀ {tag}, v.tag ≠ tag → mem t ≠ tag.byte := by
    intro tag hne heq
    exact hne (TypeTag.byte_injective (hm.symm.trans heq))
  have hother : mem t ≠ type.accessor.byte := by
    apply hne
    intro heq
    simp [ArgumentType.takes, heq] at h
  cases type
  case bool =>
    have hfalse : mem t ≠ TypeTag.falseTag.byte := by
      apply hne
      intro heq
      simp [ArgumentType.takes, heq] at h
    exact bind_result_error (asBool_other hother hfalse)
  all_goals exact bind_result_error (asChecked_other _ hother)

/-- An accessor of the type of an argument gives its value. -/
theorem asTag_taken (type : ArgumentType) (hat : ArgumentAt mem fin v.tag a n v)
    (hm : mem t = v.tag.byte) (hfuel : fin ≤ fuel) (h : type.takes v = true) :
    (asTag mem ⟨some t, a⟩ fuel type.accessor).result = .ok v := by
  have hvalue := (hat.value hm (Set.mem_univ t) (Set.subset_univ _) hfuel).1
  unfold ArgumentType.takes at h
  rw [Bool.or_eq_true, Bool.and_eq_true, decide_eq_true_eq, decide_eq_true_eq,
    decide_eq_true_eq] at h
  rcases h with htag | ⟨rfl, hfalse⟩
  · rwa [htag] at hvalue
  · -- the accessor of `T` and of `F` is one
    rwa [hfalse] at hvalue

end arguments

/-! ## The place in a message -/

/-- The stream stands in front of the arguments `vs`, which end at `stop`. -/
inductive Remaining (mem : Memory) (fin : Nat) (stop : ReceivedMessageArgument) :
    ReceivedMessageArgument → List Value → Prop
  | noTags (hstop : stop.typeTag = none) (a : Nat) : Remaining mem fin stop ⟨none, a⟩ []
  | tags {t a : Nat} {ts rest : List UInt8} {vs : List Value}
      (hstop : stop.typeTag = some (t + ts.length)) (ht : TagsAt mem t ts) (ha : a ≤ fin)
      (hmod : (fin - a) % 4 = 0) (hargs : parseArgs ts (slice mem a (fin - a)) = some (vs, rest)) :
      Remaining mem fin stop ⟨some t, a⟩ vs

section places

variable {mem : Memory} {fin fuel : Nat} {stop p : ReceivedMessageArgument} {v : Value}
  {vs : List Value}

theorem Remaining.eos_iff (h : Remaining mem fin stop p vs) :
    p.typeTag = stop.typeTag ↔ vs = [] := by
  cases h with
  | noTags hstop a => simp [hstop]
  | @tags t a ts rest vs hstop ht ha hmod hargs =>
    rw [hstop, Option.some.injEq]
    cases ts with
    | nil =>
      cases hargs
      simp
    | cons b ts =>
      obtain ⟨tag, v, bs', vs', -, -, -, rfl⟩ := parseArgs_cons hargs
      simp

theorem Remaining.next (h : Remaining mem fin stop p (v :: vs)) (hfuel : fin ≤ fuel) :
    ∃ next, (p.advance mem fuel).result = .ok next ∧ Remaining mem fin stop next vs ∧
      ∀ type : ArgumentType, (p.asTag mem fuel type.accessor).result =
        if type.takes v then .ok v else .error .wrongArgumentType := by
  cases h with
  | @tags t a ts rest vs hstop ht ha hmod hargs =>
    cases ts with
    | nil => cases hargs
    | cons b ts =>
      obtain ⟨tag, v', bs', vs', rfl, harg, hrest, hvs⟩ := parseArgs_cons hargs
      obtain ⟨rfl, rfl⟩ := List.cons.inj hvs
      obtain ⟨n, hat, hbs'⟩ := parseArg_at ha hmod harg
      obtain rfl := parseArg_tag harg
      have hm := ht.head
      have hnmod := hat.mod
      have hle := hat.le
      refine ⟨⟨some (t + 1), a + n⟩, ?_, ?_, fun type => ?_⟩
      · exact (hat.advance hm (Set.mem_univ t) (Set.subset_univ _) hfuel).1
      · rw [hbs'] at hrest
        refine .tags ?_ ht.tail hle (by omega) hrest
        rw [hstop, List.length_cons]
        congr 1
        omega
      · split
        · next h => exact asTag_taken type hat hm hfuel h
        · next h => exact asTag_other fuel type hm (by simpa using h)

end places

/-! ## The stream and the list -/

section extractions

variable {mem : Memory} {fin fuel : Nat} {stop p next : ReceivedMessageArgument} {v : Value}

theorem eos_run (stop p : ReceivedMessageArgument) :
    (eos stop).run p = .ok (decide (p.typeTag = stop.typeTag)) p := rfl

theorem extractStep_missing (h : p.typeTag = stop.typeTag) (type : ArgumentType) :
    extractStep mem fuel stop p (.argument type) = (.error (.fault .missingArgument), p) := by
  have hmissing : (extract mem fuel stop (.argument type)).run p =
      .error (.fault .missingArgument) p := by
    unfold extract
    rw [run_bind_ok (eos_run stop p), if_pos (by simpa using h)]
    rfl
  unfold extractStep
  rw [hmissing]

theorem extractStep_end (h : p.typeTag = stop.typeTag) :
    extractStep mem fuel stop p .messageTerminator = (.ok none, p) := by
  have hend : (extract mem fuel stop .messageTerminator).run p = .ok none p := by
    unfold extract
    rw [run_bind_ok (eos_run stop p), if_pos (by simpa using h)]
    rfl
  unfold extractStep
  rw [hend]

theorem extractStep_excess (h : p.typeTag ≠ stop.typeTag) :
    extractStep mem fuel stop p .messageTerminator = (.error .excessArgument, p) := by
  have hexcess : (extract mem fuel stop .messageTerminator).run p = .error .excessArgument p := by
    unfold extract
    rw [run_bind_ok (eos_run stop p), if_neg (by simpa using h)]
    rfl
  unfold extractStep
  rw [hexcess]

/-- The stream is behind the argument when its accessor is called, whatever comes of it. -/
theorem extractStep_argument (h : p.typeTag ≠ stop.typeTag)
    (hnext : (p.advance mem fuel).result = .ok next) (type : ArgumentType) :
    extractStep mem fuel stop p (.argument type) =
      (((p.asTag mem fuel type.accessor).result.map some).mapError .fault, next) := by
  have hadvance : (liftAccess (p.advance mem fuel)).run p = .ok next p := by
    unfold liftAccess
    rw [hnext]
    rfl
  have hset : (set next : ExtractM PUnit).run p = .ok () next := rfl
  have hrun : (extract mem fuel stop (.argument type)).run p = (do
      let value ← liftAccess (p.asTag mem fuel type.accessor)
      return some value : ExtractM (Option Value)).run next := by
    unfold extract
    rw [run_bind_ok (eos_run stop p), if_neg (by simpa using h), run_bind_ok (EStateM.run_get p),
      run_bind_ok hadvance, run_bind_ok hset]
  unfold extractStep
  rw [hrun]
  unfold liftAccess
  cases (p.asTag mem fuel type.accessor).result with
  | ok value => rfl
  | error e => rfl

/-- Each `>>` answers like the list, and leaves the stream at the rest of it. -/
theorem extract_simulates (mem : Memory) (stop : ReceivedMessageArgument) (hfuel : fin ≤ fuel) :
    Simulates (Remaining mem fin stop) (extractStep mem fuel stop) takeStep := by
  intro p vs x hR
  have heos := hR.eos_iff
  cases vs with
  | nil =>
    have hend : p.typeTag = stop.typeTag := heos.mpr rfl
    cases x with
    | messageTerminator =>
      rw [extractStep_end hend]
      exact ⟨rfl, hR⟩
    | argument type =>
      rw [extractStep_missing hend]
      exact ⟨rfl, hR⟩
  | cons v vs =>
    have hne : p.typeTag ≠ stop.typeTag := heos.not.mpr (List.cons_ne_nil v vs)
    cases x with
    | messageTerminator =>
      rw [extractStep_excess hne]
      exact ⟨rfl, hR⟩
    | argument type =>
      obtain ⟨next, hnext, hrest, hvalue⟩ := hR.next hfuel
      rw [extractStep_argument hne hnext, hvalue type, takeStep]
      split
      · exact ⟨rfl, hrest⟩
      · exact ⟨rfl, hrest⟩

/-- The constructor of a message stands the stream in front of its arguments. -/
theorem receivedMessage_remaining {begin size : Nat} {m : Decoded}
    (h : parseMessage (slice mem begin size) = some m) :
    ∃ r, (receivedMessage mem begin size).result = .ok r ∧
      Remaining mem (begin + size) r.argumentsEnd r.argumentsBegin m.args := by
  obtain ⟨hd, vs, rest, hh, hargs, rfl⟩ := parseMessage_some h
  by_cases htags : hd.tags = []
  · refine ⟨_, (receivedMessage_no_tags hh htags).1, ?_⟩
    rw [htags] at hargs
    cases hargs
    exact .noTags rfl 0
  · obtain ⟨t, a, hat, hreaches⟩ := receivedMessage_tags hh htags
    have hcheck := checkArguments_yields htags hat.tags hat.tags_in hat.args_in hat.args_le
      hat.args_mod hat.args hargs (Nat.le_of_lt hat.tags_length)
    refine ⟨_, (hreaches.yields (yields_bind hcheck (yields_pure _ _))).1, ?_⟩
    rw [hat.args] at hargs
    exact .tags rfl hat.tags hat.args_le hat.args_mod hargs

/-- On a message of the format, any `>>` after any others, their exceptions caught, gives what it
gives on the list of the arguments: the front one if it has the type, and then that one is gone,
whether or not it had. -/
theorem the_stream_extracts_the_arguments (begin size : Nat) {m : Decoded}
    (h : parseMessage (slice mem begin size) = some m) :
    ∃ r, (receivedMessage mem begin size).result = .ok r ∧ ∀ fuel ≥ begin + size, ∀ xs,
      answers (extractStep mem fuel r.argumentsEnd) r.argumentsBegin xs =
        answers takeStep m.args xs := by
  obtain ⟨r, hr, hremaining⟩ := receivedMessage_remaining h
  exact ⟨r, hr, fun fuel hfuel xs => ((extract_simulates mem _ hfuel).run hremaining xs).1⟩

/-- The message `/` with the arguments 5 and true: the string that was asked for is not there, and
the 5 is gone with it. -/
theorem the_stream_extracts_the_arguments_after_a_throw :
    let mem : Memory := fun i => [47, 0, 0, 0, 44, 105, 84, 0, 0, 0, 0, 5].getD i 0
    ∃ r, (receivedMessage mem 0 12).result = .ok r ∧
      answers (extractStep mem 12 r.argumentsEnd) r.argumentsBegin
        [.argument .string, .argument .bool, .messageTerminator, .argument .int32] =
        [.error (.fault .wrongArgumentType), .ok (some (.bool true)), .ok none,
          .error (.fault .missingArgument)] := by
  intro mem
  have hm : parseMessage (slice mem 0 12) = some ⟨[47], [.int32 5, .bool true]⟩ := by decide
  obtain ⟨r, hr, hanswers⟩ := the_stream_extracts_the_arguments 0 12 hm
  exact ⟨r, hr, hanswers 12 le_rfl _⟩

end extractions

end esc_platform.osc
