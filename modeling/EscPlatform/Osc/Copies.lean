-- `Message::copy` and `Bundle::copy` as assignments. Both append to what the
-- target holds and read the size of the source in each turn, so they copy
-- onto an empty target, and an object that is not empty not onto itself.
-- A store gives each object by its name, so that two names may be one.
import EscPlatform.Lib.AppendLoops
import EscPlatform.Osc.MessageDelivery

namespace esc_platform.osc

open append_loops

variable {ι : Type} [DecidableEq ι]

/-- `(int)size`, with 32 bits. -/
def asInt (n : Nat) : Int := Int.bmod n (2 ^ 32)

theorem asInt_le (n : Nat) : asInt n ≤ n := by
  unfold asInt
  rw [Int.bmod_def]
  split <;> omega

theorem asInt_eq_iff (n : Nat) : asInt n = n ↔ n < 2 ^ 31 := by
  unfold asInt
  rw [Int.bmod_def]
  split <;> omega

/-! ## Messages -/

/-- `args.push_back` on the object `t`. The three branches of the loop make an argument of the
same type with the same value. -/
def pushArg (t : ι) (objects : ι → Message) (arg : Arg) : ι → Message :=
  Function.update objects t { objects t with args := (objects t).args ++ [arg] }

/-- `t.copy( s )`, turn by turn. -/
def Message.copySteps (fuel : Nat) (t s : ι) (objects : ι → Message) :
    Except LoopFault (ι → Message) :=
  appendLoop (fun objects => (objects s).args) (pushArg t) asInt fuel 0
    (Function.update objects t
      { objects t with
        address := (objects s).address
        remoteHost := (objects s).remoteHost
        remotePort := (objects s).remotePort })

/-- The arguments that the loop counts in `other`. -/
def Message.countedArgs (other : Message) : List Arg :=
  other.args.take (asInt other.args.length).toNat

theorem Message.countedArgs_eq_iff (m : Message) :
    m.countedArgs = m.args ↔ m.args.length < 2 ^ 31 := by
  have hle := asInt_le m.args.length
  have heq := asInt_eq_iff m.args.length
  unfold countedArgs
  rw [List.take_eq_self_iff]
  constructor
  · intro h
    by_contra hlt
    omega
  · intro h
    have := heq.mpr h
    omega

theorem foldl_pushArg (t : ι) (objects : ι → Message) (args : List Arg) :
    args.foldl (pushArg t) objects =
      Function.update objects t { objects t with args := (objects t).args ++ args } := by
  induction args generalizing objects with
  | nil => simp
  | cons arg args ih =>
    rw [List.foldl_cons, ih]
    simp [pushArg]

/-- Between two objects, the copied arguments stand behind those of the target. -/
theorem Message.copySteps_apart {t s : ι} (hts : t ≠ s) (objects : ι → Message) {fuel : Nat}
    (hfuel : (objects s).args.length < fuel) :
    copySteps fuel t s objects = .ok (Function.update objects t
      { objects s with args := (objects t).args ++ (objects s).countedArgs }) := by
  have hle := asInt_le (objects s).args.length
  unfold copySteps
  rw [appendLoop_stays asInt_le]
  · simp [foldl_pushArg, countedArgs, Function.update_of_ne hts.symm]
  · intro objects arg
    rw [pushArg, Function.update_of_ne hts.symm]
  · rw [Function.update_of_ne hts.symm]
    omega

/-- The assignment ends, with the target as the source was and every other object as before. -/
def AssignsMessage (objects : ι → Message) (t s : ι) : Prop :=
  ∃ enough, ∀ fuel ≥ enough,
    Message.copySteps fuel t s objects = .ok (Function.update objects t (objects s))

/-- The target has no arguments. A source with so many arguments that `(int)` changes their
number must leave to the target just what it lacks. -/
def Message.Takes (target other : Message) : Prop :=
  if other.args.length < 2 ^ 31 then target.args = []
  else target.args ++ other.countedArgs = other.args

theorem Message.takes_iff (target other : Message) :
    target.Takes other ↔ target.args ++ other.countedArgs = other.args := by
  unfold Takes
  split
  · rename_i hlt
    rw [(countedArgs_eq_iff other).mpr hlt]
    simp
  · rfl

/-- A message takes its own arguments where the loop counts none. -/
theorem Message.takes_self (m : Message) : m.Takes m ↔ asInt m.args.length ≤ 0 := by
  have hle := asInt_le m.args.length
  rw [takes_iff, List.append_right_eq_self, countedArgs, List.take_eq_nil_iff,
    ← List.length_eq_zero_iff]
  omega

theorem assignsMessage_apart {t s : ι} (hts : t ≠ s) (objects : ι → Message) :
    AssignsMessage objects t s ↔ (objects t).Takes (objects s) := by
  rw [Message.takes_iff]
  refine ⟨fun ⟨enough, h⟩ => ?_, fun h => ⟨(objects s).args.length + 1, fun fuel hfuel => ?_⟩⟩
  · have hrun := h (enough + (objects s).args.length + 1) (by omega)
    rw [Message.copySteps_apart hts objects (by omega), Except.ok.injEq] at hrun
    have htarget := congrFun hrun t
    rw [Function.update_self, Function.update_self] at htarget
    exact congrArg Message.args htarget
  · rw [Message.copySteps_apart hts objects (by omega), h]

/-- The assignment of a message to itself is the loop over its own arguments. -/
theorem Message.copySteps_same (fuel : Nat) (s : ι) (objects : ι → Message) :
    copySteps fuel s s objects =
      appendLoop (fun objects => (objects s).args) (pushArg s) asInt fuel 0 objects := by
  rw [copySteps, Function.update_eq_self]

theorem assignsMessage_same (s : ι) (objects : ι → Message) :
    AssignsMessage objects s s ↔ (objects s).Takes (objects s) := by
  rw [Message.takes_self, AssignsMessage, Function.update_eq_self]
  refine ⟨fun ⟨enough, h⟩ => ?_, fun h => ⟨1, fun fuel hfuel => ?_⟩⟩
  · have hrun := h enough (Nat.le_refl enough)
    rw [Message.copySteps_same] at hrun
    by_contra hpos
    have hgrows := appendLoop_grows (by simp [pushArg]) (by omega) hrun
    exact absurd hgrows (Nat.lt_irrefl _)
  · obtain ⟨fuel, rfl⟩ : ∃ f, fuel = f + 1 := ⟨fuel - 1, by omega⟩
    rw [Message.copySteps_same]
    exact appendLoop_done h

/-- An assignment of messages copies exactly onto a target that takes the source's arguments. -/
theorem assignsMessage_iff (objects : ι → Message) (t s : ι) :
    AssignsMessage objects t s ↔ (objects t).Takes (objects s) := by
  by_cases hts : t = s
  · subst hts
    exact assignsMessage_same t objects
  · exact assignsMessage_apart hts objects

/-! ## Bundles -/

def Bundle.messages : Bundle → List Message
  | .mk messages _ => messages

def Bundle.bundles : Bundle → List Bundle
  | .mk _ bundles => bundles

@[simp] theorem Bundle.messages_mk (messages : List Message) (bundles : List Bundle) :
    (Bundle.mk messages bundles).messages = messages := rfl

@[simp] theorem Bundle.bundles_mk (messages : List Message) (bundles : List Bundle) :
    (Bundle.mk messages bundles).bundles = bundles := rfl

@[simp] theorem Bundle.mk_eta (b : Bundle) : .mk b.messages b.bundles = b := by
  cases b
  rfl

/-- The copy constructor: a copy onto a new message. -/
def Message.constructed (other : Message) : Message := { other with args := other.countedArgs }

mutual

/-- The copy constructor: `push_back` makes each element of the new vectors with its own copy
constructor. -/
def Bundle.constructed : Bundle → Bundle
  | .mk messages bundles => .mk (messages.map Message.constructed) (constructedAll bundles)

def constructedAll : List Bundle → List Bundle
  | [] => []
  | b :: bs => b.constructed :: constructedAll bs

end

/-- `bundles.push_back` on the object `t`. -/
def pushBundle (t : ι) (objects : ι → Bundle) (b : Bundle) : ι → Bundle :=
  Function.update objects t
    (.mk (objects t).messages ((objects t).bundles ++ [b.constructed]))

/-- `messages.push_back` on the object `t`. -/
def pushMessage (t : ι) (objects : ι → Bundle) (m : Message) : ι → Bundle :=
  Function.update objects t
    (.mk ((objects t).messages ++ [m.constructed]) (objects t).bundles)

/-- `t.copy( s )`, turn by turn. A counter of type `size_t` reaches every index. -/
def Bundle.copySteps (fuel : Nat) (t s : ι) (objects : ι → Bundle) :
    Except LoopFault (ι → Bundle) := do
  let objects ← appendLoop (fun objects => (objects s).bundles) (pushBundle t) (fun n => n) fuel 0
    objects
  appendLoop (fun objects => (objects s).messages) (pushMessage t) (fun n => n) fuel 0 objects

/-- The assignment ends, with the target as the source was and every other object as before. -/
def AssignsBundle (objects : ι → Bundle) (t s : ι) : Prop :=
  ∃ enough, ∀ fuel ≥ enough,
    Bundle.copySteps fuel t s objects = .ok (Function.update objects t (objects s))

/-! ### Elements -/

theorem Message.constructed_eq_iff (m : Message) : m.constructed = m ↔ m.args.length < 2 ^ 31 := by
  have hargs : m.constructed.args = m.countedArgs := by rw [constructed]
  rw [← countedArgs_eq_iff, ← hargs]
  refine ⟨fun h => by rw [h], fun h => ?_⟩
  rw [hargs] at h
  rw [constructed, h]

theorem map_constructed_eq_iff (ms : List Message) :
    ms.map Message.constructed = ms ↔ ∀ m ∈ ms, m.args.length < 2 ^ 31 := by
  induction ms with
  | nil => simp
  | cons m ms ih =>
    rw [List.map_cons, List.cons.injEq, Message.constructed_eq_iff, ih, List.forall_mem_cons]

mutual

theorem Bundle.constructed_eq_iff :
    ∀ b : Bundle, b.constructed = b ↔ ∀ m ∈ flatten b, m.args.length < 2 ^ 31
  | .mk messages bundles => by
    rw [Bundle.constructed, Bundle.mk.injEq, map_constructed_eq_iff,
      constructedAll_eq_iff bundles, flatten, List.forall_mem_append, and_comm]

theorem constructedAll_eq_iff :
    ∀ bs : List Bundle, constructedAll bs = bs ↔ ∀ m ∈ flattenAll bs, m.args.length < 2 ^ 31
  | [] => by simp [constructedAll, flattenAll]
  | b :: bs => by
    rw [constructedAll, List.cons.injEq, b.constructed_eq_iff, constructedAll_eq_iff bs, flattenAll,
      List.forall_mem_append]

end

theorem constructedAll_length (bs : List Bundle) : (constructedAll bs).length = bs.length := by
  induction bs with
  | nil => rfl
  | cons b bs ih => rw [constructedAll, List.length_cons, ih, List.length_cons]

theorem foldl_pushBundle (t : ι) (objects : ι → Bundle) (bs : List Bundle) :
    bs.foldl (pushBundle t) objects = Function.update objects t
      (.mk (objects t).messages ((objects t).bundles ++ constructedAll bs)) := by
  induction bs generalizing objects with
  | nil =>
    rw [constructedAll, List.append_nil, List.foldl_nil, Bundle.mk_eta, Function.update_eq_self]
  | cons b bs ih =>
    rw [List.foldl_cons, ih]
    simp [pushBundle, constructedAll]

theorem foldl_pushMessage (t : ι) (objects : ι → Bundle) (ms : List Message) :
    ms.foldl (pushMessage t) objects = Function.update objects t
      (.mk ((objects t).messages ++ ms.map Message.constructed) (objects t).bundles) := by
  induction ms generalizing objects with
  | nil =>
    rw [List.map_nil, List.append_nil, List.foldl_nil, Bundle.mk_eta, Function.update_eq_self]
  | cons m ms ih =>
    rw [List.foldl_cons, ih]
    simp [pushMessage]

/-! ### Assignments -/

/-- Between two objects, the copied elements stand behind those of the target. -/
theorem Bundle.copySteps_apart {t s : ι} (hts : t ≠ s) (objects : ι → Bundle) {fuel : Nat}
    (hbundles : (objects s).bundles.length < fuel)
    (hmessages : (objects s).messages.length < fuel) :
    copySteps fuel t s objects = .ok (Function.update objects t
      (.mk ((objects t).messages ++ (objects s).messages.map Message.constructed)
        ((objects t).bundles ++ constructedAll (objects s).bundles))) := by
  have hloop : appendLoop (fun objects => (objects s).bundles) (pushBundle t) (fun n => n) fuel 0
      objects = .ok ((objects s).bundles.foldl (pushBundle t) objects) := by
    rw [appendLoop_stays (fun n => Int.le_refl n)]
    · simp
    · intro objects b
      rw [pushBundle, Function.update_of_ne hts.symm]
    · simpa using hbundles
  have hsource : ((objects s).bundles.foldl (pushBundle t) objects) s = objects s := by
    rw [foldl_pushBundle, Function.update_of_ne hts.symm]
  unfold copySteps
  rw [hloop]
  change appendLoop _ _ _ fuel 0 ((objects s).bundles.foldl (pushBundle t) objects) = _
  rw [appendLoop_stays (fun n => Int.le_refl n)]
  · rw [hsource, foldl_pushMessage, foldl_pushBundle]
    simp
  · intro objects m
    rw [pushMessage, Function.update_of_ne hts.symm]
  · rw [hsource]
    simpa using hmessages

/-- The target is empty, and `(int)` keeps the number of arguments of every message. -/
structure Bundle.Takes (target other : Bundle) : Prop where
  messages : target.messages = []
  bundles : target.bundles = []
  counted : ∀ m ∈ flatten other, m.args.length < 2 ^ 31

theorem append_eq_of_length {α : Type} {xs ys zs : List α} (hlen : ys.length = zs.length) :
    xs ++ ys = zs ↔ xs = [] ∧ ys = zs := by
  constructor
  · intro h
    have hxs := congrArg List.length h
    rw [List.length_append] at hxs
    obtain rfl := List.length_eq_zero_iff.mp (show xs.length = 0 by omega)
    exact ⟨rfl, h⟩
  · rintro ⟨rfl, h⟩
    exact h

theorem Bundle.takes_iff (target other : Bundle) :
    target.Takes other ↔
      .mk (target.messages ++ other.messages.map Message.constructed)
        (target.bundles ++ constructedAll other.bundles) = other := by
  obtain ⟨messages, bundles⟩ := other
  simp only [Bundle.messages, Bundle.bundles, Bundle.mk.injEq]
  rw [append_eq_of_length (List.length_map _), append_eq_of_length (constructedAll_length bundles)]
  have hcounted := (Bundle.mk messages bundles).constructed_eq_iff
  rw [Bundle.constructed, Bundle.mk.injEq] at hcounted
  constructor
  · rintro ⟨hmessages, hbundles, h⟩
    obtain ⟨hms, hbs⟩ := hcounted.mpr h
    exact ⟨⟨hmessages, hms⟩, hbundles, hbs⟩
  · rintro ⟨⟨hmessages, hms⟩, hbundles, hbs⟩
    exact ⟨hmessages, hbundles, hcounted.mp ⟨hms, hbs⟩⟩

theorem assignsBundle_apart {t s : ι} (hts : t ≠ s) (objects : ι → Bundle) :
    AssignsBundle objects t s ↔ (objects t).Takes (objects s) := by
  rw [Bundle.takes_iff]
  refine ⟨fun ⟨enough, h⟩ => ?_, fun h =>
    ⟨(objects s).bundles.length + (objects s).messages.length + 1, fun fuel hfuel => ?_⟩⟩
  · have hrun := h (enough + (objects s).bundles.length + (objects s).messages.length + 1)
      (by omega)
    rw [Bundle.copySteps_apart hts objects (by omega) (by omega), Except.ok.injEq] at hrun
    have htarget := congrFun hrun t
    rwa [Function.update_self, Function.update_self] at htarget
  · rw [Bundle.copySteps_apart hts objects (by omega) (by omega), h]

/-- The assignment of a bundle with an element to itself does not end: each turn adds an
element. -/
theorem Bundle.copySteps_same_never_ends (fuel : Nat) (s : ι) (objects : ι → Bundle)
    (h : (objects s).bundles ≠ [] ∨ (objects s).messages ≠ []) :
    copySteps fuel s s objects = .error .outOfFuel := by
  unfold copySteps
  by_cases hbundles : (objects s).bundles = []
  · have hmessages := h.resolve_left (fun hne => hne hbundles)
    cases fuel with
    | zero => rfl
    | succ fuel =>
      have hfirst : appendLoop (fun objects => (objects s).bundles) (pushBundle s) (fun n => n)
          (fuel + 1) 0 objects = .ok objects := appendLoop_nil hbundles
      rw [hfirst]
      exact appendLoop_never_ends (by simp [pushMessage]) (List.length_pos_iff.mpr hmessages)
  · have hfirst : appendLoop (fun objects => (objects s).bundles) (pushBundle s) (fun n => n)
        fuel 0 objects = .error .outOfFuel :=
      appendLoop_never_ends (by simp [pushBundle]) (List.length_pos_iff.mpr hbundles)
    rw [hfirst]
    rfl

theorem assignsBundle_same (s : ι) (objects : ι → Bundle) :
    AssignsBundle objects s s ↔ (objects s).Takes (objects s) := by
  refine ⟨fun ⟨enough, h⟩ => ?_, fun htakes => ⟨1, fun fuel hfuel => ?_⟩⟩
  · have hrun := h enough (Nat.le_refl enough)
    have hempty : (objects s).bundles = [] ∧ (objects s).messages = [] := by
      by_contra hne
      rw [Bundle.copySteps_same_never_ends enough s objects (by tauto)] at hrun
      cases hrun
    refine ⟨hempty.2, hempty.1, ?_⟩
    rw [← Bundle.mk_eta (objects s), hempty.1, hempty.2]
    simp [flatten, flattenAll]
  · obtain ⟨fuel, rfl⟩ : ∃ f, fuel = f + 1 := ⟨fuel - 1, by omega⟩
    have hfirst : appendLoop (fun objects => (objects s).bundles) (pushBundle s) (fun n => n)
        (fuel + 1) 0 objects = .ok objects := appendLoop_nil htakes.bundles
    have hsecond : appendLoop (fun objects => (objects s).messages) (pushMessage s) (fun n => n)
        (fuel + 1) 0 objects = .ok objects := appendLoop_nil htakes.messages
    rw [Function.update_eq_self, Bundle.copySteps, hfirst]
    exact hsecond

/-- An assignment of bundles copies exactly onto a target that takes the source. -/
theorem assignsBundle_iff (objects : ι → Bundle) (t s : ι) :
    AssignsBundle objects t s ↔ (objects t).Takes (objects s) := by
  by_cases hts : t = s
  · subst hts
    exact assignsBundle_same t objects
  · exact assignsBundle_apart hts objects

/-! ## The queue -/

/-- `OscListener::getNextMessage` with the loop of the copy. The caller's message and the one in
the queue are two objects. -/
def OscListener.getNextMessageSteps (fuel : Nat) (l : OscListener) (message : Message) :
    Except LoopFault (Bool × Message × OscListener) :=
  match l.mMessages with
  | [] => .ok (false, message, l)
  | src_message :: rest => do
    let objects ← Message.copySteps fuel false true fun src => if src then src_message else message
    return (true, objects false, { l with mMessages := rest })

theorem OscListener.getNextMessageSteps_nil (fuel : Nat) {l : OscListener} (message : Message)
    (h : l.mMessages = []) : l.getNextMessageSteps fuel message = .ok (false, message, l) := by
  rw [getNextMessageSteps, h]

theorem OscListener.getNextMessageSteps_cons {fuel : Nat} {l : OscListener} {src : Message}
    {rest : List Message} (message : Message) (h : l.mMessages = src :: rest)
    (hfuel : src.args.length < fuel) :
    l.getNextMessageSteps fuel message =
      .ok (true, { src with args := message.args ++ src.countedArgs },
        { l with mMessages := rest }) := by
  rw [getNextMessageSteps, h]
  change (Message.copySteps fuel false true _ >>= _) = _
  rw [Message.copySteps_apart Bool.false_ne_true _ (by simpa using hfuel)]
  rfl

/-- Turn by turn it does what `getNextMessage` says, where `(int)` keeps the number of
arguments. -/
theorem OscListener.getNextMessageSteps_eq (l : OscListener) (message : Message)
    (h : ∀ src ∈ l.mMessages.head?, src.args.length < 2 ^ 31) :
    ∃ enough, ∀ fuel ≥ enough,
      l.getNextMessageSteps fuel message = .ok (l.getNextMessage message) := by
  rcases hm : l.mMessages with _ | ⟨src, rest⟩
  · refine ⟨0, fun fuel _ => ?_⟩
    rw [getNextMessageSteps_nil fuel message hm, getNextMessage, hm]
  · have hlt := h src (by simp [hm])
    refine ⟨src.args.length + 1, fun fuel hfuel => ?_⟩
    rw [getNextMessageSteps_cons message hm (by omega), (Message.countedArgs_eq_iff src).mpr hlt,
      getNextMessage, hm]
    rfl

/-- The call ends, and where it returns true it leaves in the caller's message the one that was
at the front. -/
def OscListener.GivesFront (l : OscListener) (message : Message) : Prop :=
  ∃ enough, ∀ fuel ≥ enough, ∃ r, l.getNextMessageSteps fuel message = .ok r ∧
    (r.1 = true → l.mMessages.head? = some r.2.1)

theorem OscListener.givesFront_iff (l : OscListener) (message : Message) :
    l.GivesFront message ↔ ∀ src ∈ l.mMessages.head?, message.Takes src := by
  rcases hm : l.mMessages with _ | ⟨src, rest⟩
  · refine ⟨fun _ src hsrc => by simp at hsrc, fun _ => ⟨0, fun fuel _ => ?_⟩⟩
    exact ⟨_, getNextMessageSteps_nil fuel message hm, by simp⟩
  · have hhead : (∀ src' ∈ (src :: rest).head?, message.Takes src') ↔ message.Takes src := by simp
    rw [hhead, Message.takes_iff]
    refine ⟨fun ⟨enough, h⟩ => ?_, fun h => ⟨src.args.length + 1, fun fuel hfuel => ?_⟩⟩
    · obtain ⟨r, hr, hfront⟩ := h (enough + src.args.length + 1) (by omega)
      rw [getNextMessageSteps_cons message hm (by omega), Except.ok.injEq] at hr
      subst hr
      rw [hm, List.head?_cons, Option.some.injEq] at hfront
      exact (congrArg Message.args (hfront rfl)).symm
    · refine ⟨_, getNextMessageSteps_cons message hm (by omega), fun _ => ?_⟩
      rw [hm, List.head?_cons, h]

/-! ## The law -/

/-- An assignment ends with the target equal to the source exactly where the target is empty (and
`(int)` keeps the numbers of arguments). For an object that is assigned to itself this says that
it is empty. `getNextMessage` leaves the front of the queue exactly in such a message. -/
theorem copies_need_an_empty_target :
    (∀ (objects : ι → Message) a b,
      AssignsMessage objects a b ↔ (objects a).Takes (objects b)) ∧
    (∀ (objects : ι → Bundle) c d,
      AssignsBundle objects c d ↔ (objects c).Takes (objects d)) ∧
    ∀ (l : OscListener) (m : Message),
      l.GivesFront m ↔ ∀ src ∈ l.mMessages.head?, m.Takes src :=
  ⟨assignsMessage_iff, assignsBundle_iff, OscListener.givesFront_iff⟩

/-- A message with one argument, assigned from an empty message, keeps its argument. -/
theorem a_target_keeps_its_arguments :
    ¬ ((∀ (objects : Bool → Message) a b, AssignsMessage objects a b) ∧
      (∀ (objects : Bool → Bundle) c d, AssignsBundle objects c d) ∧
      ∀ (l : OscListener) (m : Message), l.GivesFront m) := by
  rintro ⟨h, -, -⟩
  have htakes := (assignsMessage_iff _ false true).mp
    (h (fun b => if b then ⟨[47], [], "", 0⟩ else ⟨[47], [.int32 1], "", 0⟩) false true)
  rw [Message.Takes, if_pos (by decide)] at htakes
  cases htakes

end esc_platform.osc
