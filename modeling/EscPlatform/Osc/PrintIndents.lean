-- The static `indent` of the bundle operator over the life of the process:
-- each exception out of a bundle skips the line that takes the indentation
-- back, and every later print is that much deeper.
import EscPlatform.Osc.PrintLaws

namespace esc_platform.osc

open bytes traced_reads Traced checked bracketed ReceivedMessageArgument

variable {m n : PrintM Unit}

/-! ## The indentation that an exception leaves -/

/-- Whether the program ends does not depend on the printer. A normal end puts the indentation
back, and what is thrown leaves one that `J` relates to it. -/
def Indents (J : Nat → Nat → Prop) (m : PrintM Unit) : Prop :=
  ∃ c : Prop, ∀ k : Nat, Ends (fun st => st.indent = k) (fun st => J k st.indent) m c

theorem Indents.mono {J J' : Nat → Nat → Prop} (h : Indents J m) (hJ : ∀ k i, J k i → J' k i) :
    Indents J' m := by
  obtain ⟨c, h⟩ := h
  refine ⟨c, fun k st hst => ⟨((h k) st hst).1, fun hc => ?_⟩⟩
  obtain ⟨ex, st', hrun, hst'⟩ := ((h k) st hst).2 hc
  exact ⟨ex, st', hrun, hJ _ _ hst'⟩

section indentation

variable {J : Nat → Nat → Prop}

theorem indents_seq (hm : Indents J m) (hn : Indents J n) : Indents J (do m; n) := by
  obtain ⟨c, hm⟩ := hm
  obtain ⟨c', hn⟩ := hn
  exact ⟨c ∧ c', fun k => (hm k).seq (hn k)⟩

theorem indents_modify (g : Printer → Printer) (h : ∀ st, (g st).indent = st.indent) :
    Indents J (modify g) :=
  ⟨True, fun _ => Ends.modify fun st hst => (h st).trans hst⟩

theorem indents_pure : Indents J (pure ()) := ⟨True, fun _ => Ends.pure⟩

theorem indents_put (bs : List UInt8) : Indents J (put bs) := indents_modify _ fun _ => rfl

theorem indents_putInteger (bits width : Nat) (i : Int) :
    Indents J (putInteger bits width i) :=
  indents_modify (fun st => { st with os := { st.os with written := st.os.written ++ _ } })
    fun _ => rfl

theorem indents_putIndent : Indents J putIndent :=
  indents_modify (fun st => { st with os := { st.os with written := st.os.written ++ _ } })
    fun _ => rfl

theorem indents_throw [Std.Refl J] (ex : Fault) : Indents J (throw ex) :=
  ⟨False, fun _ st hst => ⟨False.elim, fun _ => ⟨ex, st, rfl, hst ▸ Std.Refl.refl (r := J) _⟩⟩⟩

theorem indents_read [Std.Refl J] {α : Type} {r : ReadM α} {k : α → PrintM Unit}
    (hk : ∀ a, Indents J (k a)) : Indents J (do let a ← liftRead r; k a) := by
  unfold liftRead
  cases r.result with
  | ok a => exact hk a
  | error ex => exact indents_throw ex

end indentation

theorem putBlob_indents (data : List UInt8) : Indents Eq (putBlob data) := by
  induction data with
  | nil => exact indents_pure
  | cons byte data ih =>
    unfold putBlob
    refine indents_seq (indents_put _) (indents_seq (indents_putInteger _ _ _) ?_)
    by_cases hlast : data ≠ []
    · rw [if_pos hlast]
      exact indents_seq (indents_put _) ih
    · rw [if_neg hlast]
      exact indents_seq indents_pure ih

theorem printArgument_indents (lc : Locale) (mem : Memory) (f : Nat)
    (arg : ReceivedMessageArgument) : Indents Eq (printArgument lc mem f arg) := by
  have hset : Indents Eq setHex := indents_modify _ fun _ => rfl
  have hfill : ∀ c, Indents Eq (setFill c) := fun c => indents_modify _ fun _ => rfl
  have hunset : Indents Eq unsetBase := indents_modify _ fun _ => rfl
  have hbyte : ∀ byte, Indents Eq (putByte byte) := fun _ => indents_putInteger _ _ _
  unfold printArgument
  cases arg.typeTag with
  | none => exact indents_throw _
  | some t =>
    refine indents_read fun b => ?_
    rcases TypeTag.ofByte b with _ | tag
    · exact indents_put _
    · cases tag
      all_goals
        repeat with_reducible first
          | exact indents_put _
          | exact indents_putInteger _ _ _
          | exact putBlob_indents _
          | exact hset
          | exact hfill _
          | exact hunset
          | exact hbyte _
          | refine indents_read fun _ => ?_
          | refine indents_seq ?_ ?_

theorem printArguments_indents (lc : Locale) (mem : Memory) (fin : ReceivedMessageArgument)
    (fuel : Nat) (first : Bool) (i : ReceivedMessageArgument) :
    Indents Eq (printArguments lc mem fin fuel first i) := by
  induction fuel generalizing first i with
  | zero => exact indents_throw _
  | succ fuel ih =>
    unfold printArguments
    have htail := indents_seq (printArgument_indents lc mem fuel i)
      (indents_read (r := i.advance mem fuel) fun next => ih false next)
    split
    · exact indents_pure
    · cases first with
      | true => exact indents_seq (indents_put _) htail
      | false => exact indents_seq (indents_put _) htail

theorem printMessage_indents (lc : Locale) (mem : Memory) (f : Nat) (m : ReceivedMessage) :
    Indents Eq (printMessage lc mem f m) := by
  refine indents_seq (indents_put _) (indents_read fun _ => indents_seq (indents_put _) ?_)
  exact indents_seq (printArguments_indents _ _ _ _ _ _) (indents_put _)

/-- What is thrown between the two changes of the indentation skips the second one. -/
theorem indented_indents {elements : PrintM Unit} (h : Indents (· ≤ ·) elements) :
    Indents (· < ·) (do
      modify fun st => { st with indent := st.indent + 1 }
      elements
      modify fun st => { st with indent := st.indent - 1 }
      putIndent
      put (text "\x7d")) := by
  obtain ⟨c, h⟩ := h
  refine ⟨c, fun k st hst => ?_⟩
  have hin : (modify fun st : Printer => { st with indent := st.indent + 1 } : PrintM Unit).run
      st = .ok () { st with indent := st.indent + 1 } := rfl
  rw [run_bind_ok hin]
  have hdeeper : st.indent + 1 = k + 1 := by rw [hst]
  obtain ⟨hok, herror⟩ := h (k + 1) { st with indent := st.indent + 1 } hdeeper
  constructor
  · intro hc
    obtain ⟨st', hrun, hst'⟩ := hok hc
    rw [run_bind_ok hrun]
    refine ⟨_, rfl, ?_⟩
    have hback : st'.indent - 1 = k := by omega
    exact hback
  · intro hc
    obtain ⟨ex, st', hrun, hst'⟩ := herror hc
    exact ⟨ex, st', run_bind_error hrun, hst'⟩

/-- A bundle leaves its step of indentation behind when one of its elements throws. -/
theorem printBundleWith_indents {elements : PrintM Unit} (h : Indents (· ≤ ·) elements)
    (mem : Memory) (b : ReceivedBundle) : Indents (· < ·) (printBundleWith mem elements b) := by
  have hbody := indents_seq (indents_put (text " )\n")) (indented_indents h)
  have htimeTag : (readUInt64 mem b.timeTag).result =
      .ok (word64 (slice mem b.timeTag 8)) := (readUInt64_yields mem (Set.subset_univ _)).1
  unfold printBundleWith liftRead
  rw [htimeTag]
  refine indents_seq indents_putIndent (indents_seq (indents_put _) ?_)
  rw [pure_bind]
  split
  · exact indents_seq (indents_put _) hbody
  · exact indents_seq (indents_putInteger _ _ _) hbody

theorem printElements_indents (lc : Locale) (mem : Memory) (f fuel fin i : Nat) :
    Indents (· ≤ ·) (printElements lc mem f fin fuel i) := by
  induction fuel generalizing fin i with
  | zero => exact indents_throw _
  | succ fuel ih =>
    unfold printElements
    split
    · exact indents_pure
    · refine indents_read fun size => indents_read fun bundle => ?_
      cases bundle with
      | true =>
        refine indents_read fun b => ?_
        have hbundle := printBundleWith_indents (ih b.fin (b.timeTag + 8)) mem b
        apply indents_seq (hbundle.mono fun _ _ => Nat.le_of_lt)
        exact indents_seq (indents_put _) (ih fin _)
      | false =>
        refine indents_read fun m => indents_seq indents_putIndent ?_
        apply indents_seq ((printMessage_indents lc mem f m).mono fun _ _ => Nat.le_of_eq)
        exact indents_seq (indents_put _) (ih fin _)

/-! ## A process that goes on printing -/

/-- One `std::cout << ReceivedPacket( data, size )`. -/
structure PrintCall where
  mem : Memory
  size : Nat
  f : Nat
  fuel : Nat

def PrintCall.print (lc : Locale) (call : PrintCall) : PrintM Unit :=
  printPacket lc call.mem call.f call.fuel call.size

/-- The caller catches what a print throws, and goes on. -/
def printStep (lc : Locale) (st : Printer) (call : PrintCall) : Printer :=
  match (call.print lc).run st with
  | .ok _ st' => st'
  | .error _ st' => st'

/-- A bundle that its own constructor takes, and whose print throws. -/
def PrintCall.throwsInside (lc : Locale) (call : PrintCall) : Bool :=
  match (isBundle call.mem 0 call.size).result,
      (receivedBundle call.mem call.fuel 0 call.size).result, (call.print lc).run {} with
  | .ok true, .ok _, .error _ _ => true
  | _, _, _ => false

section calls

variable {lc : Locale} {call : PrintCall}

theorem liftRead_ok {α : Type} {r : ReadM α} {a : α} {k : α → PrintM Unit}
    (h : r.result = .ok a) : (do let a ← liftRead r; k a) = k a := by
  unfold liftRead
  rw [h]
  exact pure_bind a k

theorem liftRead_error {α : Type} {r : ReadM α} {ex : Fault} {k : α → PrintM Unit}
    (h : r.result = .error ex) : (do let a ← liftRead r; k a) = throw ex := by
  unfold liftRead
  rw [h]
  rfl

theorem print_bundle_indents (lc : Locale) {b : ReceivedBundle}
    (hbundle : (isBundle call.mem 0 call.size).result = .ok true)
    (hb : (receivedBundle call.mem call.fuel 0 call.size).result = .ok b) :
    Indents (· < ·) (call.print lc) := by
  unfold PrintCall.print printPacket
  rw [liftRead_ok hbundle, if_pos rfl, liftRead_ok hb]
  apply indents_seq _ (indents_put _)
  exact printBundleWith_indents (printElements_indents _ _ _ _ _ _) _ b

/-- What is thrown in front of the elements of a bundle leaves the indentation alone. -/
theorem print_indents (h : call.throwsInside lc = false) : Indents Eq (call.print lc) := by
  cases hbundle : (isBundle call.mem 0 call.size).result with
  | error ex =>
    unfold PrintCall.print printPacket
    rw [liftRead_error hbundle]
    exact indents_throw ex
  | ok bundle =>
    cases bundle with
    | false =>
      unfold PrintCall.print printPacket
      rw [liftRead_ok hbundle, if_neg (by simp)]
      refine indents_read fun m => ?_
      exact indents_seq (printMessage_indents _ _ _ m) (indents_put _)
    | true =>
      cases hb : (receivedBundle call.mem call.fuel 0 call.size).result with
      | error ex =>
        unfold PrintCall.print printPacket
        rw [liftRead_ok hbundle, if_pos rfl, liftRead_error hb]
        exact indents_throw ex
      | ok b =>
        -- the print came through, and does so from every state of the printer
        obtain ⟨c, hends⟩ := print_bundle_indents lc hbundle hb
        have hc : c := by
          by_contra hc
          obtain ⟨ex, st', hrun, -⟩ := (hends 0 {} rfl).2 hc
          simp [PrintCall.throwsInside, hbundle, hb, hrun] at h
        exact ⟨c, fun k st hst => ⟨(hends k st hst).1, fun hnot => absurd hc hnot⟩⟩

theorem print_throws_inside (h : call.throwsInside lc = true) (st : Printer) :
    ∃ ex st', (call.print lc).run st = .error ex st' ∧ st.indent < st'.indent := by
  unfold PrintCall.throwsInside at h
  split at h
  · rename_i b ex st' hbundle hb hrun
    obtain ⟨c, hends⟩ := print_bundle_indents lc hbundle hb
    apply (hends st.indent st rfl).2
    intro hc
    obtain ⟨st'', hok, -⟩ := (hends 0 {} rfl).1 hc
    rw [hok] at hrun
    cases hrun
  · cases h

/-- One print, caught by its caller. -/
theorem printStep_indent_stays (st : Printer) (h : call.throwsInside lc = false) :
    (printStep lc st call).indent = st.indent := by
  obtain ⟨c, hends⟩ := print_indents h
  unfold printStep
  by_cases hc : c
  · obtain ⟨st', hrun, hst'⟩ := (hends st.indent st rfl).1 hc
    rw [hrun]
    exact hst'
  · obtain ⟨ex, st', hrun, hst'⟩ := (hends st.indent st rfl).2 hc
    rw [hrun]
    exact hst'.symm

theorem printStep_indent_rises (st : Printer) (h : call.throwsInside lc = true) :
    st.indent < (printStep lc st call).indent := by
  obtain ⟨ex, st', hrun, hst'⟩ := print_throws_inside h st
  unfold printStep
  rw [hrun]
  exact hst'

end calls

/-- Over the prints of a process, the static indentation of the bundle operator rises by one at
least for each bundle whose print throws behind its header, and nothing lowers it again: it is
where it was exactly when there was no such bundle. -/
theorem a_thrown_bundle_leaves_its_indentation (lc : Locale) (st : Printer)
    (calls : List PrintCall) :
    st.indent + calls.countP (·.throwsInside lc) ≤ (runs.run (printStep lc) st calls).indent ∧
      ((runs.run (printStep lc) st calls).indent = st.indent ↔
        ∀ call ∈ calls, call.throwsInside lc = false) := by
  apply runs.measure_run_count
  · exact fun st call h => printStep_indent_stays st h
  · exact fun st call h => printStep_indent_rises st h

end esc_platform.osc
