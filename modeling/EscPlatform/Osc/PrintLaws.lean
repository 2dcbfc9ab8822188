-- What the printer prints: exactly what the accessors show, laid out by the
-- nesting of the bundles. The operators change the format of the stream and
-- change it back, so each is stated from one `PrintMode` to another.
import EscPlatform.Osc.PrintElements

namespace esc_platform.osc

open bytes traced_reads Traced checked bracketed ReceivedMessageArgument

/-! ## The text of a packet -/

section texts

variable (lc : Locale)

/-- Two hexadecimal digits. -/
def renderByte (byte : UInt8) : List UInt8 :=
  List.replicate (2 - (digits 16 byte.toNat).length) (ascii '0') ++ digits 16 byte.toNat

def renderWord (before : List UInt8) (between : List UInt8) (word : UInt32) : List UInt8 :=
  before ++ renderByte (byteOf word 24) ++ between ++ renderByte (byteOf word 16) ++ between ++
    renderByte (byteOf word 8) ++ between ++ renderByte (byteOf word 0)

def renderBlob (data : List UInt8) : List UInt8 :=
  (text " ").intercalate (data.map fun byte => text "0x" ++ renderByte byte)

def renderValue : Value → List UInt8
  | .bool value => if value then text "bool:true" else text "bool:false"
  | .nil => text "(Nil)"
  | .infinitum => text "(Infinitum)"
  | .int32 value => text "int32:" ++ decimal value.toInt
  | .float bits => text "float32:" ++ lc.float32 bits
  | .char value => text "char:'" ++ cStr [value] ++ text "'"
  | .rgbaColor value => renderWord (text "RGBA:0x") [] value
  | .midiMessage value =>
    renderWord (text "midi (port, status, data1, data2):<<0x") (text " 0x") value ++ text ">>"
  | .int64 value => text "int64:" ++ decimal value.toInt
  | .timeTag value =>
    text "OSC-timetag:" ++ decimal value.toNat ++ text " " ++
      cStr (lc.ctime (value >>> 32)).dropLast
  | .double bits => text "double:" ++ lc.double bits
  | .string value => text "OSC-string:\x60" ++ value ++ text "'"
  | .symbol value => text "OSC-string (symbol):\x60" ++ value ++ text "'"
  | .blob data => text "OSC-blob:<<" ++ renderBlob data ++ text ">>"

def renderMessage (m : ShownMessage) : List UInt8 :=
  text "[" ++ m.addressPattern ++
    (if m.args = [] then [] else
      text " " ++ (text ", ").intercalate (m.args.map (renderValue lc))) ++ text "]"

def renderIndent (indent : Nat) : List UInt8 := List.replicate (2 * indent) (ascii ' ')

def renderTimeTag (timeTag : UInt64) : List UInt8 :=
  if timeTag = 1 then text "immediate" else decimal timeTag.toNat

mutual

/-- An element of a bundle on its own lines. -/
def renderElement (indent : Nat) : ShownElement → List UInt8
  | .leaf m => renderIndent indent ++ renderMessage lc m ++ text "\n"
  | .node b es =>
    renderIndent indent ++ text "\x7b ( " ++ renderTimeTag b.timeTag ++ text " )\n" ++
      renderElements (indent + 1) es ++ renderIndent indent ++ text "\x7d" ++ text "\n"

def renderElements (indent : Nat) : List ShownElement → List UInt8
  | [] => []
  | e :: es => renderElement indent e ++ renderElements indent es

end

/-- A message outside of bundles is not indented. -/
def renderPacket (indent : Nat) : ShownElement → List UInt8
  | .leaf m => renderMessage lc m ++ text "\n"
  | .node b es => renderElement lc indent (.node b es)

end texts

/-! ## Programs that print -/

/-- What an operator depends on beside its operand: the format flags and the indentation. -/
structure PrintMode where
  hex : Bool := false
  fill : UInt8 := ascii ' '
  indent : Nat

def Printer.mode (st : Printer) : PrintMode := ⟨st.os.hex, st.os.fill, st.indent⟩

def Printer.after (st : Printer) (bs : List UInt8) (M : PrintMode) : Printer :=
  { os := { written := st.os.written ++ bs, hex := M.hex, fill := M.fill }, indent := M.indent }

/-- In the mode `M`, the program prints `bs` and leaves the mode `M'`. -/
def Prints (M : PrintMode) (m : PrintM Unit) (bs : List UInt8) (M' : PrintMode) : Prop :=
  ∀ st : Printer, st.mode = M → m.run st = .ok () (st.after bs M')

variable {M M' M'' : PrintMode} {m n : PrintM Unit} {bs cs : List UInt8}

theorem prints_seq (hm : Prints M m bs M') (hn : Prints M' n cs M'') :
    Prints M (do m; n) (bs ++ cs) M'' := by
  intro st hst
  rw [run_bind_ok (hm st hst), hn (st.after bs M') rfl]
  simp [Printer.after]

theorem prints_nil (M : PrintMode) : Prints M (pure ()) [] M := by
  rintro st rfl
  simp [Printer.after, Printer.mode, EStateM.run_pure]

theorem prints_put (M : PrintMode) (bs : List UInt8) : Prints M (put bs) bs M := by
  rintro st rfl
  rfl

theorem prints_modify {g : Printer → Printer}
    (h : ∀ st : Printer, st.mode = M → g st = st.after [] M') : Prints M (modify g) [] M' := by
  intro st hst
  rw [EStateM.run_modify, h st hst]

theorem prints_read {α : Type} {r : ReadM α} {a : α} {k : α → PrintM Unit}
    (hr : r.result = .ok a) (hk : Prints M (k a) bs M') :
    Prints M (do let a ← liftRead r; k a) bs M' := by
  intro st hst
  have hread : (liftRead r : PrintM α).run st = .ok a st := by
    unfold liftRead
    rw [hr]
    rfl
  rw [run_bind_ok hread, hk st hst]

theorem prints_get {k : Printer → PrintM Unit}
    (hk : ∀ st : Printer, st.mode = M → Prints M (k st) bs M') :
    Prints M (do let st ← get; k st) bs M' := by
  intro st hst
  rw [run_bind_ok (EStateM.run_get st), hk st hst st hst]

theorem prints_setHex : Prints M setHex [] { M with hex := true } := by
  apply prints_modify
  rintro st rfl
  simp [Printer.after, Printer.mode]

theorem prints_unsetBase : Prints M unsetBase [] { M with hex := false } := by
  apply prints_modify
  rintro st rfl
  simp [Printer.after, Printer.mode]

theorem prints_setFill (c : Char) : Prints M (setFill c) [] { M with fill := ascii c } := by
  apply prints_modify
  rintro st rfl
  simp [Printer.after, Printer.mode]

theorem prints_indent (g : Nat → Nat) :
    Prints M (modify fun st => { st with indent := g st.indent }) []
      { M with indent := g M.indent } := by
  apply prints_modify
  rintro st rfl
  simp [Printer.after, Printer.mode]

theorem prints_putInteger (bits : Nat) (k : Int) (hM : M.hex = false) :
    Prints M (putInteger bits 0 k) (decimal k) M := by
  apply prints_get
  rintro st rfl
  have hhex : st.os.hex = false := hM
  simp only [hhex, Bool.false_eq_true, if_false, Nat.zero_sub, List.replicate_zero,
    List.nil_append]
  exact prints_put _ _

theorem prints_putByte (byte : UInt8) (hhex : M.hex = true) (hfill : M.fill = ascii '0') :
    Prints M (putByte byte) (renderByte byte) M := by
  apply prints_get
  rintro st rfl
  have hst : st.os.hex = true := hhex
  have hst' : st.os.fill = ascii '0' := hfill
  have hlt := byte.toNat_lt
  have hbyte : ((byte.toNat : Int) % 2 ^ 32).toNat = byte.toNat := by omega
  simp only [hst, hst', if_true, hbyte]
  exact prints_put _ _

/-! ## Arguments -/

/-- The format that a stream has by default. -/
def plain (indent : Nat) : PrintMode := { indent := indent }

def inHex (indent : Nat) : PrintMode := { hex := true, fill := ascii '0', indent := indent }

theorem putBlob_prints (indent : Nat) (data : List UInt8) :
    Prints (inHex indent) (putBlob data) (renderBlob data) (inHex indent) := by
  induction data with
  | nil => exact prints_nil _
  | cons byte data ih =>
    unfold putBlob
    by_cases hlast : data = []
    · subst hlast
      have hblob : renderBlob [byte] = text "0x" ++ (renderByte byte ++ ([] ++ [])) := by
        simp [renderBlob]
      rw [hblob]
      refine prints_seq (prints_put _ _) (prints_seq (prints_putByte byte rfl rfl) ?_)
      rw [if_neg (by simp)]
      exact prints_seq (prints_nil _) (prints_nil _)
    · have hblob : renderBlob (byte :: data) =
          text "0x" ++ (renderByte byte ++ (text " " ++ renderBlob data)) := by
        obtain ⟨byte', data, rfl⟩ := List.exists_cons_of_ne_nil hlast
        simp [renderBlob, List.intercalate]
      rw [hblob]
      refine prints_seq (prints_put _ _) (prints_seq (prints_putByte byte rfl rfl) ?_)
      rw [if_pos hlast]
      exact prints_seq (prints_put _ _) ih

/-- A word between two format changes. -/
theorem setHex_prints {body : PrintM Unit} {indent : Nat}
    (h : Prints (inHex indent) body bs M') :
    Prints (plain indent) (do setHex; setFill '0'; body) bs M' :=
  prints_seq prints_setHex (prints_seq (prints_setFill '0') h)

variable {lc : Locale} {mem : Memory} {a t : Nat} {tag : TypeTag} {f : Nat}

/-- The check of an accessor lets its own type through. -/
theorem asChecked_result {α : Type} (unchecked : ReadM α) (h : mem t = tag.byte) :
    (asChecked mem ⟨some t, a⟩ tag unchecked).result = unchecked.result := by
  unfold asChecked
  rw [result_bind, (isType_yields mem a (Set.mem_univ t) tag).1]
  simp [Except.bind, h]

/-- What an accessor gives for its own type is what the unchecked one gives. -/
theorem unchecked_of_checked {α β : Type} {unchecked : ReadM α} {g : α → β} {v : β}
    (hm : mem t = tag.byte)
    (h : (do return g (← asChecked mem ⟨some t, a⟩ tag unchecked) : ReadM β).result = .ok v) :
    ∃ x, unchecked.result = .ok x ∧ v = g x := by
  obtain ⟨x, hx, h⟩ := bind_ok.mp h
  rw [asChecked_result unchecked hm] at hx
  cases h
  exact ⟨x, hx, rfl⟩

theorem printArgument_prints (lc : Locale) (indent : Nat) {v : Value}
    (htag : TypeTag.ofByte (mem t) = some tag)
    (h : (asTag mem ⟨some t, a⟩ f tag).result = .ok v) :
    Prints (plain indent) (printArgument lc mem f ⟨some t, a⟩) (renderValue lc v)
      (plain indent) := by
  have hm := (TypeTag.byte_of_ofByte htag).symm
  have hbyte : (readByte mem t).result = .ok (mem t) := rfl
  unfold printArgument
  apply prints_read hbyte
  rw [htag]
  cases tag
  case trueTag =>
    have hv : v = .bool true := by
      obtain ⟨b, hb, h⟩ := bind_ok.mp h
      rw [(asBool_true hm (Set.mem_univ t)).1] at hb
      cases hb
      cases h
      rfl
    subst hv
    exact prints_put _ _
  case falseTag =>
    have hv : v = .bool false := by
      obtain ⟨b, hb, h⟩ := bind_ok.mp h
      rw [(asBool_false hm (Set.mem_univ t)).1] at hb
      cases hb
      cases h
      rfl
    subst hv
    exact prints_put _ _
  case nil | infinitum =>
    cases h
    exact prints_put _ _
  case int32 | int64 =>
    obtain ⟨x, hx, rfl⟩ := unchecked_of_checked hm h
    exact prints_seq (prints_put _ _) (prints_read hx (prints_putInteger _ _ rfl))
  case float | double =>
    obtain ⟨x, hx, rfl⟩ := unchecked_of_checked hm h
    exact prints_seq (prints_put _ _) (prints_read hx (prints_put _ _))
  case string | symbol =>
    obtain ⟨x, hx, rfl⟩ := unchecked_of_checked hm h
    simp only [renderValue, List.append_assoc]
    exact prints_seq (prints_put _ _)
      (prints_read hx (prints_seq (prints_put _ _) (prints_put _ _)))
  case char =>
    obtain ⟨x, hx, rfl⟩ := unchecked_of_checked hm h
    simp only [renderValue, List.append_assoc]
    exact prints_read hx
      (prints_seq (prints_put _ _) (prints_seq (prints_put _ _) (prints_put _ _)))
  case rgbaColor =>
    obtain ⟨x, hx, rfl⟩ := unchecked_of_checked hm h
    have htext : renderValue lc (.rgbaColor x) = text "RGBA:0x" ++ (renderByte (byteOf x 24) ++
        (renderByte (byteOf x 16) ++ (renderByte (byteOf x 8) ++
          (renderByte (byteOf x 0) ++ ([] ++ []))))) := by
      simp [renderValue, renderWord]
    rw [htext]
    refine prints_read hx (prints_seq (prints_put _ _) (setHex_prints ?_))
    refine prints_seq (prints_putByte _ rfl rfl) (prints_seq (prints_putByte _ rfl rfl) ?_)
    refine prints_seq (prints_putByte _ rfl rfl) (prints_seq (prints_putByte _ rfl rfl) ?_)
    exact prints_seq (prints_setFill ' ') prints_unsetBase
  case midiMessage =>
    obtain ⟨x, hx, rfl⟩ := unchecked_of_checked hm h
    have hhead : text "midi (port, status, data1, data2):<<0x" =
        text "midi (port, status, data1, data2):<<" ++ text "0x" := rfl
    have htext : renderValue lc (.midiMessage x) =
        text "midi (port, status, data1, data2):<<" ++ (text "0x" ++ (renderByte (byteOf x 24) ++
          (text " 0x" ++ (renderByte (byteOf x 16) ++ (text " 0x" ++ (renderByte (byteOf x 8) ++
            (text " 0x" ++ (renderByte (byteOf x 0) ++ ([] ++ (text ">>" ++ [])))))))))) := by
      simp only [renderValue, renderWord, hhead, List.append_assoc, List.nil_append,
        List.append_nil]
    rw [htext]
    refine prints_read hx (prints_seq (prints_put _ _) (setHex_prints ?_))
    refine prints_seq (prints_put _ _) (prints_seq (prints_putByte _ rfl rfl) ?_)
    refine prints_seq (prints_put _ _) (prints_seq (prints_putByte _ rfl rfl) ?_)
    refine prints_seq (prints_put _ _) (prints_seq (prints_putByte _ rfl rfl) ?_)
    refine prints_seq (prints_put _ _) (prints_seq (prints_putByte _ rfl rfl) ?_)
    exact prints_seq (prints_setFill ' ') (prints_seq (prints_put _ _) prints_unsetBase)
  case timeTag =>
    obtain ⟨x, hx, rfl⟩ := unchecked_of_checked hm h
    simp only [renderValue, List.append_assoc]
    refine prints_seq (prints_put _ _) (prints_read hx ?_)
    refine prints_seq (prints_putInteger _ _ rfl) (prints_read hx ?_)
    exact prints_seq (prints_put _ _) (prints_put _ _)
  case blob =>
    obtain ⟨x, hx, rfl⟩ := unchecked_of_checked hm h
    have htext : renderValue lc (.blob x) =
        text "OSC-blob:<<" ++ (renderBlob x ++ ([] ++ (text ">>" ++ []))) := by
      simp [renderValue]
    rw [htext]
    refine prints_read hx (prints_seq (prints_put _ _) (setHex_prints ?_))
    refine prints_seq (putBlob_prints indent x) (prints_seq prints_unsetBase ?_)
    exact prints_seq (prints_put _ _) (prints_setFill ' ')

/-! ## Messages -/

/-- The arguments behind the address: a blank in front of the first one, a comma and a blank in
front of every other. -/
def renderArguments (lc : Locale) (first : Bool) : List Value → List UInt8
  | [] => []
  | v :: vs =>
    (if first then text " " else text ", ") ++ renderValue lc v ++ renderArguments lc false vs

theorem renderArguments_eq (lc : Locale) (v : Value) (vs : List Value) :
    renderValue lc v ++ renderArguments lc false vs =
      (text ", ").intercalate ((v :: vs).map (renderValue lc)) := by
  induction vs generalizing v with
  | nil => simp [renderArguments]
  | cons w vs ih =>
    simp only [renderArguments, Bool.false_eq_true, if_false, List.append_assoc]
    rw [ih w]
    simp [List.intercalate]

theorem renderMessage_eq (lc : Locale) (m : ShownMessage) : renderMessage lc m =
    text "[" ++ (m.addressPattern ++ (renderArguments lc true m.args ++ text "]")) := by
  unfold renderMessage
  cases hargs : m.args with
  | nil => simp [renderArguments]
  | cons v vs =>
    rw [if_neg (by simp), ← renderArguments_eq]
    simp [renderArguments]

/-- At an unknown type tag the walk stands still, so it runs out of its fuel. -/
theorem walk_unknown {fin : ReceivedMessageArgument} (htag : TypeTag.ofByte (mem t) = none)
    (hend : some t ≠ fin.typeTag) (fuel : Nat) (vs : List Value) :
    (walk mem fin fuel ⟨some t, a⟩).result ≠ .ok vs := by
  induction fuel with
  | zero => simp [walk]
  | succ fuel ih =>
    intro h
    unfold walk at h
    rw [if_neg hend] at h
    obtain ⟨b, hb, h⟩ := bind_ok.mp h
    cases hb
    rw [htag] at h
    obtain ⟨next, hnext, h⟩ := bind_ok.mp h
    obtain ⟨b, hb, hnext⟩ := bind_ok.mp hnext
    cases hb
    rw [htag] at hnext
    cases hnext
    exact ih h

/-- The arguments are printed as the accessors give them. The induction is over the fuel of the
iterator, which both loops share. -/
theorem printArguments_prints (indent : Nat) {fin : ReceivedMessageArgument} {fuel : Nat}
    {i : ReceivedMessageArgument} {vs : List Value} (first : Bool)
    (h : (walk mem fin fuel i).result = .ok vs) :
    Prints (plain indent) (printArguments lc mem fin fuel first i) (renderArguments lc first vs)
      (plain indent) := by
  induction fuel generalizing i vs first with
  | zero => cases h
  | succ fuel ih =>
    unfold printArguments
    by_cases hend : i.typeTag = fin.typeTag
    · unfold walk at h
      rw [if_pos hend] at h
      cases h
      rw [if_pos hend]
      exact prints_nil _
    · rw [if_neg hend]
      obtain ⟨typeTag, argument⟩ := i
      cases typeTag with
      | none =>
        unfold walk at h
        rw [if_neg hend] at h
        cases h
      | some t =>
        cases htag : TypeTag.ofByte (mem t) with
        | none => exact absurd h (walk_unknown htag hend _ vs)
        | some tag =>
          unfold walk at h
          rw [if_neg hend] at h
          obtain ⟨b, hb, h⟩ := bind_ok.mp h
          cases hb
          rw [htag] at h
          obtain ⟨v, hv, h⟩ := bind_ok.mp h
          obtain ⟨next, hnext, h⟩ := bind_ok.mp h
          obtain ⟨vs', hvs, h⟩ := bind_ok.mp h
          cases h
          unfold renderArguments
          rw [List.append_assoc]
          have htail := prints_seq (printArgument_prints lc indent htag hv)
            (prints_read hnext (ih false hvs))
          cases first with
          | true => exact prints_seq (prints_put _ _) htail
          | false => exact prints_seq (prints_put _ _) htail

theorem printMessage_prints (indent : Nat) {r : ReceivedMessage} {m : ShownMessage}
    (h : (showMessage mem f r).result = .ok m) :
    Prints (plain indent) (printMessage lc mem f r) (renderMessage lc m) (plain indent) := by
  obtain ⟨address, haddress, h⟩ := bind_ok.mp h
  obtain ⟨args, hargs, h⟩ := bind_ok.mp h
  cases h
  rw [renderMessage_eq]
  refine prints_seq (prints_put _ _) (prints_read haddress (prints_seq (prints_put _ _) ?_))
  exact prints_seq (printArguments_prints indent true hargs) (prints_put _ _)

/-! ## Bundles -/

theorem putIndent_prints (indent : Nat) :
    Prints (plain indent) putIndent (renderIndent indent) (plain indent) := by
  apply prints_get
  intro st hst
  have hindent : st.indent = indent := congrArg PrintMode.indent hst
  rw [hindent]
  exact prints_put _ _

/-- A bundle around the text of its elements, with the newline that its caller prints. -/
theorem printBundleWith_prints (indent : Nat) {elements : PrintM Unit} {b : ReceivedBundle}
    {timeTag : UInt64} {es : List ShownElement} (count : Nat)
    (htimeTag : (readUInt64 mem b.timeTag).result = .ok timeTag)
    (helements : Prints (plain (indent + 1)) elements (renderElements lc (indent + 1) es)
      (plain (indent + 1))) :
    Prints (plain indent) (do printBundleWith mem elements b; put (text "\n"))
      (renderElement lc indent (.node ⟨timeTag, count⟩ es)) (plain indent) := by
  have hmark : Prints (plain indent)
      (if timeTag = 1 then put (text "immediate") else putInteger 64 0 timeTag.toNat)
      (renderTimeTag timeTag) (plain indent) := by
    unfold renderTimeTag
    by_cases hone : timeTag = 1
    · rw [if_pos hone, if_pos hone]
      exact prints_put _ _
    · rw [if_neg hone, if_neg hone]
      exact prints_putInteger _ _ rfl
  have hdeeper : Prints (plain indent)
      (modify fun st => { st with indent := st.indent + 1 }) [] (plain (indent + 1)) :=
    prints_indent (· + 1)
  have hback : Prints (plain (indent + 1))
      (modify fun st => { st with indent := st.indent - 1 }) [] (plain indent) :=
    prints_indent (· - 1)
  have hbody : Prints (plain indent) (printBundleWith mem elements b)
      (renderIndent indent ++ (text "\x7b ( " ++ (renderTimeTag timeTag ++ (text " )\n" ++
        ([] ++ (renderElements lc (indent + 1) es ++ ([] ++ (renderIndent indent ++
          text "\x7d")))))))) (plain indent) := by
    refine prints_seq (putIndent_prints indent) (prints_seq (prints_put _ _) ?_)
    apply prints_read htimeTag
    have hrest := prints_seq hdeeper (prints_seq helements (prints_seq hback
      (prints_seq (putIndent_prints indent) (prints_put _ (text "\x7d")))))
    by_cases hone : timeTag = 1
    · rw [if_pos hone] at hmark ⊢
      exact prints_seq hmark (prints_seq (prints_put _ _) hrest)
    · rw [if_neg hone] at hmark ⊢
      exact prints_seq hmark (prints_seq (prints_put _ _) hrest)
  have htext : renderElement lc indent (.node ⟨timeTag, count⟩ es) =
      (renderIndent indent ++ (text "\x7b ( " ++ (renderTimeTag timeTag ++ (text " )\n" ++
        ([] ++ (renderElements lc (indent + 1) es ++ ([] ++ (renderIndent indent ++
          text "\x7d")))))))) ++ text "\n" := by
    simp only [renderElement, List.append_assoc, List.nil_append]
  rw [htext]
  exact prints_seq hbody (prints_put _ _)

/-- The elements are printed as the accessors show them. -/
theorem printElements_prints (indent : Nat) {fin fuel i : Nat} {es : List ShownElement}
    (h : (showElements mem f fin fuel i).result = .ok es) :
    Prints (plain indent) (printElements lc mem f fin fuel i) (renderElements lc indent es)
      (plain indent) := by
  induction fuel generalizing i fin es indent with
  | zero => cases h
  | succ fuel ih =>
    unfold showElements at h
    unfold printElements
    by_cases hend : i = fin
    · rw [if_pos hend] at h ⊢
      cases h
      exact prints_nil _
    · rw [if_neg hend] at h ⊢
      obtain ⟨size, hsize, h⟩ := bind_ok.mp h
      obtain ⟨bundle, hbundle, h⟩ := bind_ok.mp h
      refine prints_read hsize (prints_read hbundle ?_)
      cases bundle with
      | true =>
        rw [if_pos rfl] at h ⊢
        obtain ⟨b, hb, h⟩ := bind_ok.mp h
        obtain ⟨timeTag, htimeTag, h⟩ := bind_ok.mp h
        obtain ⟨inner, hinner, h⟩ := bind_ok.mp h
        obtain ⟨rest, hrest, h⟩ := bind_ok.mp h
        cases h
        apply prints_read hb
        unfold renderElements
        have hfirst := printBundleWith_prints indent b.elementCount htimeTag
          (ih (indent + 1) hinner)
        have hall := prints_seq hfirst (ih indent hrest)
        simpa only [bind_assoc] using hall
      | false =>
        rw [if_neg (by simp)] at h ⊢
        obtain ⟨m, hm, h⟩ := bind_ok.mp h
        obtain ⟨message, hmessage, h⟩ := bind_ok.mp h
        obtain ⟨rest, hrest, h⟩ := bind_ok.mp h
        cases h
        apply prints_read hm
        unfold renderElements renderElement
        rw [List.append_assoc, List.append_assoc]
        refine prints_seq (putIndent_prints indent) ?_
        refine prints_seq (printMessage_prints indent hmessage) ?_
        exact prints_seq (prints_put _ _) (ih indent hrest)

theorem printPacket_prints (indent : Nat) {fuel size : Nat} {e : ShownElement}
    (h : (showPacket mem f fuel size).result = .ok e) :
    Prints (plain indent) (printPacket lc mem f fuel size) (renderPacket lc indent e)
      (plain indent) := by
  unfold showPacket at h
  unfold printPacket
  obtain ⟨bundle, hbundle, h⟩ := bind_ok.mp h
  apply prints_read hbundle
  cases bundle with
  | true =>
    rw [if_pos rfl] at h ⊢
    obtain ⟨b, hb, h⟩ := bind_ok.mp h
    obtain ⟨timeTag, htimeTag, h⟩ := bind_ok.mp h
    obtain ⟨inner, hinner, h⟩ := bind_ok.mp h
    cases h
    apply prints_read hb
    exact printBundleWith_prints indent _ htimeTag (printElements_prints (indent + 1) hinner)
  | false =>
    rw [if_neg (by simp)] at h ⊢
    obtain ⟨m, hm, h⟩ := bind_ok.mp h
    obtain ⟨message, hmessage, h⟩ := bind_ok.mp h
    cases h
    apply prints_read hm
    exact prints_seq (printMessage_prints indent hmessage) (prints_put _ _)

/-- Where the accessors show a packet, its print ends normally and appends the text of what they
show. The format of the stream and the indentation stay. -/
theorem a_packet_prints_what_its_accessors_show (lc : Locale) (mem : Memory) (f fuel size : Nat)
    (st : Printer) (hhex : st.os.hex = false) (hfill : st.os.fill = ascii ' ') {e : ShownElement}
    (h : (showPacket mem f fuel size).result = .ok e) :
    (printPacket lc mem f fuel size).run st = .ok ()
      { st with os := { st.os with
        written := st.os.written ++ renderPacket lc st.indent e } } := by
  have hmode : st.mode = plain st.indent := by
    unfold Printer.mode plain
    rw [hhex, hfill]
  rw [printPacket_prints st.indent h st hmode]
  simp [Printer.after, plain, hhex, hfill]

/-- `/ ,T`, where the library prints nothing for a number. -/
theorem a_packet_prints_what_its_accessors_show_bool :
    (printPacket ⟨fun _ => [], fun _ => [], fun _ => []⟩
      (fun i => [47, 0, 0, 0, 44, 84, 0, 0].getD i 0) 9 9 8).run { indent := 2 } =
      .ok () { os := { written := text "[/ bool:true]\n" }, indent := 2 } :=
  a_packet_prints_what_its_accessors_show ⟨fun _ => [], fun _ => [], fun _ => []⟩
    (fun i => [47, 0, 0, 0, 44, 84, 0, 0].getD i 0) 9 9 8 { indent := 2 } rfl rfl
    (e := .leaf ⟨[47], 1, [.bool true]⟩) (by rfl)

end esc_platform.osc
