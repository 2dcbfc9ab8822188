-- `MessageMappingOscPacketListener.h`: a packet listener with a member
-- function for each address. A packet, however its bundles are nested, is
-- the calls of its messages one after the other, by their addresses.
import EscPlatform.Osc.TreeReads
import Mathlib.Data.List.Forall2

namespace esc_platform.osc

open bytes traced_reads Traced bracketed checked

/-! ## The listener -/

/-- `functions_`, a map by `cstr_compare`: `strcmp` of the C strings. A function is known by its
name `F`. -/
abbrev FunctionMap (F : Type) := Std.TreeMap (List UInt8) F (compareOn cStr)

section listener

variable {F σ : Type}

/-- `RegisterMessageFunction`. `insert` leaves a function that is there. -/
def registerMessageFunction (functions_ : FunctionMap F) (addressPattern : List UInt8) (f : F) :
    FunctionMap F :=
  functions_.insertIfNew addressPattern f

/-- The map behind the calls of a constructor. -/
def registerMessageFunctions (registrations : List (List UInt8 × F)) : FunctionMap F :=
  registrations.foldl (fun functions_ r => registerMessageFunction functions_ r.1 r.2) ∅

/-- `ProcessMessage`. `call` is a member function of `T`, over the state of `T`. -/
def processMappedMessage (mem : Memory) (fuel : Nat) (functions_ : FunctionMap F)
    (call : F → ReceivedMessage → IpEndpointName → ListenM σ Unit) (m : ReceivedMessage)
    (remoteEndpoint : IpEndpointName) : ListenM σ Unit := do
  let addressPattern ← liftRead (readCString mem fuel m.addressPattern)
  match functions_[addressPattern]? with
  | some f => call f m remoteEndpoint
  | none => return

end listener

/-! ## The calls of a packet -/

section calls

variable {F σ : Type}

/-- The function that comes first with the address. -/
def firstRegistered (registrations : List (List UInt8 × F)) (addressPattern : List UInt8) :
    Option F :=
  (registrations.find? fun r => cStr r.1 = cStr addressPattern).map (·.2)

variable (registrations : List (List UInt8 × F))
  (call : F → ReceivedMessage → IpEndpointName → ListenM σ Unit) (remoteEndpoint : IpEndpointName)

/-- One message, as it was written and as it is received. -/
def callFirst (written : StreamMessage) (m : ReceivedMessage) : ListenM σ Unit :=
  match firstRegistered registrations written.addressPattern with
  | some f => call f m remoteEndpoint
  | none => return

/-- The messages of a packet, each given to the function of its address. -/
def callEach : List (StreamMessage × ReceivedMessage) → ListenM σ Unit
  | [] => return
  | (written, m) :: ms => do
    callFirst registrations call remoteEndpoint written m
    callEach ms

end calls

/-! ## Registrations -/

section registrations

variable {F : Type} {functions_ : FunctionMap F}

theorem compareOn_cStr_eq {a b : List UInt8} : compareOn cStr a b = .eq ↔ cStr a = cStr b := by
  unfold compareOn
  exact Std.compare_eq_iff_eq

theorem registerMessageFunction_find (functions_ : FunctionMap F) (a b : List UInt8) (f : F) :
    (registerMessageFunction functions_ a f)[b]? =
      functions_[b]?.or (if cStr a = cStr b then some f else none) := by
  unfold registerMessageFunction
  rw [Std.TreeMap.getElem?_insertIfNew]
  by_cases hab : cStr a = cStr b
  · have hcompare : compareOn cStr a b = .eq := compareOn_cStr_eq.mpr hab
    have hsame : functions_[a]? = functions_[b]? := Std.TreeMap.getElem?_congr hcompare
    simp only [if_pos hab, hcompare, true_and, Std.TreeMap.mem_iff_isSome_getElem?, hsame]
    cases functions_[b]? with
    | none => rfl
    | some g => rfl
  · have hcompare : compareOn cStr a b ≠ .eq := compareOn_cStr_eq.not.mpr hab
    simp [hcompare, hab]

theorem registerMessageFunctions_find (registrations : List (List UInt8 × F))
    (addressPattern : List UInt8) :
    (registerMessageFunctions registrations)[addressPattern]? =
      firstRegistered registrations addressPattern := by
  have hfold : ∀ functions_ : FunctionMap F,
      (registrations.foldl (fun functions_ r =>
        registerMessageFunction functions_ r.1 r.2) functions_)[addressPattern]? =
        functions_[addressPattern]?.or (firstRegistered registrations addressPattern) := by
    induction registrations with
    | nil =>
      intro functions_
      simp [firstRegistered]
    | cons r registrations ih =>
      intro functions_
      rw [List.foldl_cons, ih, registerMessageFunction_find, Option.or_assoc]
      congr 1
      unfold firstRegistered
      rw [List.find?_cons]
      by_cases h : cStr r.1 = cStr addressPattern <;> simp [h]
  unfold registerMessageFunctions
  rw [hfold]
  simp

end registrations

/-! ## The messages of a packet -/

section messages

variable {mem : Memory} {i fin fuel f : Nat}

/-- The reader stands on the message that was written. -/
def Received (mem : Memory) (f : Nat) (m : StreamMessage) (r : ReceivedMessage) : Prop :=
  (showMessage mem f r).result = .ok m.shown

/-- The loop hands the messages of its elements on, one after the other, whatever is done with
them. The induction is over the fuel, which counts elements of any depth. -/
theorem processElements_messages (es : List PacketElement)
    (hes : AllLeavesIn StreamMessage.NoBundle es) (hi : i ≤ fin)
    (hbs : slice mem i (fin - i) = encodeElements es) (hlt : fin < 2 ^ 31)
    (hfuel : fin - i < fuel) (hf : 2 * fin < f) :
    ∃ rs, List.Forall₂ (Received mem f) (leavesIn es) rs ∧
      ∀ {σ : Type} (ep : IpEndpointName) (pm : ReceivedMessage → IpEndpointName → ListenM σ Unit),
        processElements mem ep pm fin fuel i = forM rs fun r => pm r ep := by
  induction fuel generalizing i fin es with
  | zero => omega
  | succ fuel ih =>
    cases es with
    | nil =>
      have hlen := congrArg List.length hbs
      rw [slice_length, encodeElements, List.length_nil] at hlen
      refine ⟨[], .nil, fun ep pm => ?_⟩
      unfold processElements
      rw [if_pos (by omega)]
      rfl
    | cons e es =>
      have hat := firstElement_at hi hbs hlt
      have hle := hat.le
      obtain ⟨rest, hrest, hcalls⟩ := ih es hes.2 hle hat.behind hlt (by omega) hf
      have hcells := hat.cells
      cases e with
      | leaf m =>
        obtain ⟨r, hr, hm⟩ := showMessage_encode (f := f) m hcells
          (by rw [encodeElement] at hle; omega) (by rw [encodeElement] at hle; omega)
        refine ⟨r :: rest, .cons hm hrest, fun ep pm => ?_⟩
        funext l
        refine (processElements_message hat (by omega) (encode_head m hes.1)).trans ?_
        rw [encodeElement] at *
        rw [run_liftRead_ok hr, hcalls ep pm]
        rfl
      | node timeTag inner =>
        obtain ⟨hb, htimeTag, hinner, hsixteen⟩ := receivedBundle_encode timeTag inner hcells
          (show i + 4 + (encodeElement (.node timeTag inner)).length < 2 ^ 31 by omega)
          (show _ < fuel by omega)
        obtain ⟨rs, hrs, hcallsIn⟩ := ih inner hes.1
          (show i + 4 + 8 + 8 ≤ i + 4 + (encodeElement (.node timeTag inner)).length by omega)
          hinner (by omega) (by omega) (by omega)
        refine ⟨rs ++ rest, List.rel_append hrs hrest, fun ep pm => ?_⟩
        funext l
        refine (processElements_bundle hat (by omega) rfl).trans ?_
        rw [run_liftRead_ok hb, hcallsIn ep pm, hcalls ep pm, List.forM_append]
        rfl

/-- The messages of a packet are handed on in the order of its leaves. -/
theorem processPacket_messages (e : PacketElement) (he : e.AllLeaves StreamMessage.NoBundle)
    (hbs : slice mem 0 (encodeElement e).length = encodeElement e)
    (hlt : (encodeElement e).length < 2 ^ 31) (hfuel : (encodeElement e).length < fuel)
    (hf : 2 * (encodeElement e).length < f) :
    ∃ rs, List.Forall₂ (Received mem f) e.leaves rs ∧
      ∀ {σ : Type} (ep : IpEndpointName) (pm : ReceivedMessage → IpEndpointName → ListenM σ Unit),
        processPacket mem ep pm fuel (encodeElement e).length = forM rs fun r => pm r ep := by
  cases e with
  | leaf m =>
    obtain ⟨r, hr, hm⟩ := showMessage_encode (f := f) m hbs hlt
      (by rw [encodeElement] at hf; omega)
    refine ⟨[r], .cons hm .nil, fun ep pm => ?_⟩
    funext l
    refine (processPacket_message hbs (encode_head m he)).trans ?_
    rw [encodeElement, run_liftRead_ok hr]
    simp
    rfl
  | node timeTag es =>
    obtain ⟨hb, htimeTag, hinner, hsixteen⟩ := receivedBundle_encode timeTag es hbs
      (by rw [Nat.zero_add]; exact hlt) hfuel
    obtain ⟨rs, hrs, hcalls⟩ := processElements_messages es he
      (show 0 + 8 + 8 ≤ 0 + (encodeElement (.node timeTag es)).length by omega)
      hinner (by omega) (show _ < fuel by omega) (show _ < f by omega)
    refine ⟨rs, hrs, fun ep pm => ?_⟩
    funext l
    refine (processPacket_bundle hbs rfl).trans ?_
    rw [run_liftRead_ok hb, hcalls ep pm]
    rfl

end messages

/-! ## Messages and functions -/

section functions

variable {F σ : Type} {mem : Memory} {f : Nat} {ep : IpEndpointName}
  {call : F → ReceivedMessage → IpEndpointName → ListenM σ Unit}

/-- The address that is looked up is the one that was written. -/
theorem processMappedMessage_received {m : StreamMessage} {r : ReceivedMessage}
    (h : Received mem f m r) (registrations : List (List UInt8 × F)) :
    processMappedMessage mem f (registerMessageFunctions registrations) call r ep =
      callFirst registrations call ep m r := by
  obtain ⟨addressPattern, haddress, hargs⟩ := bind_ok.mp h
  obtain ⟨args, -, hshown⟩ := bind_ok.mp hargs
  have haddr : addressPattern = cStr m.addressPattern :=
    congrArg ShownMessage.addressPattern (Except.ok.inj hshown)
  have hfirst : firstRegistered registrations addressPattern =
      firstRegistered registrations m.addressPattern := by
    unfold firstRegistered
    rw [haddr, cStr_cStr]
  funext l
  refine (run_liftRead_ok haddress).trans ?_
  rw [registerMessageFunctions_find, hfirst]
  rfl

theorem forM_received {ms : List StreamMessage} {rs : List ReceivedMessage}
    (h : List.Forall₂ (Received mem f) ms rs) (registrations : List (List UInt8 × F)) :
    (forM rs fun r =>
      processMappedMessage mem f (registerMessageFunctions registrations) call r ep) =
      callEach registrations call ep (ms.zip rs) := by
  induction h with
  | nil => rfl
  | cons hm hms ih =>
    rw [List.forM_cons, ih, processMappedMessage_received hm]
    rfl

/-- A packet calls, for each of its messages in their order and at any depth, the function that
was registered first with the address of the message, and none where there is none. What a
function throws ends the packet. -/
theorem each_message_goes_to_its_first_function (registrations : List (List UInt8 × F))
    (call : F → ReceivedMessage → IpEndpointName → ListenM σ Unit) (ep : IpEndpointName)
    (e : PacketElement) (he : e.AllLeaves StreamMessage.NoBundle) (mem : Memory)
    (hbs : slice mem 0 (encodeElement e).length = encodeElement e)
    (hlt : (encodeElement e).length < 2 ^ 31) :
    ∃ n, ∀ fuel ≥ n, ∃ rs, List.Forall₂ (Received mem fuel) e.leaves rs ∧
      processPacket mem ep
          (processMappedMessage mem fuel (registerMessageFunctions registrations) call)
          fuel (encodeElement e).length =
        callEach registrations call ep (e.leaves.zip rs) := by
  refine ⟨2 * (encodeElement e).length + 1, fun fuel hfuel => ?_⟩
  obtain ⟨rs, hrs, hcalls⟩ := processPacket_messages e he hbs hlt (show _ < fuel by omega)
    (show _ < fuel by omega)
  refine ⟨rs, hrs, ?_⟩
  rw [hcalls, forM_received hrs]

/-- `/b`, and `/a` in a bundle behind `/c`: the second function of `/a` is never called. -/
theorem each_message_goes_to_its_first_function_once :
    let e : PacketElement := .node 1 [.leaf ⟨[47, 98], []⟩,
      .node 1 [.leaf ⟨[47, 99], [.int32 7]⟩, .leaf ⟨[47, 97], []⟩]]
    let registrations : List (List UInt8 × Nat) :=
      [([47, 97, 0], 1), ([47, 98, 0], 2), ([47, 97, 0, 120], 3)]
    let call : Nat → ReceivedMessage → IpEndpointName → ListenM (List Nat) Unit :=
      fun f _ _ => modify (· ++ [f])
    let mem : Memory := fun i => (encodeElement e).getD i 0
    ∃ n, ∀ fuel ≥ n, (processPacket mem ⟨0, 0⟩ (processMappedMessage mem fuel
      (registerMessageFunctions registrations) call) fuel 76).run [] = .ok () [2, 1] := by
  intro e registrations call mem
  have he : e.AllLeaves StreamMessage.NoBundle := by
    simp [e, Tree.AllLeaves, AllLeavesIn, StreamMessage.NoBundle, cStr, ascii]
  obtain ⟨n, h⟩ := each_message_goes_to_its_first_function registrations call ⟨0, 0⟩ e he mem
    (by decide) (by decide)
  refine ⟨n, fun fuel hfuel => ?_⟩
  obtain ⟨rs, hrs, hrun⟩ := h fuel hfuel
  have hlength : (encodeElement e).length = 76 := by decide
  rw [hlength] at hrun
  have hleaves : e.leaves = [⟨[47, 98], []⟩, ⟨[47, 99], [.int32 7]⟩, ⟨[47, 97], []⟩] := rfl
  rw [hleaves] at hrs hrun
  obtain ⟨b, rs, -, htail, rfl⟩ := List.forall₂_cons_left_iff.mp hrs
  obtain ⟨c, rs, -, hlast, rfl⟩ := List.forall₂_cons_left_iff.mp htail
  obtain ⟨a, rs, -, -, rfl⟩ := List.forall₂_cons_left_iff.mp hlast
  rw [hrun]
  rfl

end functions

end esc_platform.osc
