-- The values of the OSC code: type tags, arguments, messages and bundles
-- (`OscTypes.h`, `OscArg.h`, `OscMessage.h`, `OscBundle.h`).
import EscPlatform.Lib.Bytes
import Mathlib.Data.List.TakeWhile

namespace esc_platform.osc

/-- The code of a character as a `char` of the packet. -/
def ascii (c : Char) : UInt8 := UInt8.ofNat c.toNat

/-! ## Type tags -/

/-- `enum TypeTagValues`. -/
inductive TypeTag
  | trueTag | falseTag | nil | infinitum
  | int32 | float | char | rgbaColor | midiMessage
  | int64 | timeTag | double
  | string | symbol | blob
  deriving DecidableEq, Repr

def TypeTag.byte : TypeTag → UInt8
  | .trueTag => ascii 'T'
  | .falseTag => ascii 'F'
  | .nil => ascii 'N'
  | .infinitum => ascii 'I'
  | .int32 => ascii 'i'
  | .float => ascii 'f'
  | .char => ascii 'c'
  | .rgbaColor => ascii 'r'
  | .midiMessage => ascii 'm'
  | .int64 => ascii 'h'
  | .timeTag => ascii 't'
  | .double => ascii 'd'
  | .string => ascii 's'
  | .symbol => ascii 'S'
  | .blob => ascii 'b'

def TypeTag.all : List TypeTag :=
  [.trueTag, .falseTag, .nil, .infinitum, .int32, .float, .char, .rgbaColor, .midiMessage,
    .int64, .timeTag, .double, .string, .symbol, .blob]

/-- The case of a `switch` over the type tags that a byte selects, `none` for `default`. -/
def TypeTag.ofByte (b : UInt8) : Option TypeTag := TypeTag.all.find? (fun t => t.byte = b)

@[simp] theorem TypeTag.ofByte_byte (t : TypeTag) : TypeTag.ofByte t.byte = some t := by
  cases t <;> decide

theorem TypeTag.byte_of_ofByte {b : UInt8} {t : TypeTag} (h : TypeTag.ofByte b = some t) :
    t.byte = b := by
  unfold TypeTag.ofByte at h
  simpa using List.find?_some h

/-- The terminator of a type tag string is no type tag. -/
theorem TypeTag.byte_ne_zero (t : TypeTag) : t.byte ≠ 0 := by
  cases t <;> decide

theorem TypeTag.byte_injective : Function.Injective TypeTag.byte := by
  intro t u h
  have ht := TypeTag.ofByte_byte t
  rw [h, TypeTag.ofByte_byte] at ht
  exact (Option.some.inj ht).symm

/-- `"#bundle"` with its NUL, the address pattern of a bundle. -/
def bundlePattern : List UInt8 :=
  [ascii '#', ascii 'b', ascii 'u', ascii 'n', ascii 'd', ascii 'l', ascii 'e', 0]

/-! ## Arguments, messages and bundles -/

/-- The argument classes of `OscArg.h`. A float is the 32 bits of its representation. -/
inductive Arg
  | int32 (value : Int32)
  | float (bits : UInt32)
  | string (value : List UInt8)
  deriving DecidableEq, Repr

def Arg.typeTag : Arg → TypeTag
  | .int32 _ => .int32
  | .float _ => .float
  | .string _ => .string

/-- `class Message`. Addresses and string arguments are the bytes of a `std::string`. -/
structure Message where
  address : List UInt8
  args : List Arg
  remoteHost : String := ""
  remotePort : Int := 0
  deriving DecidableEq, Repr

def Message.setRemoteEndpoint (m : Message) (host : String) (port : Int) : Message :=
  { m with remoteHost := host, remotePort := port }

/-- `class Bundle`: its own messages and its sub-bundles. -/
inductive Bundle
  | mk (messages : List Message) (bundles : List Bundle)

mutual

/-- The messages of a bundle in the order of its packet: the sub-bundles first, then the
bundle's own messages. -/
def flatten : Bundle → List Message
  | .mk messages bundles => flattenAll bundles ++ messages

def flattenAll : List Bundle → List Message
  | [] => []
  | b :: bs => flatten b ++ flattenAll bs

end

/-! ## C strings -/

/-- What `c_str()` shows to the C string functions: the bytes before the first NUL. -/
def cStr (s : List UInt8) : List UInt8 := s.takeWhile (fun c => c ≠ 0)

theorem cStr_eq_self {s : List UInt8} (h : (0 : UInt8) ∉ s) : cStr s = s := by
  unfold cStr
  rw [List.takeWhile_eq_self_iff]
  intro c hc
  simp only [decide_eq_true_eq, ne_eq]
  intro h0
  exact h (h0 ▸ hc)

theorem zero_not_mem_cStr (s : List UInt8) : (0 : UInt8) ∉ cStr s := by
  intro h
  have := List.mem_takeWhile_imp h
  simp at this

/-- Bytes with a NUL are their C string, its NUL, and what stands behind it. -/
theorem cStr_split {s : List UInt8} (h : (0 : UInt8) ∈ s) : ∃ rest, s = cStr s ++ 0 :: rest := by
  induction s with
  | nil => cases h
  | cons c s ih =>
    by_cases hc : c = 0
    · exact ⟨s, by simp [cStr, hc]⟩
    · have hs : (0 : UInt8) ∈ s := by
        rcases List.mem_cons.mp h with h | h
        · exact absurd h.symm hc
        · exact h
      obtain ⟨rest, hrest⟩ := ih hs
      refine ⟨rest, ?_⟩
      have hcons : cStr (c :: s) = c :: cStr s := by simp [cStr, hc]
      rw [hcons, List.cons_append, ← hrest]

/-- Bytes without a NUL, then a NUL: the C string stops there. -/
theorem cStr_append_zero {s : List UInt8} (h : (0 : UInt8) ∉ s) (rest : List UInt8) :
    cStr (s ++ 0 :: rest) = s := by
  unfold cStr
  rw [List.takeWhile_append_of_pos]
  · simp
  · intro c hc
    simp only [decide_eq_true_eq, ne_eq]
    intro h0
    exact h (h0 ▸ hc)

end esc_platform.osc
