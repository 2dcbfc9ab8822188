-- What a list of bytes says as an OSC packet. Nothing here reads a memory:
-- these are the strings, arguments, messages and bundles of the format, as
-- functions and a relation over byte lists, for the reader to be compared
-- with.
import EscPlatform.Osc.ReceivedElements

namespace esc_platform.osc

open bytes

/-! ## Strings -/

/-- A string ends with the first group of four bytes whose last byte is NUL. -/
def splitStr4Tail : List UInt8 → Option (List UInt8 × List UInt8)
  | a :: b :: c :: d :: rest =>
    if d = 0 then some ([a, b, c, 0], rest)
    else (splitStr4Tail rest).map fun (s, rest) => (a :: b :: c :: d :: s, rest)
  | _ => none

/-- The bytes of the string at the front, and the rest. A leading NUL is a string of four
bytes whatever stands behind it. -/
def splitStr4 : List UInt8 → Option (List UInt8 × List UInt8)
  | 0 :: a :: b :: c :: rest => some ([0, a, b, c], rest)
  | bs => splitStr4Tail bs

/-! ## Arguments -/

/-- The next `n` bytes, and the rest. -/
def takeBytes (n : Nat) (bs : List UInt8) : Option (List UInt8 × List UInt8) :=
  if n ≤ bs.length then some (bs.take n, bs.drop n) else none

def word32 (bs : List UInt8) : UInt32 := UInt32.ofNat (beValue bs)

def word64 (bs : List UInt8) : UInt64 := UInt64.ofNat (beValue bs)

/-- A blob: its size, its data, and zeros up to the next multiple of four. -/
def takeBlob (bs : List UInt8) : Option (List UInt8 × List UInt8) :=
  (takeBytes 4 bs).bind fun (size, bs) =>
    (takeBytes (roundUp4Unsigned (word32 size).toNat) bs).map fun (data, rest) =>
      (data.take (word32 size).toNat, rest)

/-- One argument of a type, and the bytes behind it. -/
def parseArg : TypeTag → List UInt8 → Option (Value × List UInt8)
  | .trueTag, bs => some (.bool true, bs)
  | .falseTag, bs => some (.bool false, bs)
  | .nil, bs => some (.nil, bs)
  | .infinitum, bs => some (.infinitum, bs)
  | .int32, bs => (takeBytes 4 bs).map fun (w, rest) => (.int32 (word32 w).toInt32, rest)
  | .float, bs => (takeBytes 4 bs).map fun (w, rest) => (.float (word32 w), rest)
  | .char, bs => (takeBytes 4 bs).map fun (w, rest) => (.char (word32 w).toUInt8, rest)
  | .rgbaColor, bs => (takeBytes 4 bs).map fun (w, rest) => (.rgbaColor (word32 w), rest)
  | .midiMessage, bs => (takeBytes 4 bs).map fun (w, rest) => (.midiMessage (word32 w), rest)
  | .int64, bs => (takeBytes 8 bs).map fun (w, rest) => (.int64 (word64 w).toInt64, rest)
  | .timeTag, bs => (takeBytes 8 bs).map fun (w, rest) => (.timeTag (word64 w), rest)
  | .double, bs => (takeBytes 8 bs).map fun (w, rest) => (.double (word64 w), rest)
  | .string, bs => (splitStr4 bs).map fun (s, rest) => (.string (cStr s), rest)
  | .symbol, bs => (splitStr4 bs).map fun (s, rest) => (.symbol (cStr s), rest)
  | .blob, bs => (takeBlob bs).map fun (data, rest) => (.blob data, rest)

/-- An argument of a message as its accessor gives it. -/
def Arg.toValue : Arg → Value
  | .int32 value => .int32 value
  | .float bits => .float bits
  | .string value => .string value

/-- The arguments of a type tag string, and the bytes behind the last one. -/
def parseArgs : List UInt8 → List UInt8 → Option (List Value × List UInt8)
  | [], bs => some ([], bs)
  | t :: ts, bs =>
    (TypeTag.ofByte t).bind fun tag =>
      (parseArg tag bs).bind fun (v, bs) =>
        (parseArgs ts bs).map fun (vs, rest) => (v :: vs, rest)

/-! ## Messages -/

/-- The address, the type tags and the argument bytes of a message. A message without type
tags ends behind its address or has the type tag string `","`. -/
structure Header where
  address : List UInt8
  tags : List UInt8
  args : List UInt8
  deriving DecidableEq, Repr

def parseTypeTags (address bs : List UInt8) : Option Header :=
  match bs with
  | [] => some ⟨address, [], []⟩
  | c :: bs =>
    if c ≠ ascii ',' then none
    else if bs.head? = some 0 then some ⟨address, [], []⟩
    else (splitStr4 (c :: bs)).map fun (tags, args) => ⟨address, (cStr tags).tail, args⟩

def parseHeader (bs : List UInt8) : Option Header :=
  if bs = [] ∨ bs.length % 4 ≠ 0 then none
  else (splitStr4 bs).bind fun (address, rest) => parseTypeTags (cStr address) rest

/-- A message as the format has it: its address and its arguments. -/
structure Decoded where
  address : List UInt8
  args : List Value
  deriving DecidableEq, Repr

/-- What a message of the platform is in the format. -/
def Message.decoded (m : Message) : Decoded := ⟨m.address, m.args.map Arg.toValue⟩

/-- A whole message. Bytes behind the last argument do not make it malformed. -/
def parseMessage (bs : List UInt8) : Option Decoded :=
  (parseHeader bs).bind fun h => (parseArgs h.tags h.args).map fun (vs, _) => ⟨h.address, vs⟩

/-! ## Bundles -/

/-- The elements of a bundle and the messages in them, in order. -/
inductive Elements : List UInt8 → List Decoded → Prop
  | nil : Elements [] []
  | message {size contents rest : List UInt8} {m : Decoded} {ms : List Decoded}
    (hsize : size.length = 4) (hvalue : beValue size = contents.length)
    (hcontents : contents.head? ≠ some (ascii '#')) (hm : parseMessage contents = some m)
    (hrest : Elements rest ms) : Elements (size ++ contents ++ rest) (m :: ms)
  | bundle {size timeTag elements rest : List UInt8} {ms ms' : List Decoded}
    (hsize : size.length = 4)
    (hvalue : beValue size = (bundlePattern ++ timeTag ++ elements).length)
    (htimeTag : timeTag.length = 8) (helements : Elements elements ms)
    (hrest : Elements rest ms') :
    Elements (size ++ (bundlePattern ++ timeTag ++ elements) ++ rest) (ms ++ ms')

/-- A packet and the messages in it, in order. -/
inductive Packet : List UInt8 → List Decoded → Prop
  | message {contents : List UInt8} {m : Decoded} (hcontents : contents.head? ≠ some (ascii '#'))
    (hm : parseMessage contents = some m) : Packet contents [m]
  | bundle {timeTag elements : List UInt8} {ms : List Decoded} (htimeTag : timeTag.length = 8)
    (helements : Elements elements ms) : Packet (bundlePattern ++ timeTag ++ elements) ms

/-! ## Sizes -/

theorem splitStr4Tail_append {bs s rest : List UInt8} (h : splitStr4Tail bs = some (s, rest)) :
    bs = s ++ rest ∧ s.length % 4 = 0 ∧ 0 < s.length ∧ (0 : UInt8) ∈ s := by
  induction bs using splitStr4Tail.induct generalizing s with
  | case1 a b c rest' =>
    rw [splitStr4Tail, if_pos rfl] at h
    cases h
    simp
  | case2 a b c d rest' hd ih =>
    rw [splitStr4Tail, if_neg hd, Option.map_eq_some_iff] at h
    obtain ⟨⟨s', r'⟩, hs, h⟩ := h
    cases h
    obtain ⟨rfl, hmod, -, h0⟩ := ih hs
    simp [h0]
    omega
  | case3 bs hbs =>
    rw [splitStr4Tail] at h
    · cases h
    · exact hbs

theorem splitStr4_append {bs s rest : List UInt8} (h : splitStr4 bs = some (s, rest)) :
    bs = s ++ rest ∧ s.length % 4 = 0 ∧ 0 < s.length ∧ (0 : UInt8) ∈ s := by
  unfold splitStr4 at h
  split at h
  · cases h
    simp
  · exact splitStr4Tail_append h

theorem roundUp4Unsigned_mod (x : Nat) : roundUp4Unsigned x % 4 = 0 := by
  unfold roundUp4Unsigned; split <;> omega

theorem le_roundUp4Unsigned (x : Nat) : x ≤ roundUp4Unsigned x := by
  unfold roundUp4Unsigned; split <;> omega

end esc_platform.osc
