-- Endpoint names: `IpEndpointName.cpp`, `NetworkingUtils.cpp` and the socket
-- addresses of `UdpSocket.cpp`. The text of an address that a datagram came
-- from leads back to the address.
import EscPlatform.Lib.Separated
import EscPlatform.Osc.Listener

namespace esc_platform.osc

open separated

/-! ## Names and socket addresses -/

def ANY_ADDRESS : Nat := 0xFFFFFFFF
def ANY_PORT : Int := -1

/-- `struct sockaddr_in`. The fields are the numbers that their bytes, in network order, say. -/
structure SockaddrIn where
  sin_addr : UInt32
  sin_port : UInt16
  deriving DecidableEq, Repr

/-- The cut of an `unsigned long` to the `uint32_t` that `htonl` takes. -/
def htonl (address : Nat) : UInt32 := UInt32.ofNat address

/-- The cut of an `int` to the `uint16_t` that `htons` takes. -/
def htons (port : Int) : UInt16 := UInt16.ofInt port

/-- `SockaddrFromIpEndpointName`. `INADDR_ANY` is 0. -/
def sockaddrFromIpEndpointName (endpoint : IpEndpointName) : SockaddrIn where
  sin_addr := if endpoint.address = ANY_ADDRESS then 0 else htonl endpoint.address
  sin_port := if endpoint.port = ANY_PORT then 0 else htons endpoint.port

/-- The name that `ReceiveFrom` gives to the sender of a datagram. -/
def receivedFrom (fromAddr : SockaddrIn) : IpEndpointName where
  address := fromAddr.sin_addr.toNat
  port := fromAddr.sin_port.toNat

/-- `GetHostByName`, over the `gethostbyname` of the system. -/
def getHostByName (gethostbyname : String → Option UInt32) (name : String) : Nat :=
  match gethostbyname name with
  | some a => a.toNat
  | none => 0

/-! ## Texts -/

/-- The four bytes of an address, the high one first. -/
def addressBytes (address : Nat) : List Nat :=
  [address / 2 ^ 24 % 256, address / 2 ^ 16 % 256, address / 2 ^ 8 % 256, address % 256]

/-- The `%d.%d.%d.%d` of `AddressAndPortAsString`. -/
def IpEndpointName.dotted (e : IpEndpointName) : String :=
  toString (e.address / 2 ^ 24 % 256) ++ "." ++ toString (e.address / 2 ^ 16 % 256) ++ "." ++
    toString (e.address / 2 ^ 8 % 256) ++ "." ++ toString (e.address % 256)

/-- `IpEndpointName::AddressAndPortAsString`. -/
def IpEndpointName.addressAndPortAsString (e : IpEndpointName) : String :=
  if e.port = ANY_PORT then
    if e.address = ANY_ADDRESS then "<any>:<any>" else e.dotted ++ ":<any>"
  else
    if e.address = ANY_ADDRESS then "<any>:" ++ toString e.port
    else e.dotted ++ ":" ++ toString e.port

/-- `gethostbyname` reads an address in dotted decimals without a lookup. -/
def ReadsDottedDecimals (gethostbyname : String → Option UInt32) : Prop :=
  ∀ a : UInt32, gethostbyname (String.ofList (written '.' (addressBytes a.toNat))) = some a

/-- `inet_addr` on the texts of dotted decimals, as `gethostbyname` reads them. -/
def inetAddr (s : String) : Option UInt32 :=
  let a := (readBack '.' s.toList).foldl (fun v n => v * 256 + n) 0
  if s.toList = written '.' (addressBytes a) then some (UInt32.ofNat a) else none

theorem inetAddr_readsDottedDecimals : ReadsDottedDecimals inetAddr := by
  intro a
  have hlt := a.toNat_lt
  unfold inetAddr
  rw [String.toList_ofList, readBack_written (by decide) (by simp [addressBytes])]
  have hvalue : (addressBytes a.toNat).foldl (fun v n => v * 256 + n) 0 = a.toNat := by
    simp only [addressBytes, List.foldl_cons, List.foldl_nil]
    omega
  simp only [hvalue, if_true, UInt32.ofNat_toNat]

theorem addressAsString_eq (e : IpEndpointName) :
    e.addressAsString = if e.address = ANY_ADDRESS then "<any>" else e.dotted := rfl

theorem addressAsString_toList (e : IpEndpointName) (h : e.address ≠ ANY_ADDRESS) :
    e.addressAsString.toList = written '.' (addressBytes e.address) := by
  rw [addressAsString_eq, if_neg h]
  simp [IpEndpointName.dotted, written, addressBytes, List.intercalate_cons_cons,
    List.intercalate_singleton]

/-! ## Back to the sender -/

/-- A name that is made of the text of the address and of the port of a datagram is the socket
address that the datagram came from. The broadcast address has no text of its own. -/
theorem sockaddr_of_received {gethostbyname : String → Option UInt32}
    (hread : ReadsDottedDecimals gethostbyname) {fromAddr : SockaddrIn}
    (h : fromAddr.sin_addr ≠ 0xFFFFFFFF) :
    sockaddrFromIpEndpointName ⟨getHostByName gethostbyname (receivedFrom fromAddr).addressAsString,
      (receivedFrom fromAddr).port⟩ = fromAddr := by
  have haddress : (receivedFrom fromAddr).address ≠ ANY_ADDRESS := by
    intro heq
    exact h (UInt32.toNat_inj.mp heq)
  have htext : (receivedFrom fromAddr).addressAsString =
      String.ofList (written '.' (addressBytes fromAddr.sin_addr.toNat)) := by
    rw [← String.toList_inj, String.toList_ofList]
    exact addressAsString_toList _ haddress
  have hhost : getHostByName gethostbyname (receivedFrom fromAddr).addressAsString =
      fromAddr.sin_addr.toNat := by
    unfold getHostByName
    rw [htext, hread]
  have hport : (fromAddr.sin_port.toNat : Int) ≠ ANY_PORT := by
    unfold ANY_PORT
    omega
  have hhtons : htons fromAddr.sin_port.toNat = fromAddr.sin_port := by
    have hlt := fromAddr.sin_port.toNat_lt
    have hcut : ((fromAddr.sin_port.toNat : Int) % 2 ^ 16).toNat = fromAddr.sin_port.toNat := by
      omega
    unfold htons UInt16.ofInt
    rw [hcut, UInt16.ofNat_toNat]
  have hhtonl : htonl fromAddr.sin_addr.toNat = fromAddr.sin_addr := UInt32.ofNat_toNat
  rw [hhost]
  unfold receivedFrom at haddress ⊢
  unfold sockaddrFromIpEndpointName
  simp only [if_neg haddress, if_neg hport, hhtonl, hhtons]

/-! ## Apart by their texts -/

section texts

variable {e e' : IpEndpointName}

theorem address_lt (n : Nat) : ∀ b ∈ addressBytes n, b < 10 ^ 3 := by
  unfold addressBytes
  intro b hb
  simp only [List.mem_cons, List.not_mem_nil, or_false] at hb
  omega

/-- `AddressAsString` stays in its 17 bytes. -/
theorem addressAsString_length (e : IpEndpointName) : e.addressAsString.length < 16 := by
  by_cases h : e.address = ANY_ADDRESS
  · have htext : e.addressAsString = "<any>" := if_pos h
    rw [htext]
    decide
  · rw [← String.length_toList, addressAsString_toList e h]
    exact written_length_lt (by simp [addressBytes]) (by decide) (address_lt _)

theorem colon_not_mem_address (e : IpEndpointName) : ':' ∉ e.addressAsString.toList := by
  by_cases h : e.address = ANY_ADDRESS
  · have htext : e.addressAsString = "<any>" := if_pos h
    rw [htext]
    decide
  · rw [addressAsString_toList e h]
    exact not_mem_written (by decide) (by decide)

theorem addressBytes_inj {n m : Nat} (hn : n < 2 ^ 32) (hm : m < 2 ^ 32)
    (h : addressBytes n = addressBytes m) : n = m := by
  simp only [addressBytes, List.cons.injEq, and_true] at h
  omega

theorem addressAsString_inj (he : e.address < 2 ^ 32) (he' : e'.address < 2 ^ 32)
    (h : e.addressAsString = e'.addressAsString) : e.address = e'.address := by
  have hdot : ∀ n, '.' ∈ written '.' (addressBytes n) := by
    intro n
    simp [written, addressBytes, List.intercalate_cons_cons]
  have hany : '.' ∉ "<any>".toList := by decide
  have hchars := congrArg String.toList h
  by_cases h₁ : e.address = ANY_ADDRESS <;> by_cases h₂ : e'.address = ANY_ADDRESS
  · rw [h₁, h₂]
  · have htext : e.addressAsString = "<any>" := if_pos h₁
    rw [htext, addressAsString_toList e' h₂] at hchars
    exact absurd (hchars ▸ hdot _) hany
  · have htext : e'.addressAsString = "<any>" := if_pos h₂
    rw [htext, addressAsString_toList e h₁] at hchars
    exact absurd (hchars ▸ hdot _) hany
  · rw [addressAsString_toList e h₁, addressAsString_toList e' h₂] at hchars
    have hread := congrArg (readBack '.') hchars
    rw [readBack_written (by decide) (by simp [addressBytes]),
      readBack_written (by decide) (by simp [addressBytes])] at hread
    exact addressBytes_inj he he' hread

/-- The text of a port. -/
def portAsString (port : Int) : String := if port = ANY_PORT then "<any>" else toString port

theorem addressAndPortAsString_eq (e : IpEndpointName) :
    e.addressAndPortAsString = e.addressAsString ++ ":" ++ portAsString e.port := by
  rw [addressAsString_eq]
  unfold IpEndpointName.addressAndPortAsString portAsString
  by_cases hport : e.port = ANY_PORT <;> by_cases h : e.address = ANY_ADDRESS
  · rw [if_pos hport, if_pos h, if_pos hport, if_pos h]
    rfl
  · rw [if_pos hport, if_neg h, if_pos hport, if_neg h, String.append_assoc]
    rfl
  · rw [if_neg hport, if_pos h, if_neg hport, if_pos h]
    rfl
  · rw [if_neg hport, if_neg h, if_neg hport, if_neg h]

theorem not_mem_repr {c : Char} (hdigit : c.isDigit = false) (hminus : c ≠ '-') (p : Int) :
    c ∉ p.repr.toList := by
  cases p with
  | ofNat n =>
    rw [Int.repr, Nat.toList_repr]
    exact not_mem_toDigits hdigit n
  | negSucc n =>
    have hdigits := not_mem_toDigits hdigit (n + 1)
    rw [Int.repr, String.toList_append, Nat.toList_repr]
    simp [hminus, hdigits]

theorem colon_not_mem_port (p : Int) : ':' ∉ (portAsString p).toList := by
  unfold portAsString
  split
  · decide
  · exact not_mem_repr (by decide) (by decide) p

theorem int_repr_inj {p p' : Int} (h : p.repr = p'.repr) : p = p' := by
  have hminus : ∀ n m : Nat, (Int.ofNat n).repr ≠ (Int.negSucc m).repr := by
    intro n m heq
    have hchars := congrArg String.toList heq
    rw [Int.repr, Int.repr, Nat.toList_repr, String.toList_append] at hchars
    apply not_mem_toDigits (c := '-') (by decide) n
    rw [hchars]
    simp
  cases p <;> cases p'
  · next n m =>
    have hchars := congrArg String.toList h
    rw [Int.repr, Int.repr, Nat.toList_repr, Nat.toList_repr] at hchars
    rw [toDigits_inj hchars]
  · next n m => exact absurd h (hminus n m)
  · next n m => exact absurd h.symm (hminus m n)
  · next n m =>
    have hchars := congrArg String.toList h
    rw [Int.repr, Int.repr, String.toList_append, String.toList_append,
      List.append_cancel_left_eq, Nat.toList_repr, Nat.toList_repr] at hchars
    have hsucc := toDigits_inj hchars
    congr 1
    omega

theorem portAsString_inj {p p' : Int} (h : portAsString p = portAsString p') : p = p' := by
  have hany : ∀ p : Int, "<any>" ≠ p.repr := by
    intro p heq
    apply not_mem_repr (c := '<') (by decide) (by decide) p
    rw [← heq]
    decide
  unfold portAsString at h
  split at h <;> split at h
  · next h₁ h₂ => rw [h₁, h₂]
  · exact absurd h (hany p')
  · exact absurd h.symm (hany p)
  · exact int_repr_inj h

theorem portAsString_length (p : Int) :
    (portAsString p).length ≤ 6 ↔ -10 ^ 5 < p ∧ p < 10 ^ 6 := by
  unfold portAsString
  split
  · next h =>
    rw [h]
    decide
  · cases p with
    | ofNat n =>
      have hdigits := Nat.length_repr_le_iff (n := n) (by decide : 0 < 6)
      have htext : toString (Int.ofNat n) = n.repr := rfl
      rw [htext, hdigits, Int.ofNat_eq_natCast]
      omega
    | negSucc n =>
      have hdigits := Nat.length_repr_le_iff (n := n + 1) (by decide : 0 < 5)
      have htext : toString (Int.negSucc n) = "-" ++ (n + 1).repr := rfl
      have hlength : ("-" ++ (n + 1).repr).length = (n + 1).repr.length + 1 := by
        rw [String.length_append, Nat.add_comm]
        rfl
      rw [htext, hlength, Nat.add_le_add_iff_right (k := 5), hdigits]
      omega

theorem addressAndPortAsString_inj (he : e.address < 2 ^ 32) (he' : e'.address < 2 ^ 32)
    (h : e.addressAndPortAsString = e'.addressAndPortAsString) : e = e' := by
  have hchars : e.addressAsString.toList ++ ':' :: (portAsString e.port).toList =
      e'.addressAsString.toList ++ ':' :: (portAsString e'.port).toList := by
    have hlists := congrArg String.toList h
    rw [addressAndPortAsString_eq, addressAndPortAsString_eq] at hlists
    simpa using hlists
  -- the colon behind the address is the only one
  obtain ⟨haddress, -, hport⟩ := (List.append_cons_inj_of_notMem (colon_not_mem_address e)
    (colon_not_mem_port e.port)).mp hchars
  have h₁ := addressAsString_inj he he' (String.toList_inj.mp haddress)
  have h₂ := portAsString_inj (String.toList_inj.mp hport)
  cases e
  cases e'
  cases h₁
  cases h₂
  rfl

/-- The longest text of an address. -/
theorem addressAsString_fifteen (port : Int) :
    (IpEndpointName.mk 0xFFFFFFFE port).addressAsString.length = 15 := by
  have hlength : (written '.' (addressBytes 0xFFFFFFFE)).length = 15 := by decide
  rw [← String.length_toList, addressAsString_toList _ (by simp [ANY_ADDRESS])]
  exact hlength

theorem addressAndPortAsString_length (address : Nat) (port : Int) :
    (IpEndpointName.mk address port).addressAndPortAsString.length =
      (IpEndpointName.mk address port).addressAsString.length + 1 + (portAsString port).length := by
  rw [addressAndPortAsString_eq, String.length_append, String.length_append]
  rfl

/-- `ADDRESS_STRING_LENGTH` and `ADDRESS_AND_PORT_STRING_LENGTH` leave room for the text of every
address and for its NUL, the latter for exactly the ports of up to six characters; and no two
endpoints have one text. -/
theorem endpoints_are_apart_by_their_texts :
    (∀ e : IpEndpointName, e.addressAsString.length + 1 ≤ 17) ∧
    (∀ port : Int, (∀ address : Nat,
      (IpEndpointName.mk address port).addressAndPortAsString.length + 1 ≤ 23) ↔
        -10 ^ 5 < port ∧ port < 10 ^ 6) ∧
    ∀ e e' : IpEndpointName, e.address < 2 ^ 32 → e'.address < 2 ^ 32 →
      (e.addressAndPortAsString = e'.addressAndPortAsString ↔ e = e') := by
  refine ⟨fun e => ?_, fun port => ⟨fun h => ?_, fun h address => ?_⟩, fun e e' he he' => ?_⟩
  · have := addressAsString_length e
    omega
  · have hlongest := h 0xFFFFFFFE
    rw [addressAndPortAsString_length, addressAsString_fifteen] at hlongest
    exact (portAsString_length port).mp (by omega)
  · have haddress := addressAsString_length ⟨address, port⟩
    have hport := (portAsString_length port).mpr h
    rw [addressAndPortAsString_length]
    omega
  · exact ⟨addressAndPortAsString_inj he he', fun heq => congrArg _ heq⟩

/-- The broadcast address is no other one. -/
theorem endpoints_are_apart_by_their_texts_any :
    ¬ (IpEndpointName.mk 0xFFFFFFFF 57110).addressAndPortAsString =
      (IpEndpointName.mk 0x7F000001 57110).addressAndPortAsString := by
  rw [endpoints_are_apart_by_their_texts.2.2 ⟨0xFFFFFFFF, 57110⟩ ⟨0x7F000001, 57110⟩ (by decide)
    (by decide)]
  decide

end texts

end esc_platform.osc
