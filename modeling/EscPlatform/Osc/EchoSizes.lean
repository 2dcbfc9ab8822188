-- The size of an answer of the echo client: a message that was read from a
-- packet is hardly longer when it is written again.
import EscPlatform.Osc.ArgumentStream
import EscPlatform.Osc.RoundTrip

namespace esc_platform.osc

open bytes

/-! ## Messages written again -/

theorem cStr_length_lt {s : List UInt8} (h : (0 : UInt8) ∈ s) : (cStr s).length < s.length := by
  have hne : (cStr s).length ≠ s.length := by
    intro heq
    have hself := (List.takeWhile_prefix (· ≠ 0) (l := s)).eq_of_length heq
    have hmem := zero_not_mem_cStr s
    unfold cStr at hmem
    rw [hself] at hmem
    exact hmem h
  have hle : (cStr s).length ≤ s.length := (List.takeWhile_prefix _).length_le
  omega

/-- A string of a packet is not longer when it is written again. -/
theorem encString_le {s : List UInt8} (h0 : (0 : UInt8) ∈ s) (hmod : s.length % 4 = 0) :
    (encString (cStr s)).length ≤ s.length := by
  have hlt := cStr_length_lt h0
  rw [encString_length, cStr_eq_self (zero_not_mem_cStr s)]
  unfold roundUp4
  split <;> omega

theorem takeBytes_length {n : Nat} {bs w rest : List UInt8} (h : takeBytes n bs = some (w, rest)) :
    bs.length = n + rest.length := by
  unfold takeBytes at h
  split at h
  · cases h
    rw [List.length_drop]
    omega
  · cases h

theorem encArg_le {arg : Arg} {tag : TypeTag} {bs rest : List UInt8}
    (h : parseArg tag bs = some (arg.toValue, rest)) :
    arg.typeTag = tag ∧ (encArg arg).length + rest.length ≤ bs.length := by
  have htag := parseArg_tag h
  cases arg with
  | int32 value | float bits =>
    obtain rfl := htag
    obtain ⟨⟨w, rest'⟩, htake, heq⟩ := Option.map_eq_some_iff.mp h
    cases heq
    refine ⟨rfl, ?_⟩
    rw [takeBytes_length htake, encArg, beBytes_length]
  | string value =>
    obtain rfl := htag
    obtain ⟨⟨s, rest'⟩, hsplit, heq⟩ := Option.map_eq_some_iff.mp h
    cases heq
    obtain ⟨rfl, hmod, -, h0⟩ := splitStr4_append hsplit
    refine ⟨rfl, ?_⟩
    have hle := encString_le h0 hmod
    rw [List.length_append, encArg]
    omega

theorem encArgs_le {args : List Arg} {ts bs rest : List UInt8}
    (h : parseArgs ts bs = some (args.map Arg.toValue, rest)) :
    typeTags args = ts ∧ (encArgs args).length ≤ bs.length := by
  induction ts generalizing bs args with
  | nil =>
    obtain ⟨hargs, -⟩ := Prod.mk.inj (Option.some.inj h)
    obtain rfl := List.map_eq_nil_iff.mp hargs.symm
    exact ⟨rfl, Nat.zero_le _⟩
  | cons t ts ih =>
    obtain ⟨tag, v, bs', vs', rfl, harg, hargs, hvs⟩ := parseArgs_cons h
    obtain ⟨arg, args, rfl, rfl, rfl⟩ := List.map_eq_cons_iff.mp hvs
    obtain ⟨rfl, hle⟩ := encArg_le harg
    obtain ⟨rfl, hrest⟩ := ih hargs
    refine ⟨rfl, ?_⟩
    have hcons : encArgs (arg :: args) = encArg arg ++ encArgs args := rfl
    rw [hcons, List.length_append]
    omega

theorem parseTypeTags_le {address bs : List UInt8} {hd : Header}
    (h : parseTypeTags address bs = some hd) :
    hd.address = address ∧ (encTypeTags hd.tags).length + hd.args.length ≤ bs.length + 4 := by
  have hfour : (encTypeTags []).length = 4 := rfl
  cases bs with
  | nil =>
    cases h
    refine ⟨rfl, ?_⟩
    rw [hfour]
    simp
  | cons c bs =>
    unfold parseTypeTags at h
    dsimp only at h
    split at h
    · cases h
    · split at h
      · cases h
        refine ⟨rfl, ?_⟩
        rw [hfour, List.length_nil]
        omega
      · obtain ⟨⟨tags, args⟩, hsplit, heq⟩ := Option.map_eq_some_iff.mp h
        cases heq
        obtain ⟨hbs, hmod, hpos, h0⟩ := splitStr4_append hsplit
        have hlt := cStr_length_lt h0
        refine ⟨rfl, ?_⟩
        dsimp only at hlt ⊢
        rw [hbs, encTypeTags_length, List.length_tail, List.length_append]
        unfold roundUp4
        split <;> omega

/-- A message of a packet is not longer when it is written again, but for the type tags that it
may have left out. -/
theorem encMessage_le {m : Message} {bs : List UInt8} (h : parseMessage bs = some m.decoded) :
    (encMessage m).length ≤ bs.length + 4 := by
  obtain ⟨hd, vs, rest, hhead, hargs, heq⟩ := parseMessage_some h
  have haddress : m.address = hd.address := congrArg Decoded.address heq
  have hvs : m.args.map Arg.toValue = vs := congrArg Decoded.args heq
  rw [← hvs] at hargs
  obtain ⟨htags, hle⟩ := encArgs_le hargs
  unfold parseHeader at hhead
  split at hhead
  · cases hhead
  · obtain ⟨⟨address, rest'⟩, hsplit, htypes⟩ := Option.bind_eq_some_iff.mp hhead
    obtain ⟨hcstr, htypes⟩ := parseTypeTags_le htypes
    obtain ⟨rfl, hmod, -, h0⟩ := splitStr4_append hsplit
    have hstring := encString_le h0 hmod
    unfold encMessage
    rw [haddress, hcstr, htags, List.length_append, List.length_append, List.length_append]
    omega

theorem elements_le {bs : List UInt8} {ds : List Decoded} (h : Elements bs ds) :
    ∀ d ∈ ds, ∃ contents, contents.length ≤ bs.length ∧ parseMessage contents = some d := by
  induction h with
  | nil => simp
  | @message size contents rest d ds hsize hvalue hhead hm hrest ih =>
    intro d' hd'
    rcases List.mem_cons.mp hd' with rfl | hd'
    · exact ⟨contents, by simp; omega, hm⟩
    · obtain ⟨c, hle, hc⟩ := ih d' hd'
      exact ⟨c, by simp; omega, hc⟩
  | @bundle size timeTag elements rest ds ds' hsize hvalue htimeTag helements hrest ih ih' =>
    intro d' hd'
    rcases List.mem_append.mp hd' with hd' | hd'
    · obtain ⟨c, hle, hc⟩ := ih d' hd'
      exact ⟨c, by simp; omega, hc⟩
    · obtain ⟨c, hle, hc⟩ := ih' d' hd'
      exact ⟨c, by simp; omega, hc⟩

/-- An answer to a message of a packet is at most 28 bytes longer than the packet. -/
theorem echo_le {bs : List UInt8} {ms : List Message} (h : Packet bs (ms.map Message.decoded))
    {m : Message} (hm : m ∈ ms) : (encBundle (.mk [m] [])).length ≤ bs.length + 28 := by
  have hcontents : ∃ contents, contents.length ≤ bs.length ∧
      parseMessage contents = some m.decoded := by
    generalize hds : ms.map Message.decoded = ds at h
    have hmem : m.decoded ∈ ds := hds ▸ List.mem_map_of_mem hm
    cases h with
    | message hhead hparse =>
      rw [List.mem_singleton.mp hmem]
      exact ⟨bs, le_rfl, hparse⟩
    | @bundle timeTag elements _ htimeTag helements =>
      obtain ⟨c, hle, hc⟩ := elements_le helements _ hmem
      exact ⟨c, by simp; omega, hc⟩
  obtain ⟨contents, hle, hparse⟩ := hcontents
  have hmessage := encMessage_le hparse
  have hlength : (encBundle (.mk [m] [])).length = 20 + (encMessage m).length := by
    simp [encBundle, encBundles, encMessages, encElement, bundlePattern]
    omega
  omega

/-- `sendMessage` writes every answer that fits. -/
theorem sendMessage_writes (buffer : OutputBuffer 16384) (m : Message)
    (h : (encBundle (.mk [m] [])).length ≤ 16384) :
    sendMessage 4 buffer m = .ok (encBundle (.mk [m] [])) := by
  have hlength := buffer.2
  obtain ⟨p, hp⟩ := appendBundle_fits buffer.val (.mk [m] []) (by omega) (by omega)
  obtain ⟨-, hpacket, -⟩ := appendBundle_packet (by omega) hp
  unfold sendMessage datagramOf
  rw [sendMessageStream_eq, hp]
  exact congrArg Except.ok hpacket

end esc_platform.osc
