-- The programs of a packet stream. The operations that write down a list of
-- trees are a word of brackets with messages in between. A stream that is
-- ready has carried out such a word and holds the encoding of its trees, and
-- each such word gets through whenever the encoding fits in the buffer.
import EscPlatform.Osc.DraftStreams
import EscPlatform.Osc.Sender

namespace esc_platform.osc

open bytes bracketed simulation

variable {s : OutboundPacketStream} {d d' : Draft} {cap : Nat} {op : StreamOperation}

/-! ## Programs -/

/-- The operations that open and extend the message `m`. -/
def openMessageProgram (m : StreamMessage) : List StreamOperation :=
  .beginMessage m.addressPattern :: m.args.map .argument

def tokenProgram : Token UInt64 StreamMessage → List StreamOperation
  | .leaf m => openMessageProgram m ++ [.messageTerminator]
  | .enter timeTag => [.bundleInitiator timeTag]
  | .leave => [.bundleTerminator]

/-- The operations that write down `es` from left to right. -/
def packetProgram (es : List PacketElement) : List StreamOperation :=
  (tokensAll es).flatMap tokenProgram

/-- The operations that a draft is the result of, where no argument of it is stray. -/
def Draft.program (d : Draft) : List StreamOperation :=
  d.elements.word.flatMap tokenProgram ++ (d.message.map openMessageProgram).getD []

theorem tokenProgram_leaf (m : StreamMessage) : tokenProgram (.leaf m) =
    .beginMessage m.addressPattern :: (m.args.map .argument ++ [.messageTerminator]) := rfl

theorem elementProgram_node (timeTag : UInt64) (es : List PacketElement) :
    (tokens (.node timeTag es)).flatMap tokenProgram =
      .bundleInitiator timeTag :: (packetProgram es ++ [.bundleTerminator]) := by
  simp [tokens, tokenProgram, packetProgram]

/-! ## What a ready stream has carried out -/

/-- An operation that does what it should makes the program of the draft longer by itself. -/
theorem perform_program (h : d.perform cap op = .ok d') (hclear : op ≠ .clear)
    (hargument : ∀ rhs, op = .argument rhs → d.message.isSome = true)
    (hstray : d.strayBytes = []) :
    d'.program = d.program ++ [op] ∧ d'.strayBytes = [] := by
  unfold Draft.program
  cases op with
  | clear => exact absurd rfl hclear
  | bundleInitiator timeTag =>
    cases hm : d.message with
    | some m => simp [Draft.perform, hm] at h
    | none =>
      simp only [Draft.perform, hm, Option.isSome_none, Bool.false_eq_true, if_false] at h
      split at h
      · cases h
      · cases h
        simp [tokenProgram]
  | bundleTerminator =>
    cases hm : d.message with
    | some m => simp [Draft.perform, hm] at h
    | none =>
      simp only [Draft.perform, hm, Option.isSome_none, Bool.false_eq_true, if_false] at h
      cases hleave : d.elements.leave with
      | none => simp [hleave] at h
      | some elements =>
        simp only [hleave] at h
        cases h
        simp [word_leave hleave, hstray, tokenProgram]
  | beginMessage addressPattern =>
    cases hm : d.message with
    | some m => simp [Draft.perform, hm] at h
    | none =>
      simp only [Draft.perform, hm, Option.isSome_none, Bool.false_eq_true, if_false] at h
      split at h
      · cases h
      · cases h
        simp [openMessageProgram]
  | messageTerminator =>
    cases hm : d.message with
    | none => simp [Draft.perform, hm] at h
    | some m =>
      simp only [Draft.perform, hm] at h
      cases h
      simp [tokenProgram]
  | argument rhs =>
    cases hm : d.message with
    | none => simpa [hm] using hargument rhs rfl
    | some m =>
      simp only [Draft.perform, Draft.withArgument, hm] at h
      split at h
      · cases h
      · cases h
        simp [openMessageProgram, hstray]

/-- No argument is streamed while no message is open. An argument that throws does not count. -/
def ArgumentsInMessages (s : OutboundPacketStream) (ops : List StreamOperation) : Prop :=
  runs.EachStep (fun s op => (s.answer 4 op).2)
    (fun s op => ∀ rhs, op = .argument rhs → (s.answer 4 op).1 = none →
      s.messageIsInProgress = true) s ops

/-- The draft behind a run is the result of the operations that did not throw. -/
theorem run_program (hcap : cap < 2 ^ 30) (h : Shows cap s d) {ops : List StreamOperation}
    (hclear : .clear ∉ ops) (hargs : ArgumentsInMessages s ops) (hstray : d.strayBytes = []) :
    (last (Draft.answer cap) d ops).program =
        d.program ++ accepted (Draft.answer cap) d ops ∧
      (last (Draft.answer cap) d ops).strayBytes = [] := by
  induction ops generalizing s d with
  | nil => exact ⟨(List.append_nil _).symm, hstray⟩
  | cons op ops ih =>
    obtain ⟨hop, hrest⟩ := runs.eachStep_cons.mp hargs
    obtain ⟨hanswer, hnext⟩ := stream_simulates hcap s d op h
    simp only [List.mem_cons, not_or] at hclear
    have hlast : last (Draft.answer cap) d (op :: ops) =
        last (Draft.answer cap) (d.answer cap op).2 ops := rfl
    rw [hlast]
    cases hp : d.perform cap op with
    | error ex =>
      have hd : d.answer cap op = (some ex, d) := by rw [Draft.answer, hp]
      rw [hd] at hnext
      rw [accepted, hd]
      exact ih hnext hclear.2 hrest hstray
    | ok d' =>
      have hd : d.answer cap op = (none, d') := by rw [Draft.answer, hp]
      rw [hd] at hanswer hnext
      have hin : ∀ rhs, op = .argument rhs → d.message.isSome = true := by
        intro rhs hrhs
        rw [← h.observed.2.2.2.1]
        exact hop rhs hrhs hanswer
      obtain ⟨hprogram, hstray'⟩ := perform_program hp (Ne.symm hclear.1) hin hstray
      obtain ⟨hrun, hlaststray⟩ := ih hnext hclear.2 hrest hstray'
      rw [accepted, hd]
      refine ⟨?_, hlaststray⟩
      rw [hrun, hprogram]
      simp

theorem Shows.size_le (h : Shows cap s d) : s.size ≤ cap := by
  cases hm : d.message with
  | none =>
    rw [(h.idle hm).size]
    exact (h.idle hm).fits
  | some m =>
    have hin := h.message m hm
    rw [inMessage_size hin]
    exact hin.fits

/-- What the caller of a ready stream sends: the closed elements and, behind them, the bytes of
arguments that were streamed outside of messages. -/
theorem Shows.packet (h : Shows cap s d) (hready : s.isReady = true) :
    d.message = none ∧ d.elements.outer = [] ∧
      s.packet = encodePackets d.elements.trees ++ d.strayBytes := by
  obtain ⟨-, -, hflag, -, -⟩ := h.observed
  rw [hready, Draft.isReady, eq_comm, Bool.and_eq_true, Option.isNone_iff_eq_none,
    List.isEmpty_iff] at hflag
  obtain ⟨hm, houter⟩ := hflag
  refine ⟨hm, houter, ?_⟩
  have hidle := h.idle hm
  obtain ⟨R, hR⟩ := hidle.written
  have hwritten : d.written = encodePackets d.elements.trees := by
    unfold Draft.written Draft.innerSlot
    rw [houter]
    rfl
  unfold OutboundPacketStream.packet
  rw [hidle.size, hR, ← List.length_append, List.take_left, hwritten]

/-! ## Programs that fit -/

/-- The draft with the elements `es` behind its own, and `n` stray type tags. -/
def Draft.extended (d : Draft) (es : List PacketElement) (n : Nat) : Draft :=
  { elements := { d.elements with trees := d.elements.trees ++ es }, strayTags := n }

theorem answer_ok (h : d.perform cap op = .ok d') : d.answer cap op = (none, d') := by
  rw [Draft.answer, h]

theorem levelSize_cons (outer : List (UInt64 × List PacketElement)) (e : PacketElement)
    (es : List PacketElement) : Draft.levelSize outer (e :: es) =
      Draft.sizeSlot outer + (encodeElement e).length + Draft.levelSize outer es := rfl

theorem levelSize_append (outer : List (UInt64 × List PacketElement)) (xs ys : List PacketElement) :
    Draft.levelSize outer (xs ++ ys) = Draft.levelSize outer xs + Draft.levelSize outer ys := by
  simp [Draft.levelSize]

theorem encode_length_mono (addressPattern : List UInt8) (xs ys : List StreamArgument) :
    (StreamMessage.encode ⟨addressPattern, xs⟩).length ≤
      (StreamMessage.encode ⟨addressPattern, xs ++ ys⟩).length := by
  have hround : roundUp4 ((argumentTags xs).length + 2) ≤
      roundUp4 ((argumentTags (xs ++ ys)).length + 2) := by
    apply roundUp4_mono
    simp [argumentTags]
  have hbytes : (argumentBytes xs).length ≤ (argumentBytes (xs ++ ys)).length := by
    simp [argumentBytes]
  simp only [StreamMessage.encode_length]
  omega

/-- A first operation that gets through, and then the others. -/
theorem run_first {d'' : Draft} {ops : List StreamOperation} (h : d.answer cap op = (none, d'))
    (hops : AllAccepted (Draft.answer cap) d' ops ∧ last (Draft.answer cap) d' ops = d'') :
    AllAccepted (Draft.answer cap) d (op :: ops) ∧
      last (Draft.answer cap) d (op :: ops) = d'' := by
  have hlast : last (Draft.answer cap) d (op :: ops) =
      last (Draft.answer cap) (d.answer cap op).2 ops := rfl
  rw [allAccepted_cons, hlast, h]
  exact ⟨⟨rfl, hops.1⟩, hops.2⟩

/-- The arguments of a message that fits as a whole. -/
theorem run_arguments (args : List StreamArgument) {m : StreamMessage} (hm : d.message = some m)
    (hroom : d.sizeWith { m with args := m.args ++ args } ≤ cap) :
    AllAccepted (Draft.answer cap) d (args.map .argument) ∧
      last (Draft.answer cap) d (args.map .argument) =
        { d with message := some { m with args := m.args ++ args } } := by
  induction args generalizing d m with
  | nil =>
    refine ⟨by simp [AllAccepted, answers], ?_⟩
    rw [List.append_nil, ← hm]
    rfl
  | cons rhs args ih =>
    have hmono := encode_length_mono m.addressPattern (m.args ++ [rhs]) args
    rw [List.append_assoc, List.singleton_append] at hmono
    unfold Draft.sizeWith at hroom
    have hperform : d.perform cap (.argument rhs) =
        .ok { d with message := some { m with args := m.args ++ [rhs] } } := by
      simp only [Draft.perform, Draft.withArgument, hm]
      rw [if_neg]
      unfold Draft.sizeWith
      omega
    have hanswer := answer_ok hperform
    obtain ⟨hall, hlast⟩ := ih (d := { d with message := some { m with args := m.args ++ [rhs] } })
      rfl (by
        rw [List.append_assoc, List.singleton_append]
        exact hroom)
    rw [List.append_assoc, List.singleton_append] at hlast
    rw [List.map_cons]
    exact run_first hanswer ⟨hall, hlast⟩

theorem run_message (m : StreamMessage) (hm : d.message = none) (hstray : d.strayBytes = [])
    (hroom : d.cursor + d.slot + m.encode.length ≤ cap) :
    AllAccepted (Draft.answer cap) d (tokenProgram (.leaf m)) ∧
      last (Draft.answer cap) d (tokenProgram (.leaf m)) = d.extended [.leaf m] 0 := by
  have hfour : roundUp4 (0 + 2) = 4 := rfl
  have hround : roundUp4 (0 + 2) ≤ roundUp4 ((argumentTags m.args).length + 2) :=
    roundUp4_mono (by omega)
  have hlen := m.encode_length
  have hbegin : d.perform cap (.beginMessage m.addressPattern) =
      .ok { elements := d.elements, message := some ⟨m.addressPattern, []⟩ } := by
    simp only [Draft.perform, hm, Option.isSome_none, Bool.false_eq_true, if_false]
    rw [if_neg]
    simp only [Draft.size, hm, hstray, List.length_nil]
    omega
  have hanswer := answer_ok hbegin
  obtain ⟨hall, hlast⟩ : AllAccepted (Draft.answer cap) _ _ ∧ _ := run_arguments m.args
    (d := { elements := d.elements, message := some ⟨m.addressPattern, []⟩ }) rfl hroom
  have hend : ({ elements := d.elements, message := some m } : Draft).perform cap
      .messageTerminator = .ok { elements := d.elements.leaf m } := rfl
  have hanswer' := answer_ok hend
  rw [List.nil_append] at hlast
  have htail : AllAccepted (Draft.answer cap)
      { elements := d.elements, message := some ⟨m.addressPattern, []⟩ }
      (m.args.map .argument ++ [.messageTerminator]) ∧
      last (Draft.answer cap) { elements := d.elements, message := some ⟨m.addressPattern, []⟩ }
        (m.args.map .argument ++ [.messageTerminator]) = d.extended [.leaf m] 0 := by
    rw [allAccepted_append, last_append, hlast]
    exact ⟨⟨hall, by simp [AllAccepted, answers, hanswer']⟩, congrArg Prod.snd hanswer'⟩
  rw [tokenProgram_leaf]
  exact run_first hanswer htail

mutual

/-- The program of an element that fits gets through. -/
theorem run_element : ∀ (e : PacketElement) (d : Draft), d.message = none → d.strayBytes = [] →
    d.cursor + d.slot + (encodeElement e).length ≤ cap →
    ∃ n, AllAccepted (Draft.answer cap) d ((tokens e).flatMap tokenProgram) ∧
      last (Draft.answer cap) d ((tokens e).flatMap tokenProgram) = d.extended [e] n
  | .leaf m, d, hm, hstray, hroom => by
    rw [tokens, List.flatMap_singleton]
    exact ⟨0, run_message m hm hstray hroom⟩
  | .node timeTag es, d, hm, hstray, hroom => by
    have hpattern : bundlePattern.length = 8 := rfl
    obtain ⟨d₁, hd₁⟩ : ∃ d₁ : Draft, d₁ =
        { d with elements := d.elements.enter timeTag, strayBytes := [] } := ⟨_, rfl⟩
    have houter : d₁.elements.outer = (timeTag, d.elements.trees) :: d.elements.outer := by
      rw [hd₁]
      rfl
    have htrees : d₁.elements.trees = [] := by
      rw [hd₁]
      rfl
    have hm₁ : d₁.message = none := by
      rw [hd₁]
      exact hm
    have hlevel : Draft.levelSize d₁.elements.outer es = (encodeElements es).length := by
      rw [houter, encodeElements_eq 0, ← levelBytes_length]
      rfl
    have hcursor : d₁.cursor = d.cursor + d.slot + 16 := by
      unfold Draft.cursor
      rw [houter, htrees]
      rfl
    simp only [encodeElement, List.length_append, hpattern, beBytes_length] at hroom
    have henter : d.perform cap (.bundleInitiator timeTag) = .ok d₁ := by
      simp only [Draft.perform, hm, Option.isSome_none, Bool.false_eq_true, if_false, hd₁]
      rw [if_neg]
      simp only [Draft.size, hm, hstray, List.length_nil]
      omega
    obtain ⟨n, hall, hlast⟩ := run_elements es d₁ hm₁ (by rw [hd₁]) (by omega)
    have hleave : (d₁.extended es n).perform cap .bundleTerminator =
        .ok (d.extended [.node timeTag es] n) := by
      simp [Draft.perform, Draft.extended, Builder.leave, houter, htrees]
    have hanswer' := answer_ok hleave
    have htail : AllAccepted (Draft.answer cap) d₁ (packetProgram es ++ [.bundleTerminator]) ∧
        last (Draft.answer cap) d₁ (packetProgram es ++ [.bundleTerminator]) =
          d.extended [.node timeTag es] n := by
      rw [allAccepted_append, last_append]
      unfold packetProgram
      rw [hlast]
      exact ⟨⟨hall, by simp [AllAccepted, answers, hanswer']⟩, congrArg Prod.snd hanswer'⟩
    rw [elementProgram_node]
    exact ⟨n, run_first (answer_ok henter) htail⟩

theorem run_elements : ∀ (es : List PacketElement) (d : Draft), d.message = none →
    d.strayBytes = [] → d.cursor + Draft.levelSize d.elements.outer es ≤ cap →
    ∃ n, AllAccepted (Draft.answer cap) d ((tokensAll es).flatMap tokenProgram) ∧
      last (Draft.answer cap) d ((tokensAll es).flatMap tokenProgram) = d.extended es n
  | [], d, hm, hstray, _ => by
    refine ⟨d.strayTags, by simp [AllAccepted, answers, tokensAll], ?_⟩
    obtain ⟨elements, message, strayTags, strayBytes⟩ := d
    simp only at hm hstray
    subst hm hstray
    simp [tokensAll, last, Draft.extended]
  | e :: es, d, hm, hstray, hroom => by
    rw [levelSize_cons] at hroom
    have hslot : Draft.sizeSlot d.elements.outer = d.slot := rfl
    obtain ⟨n₁, hall₁, hlast₁⟩ := run_element e d hm hstray (by omega)
    have hcursor : (d.extended [e] n₁).cursor = d.cursor + d.slot + (encodeElement e).length := by
      unfold Draft.cursor Draft.extended
      simp only [levelSize_append, levelSize_cons, hslot]
      simp only [Draft.levelSize, List.map_nil, List.sum_nil]
      omega
    obtain ⟨n, hall, hlast⟩ := run_elements es (d.extended [e] n₁) rfl rfl (by
      rw [hcursor]
      change _ + Draft.levelSize d.elements.outer es ≤ cap
      omega)
    refine ⟨n, ?_⟩
    rw [tokensAll, List.flatMap_append, allAccepted_append, last_append, hlast₁]
    refine ⟨⟨hall₁, hall⟩, hlast.trans ?_⟩
    simp [Draft.extended]

end

/-! ## More room changes nothing -/

theorem perform_mono {cap' : Nat} (hle : cap ≤ cap') (h : d.perform cap op = .ok d') :
    d.perform cap' op = .ok d' := by
  cases op with
  | clear => exact h
  | bundleInitiator timeTag | beginMessage addressPattern =>
    simp only [Draft.perform] at h ⊢
    split at h
    · cases h
    · rename_i hm
      rw [if_neg hm]
      split at h
      · cases h
      · rename_i hroom
        rw [if_neg (by omega)]
        exact h
  | bundleTerminator | messageTerminator => exact h
  | argument rhs =>
    simp only [Draft.perform, Draft.withArgument] at h ⊢
    cases hm : d.message with
    | none =>
      simp only [hm] at h ⊢
      split at h
      · cases h
      · rename_i hroom
        rw [if_neg (by omega)]
        exact h
    | some m =>
      simp only [hm] at h ⊢
      split at h
      · cases h
      · rename_i hroom
        rw [if_neg (by omega)]
        exact h

theorem run_mono {cap' : Nat} (hle : cap ≤ cap') {ops : List StreamOperation}
    (h : AllAccepted (Draft.answer cap) d ops) :
    last (Draft.answer cap') d ops = last (Draft.answer cap) d ops := by
  induction ops generalizing d with
  | nil => rfl
  | cons op ops ih =>
    obtain ⟨hop, hops⟩ := allAccepted_cons.mp h
    cases hp : d.perform cap op with
    | error ex =>
      rw [Draft.answer, hp] at hop
      cases hop
    | ok d' =>
      have hanswer := answer_ok hp
      have hanswer' := answer_ok (perform_mono hle hp)
      change last _ (d.answer cap' op).2 ops = last _ (d.answer cap op).2 ops
      rw [hanswer] at hops
      rw [hanswer, hanswer']
      exact ih hops

/-! ## The packets -/

theorem levelSize_nil (es : List PacketElement) :
    Draft.levelSize [] es = (encodePackets es).length := by
  rw [encodePackets_eq, ← levelBytes_length]
  rfl

/-- The draft that the program of trees leaves. -/
theorem program_draft (es : List PacketElement) (hroom : (encodePackets es).length ≤ cap) :
    ∃ n, AllAccepted (Draft.answer cap) {} (packetProgram es) ∧
      last (Draft.answer cap) {} (packetProgram es) = ({} : Draft).extended es n := by
  apply run_elements es {} rfl rfl
  have hcursor : ({} : Draft).cursor = 0 := rfl
  have hlevel := levelSize_nil es
  rw [hcursor, Nat.zero_add]
  exact hlevel.trans_le hroom

/-- A program of trees gets through exactly where their encoding fits. -/
theorem program_accepted_iff (hcap : cap < 2 ^ 30) (h : Shows cap s {})
    (es : List PacketElement) :
    AllAccepted (OutboundPacketStream.answer 4) s (packetProgram es) ↔
      (encodePackets es).length ≤ cap := by
  rw [(stream_simulates hcap).allAccepted h]
  constructor
  · intro hall
    -- with room for the trees, the draft is known, and the stream here holds the same one
    obtain ⟨n, -, hbig⟩ := program_draft es (Nat.le_add_left (encodePackets es).length cap)
    have hlast := run_mono (Nat.le_add_right cap (encodePackets es).length) hall
    have hshows := ((stream_simulates hcap).run h (packetProgram es)).2
    have hle := hshows.size_le
    rw [hshows.observed.2.1, ← hlast, hbig] at hle
    have hsize : (({} : Draft).extended es n).size =
        0 + Draft.levelSize [] ([] ++ es) + ([] : List UInt8).length := rfl
    rw [hsize, List.nil_append, List.length_nil, levelSize_nil] at hle
    omega
  · intro hroom
    obtain ⟨n, hall, -⟩ := program_draft es hroom
    exact hall

/-- Behind the program of trees that fit, the stream is ready with their encoding. -/
theorem program_packet (hcap : cap < 2 ^ 30) (h : Shows cap s {}) (es : List PacketElement)
    (hroom : (encodePackets es).length ≤ cap) :
    (last (OutboundPacketStream.answer 4) s (packetProgram es)).isReady = true ∧
      (last (OutboundPacketStream.answer 4) s (packetProgram es)).packet = encodePackets es := by
  obtain ⟨n, -, hdraft⟩ := program_draft es hroom
  have hlast := ((stream_simulates hcap).run h (packetProgram es)).2
  rw [hdraft] at hlast
  have hready : (last (OutboundPacketStream.answer 4) s (packetProgram es)).isReady = true := by
    rw [hlast.observed.2.2.1]
    rfl
  refine ⟨hready, ?_⟩
  rw [(hlast.packet hready).2.2]
  exact List.append_nil _

/-- A stream that is new, or that was just cleared, shows the empty draft. -/
theorem fresh_shows (buffer : List UInt8) (hcap : buffer.length < 2 ^ 30)
    (before : List StreamOperation) (hfresh : before = [] ∨ before.getLast? = some .clear) :
    Shows buffer.length (packetStreamAfter buffer before) {} := by
  rcases hfresh with rfl | hlast
  · exact new_shows (by omega)
  · obtain ⟨ops, rfl⟩ := List.getLast?_eq_some_iff.mp hlast
    have h := ((stream_simulates hcap).run (new_shows (by omega)) (ops ++ [.clear])).2
    rw [last_append (m := Draft.answer buffer.length)] at h
    exact h

/-- The packets of a stream are the packets of trees. Behind the construction or a `Clear`, when a
stream is ready and no argument was streamed outside of a message, the operations that did not
throw are the program of a list of trees, and the packet is their encoding. Such a program gets
through exactly where the encoding fits in the buffer, and the stream is ready behind it. -/
theorem packets_are_trees (buffer : List UInt8) (hcap : buffer.length < 2 ^ 30)
    (before ops : List StreamOperation) (hfresh : before = [] ∨ before.getLast? = some .clear) :
    (.clear ∉ ops → ArgumentsInMessages (packetStreamAfter buffer before) ops →
      (packetStreamAfter buffer (before ++ ops)).isReady = true →
      ∃ es, accepted (OutboundPacketStream.answer 4) (packetStreamAfter buffer before) ops =
          packetProgram es ∧
        (packetStreamAfter buffer (before ++ ops)).packet = encodePackets es) ∧
    (∀ es, ops = packetProgram es →
      (AllAccepted (OutboundPacketStream.answer 4) (packetStreamAfter buffer before) ops ↔
        (encodePackets es).length ≤ buffer.length) ∧
      ((encodePackets es).length ≤ buffer.length →
        (packetStreamAfter buffer (before ++ ops)).isReady = true ∧
          (packetStreamAfter buffer (before ++ ops)).packet = encodePackets es)) := by
  have hshows := fresh_shows buffer hcap before hfresh
  have hafter : packetStreamAfter buffer (before ++ ops) =
      last (OutboundPacketStream.answer 4) (packetStreamAfter buffer before) ops :=
    last_append before ops
  rw [hafter]
  generalize packetStreamAfter buffer before = s at hshows
  constructor
  · intro hclear hargs hready
    have hlast := ((stream_simulates hcap).run hshows ops).2
    obtain ⟨hprogram, hstray⟩ := run_program hcap hshows hclear hargs rfl
    obtain ⟨hm, houter, hpacket⟩ := hlast.packet hready
    refine ⟨(last (Draft.answer buffer.length) {} ops).elements.trees, ?_, ?_⟩
    · rw [(stream_simulates hcap).accepted hshows]
      unfold Draft.program Builder.word at hprogram
      rw [hm, houter] at hprogram
      simpa [openTokens, packetProgram, tokensAll] using hprogram.symm
    · rw [hpacket, hstray, List.append_nil]
  · rintro es rfl
    exact ⟨program_accepted_iff hcap hshows es, program_packet hcap hshows es⟩

/-- A bundle with an empty message, behind a cleared one, in a buffer that it fills. -/
theorem packets_are_trees_cleared :
    let before : List StreamOperation := [.beginMessage [35], .clear]
    let es : List PacketElement := [.node 1 [.leaf ⟨[47], []⟩]]
    (packetStreamAfter (List.replicate 28 0) (before ++ packetProgram es)).packet =
      encodePackets es := by
  have h := packets_are_trees (List.replicate 28 0) (by simp) [.beginMessage [35], .clear]
    (packetProgram [.node 1 [.leaf ⟨[47], []⟩]]) (.inr rfl)
  exact ((h.2 _ rfl).2 (by decide)).2

end esc_platform.osc
