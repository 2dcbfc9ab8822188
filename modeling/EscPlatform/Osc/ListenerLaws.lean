-- The receiving thread: which datagrams it survives, and what it queues.
import EscPlatform.Osc.BundleReads
import EscPlatform.Lib.Checked

namespace esc_platform.osc

open bytes checked traced_reads Traced ReceivedMessageArgument

variable {mem : Memory} {p n i fin fuel f : Nat} {ep : IpEndpointName} {l l' : OscListener}

/-! ## Reads inside a step of the listener -/

theorem run_liftRead_ok {σ α β : Type} {m : ReadM α} {g : α → ListenM σ β} {a : α} {l : σ}
    (h : m.result = .ok a) : (liftRead m >>= g).run l = (g a).run l := by
  simp only [liftRead, h, EStateM.run_bind, EStateM.run_pure]

theorem run_liftRead_inv {α β : Type} {m : ReadM α} {g : α → ListenM OscListener β} {b : β}
    (h : (liftRead m >>= g).run l = .ok b l') :
    ∃ a, m.result = .ok a ∧ (g a).run l = .ok b l' := by
  cases hm : m.result with
  | ok a => exact ⟨a, rfl, by rwa [run_liftRead_ok hm] at h⟩
  | error e =>
    simp only [liftRead, hm, EStateM.run_bind] at h
    cases h

/-! ## One message -/

/-- The listener after the messages of a sender, in order. -/
def OscListener.deliverAll (l : OscListener) (ep : IpEndpointName) (ms : List Message) :
    OscListener :=
  (ms.map (·.setRemoteEndpoint ep.addressAsString ep.port)).foldl OscListener.deliver l

theorem deliverAll_append (l : OscListener) (ep : IpEndpointName) (ms ms' : List Message) :
    l.deliverAll ep (ms ++ ms') = (l.deliverAll ep ms).deliverAll ep ms' := by
  simp [OscListener.deliverAll]

/-- Without a callback, delivered messages go to the end of the queue. -/
theorem deliverAll_queue (ep : IpEndpointName) (ms : List Message) (h : l.mCallbackFn = false) :
    l.deliverAll ep ms =
      { l with mMessages :=
          l.mMessages ++ ms.map (·.setRemoteEndpoint ep.addressAsString ep.port) } := by
  induction ms generalizing l with
  | nil => simp [OscListener.deliverAll]
  | cons m ms ih =>
    have hcons : l.deliverAll ep (m :: ms) = (l.deliver
        (m.setRemoteEndpoint ep.addressAsString ep.port)).deliverAll ep ms := rfl
    have hdeliver : ∀ x, l.deliver x = { l with mMessages := l.mMessages ++ [x] } := by
      intro x
      simp [OscListener.deliver, h]
    rw [hcons, hdeliver, ih (by exact h)]
    simp

/-- `ProcessMessage` of a message that the format has, with arguments that the listener takes. -/
theorem processMessage_run {r : ReceivedMessage} {m : Message}
    (hat : MessageAt mem p n r m.decoded) (hfuel : p + 2 * n < f) :
    (processMessage mem f r ep).run l = .ok () (l.deliverAll ep [m]) := by
  have hread : (readMessage mem f r ep).result =
      .ok (m.setRemoteEndpoint ep.addressAsString ep.port) := by
    rw [readMessage, result_bind, (hat.address (by omega)).1]
    simp only [Except.bind, result_bind, (hat.addArgs hfuel (Eq.refl (m.args.map Arg.toValue))).1]
    rfl
  rw [processMessage, run_liftRead_ok hread]
  rfl

/-- What the constructor made, when it did not throw. -/
theorem receivedMessage_ok {r : ReceivedMessage} (h : (receivedMessage mem p n).result = .ok r) :
    ∃ hd, parseHeader (slice mem p n) = some hd ∧ ((hd.tags = [] ∧ r = ⟨p, none, none, 0⟩) ∨
      ∃ t a, TagsAt mem t hd.tags ∧ r = ⟨p, some t, some (t + hd.tags.length), a⟩) := by
  cases hh : parseHeader (slice mem p n) with
  | none =>
    obtain ⟨what, hwhat⟩ := receivedMessage_no_header hh
    rw [hwhat] at h
    cases h
  | some hd =>
    refine ⟨hd, rfl, ?_⟩
    by_cases htags : hd.tags = []
    · rw [(receivedMessage_no_tags hh htags).1] at h
      cases h
      exact .inl ⟨htags, rfl⟩
    by_cases hover : Overruns hd.tags hd.args
    · obtain ⟨t, a, hat, hok⟩ := receivedMessage_overruns hh hover
      rw [hok] at h
      cases h
      exact .inr ⟨t, a, hat.tags, rfl⟩
    cases hargs : parseArgs hd.tags hd.args with
    | none =>
      have hm : parseMessage (slice mem p n) = none := by
        rw [parseMessage, hh, Option.bind_some, hargs]
        rfl
      have hno : ¬ BlobOverruns (slice mem p n) := by
        rintro ⟨hd', hh', hover'⟩
        rw [hh] at hh'
        cases hh'
        exact hover hover'
      obtain ⟨what, hwhat⟩ := receivedMessage_malformed hm hno
      rw [hwhat] at h
      cases h
    | some args =>
      obtain ⟨t, a, hat, hreaches⟩ := receivedMessage_tags hh htags
      have hcheck := checkArguments_yields htags hat.tags hat.tags_in hat.args_in hat.args_le
        hat.args_mod hat.args hargs (Nat.le_of_lt hat.tags_length)
      rw [hreaches.result, result_bind, hcheck.1] at h
      cases h
      exact .inr ⟨t, a, hat.tags, rfl⟩

theorem parseArgs_listenerTags {ts bs rest : List UInt8} {vs : List Value}
    (hts : ∀ b ∈ ts, b ∈ listenerTags) (h : parseArgs ts bs = some (vs, rest)) :
    ∃ args : List Arg, vs = args.map Arg.toValue := by
  induction ts generalizing bs vs with
  | nil =>
    cases h
    exact ⟨[], rfl⟩
  | cons b ts ih =>
    obtain ⟨hb, htail⟩ := List.forall_mem_cons.mp hts
    obtain ⟨tag, v, bs', vs', rfl, harg, hargs, rfl⟩ := parseArgs_cons h
    obtain ⟨args, rfl⟩ := ih htail hargs
    have hv : ∃ arg : Arg, v = arg.toValue := by
      cases tag
      case int32 | float | string =>
        obtain ⟨w, -, heq⟩ := Option.map_eq_some_iff.mp harg
        cases heq
        first
        | exact ⟨.int32 _, rfl⟩
        | exact ⟨.float _, rfl⟩
        | exact ⟨.string _, rfl⟩
      all_goals exact absurd hb (by decide)
    obtain ⟨arg, rfl⟩ := hv
    exact ⟨arg :: args, rfl⟩

/-- `ProcessMessage` survives no other message. -/
theorem processMessage_survives {r : ReceivedMessage}
    (hr : (receivedMessage mem p n).result = .ok r)
    (h : (processMessage mem f r ep).run l = .ok () l') :
    ∃ m : Message, parseMessage (slice mem p n) = some m.decoded := by
  obtain ⟨hd, hh, hcases⟩ := receivedMessage_ok hr
  have hread : ∃ args, (addArgs mem r.argumentsEnd f r.argumentsBegin).result = .ok args := by
    obtain ⟨message, hmessage, -⟩ := run_liftRead_inv h
    obtain ⟨address, -, hmessage⟩ := bind_ok.mp hmessage
    obtain ⟨args, hargs, -⟩ := bind_ok.mp hmessage
    exact ⟨args, hargs⟩
  have htags : ∀ b ∈ hd.tags, b ∈ listenerTags := by
    rcases hcases with ⟨hnil, -⟩ | ⟨t, a, htags, rfl⟩
    · simp [hnil]
    · obtain ⟨args, hargs⟩ := hread
      exact addArgs_ok htags hargs
  have hno : ¬ BlobOverruns (slice mem p n) := by
    rintro ⟨hd', hh', before, after, -, -, hts, -⟩
    rw [hh] at hh'
    cases hh'
    have : ascii 'b' ∈ listenerTags := htags _ (by simp [hts])
    exact absurd this (by decide)
  cases hm : parseMessage (slice mem p n) with
  | none =>
    obtain ⟨what, hwhat⟩ := receivedMessage_malformed hm hno
    rw [hwhat] at hr
    cases hr
  | some m =>
    obtain ⟨hd', vs, rest, hh', hargs, rfl⟩ := parseMessage_some hm
    rw [hh] at hh'
    cases hh'
    obtain ⟨args, rfl⟩ := parseArgs_listenerTags htags hargs
    exact ⟨⟨hd.address, args, "", 0⟩, rfl⟩

/-! ## One element -/

theorem isBundle_contents {contents : List UInt8} (h : slice mem p contents.length = contents) :
    (isBundle mem p (contents.length : Int)).result =
      .ok (decide (contents.head? = some (ascii '#'))) := by
  cases contents with
  | nil => rfl
  | cons c contents =>
    have hpos : ((c :: contents).length : Int) > 0 := by simp
    rw [isBundle, if_pos hpos, result_bind]
    simp [readByte, Except.bind, (slice_cons h).1]

/-- What the loop knows of the element at `i`. -/
theorem elementSize_result {contents rest : List UInt8} (h : SizeAt mem i fin contents rest)
    (hlt : contents.length < 2 ^ 31) : ∃ size : Int32, (elementSize mem i).result = .ok size ∧
      size.toInt = contents.length ∧ unsignedLong size = contents.length ∧
      advanceElement i size = i + 4 + contents.length := by
  have hint : (word32 (slice mem i 4)).toInt32.toInt = contents.length := by
    rw [toInt_of_lt (by rw [h.size]; exact hlt), h.size]
  refine ⟨(word32 (slice mem i 4)).toInt32, ?_, hint, ?_, ?_⟩
  · rw [elementSize, result_bind, readUInt32_result]
    rfl
  · rw [unsignedLong, hint]
    omega
  · rw [advanceElement, hint]
    omega

section elements

variable {σ : Type} {pm : ReceivedMessage → IpEndpointName → ListenM σ Unit}
  {contents rest : List UInt8} {l : σ}

/-- One turn of the loop over a message. -/
theorem processElements_message (h : SizeAt mem i fin contents rest)
    (hlt : contents.length < 2 ^ 31) (hhead : contents.head? ≠ some (ascii '#')) :
    (processElements mem ep pm fin (fuel + 1) i).run l = (do
      let m ← liftRead (receivedMessage mem (i + 4) contents.length)
      pm m ep
      processElements mem ep pm fin fuel (i + 4 + contents.length)).run l := by
  obtain ⟨size, hsize, hint, hlong, hnext⟩ := elementSize_result h hlt
  have hle := h.le
  have hbundle := isBundle_contents h.cells
  rw [processElements, if_neg (by omega), run_liftRead_ok hsize, hint, run_liftRead_ok hbundle]
  simp only [decide_eq_false hhead, Bool.false_eq_true, if_false, hlong, hnext]

/-- One turn of the loop over a bundle. -/
theorem processElements_bundle (h : SizeAt mem i fin contents rest)
    (hlt : contents.length < 2 ^ 31) (hhead : contents.head? = some (ascii '#')) :
    (processElements mem ep pm fin (fuel + 1) i).run l = (do
      let b ← liftRead (receivedBundle mem fuel (i + 4) contents.length)
      processElements mem ep pm b.fin fuel (b.timeTag + 8)
      processElements mem ep pm fin fuel (i + 4 + contents.length)).run l := by
  obtain ⟨size, hsize, hint, hlong, hnext⟩ := elementSize_result h hlt
  have hle := h.le
  have hbundle := isBundle_contents h.cells
  rw [processElements, if_neg (by omega), run_liftRead_ok hsize, hint, run_liftRead_ok hbundle]
  simp only [decide_eq_true hhead, if_true, hlong, hnext]

end elements

/-! ## All elements of a bundle -/

/-- The loop delivers the messages of the elements in order. The induction is over the elements
of the format. -/
theorem processElements_run {bs : List UInt8} {ds : List Decoded} {ms : List Message}
    (h : Elements bs ds) (hds : ds = ms.map Message.decoded) (hi : i ≤ fin)
    (hbs : slice mem i (fin - i) = bs) (hlt : fin - i < 2 ^ 31) (hfuel : fin - i < fuel)
    (hf : 2 * fin < f) :
    (processElements mem ep (processMessage mem f) fin fuel i).run l =
      .ok () (l.deliverAll ep ms) := by
  obtain ⟨fuel, rfl⟩ : ∃ k, fuel = k + 1 := ⟨fuel - 1, by omega⟩
  induction h generalizing i fin fuel ms l with
  | nil =>
    obtain rfl := List.map_eq_nil_iff.mp hds.symm
    have hlen := congrArg List.length hbs
    rw [slice_length, List.length_nil] at hlen
    rw [processElements, if_pos (by omega)]
    rfl
  | @message size contents rest d ds hsize hvalue hhead hm hrest ih =>
    obtain ⟨m, ms, rfl, rfl, rfl⟩ := List.map_eq_cons_iff.mp hds.symm
    have hat := sizeAt hi hbs hsize hvalue
    have hle := hat.le
    rw [← hat.cells] at hm
    obtain ⟨r, hr, hmat⟩ := receivedMessage_decodes hm
    obtain ⟨fuel, rfl⟩ : ∃ k, fuel = k + 1 := ⟨fuel - 1, by omega⟩
    rw [processElements_message hat (by omega) hhead, run_liftRead_ok hr.1,
      run_bind_ok (processMessage_run hmat (by omega)),
      ih (Eq.refl (ms.map Message.decoded)) hle hat.behind (by omega) hf fuel (by omega)]
    exact congrArg _ (deliverAll_append l ep [m] ms).symm
  | @bundle size timeTag elements rest ds ds' hsize hvalue htimeTag helements hrest ih ih' =>
    obtain ⟨ms, ms', rfl, rfl, rfl⟩ := List.map_eq_append_iff.mp hds.symm
    have hat := sizeAt hi hbs hsize hvalue
    have hle := hat.le
    have hpos : 4 ≤ fin - i := by omega
    obtain ⟨fuel, rfl⟩ : ∃ k, fuel = k + 1 := ⟨fuel - 1, by omega⟩
    obtain ⟨count, hb, h16, hinner⟩ := receivedBundle_ok (fuel + 1) hat.cells htimeTag
      helements.sized (by omega) (by omega)
    have hin := ih (l := l) (Eq.refl (ms.map Message.decoded)) (by omega) hinner (by omega)
      (by omega) fuel (by omega)
    have hout := ih' (l := l.deliverAll ep ms) (Eq.refl (ms'.map Message.decoded)) hle hat.behind
      (by omega) hf fuel (by omega)
    rw [processElements_bundle hat (by omega) rfl, run_liftRead_ok hb, run_bind_ok hin, hout,
      deliverAll_append]

/-- The loop ends only when each element is a bundle or a message that the listener takes. -/
theorem processElements_survives (hs : Sized (slice mem i (fin - i))) (hi : i ≤ fin)
    (hlt : fin < 2 ^ 31)
    (h : (processElements mem ep (processMessage mem f) fin fuel i).run l = .ok () l') :
    ∃ ms : List Message, Elements (slice mem i (fin - i)) (ms.map Message.decoded) := by
  induction fuel generalizing i fin l l' with
  | zero => cases h
  | succ fuel ih =>
    by_cases hend : i = fin
    · subst hend
      rw [Nat.sub_self]
      exact ⟨[], .nil⟩
    generalize hbs : slice mem i (fin - i) = bs at hs ⊢
    cases hs with
    | nil =>
      have hlen := congrArg List.length hbs
      rw [slice_length, List.length_nil] at hlen
      omega
    | @cons size contents rest hsize hvalue hmod hrest =>
      have hat := sizeAt hi hbs hsize hvalue
      have hle := hat.le
      by_cases hhead : contents.head? = some (ascii '#')
      · rw [processElements_bundle hat (by omega) hhead] at h
        obtain ⟨b, hb, h⟩ := run_liftRead_inv h
        obtain ⟨_, l₁, h₁, h₂⟩ := run_bind_inv h
        obtain ⟨htt, hfin, h16, hcontents, hinner⟩ := receivedBundle_sized (by omega) hb
        rw [htt, hfin] at h₁
        obtain ⟨ms, hms⟩ := ih hinner (by omega) (by omega) h₁
        obtain ⟨ms', hms'⟩ := ih (hat.behind ▸ hrest) hle hlt h₂
        have hlen : i + 4 + contents.length - (i + 4 + 16) = contents.length - 16 := by omega
        rw [hlen] at hms
        rw [hat.behind] at hms'
        rw [hat.cells] at hcontents
        rw [hcontents] at hvalue ⊢
        refine ⟨ms ++ ms', ?_⟩
        rw [List.map_append]
        exact .bundle hsize hvalue (slice_length _ 8) hms hms'
      · rw [processElements_message hat (by omega) hhead] at h
        obtain ⟨r, hr, h⟩ := run_liftRead_inv h
        obtain ⟨_, l₁, h₁, h₂⟩ := run_bind_inv h
        obtain ⟨m, hm⟩ := processMessage_survives hr h₁
        rw [hat.cells] at hm
        obtain ⟨ms, hms⟩ := ih (hat.behind ▸ hrest) hle hlt h₂
        rw [hat.behind] at hms
        exact ⟨m :: ms, .message hsize hvalue hhead hm hms⟩

/-! ## One packet -/

theorem processPacket_message {σ : Type} {l : σ} {bs : List UInt8}
    (hbs : slice mem 0 bs.length = bs) (hhead : bs.head? ≠ some (ascii '#'))
    {pm : ReceivedMessage → IpEndpointName → ListenM σ Unit} :
    (processPacket mem ep pm fuel bs.length).run l = (do
      let m ← liftRead (receivedMessage mem 0 bs.length)
      pm m ep).run l := by
  rw [processPacket, run_liftRead_ok (isBundle_contents hbs)]
  simp only [decide_eq_false hhead, Bool.false_eq_true, if_false]

theorem processPacket_bundle {σ : Type} {l : σ} {bs : List UInt8}
    (hbs : slice mem 0 bs.length = bs) (hhead : bs.head? = some (ascii '#'))
    {pm : ReceivedMessage → IpEndpointName → ListenM σ Unit} :
    (processPacket mem ep pm fuel bs.length).run l = (do
      let b ← liftRead (receivedBundle mem fuel 0 bs.length)
      processElements mem ep pm b.fin fuel (b.timeTag + 8)).run l := by
  rw [processPacket, run_liftRead_ok (isBundle_contents hbs)]
  simp only [decide_eq_true hhead, if_true]
  rfl

/-- A packet of the format delivers its messages in order. -/
theorem processPacket_run {bs : List UInt8} {ms : List Message}
    (h : Packet bs (ms.map Message.decoded)) (hbs : slice mem 0 bs.length = bs)
    (hlt : bs.length < 2 ^ 31) (hfuel : bs.length < fuel) (hf : 2 * bs.length < f) :
    (processPacket mem ep (processMessage mem f) fuel bs.length).run l =
      .ok () (l.deliverAll ep ms) := by
  generalize hds : ms.map Message.decoded = ds at h
  cases h with
  | @message _ m hhead hm =>
    obtain ⟨m, ms, rfl, rfl, hnil⟩ := List.map_eq_cons_iff.mp hds
    obtain rfl := List.map_eq_nil_iff.mp hnil
    rw [← hbs] at hm
    obtain ⟨r, hr, hat⟩ := receivedMessage_decodes hm
    rw [processPacket_message hbs hhead, run_liftRead_ok hr.1]
    exact processMessage_run hat (by omega)
  | @bundle timeTag elements _ htimeTag helements =>
    obtain ⟨count, hb, h16, hinner⟩ := receivedBundle_ok fuel hbs htimeTag
      helements.sized hlt hfuel
    rw [processPacket_bundle hbs rfl, run_liftRead_ok hb]
    dsimp only
    exact processElements_run helements hds.symm (by omega) hinner (by omega) (by omega) (by omega)

/-- No other packet is survived. -/
theorem processPacket_survives {bs : List UInt8} (hbs : slice mem 0 bs.length = bs)
    (hlt : bs.length < 2 ^ 31)
    (h : (processPacket mem ep (processMessage mem f) fuel bs.length).run l = .ok () l') :
    ∃ ms : List Message, Packet bs (ms.map Message.decoded) := by
  by_cases hhead : bs.head? = some (ascii '#')
  · rw [processPacket_bundle hbs hhead] at h
    obtain ⟨b, hb, h⟩ := run_liftRead_inv h
    obtain ⟨htt, hfin, h16, hcontents, hinner⟩ := receivedBundle_sized (by omega) hb
    rw [htt, hfin] at h
    obtain ⟨ms, hms⟩ := processElements_survives hinner (by omega) (by omega) h
    have hlen : 0 + bs.length - (0 + 16) = bs.length - 16 := by omega
    rw [hlen] at hms
    rw [hbs] at hcontents
    rw [hcontents]
    exact ⟨ms, .bundle (slice_length _ 8) hms⟩
  · rw [processPacket_message hbs hhead] at h
    obtain ⟨r, hr, h⟩ := run_liftRead_inv h
    obtain ⟨m, hm⟩ := processMessage_survives hr h
    rw [hbs] at hm
    exact ⟨[m], .message hhead hm⟩

/-! ## The receiving thread -/

theorem packet_ne_nil {ds : List Decoded} : ¬ Packet [] ds := by
  intro h
  generalize hbs : ([] : List UInt8) = bs at h
  cases h with
  | message hhead hm =>
    subst hbs
    cases hm
  | bundle htimeTag helements => cases hbs

/-- The bytes of a datagram that `recvfrom` puts in the receive buffer. -/
def Datagram.received (d : Datagram) : List UInt8 := d.bytes.take maxBufferSize

/-- The datagram is empty, or a packet with the messages `ms`. -/
def Datagram.Says (d : Datagram) (ms : List Message) : Prop :=
  (d.received = [] ∧ ms = []) ∨ Packet d.received (ms.map Message.decoded)

/-- A packet of messages with `int32`, `float` and string arguments, or no bytes at all. -/
def Datagram.Accepted (d : Datagram) : Prop := ∃ ms, d.Says ms

/-- The listener after the messages of each datagram, in the order of arrival. -/
def OscListener.deliverEach (l : OscListener) : List Datagram → List (List Message) → OscListener
  | d :: ds, ms :: mss => (l.deliverAll d.remoteEndpoint ms).deliverEach ds mss
  | _, _ => l

theorem receiveFrom_slice (data : Memory) (d : Datagram) :
    slice (receiveFrom data d).1 0 d.received.length = d.received := by
  apply slice_eq_of_getElem?
  intro i hi
  change d.received.getD i (data i) = d.received[i]
  rw [List.getD_eq_getElem?_getD, List.getElem?_eq_getElem hi, Option.getD_some]

theorem received_length (d : Datagram) : d.received.length ≤ 4098 := by
  simp [Datagram.received, maxBufferSize]

/-- The loop of the thread for one datagram. -/
theorem runSocket_step {data : Memory} {d : Datagram} {ds : List Datagram} :
    (runSocket f data (d :: ds)).run l = (do
      if d.received.length > 0 then
        processPacket (receiveFrom data d).1 d.remoteEndpoint
          (processMessage (receiveFrom data d).1 f) f d.received.length
      runSocket f (receiveFrom data d).1 ds).run l := rfl

/-- With enough fuel the thread gets through accepted datagrams. -/
theorem runSocket_run {ds : List Datagram} {mss : List (List Message)} {data : Memory}
    (h : List.Forall₂ Datagram.Says ds mss) (hf : 2 * 4098 < f) :
    (runSocket f data ds).run l = .ok () (l.deliverEach ds mss) := by
  induction h generalizing data l with
  | nil => rfl
  | @cons d ms ds mss hd hds ih =>
    have hlen := received_length d
    rw [runSocket_step, OscListener.deliverEach]
    rcases hd with ⟨hnil, rfl⟩ | hpacket
    · rw [hnil, if_neg (by simp)]
      exact ih
    · by_cases hpos : d.received.length > 0
      · rw [if_pos hpos, run_bind_ok (processPacket_run hpacket (receiveFrom_slice data d)
          (by omega) (by omega) (by omega))]
        exact ih
      · -- no packet is empty
        have hnil : d.received = [] := List.eq_nil_of_length_eq_zero (by omega)
        rw [hnil] at hpacket
        exact absurd hpacket packet_ne_nil

/-- The thread gets through no other datagram, whatever the fuel. -/
theorem runSocket_survives {ds : List Datagram} {data : Memory}
    (h : (runSocket f data ds).run l = .ok () l') : ∀ d ∈ ds, d.Accepted := by
  induction ds generalizing data l with
  | nil => simp
  | cons d ds ih =>
    have hlen := received_length d
    rw [runSocket_step] at h
    by_cases hpos : d.received.length > 0
    · rw [if_pos hpos] at h
      obtain ⟨_, l₁, h₁, h₂⟩ := run_bind_inv h
      obtain ⟨ms, hms⟩ := processPacket_survives (receiveFrom_slice data d) (by omega) h₁
      exact List.forall_mem_cons.mpr ⟨⟨ms, .inr hms⟩, ih h₂⟩
    · rw [if_neg hpos] at h
      have hnil : d.received = [] := List.eq_nil_of_length_eq_zero (by omega)
      exact List.forall_mem_cons.mpr ⟨⟨[], .inl ⟨hnil, rfl⟩⟩, ih h⟩

/-- With enough fuel the thread gets through the datagrams, and the messages of each are
delivered in the order of arrival. -/
def SurvivesInOrder (l : OscListener) (data : Memory) (ds : List Datagram) : Prop :=
  ∃ mss n, List.Forall₂ Datagram.Says ds mss ∧
    ∀ fuel ≥ n, (runSocket fuel data ds).run l = .ok () (l.deliverEach ds mss)

theorem forall₂_says {ds : List Datagram} (h : ∀ d ∈ ds, d.Accepted) :
    ∃ mss, List.Forall₂ Datagram.Says ds mss := by
  induction ds with
  | nil => exact ⟨[], .nil⟩
  | cons d ds ih =>
    obtain ⟨⟨ms, hd⟩, hds⟩ := List.forall_mem_cons.mp h
    obtain ⟨mss, hmss⟩ := ih hds
    exact ⟨ms :: mss, .cons hd hmss⟩

/-- The thread survives exactly the sequences of accepted datagrams, and those in order. Every
other datagram ends it: nothing on the way up catches what a constructor throws. -/
theorem thread_survives_iff (l : OscListener) (data : Memory) (ds : List Datagram) :
    ((∃ fuel l', (runSocket fuel data ds).run l = .ok () l') ↔ ∀ d ∈ ds, d.Accepted) ∧
      (SurvivesInOrder l data ds ↔ ∀ d ∈ ds, d.Accepted) := by
  have hrun : (∀ d ∈ ds, d.Accepted) → SurvivesInOrder l data ds := by
    intro h
    obtain ⟨mss, hmss⟩ := forall₂_says h
    exact ⟨mss, 2 * 4098 + 1, hmss, fun fuel hfuel => runSocket_run hmss (by omega)⟩
  have hends : SurvivesInOrder l data ds →
      ∃ fuel l', (runSocket fuel data ds).run l = .ok () l' := by
    rintro ⟨mss, n, -, h⟩
    exact ⟨n, _, h n le_rfl⟩
  have honly : (∃ fuel l', (runSocket fuel data ds).run l = .ok () l') → ∀ d ∈ ds, d.Accepted := by
    rintro ⟨fuel, l', h⟩
    exact runSocket_survives h
  exact ⟨⟨honly, fun h => hends (hrun h)⟩, ⟨fun h => honly (hends h), hrun⟩⟩

theorem packet_length {bs : List UInt8} {ds : List Decoded} (h : Packet bs ds) :
    bs.length % 4 = 0 := by
  have hp : bundlePattern.length = 8 := rfl
  cases h with
  | message hhead hm => exact parseMessage_length hm
  | bundle htimeTag helements =>
    have := helements.sized.length_mod
    simp only [List.length_append]
    omega

/-- A datagram of three bytes ends the thread, with any fuel. -/
theorem a_short_datagram_ends_the_thread :
    ¬ ∀ (l : OscListener) (data : Memory) (ds : List Datagram),
      (∀ d ∈ ds, d.bytes.length ≤ maxBufferSize) →
        ∃ fuel l', (runSocket fuel data ds).run l = .ok () l' := by
  intro h
  obtain ⟨fuel, l', h⟩ := h {} (fun _ => 0) [⟨[97, 98, 99], ⟨0x7F000001, 7000⟩⟩] (by decide)
  obtain ⟨ms, ⟨hnil, -⟩ | hpacket⟩ := runSocket_survives h _ List.mem_cons_self
  · exact absurd hnil (by decide)
  · exact absurd (packet_length hpacket) (by decide)

end esc_platform.osc
