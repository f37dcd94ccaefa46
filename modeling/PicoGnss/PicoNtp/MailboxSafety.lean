import PicoGnss.PicoNtp.Mailbox

/-! Every answer that the host gets through the mailbox was made for its request. -/

namespace PicoGnss
set_option autoImplicit true

open FixedWidth Bytes Cells

variable {s s' : SwdState}

/-- The request of the exchange whose doorbell has been rung. -/
def SwdHost.asked : SwdHost → Option (List UInt8)
  | idle => none
  | writing _ _ => none
  | waiting request => some request
  | seen request => some request
  | reading request _ => some request
  | stamping request _ _ => some request

def SwdFirmware.doorbell : SwdFirmware → Option UInt32
  | polling => none
  | rung d => some d
  | receiving d _ _ _ => some d
  | replying d _ _ => some d
  | stamping d _ _ => some d

/-- The firmware has nothing to answer. -/
def SwdFirmware.Quiet (firmware : SwdFirmware) (done : UInt32) : Prop :=
  firmware = .polling ∨ firmware = .rung done

/-- Since the pass read `d`, the host has rung once for every exchange started. -/
structure InPass (s : SwdState) (d : UInt32) : Prop where
  seq : s.seq = s.mailbox.doorbell
  unanswered : d ≠ s.mailbox.done
  rung : s.mailbox.doorbell = d + .ofNat (s.started - s.passNumber)

/-- The pass belongs to the exchange that the host is in. -/
def Current (s : SwdState) (request : List UInt8) : Prop :=
  s.host.asked = some request ∧ s.passNumber = s.started

/-- What a pass that has read its request works with. -/
structure Made (s : SwdState) (p : SwdPass) : Prop where
  number : p.number = s.passNumber
  recv : InI64 p.recvUnixNs
  xmit : InI64 p.xmitUnixNs
  request : ∀ request, Current s request → p.request = request

/-- The outcome of a pass is in the mailbox. -/
structure Delivered (m : Mailbox) (p : SwdPass) : Prop where
  recv : InI64 p.recvUnixNs
  xmit : InI64 p.xmitUnixNs
  reply : ∀ bytes ∈ p.reply, Holds m.reply bytes bytes.length
  stamps : Holds m.stamps p.stamps p.stamps.length

/-- The host's request is in the mailbox as far as it has been written. -/
def HostWrites (m : Mailbox) : SwdHost → Prop
  | .idle => True
  | .writing request i => request.length = packetLen ∧ i ≤ packetLen ∧ Holds m.request request i
  | .waiting request => request.length = packetLen ∧ Holds m.request request packetLen
  | .seen request => request.length = packetLen ∧ Holds m.request request packetLen
  | .reading request _ => request.length = packetLen ∧ Holds m.request request packetLen
  | .stamping request _ _ => request.length = packetLen ∧ Holds m.request request packetLen

/-- What the host has read is in the mailbox, and `done` is its own number. -/
def HostReads (s : SwdState) : Prop :=
  match s.host with
  | .idle => True
  | .writing _ _ => True
  | .waiting _ => True
  | .seen _ => s.mailbox.done = s.seq
  | .reading _ got => s.mailbox.done = s.seq ∧ s.mailbox.stamps silentWord = 0 ∧
      got.length ≤ packetLen ∧ Holds s.mailbox.reply got got.length
  | .stamping _ reply got => s.mailbox.done = s.seq ∧ s.mailbox.stamps silentWord = 0 ∧
      reply.length = packetLen ∧ Holds s.mailbox.reply reply reply.length ∧
      got.length ≤ silentWord ∧ Holds s.mailbox.stamps got got.length

/-- What the firmware has read is the request of a current exchange, and what it has written is of
its pass. -/
def FirmwareWorks (s : SwdState) : Prop :=
  match s.firmware with
  | .polling => True
  | .rung d => d = s.mailbox.done ∨ InPass s d
  | .receiving d _ recv got => InPass s d ∧ InI64 recv ∧ got.length ≤ packetLen ∧
      ∀ request, Current s request → Holds s.mailbox.request got got.length
  | .replying d p i => InPass s d ∧ Made s p ∧ ∀ bytes ∈ p.reply, Holds s.mailbox.reply bytes i
  | .stamping d p i => InPass s d ∧ Made s p ∧
      (∀ bytes ∈ p.reply, Holds s.mailbox.reply bytes bytes.length) ∧
      Holds s.mailbox.stamps p.stamps i

/-- What every run of the two programs maintains. -/
structure Exchanging (s : SwdState) : Prop where
  passNumber : s.passNumber ≤ s.started
  -- after a reset the host may still count where the mailbox starts again
  sync : s.seq = s.mailbox.doorbell ∨
    s.mailbox.doorbell = s.mailbox.done ∧ s.firmware.Quiet s.mailbox.done
  asked : s.host.asked ≠ none → s.seq = s.mailbox.doorbell
  writes : HostWrites s.mailbox s.host
  reads : HostReads s
  works : FirmwareWorks s
  answered : ∀ request, s.host.asked = some request → s.mailbox.done = s.seq →
    s.firmware.Quiet s.mailbox.done ∧
      ∃ p ∈ s.passes, p.number = s.started ∧ p.request = request ∧ Delivered s.mailbox p
  results : ∀ x ∈ s.results, ∃ p ∈ s.passes, x.MadeBy p

theorem Exchanging.boot : Exchanging .boot where
  passNumber := Nat.le_refl 0
  sync := .inl rfl
  asked h := absurd rfl h
  writes := trivial
  reads := trivial
  works := trivial
  answered _ h := nomatch h
  results _ h := nomatch h

/-- A pass stays as made when no exchange becomes current. -/
theorem Made.moved (h : Made s p) (hpass : s'.passNumber = s.passNumber)
    (hback : ∀ request, Current s' request → Current s request) : Made s' p :=
  ⟨h.number.trans hpass.symm, h.recv, h.xmit,
    fun request hr => h.request request (hback request hr)⟩

theorem not_quiet (hfirmware : s.firmware = firmware) (hpolling : firmware ≠ .polling)
    (hrung : ∀ d, firmware ≠ .rung d) : ¬s.firmware.Quiet done := by
  subst hfirmware
  rintro (hq | hq)
  · exact hpolling hq
  · exact hrung done hq

theorem FirmwareWorks.frame (h : FirmwareWorks s) (hfirmware : s'.firmware = s.firmware)
    (hdone : s'.mailbox.done = s.mailbox.done) (hreply : s'.mailbox.reply = s.mailbox.reply)
    (hstamps : s'.mailbox.stamps = s.mailbox.stamps) (hpass : s'.passNumber = s.passNumber)
    (hin : ∀ d, InPass s d → InPass s' d)
    (hcurrent : ∀ request, Current s' request →
      Current s request ∧ s'.mailbox.request = s.mailbox.request) : FirmwareWorks s' := by
  have hmade (p : SwdPass) (hp : Made s p) : Made s' p :=
    hp.moved hpass fun request hr => (hcurrent request hr).1
  unfold FirmwareWorks at h ⊢
  rw [hfirmware]
  cases hf : s.firmware with
  | polling => trivial
  | rung d =>
    rw [hf] at h
    rw [hdone]
    exact h.imp id (hin d)
  | receiving d state recv got =>
    rw [hf] at h
    obtain ⟨hd, hrecv, hlength, hgot⟩ := h
    refine ⟨hin d hd, hrecv, hlength, fun request hr => ?_⟩
    obtain ⟨hr, hrequest⟩ := hcurrent request hr
    rw [hrequest]
    exact hgot request hr
  | replying d p i =>
    rw [hf] at h
    rw [hreply]
    exact ⟨hin d h.1, hmade p h.2.1, h.2.2⟩
  | stamping d p i =>
    rw [hf] at h
    rw [hreply, hstamps]
    exact ⟨hin d h.1, hmade p h.2.1, h.2.2⟩

namespace Exchanging

theorem writes_of (h : Exchanging s) (hhost : s.host = host) : HostWrites s.mailbox host :=
  hhost ▸ h.writes

theorem reads_of (h : Exchanging s) (hhost : s.host = host) :
    HostReads { s with host := host } := by
  subst hhost
  exact h.reads

theorem works_of (h : Exchanging s) (hfirmware : s.firmware = firmware) :
    FirmwareWorks { s with firmware := firmware } := by
  subst hfirmware
  exact h.works

/-- The host goes on with its exchange, or out of it, and leaves the mailbox as it is. -/
theorem hostMoves (h : Exchanging s) (hasked : host'.asked = none ∨ host'.asked = s.host.asked)
    (hwrites : HostWrites s.mailbox host') (hreads : HostReads { s with host := host' }) :
    Exchanging { s with host := host' } := by
  have hback : ∀ request, host'.asked = some request → s.host.asked = some request := by
    intro request hr
    obtain hnone | hsame := hasked
    · rw [hnone] at hr
      cases hr
    · exact hsame ▸ hr
  have hworks : FirmwareWorks { s with host := host' } :=
    h.works.frame rfl rfl rfl rfl rfl (fun d hd => ⟨hd.seq, hd.unanswered, hd.rung⟩)
      fun request hr => ⟨⟨hback request hr.1, hr.2⟩, rfl⟩
  refine ⟨h.passNumber, h.sync, fun hne => h.asked ?_, hwrites, hreads, hworks,
    fun request hr => h.answered request (hback request hr), h.results⟩
  intro hnone
  cases ha : host'.asked with
  | none => exact hne ha
  | some request =>
    rw [hback request ha] at hnone
    cases hnone

/-- The firmware goes on with its pass and leaves the mailbox as it is. -/
theorem firmwareMoves (h : Exchanging s)
    (hquiet : s.firmware.Quiet s.mailbox.done → firmware'.Quiet s.mailbox.done)
    (hworks : FirmwareWorks { s with firmware := firmware' }) :
    Exchanging { s with firmware := firmware' } := by
  refine ⟨h.passNumber, h.sync.imp id fun hs => ⟨hs.1, hquiet hs.2⟩, h.asked, h.writes, h.reads,
    hworks, ?_, h.results⟩
  intro request hr hdone
  obtain ⟨hq, hp⟩ := h.answered request hr hdone
  exact ⟨hquiet hq, hp⟩

/-- While the firmware is answering, no exchange has its answer. -/
theorem busy (h : Exchanging s) (hbusy : ¬s.firmware.Quiet s.mailbox.done) :
    (∀ request, s.host.asked = some request → s.mailbox.done ≠ s.seq) ∧
      ∀ s' : SwdState, s'.host = s.host → HostReads s' := by
  have hnone : ∀ request, s.host.asked = some request → s.mailbox.done ≠ s.seq := by
    intro request hr hdone
    exact hbusy (h.answered request hr hdone).1
  refine ⟨hnone, ?_⟩
  intro s' hhost
  have hreads := h.reads
  unfold HostReads at hreads ⊢
  rw [hhost]
  cases hh : s.host with
  | idle | writing | waiting => trivial
  | seen request =>
    rw [hh] at hreads hnone
    exact absurd hreads (hnone request rfl)
  | reading request got =>
    rw [hh] at hreads hnone
    exact absurd hreads.1 (hnone request rfl)
  | stamping request reply got =>
    rw [hh] at hreads hnone
    exact absurd hreads.1 (hnone request rfl)

end Exchanging

/-- Writing the answer moves no cell that the host writes. -/
theorem HostWrites.same (h : HostWrites m host) (hrequest : m'.request = m.request) :
    HostWrites m' host := by
  unfold HostWrites at h ⊢
  rw [hrequest]
  exact h

/-- The firmware writes cells of its answer. -/
theorem Exchanging.firmwareWrites (h : Exchanging s) (hbusy : ¬s.firmware.Quiet s.mailbox.done)
    {m : Mailbox} (hdoorbell : m.doorbell = s.mailbox.doorbell) (hdone : m.done = s.mailbox.done)
    (hrequest : m.request = s.mailbox.request)
    (hworks : FirmwareWorks { s with mailbox := m, firmware := firmware' }) :
    Exchanging { s with mailbox := m, firmware := firmware' } := by
  obtain ⟨hnone, hreads⟩ := h.busy hbusy
  obtain hseq | hs := h.sync
  · refine ⟨h.passNumber, .inl (hseq.trans hdoorbell.symm), fun hne => (h.asked hne).trans
      hdoorbell.symm, h.writes.same hrequest, hreads _ rfl, hworks, ?_, h.results⟩
    intro request hr hanswered
    exact absurd (hdone.symm.trans hanswered) (hnone request hr)
  · exact absurd hs.2 hbusy

theorem Exchanging.attach (h : Exchanging s) (hhost : s.host = .idle) :
    Exchanging { s with seq := s.mailbox.doorbell } := by
  have hnone : s.host.asked = none := by rw [hhost, SwdHost.asked]
  refine ⟨h.passNumber, .inl rfl, fun _ => rfl, h.writes, ?_, ?_, ?_, h.results⟩
  · unfold HostReads
    simp only [hhost]
  · exact h.works.frame rfl rfl rfl rfl rfl (fun d hd => ⟨rfl, hd.unanswered, hd.rung⟩)
      fun request hr => ⟨hr, rfl⟩
  · intro request hr
    rw [hnone] at hr
    cases hr

theorem Exchanging.write (h : Exchanging s) (hhost : s.host = .writing request i)
    (hb : request[i]? = some b) : Exchanging { s with
      mailbox := { s.mailbox with request := Function.update s.mailbox.request i b }
      host := .writing request (i + 1) } := by
  obtain ⟨hlength, -, hcells⟩ := h.writes_of hhost
  have hi := (List.getElem?_eq_some_iff.1 hb).1
  refine ⟨h.passNumber, h.sync, fun hne => absurd rfl hne,
    ⟨hlength, hlength ▸ hi, hcells.write hb⟩, trivial, ?_, ?_, h.results⟩
  · exact h.works.frame rfl rfl rfl rfl rfl (fun d hd => ⟨hd.seq, hd.unanswered, hd.rung⟩)
      fun request hr => nomatch hr.1
  · intro request hr
    cases hr

/-- Ringing moves the count on for a pass under way, which is then no longer current. -/
theorem Exchanging.ring (h : Exchanging s) (hhost : s.host = .writing request packetLen)
    (hheld : s.seq + 1 ≠ s.mailbox.done) : Exchanging { s with
      mailbox := { s.mailbox with doorbell := s.seq + 1 }
      seq := s.seq + 1
      host := .waiting request
      started := s.started + 1 } := by
  obtain ⟨hlength, -, hcells⟩ := h.writes_of hhost
  have hpass := h.passNumber
  have hin (d : UInt32) (hd : InPass s d) :
      s.seq + 1 = d + .ofNat (s.started + 1 - s.passNumber) := by
    rw [Nat.sub_add_comm hpass, hd.seq, hd.rung, UInt32.ofNat_add, UInt32.add_assoc]
    rfl
  refine ⟨Nat.le_succ_of_le hpass, .inl rfl, fun _ => rfl, ⟨hlength, hcells⟩, trivial, ?_, ?_,
    h.results⟩
  · exact h.works.frame rfl rfl rfl rfl rfl (fun d hd => ⟨rfl, hd.unanswered, hin d hd⟩)
      fun r hr => absurd hr.2 (Nat.ne_of_lt (Nat.lt_succ_of_le hpass))
  · intro r hr hdone
    exact absurd hdone.symm hheld

theorem i64OfWords_eq (h : InI64 x) : i64OfWords (lowWord x) (highWord x) = x := by
  have hlow : (lowWord x).toNat = (x % 4294967296).toNat := by
    rw [lowWord, UInt32.toNat_ofNat']
    omega
  have hhigh : (highWord x).toNat = (x / 4294967296 % 4294967296).toNat := by
    rw [highWord, UInt32.toNat_ofNat']
    omega
  unfold InI64 at h
  rw [i64OfWords, hlow, hhigh]
  unfold asI64 wrap64
  omega

theorem SilentReason.toU32_succ_ne (reason : SilentReason) : reason.toU32 + 1 ≠ 0 := by
  cases reason <;> decide

/-- The word for silence is zero exactly when there is a packet. -/
theorem SwdPass.silent_eq_zero_iff (p : SwdPass) :
    p.silent = 0 ↔ ∃ packet, p.decision = .ok packet := by
  rw [SwdPass.silent, SwdPass.decision]
  cases hd : NtpPacket.decode p.request with
  | none => simp
  | some request =>
    cases hr : respond ntpServerConfig p.state request p.recvUnixNs
        (p.provisional.getD p.recvUnixNs) with
    | serve packet => simp [hr]
    | silent reason => simp [hr, reason.toU32_succ_ne]

theorem SwdPass.answer_of_silent {p : SwdPass} (h : p.silent ≠ 0) : p.answer = none := by
  rw [SwdPass.answer, SwdPass.reply]
  cases hd : p.decision with
  | ok packet => exact absurd (p.silent_eq_zero_iff.2 ⟨packet, hd⟩) h
  | error code => rfl

theorem SwdPass.reply_of_served {p : SwdPass} (h : p.silent = 0) :
    ∃ bytes, p.reply = some bytes ∧ bytes.length = packetLen := by
  obtain ⟨packet, hd⟩ := p.silent_eq_zero_iff.1 h
  refine ⟨_, by rw [SwdPass.reply, hd], ?_⟩
  rw [length_splice, NtpPacket.encode_eq, NtpPacket.length_wire]
  rw [NtpPacket.encode_eq, NtpPacket.length_wire, length_be]
  decide

theorem SwdPass.inI64_xmitUnixNs {p : SwdPass} (hrecv : InI64 p.recvUnixNs)
    (hxmit : ∀ t ∈ p.xmit, InI64 t) : InI64 p.xmitUnixNs := by
  unfold SwdPass.xmitUnixNs
  split
  · cases hx : p.xmit with
    | none => exact hrecv
    | some t => exact hxmit t hx
  · exact hrecv

theorem SwdPass.length_stamps (p : SwdPass) : p.stamps.length = 5 := rfl

namespace Exchanging

theorem record (h : Exchanging s) (hp : p ∈ s.passes) (hx : x.MadeBy p) :
    Exchanging { s with results := x :: s.results } := by
  refine ⟨h.passNumber, h.sync, h.asked, h.writes, h.reads, ?_, h.answered, ?_⟩
  · exact h.works.frame rfl rfl rfl rfl rfl (fun d hd => ⟨hd.seq, hd.unanswered, hd.rung⟩)
      fun request hr => ⟨hr, rfl⟩
  · intro y hy
    rcases List.mem_cons.1 hy with rfl | hy
    · exact ⟨p, hp, hx⟩
    · exact h.results y hy

/-- The word for silence that the host reads is the one of the pass. -/
theorem silent (h : Delivered s.mailbox p) : s.mailbox.stamps silentWord = p.silent := by
  have hword := h.stamps silentWord (by rw [p.length_stamps]; decide)
  injection hword with hword
  exact hword.symm

theorem declined (h : Exchanging s) (hhost : s.host = .seen request)
    (hsilent : s.mailbox.stamps silentWord ≠ 0) : Exchanging { s with
      host := .idle, results := ⟨s.started, request, none⟩ :: s.results } := by
  have hmoved : Exchanging { s with host := .idle } := h.hostMoves (.inl rfl) trivial trivial
  have hasked : s.host.asked = some request := by rw [hhost, SwdHost.asked]
  have hdone : s.mailbox.done = s.seq := h.reads_of hhost
  have hwrites := h.writes_of hhost
  obtain ⟨-, p, hp, hnumber, hrequest, hdelivered⟩ := h.answered request hasked hdone
  rw [silent hdelivered] at hsilent
  exact hmoved.record hp
    ⟨hnumber, hwrites.1, hrequest, (SwdPass.answer_of_silent hsilent).symm⟩

theorem finish (h : Exchanging s) (hhost : s.host = .stamping request reply [r, r', x, x']) :
    Exchanging { s with
      host := .idle
      results := ⟨s.started, request, some ⟨reply, i64OfWords r r', i64OfWords x x'⟩⟩ ::
        s.results } := by
  have hmoved : Exchanging { s with host := .idle } := h.hostMoves (.inl rfl) trivial trivial
  have hasked : s.host.asked = some request := by rw [hhost, SwdHost.asked]
  obtain ⟨hdone, hsilent, hlength, hreply, -, hwords⟩ := h.reads_of hhost
  obtain ⟨-, p, hp, hnumber, hrequest, hdelivered⟩ := h.answered request hasked hdone
  rw [silent hdelivered] at hsilent
  obtain ⟨bytes, hbytes, hbytesLength⟩ := SwdPass.reply_of_served hsilent
  have heq : reply = bytes :=
    hreply.unique (hdelivered.reply bytes hbytes) (hlength.trans hbytesLength.symm)
  have hword (i : Nat) (hi : i < 4) : [r, r', x, x'][i]? = p.stamps[i]? := by
    rw [hwords i hi, hdelivered.stamps i (Nat.lt_succ_of_lt hi)]
  have h0 : r = lowWord p.recvUnixNs := Option.some.inj (hword 0 (by decide))
  have h1 : r' = highWord p.recvUnixNs := Option.some.inj (hword 1 (by decide))
  have h2 : x = lowWord p.xmitUnixNs := Option.some.inj (hword 2 (by decide))
  have h3 : x' = highWord p.xmitUnixNs := Option.some.inj (hword 3 (by decide))
  have hanswer : some ⟨reply, i64OfWords r r', i64OfWords x x'⟩ = p.answer := by
    rw [h0, h1, h2, h3, i64OfWords_eq hdelivered.recv, i64OfWords_eq hdelivered.xmit,
      SwdPass.answer, hbytes, heq]
    rfl
  exact hmoved.record hp ⟨hnumber, (h.writes_of hhost).1, hrequest, hanswer⟩

theorem hostStep (h : Exchanging s) (hstep : HostStep s s') (hheld : NotHeld s s') :
    Exchanging s' := by
  cases hstep with
  | attach hhost => exact h.attach hhost
  | receive hhost hlength =>
    exact h.hostMoves (.inl rfl) ⟨hlength, Nat.zero_le _, .zero _ _⟩ trivial
  | write hhost hb => exact h.write hhost hb
  | ring hhost => exact h.ring hhost (hheld (Nat.lt_succ_self _))
  | timeOut hhost => exact h.hostMoves (.inl rfl) trivial trivial
  | see hhost hdone =>
    have hwrites := h.writes_of hhost
    exact h.hostMoves (.inr (by rw [hhost]; rfl)) hwrites hdone
  | declined hhost hsilent => exact h.declined hhost hsilent
  | served hhost hsilent =>
    have hwrites := h.writes_of hhost
    exact h.hostMoves (.inr (by rw [hhost]; rfl)) hwrites
      ⟨h.reads_of hhost, hsilent, Nat.zero_le _, .zero _ _⟩
  | read hhost hlt =>
    have hwrites := h.writes_of hhost
    obtain ⟨hdone, hsilent, -, hgot⟩ := h.reads_of hhost
    refine h.hostMoves (.inr (by rw [hhost]; rfl)) hwrites ⟨hdone, hsilent, ?_, hgot.read⟩
    rw [List.length_append]
    exact hlt
  | readAll hhost hlength =>
    have hwrites := h.writes_of hhost
    obtain ⟨hdone, hsilent, -, hgot⟩ := h.reads_of hhost
    exact h.hostMoves (.inr (by rw [hhost]; rfl)) hwrites
      ⟨hdone, hsilent, hlength, hgot, Nat.zero_le _, .zero _ _⟩
  | stamp hhost hlt =>
    have hwrites := h.writes_of hhost
    obtain ⟨hdone, hsilent, hlength, hreply, -, hgot⟩ := h.reads_of hhost
    refine h.hostMoves (.inr (by rw [hhost]; rfl)) hwrites
      ⟨hdone, hsilent, hlength, hreply, ?_, hgot.read⟩
    rw [List.length_append]
    exact hlt
  | finish hhost => exact h.finish hhost

theorem poll (h : Exchanging s) :
    Exchanging { s with firmware := .rung s.mailbox.doorbell, passNumber := s.started } := by
  have hquiet : s.mailbox.doorbell = s.mailbox.done →
      (SwdFirmware.rung s.mailbox.doorbell).Quiet s.mailbox.done := by
    intro heq
    rw [heq]
    exact .inr rfl
  refine ⟨Nat.le_refl _, h.sync.imp id fun hs => ⟨hs.1, hquiet hs.1⟩, h.asked, h.writes, h.reads,
    ?_, ?_, h.results⟩
  · by_cases heq : s.mailbox.doorbell = s.mailbox.done
    · exact .inl heq
    · obtain hseq | hs := h.sync
      · refine .inr ⟨hseq, heq, ?_⟩
        rw [Nat.sub_self]
        exact (UInt32.add_zero _).symm
      · exact absurd hs.1 heq
  · intro request hr hdone
    obtain ⟨-, hp⟩ := h.answered request hr hdone
    have hasked : s.host.asked = some request := hr
    have hseq := h.asked (by rw [hasked]; exact Option.some_ne_none request)
    exact ⟨hquiet (hseq.symm.trans hdone.symm), hp⟩

theorem see (h : Exchanging s) (hfirmware : s.firmware = .rung d) (hd : d ≠ s.mailbox.done)
    (hrecv : InI64 recv) (state : ClockState) :
    Exchanging { s with firmware := .receiving d state recv [] } := by
  obtain heq | hin := h.works_of hfirmware
  · exact absurd heq hd
  · apply h.firmwareMoves
    · rintro (hq | hq)
      · rw [hfirmware] at hq
        cases hq
      · rw [hfirmware] at hq
        cases hq
        exact absurd rfl hd
    · exact ⟨⟨hin.seq, hin.unanswered, hin.rung⟩, hrecv, Nat.zero_le _, fun _ _ => .zero _ _⟩

theorem receive (h : Exchanging s) (hfirmware : s.firmware = .receiving d state recv got)
    (hlt : got.length < packetLen) : Exchanging { s with
      firmware := .receiving d state recv (got ++ [s.mailbox.request got.length]) } := by
  obtain ⟨hin, hrecv, -, hgot⟩ := h.works_of hfirmware
  apply h.firmwareMoves
  · intro hq
    exact absurd hq (not_quiet hfirmware nofun nofun)
  · refine ⟨⟨hin.seq, hin.unanswered, hin.rung⟩, hrecv, ?_,
      fun request hr => (hgot request ⟨hr.1, hr.2⟩).read⟩
    rw [List.length_append]
    exact hlt

/-- All that a current pass has read is the request that the host is waiting on. -/
theorem request_read (h : Exchanging s) (hr : s.host.asked = some request)
    (hgot : Holds s.mailbox.request got got.length) (hlength : got.length = packetLen) :
    got = request := by
  have hwrites := h.writes
  have hcells : request.length = packetLen ∧ Holds s.mailbox.request request packetLen := by
    cases hh : s.host with
    | idle | writing =>
      rw [hh] at hr
      cases hr
    | waiting | seen | reading | stamping =>
      rw [hh] at hr hwrites
      cases hr
      exact hwrites
  obtain ⟨hrequest, hcells⟩ := hcells
  rw [← hrequest] at hcells
  exact hgot.unique hcells (hlength.trans hrequest.symm)

theorem decide (h : Exchanging s) (hfirmware : s.firmware = .receiving d state recv got)
    (hlength : got.length = packetLen) (hxmit : ∀ t ∈ xmit, InI64 t) (provisional : Option Int) :
    Exchanging { s with
      firmware := .replying d ⟨s.passNumber, got, state, recv, provisional, xmit⟩ 0 } := by
  obtain ⟨hin, hrecv, -, hgot⟩ := h.works_of hfirmware
  have hsent := SwdPass.inI64_xmitUnixNs
    (p := ⟨s.passNumber, got, state, recv, provisional, xmit⟩) hrecv hxmit
  apply h.firmwareMoves
  · intro hq
    exact absurd hq (not_quiet hfirmware nofun nofun)
  · refine ⟨⟨hin.seq, hin.unanswered, hin.rung⟩, ⟨rfl, hrecv, hsent, ?_⟩,
      fun _ _ => .zero _ _⟩
    intro request hr
    exact h.request_read hr.1 (hgot request ⟨hr.1, hr.2⟩) hlength

theorem reply (h : Exchanging s) (hfirmware : s.firmware = .replying d p i)
    (hbytes : p.reply = some bytes) (hb : bytes[i]? = some b) : Exchanging { s with
      mailbox := { s.mailbox with reply := Function.update s.mailbox.reply i b }
      firmware := .replying d p (i + 1) } := by
  obtain ⟨hin, hp, hcells⟩ := h.works_of hfirmware
  refine h.firmwareWrites (not_quiet hfirmware nofun nofun) rfl rfl rfl ?_
  refine ⟨⟨hin.seq, hin.unanswered, hin.rung⟩, hp.moved rfl fun _ hr => ⟨hr.1, hr.2⟩, ?_⟩
  intro bytes' hbytes'
  cases hbytes.symm.trans hbytes'
  exact (hcells bytes hbytes).write hb

theorem replied (h : Exchanging s) (hfirmware : s.firmware = .replying d p i)
    (hall : ∀ bytes ∈ p.reply, i = bytes.length) :
    Exchanging { s with firmware := .stamping d p 0 } := by
  obtain ⟨hin, hp, hcells⟩ := h.works_of hfirmware
  apply h.firmwareMoves
  · intro hq
    exact absurd hq (not_quiet hfirmware nofun nofun)
  · refine ⟨⟨hin.seq, hin.unanswered, hin.rung⟩, hp.moved rfl fun _ hr => ⟨hr.1, hr.2⟩, ?_,
      .zero _ _⟩
    intro bytes hbytes
    rw [← hall bytes hbytes]
    exact hcells bytes hbytes

theorem stamp (h : Exchanging s) (hfirmware : s.firmware = .stamping d p i)
    (hw : p.stamps[i]? = some w) : Exchanging { s with
      mailbox := { s.mailbox with stamps := Function.update s.mailbox.stamps i w }
      firmware := .stamping d p (i + 1) } := by
  obtain ⟨hin, hp, hcells, hwords⟩ := h.works_of hfirmware
  refine h.firmwareWrites (not_quiet hfirmware nofun nofun) rfl rfl rfl ?_
  exact ⟨⟨hin.seq, hin.unanswered, hin.rung⟩, hp.moved rfl fun _ hr => ⟨hr.1, hr.2⟩, hcells,
    hwords.write hw⟩

/-- The sequence numbers have not come round since the pass read the doorbell, so it is the
host's own number only in the host's own exchange. -/
theorem current_of_rung (hin : InPass s d) (hfew : FewPerPass s) (hpass : s.passNumber ≤ s.started)
    (hd : d = s.seq) : s.passNumber = s.started := by
  have hsum := hin.rung
  rw [← hin.seq, ← hd] at hsum
  have hnat := congrArg UInt32.toNat hsum
  have hlt := d.toNat_lt
  unfold FewPerPass at hfew
  rw [UInt32.toNat_add, UInt32.toNat_ofNat', Nat.mod_eq_of_lt hfew] at hnat
  omega

theorem done (h : Exchanging s) (hfirmware : s.firmware = .stamping d p p.stamps.length)
    (hfew : FewPerPass s) : Exchanging { s with
      mailbox := { s.mailbox with done := d }
      firmware := .polling
      passes := p :: s.passes } := by
  obtain ⟨hin, hp, hcells, hwords⟩ := h.works_of hfirmware
  have hbusy : ¬s.firmware.Quiet s.mailbox.done := not_quiet hfirmware nofun nofun
  obtain ⟨-, hreads⟩ := h.busy hbusy
  refine ⟨h.passNumber, .inl hin.seq, h.asked, h.writes.same rfl, hreads _ rfl, trivial, ?_, ?_⟩
  · intro request hr hdone
    have hcurrent := current_of_rung hin hfew h.passNumber hdone
    exact ⟨.inl rfl, p, List.mem_cons_self .., hp.number.trans hcurrent,
      hp.request request ⟨hr, hcurrent⟩, hp.recv, hp.xmit, hcells, hwords⟩
  · intro x hx
    obtain ⟨q, hq, hmade⟩ := h.results x hx
    exact ⟨q, List.mem_cons_of_mem p hq, hmade⟩

theorem firmwareStep (h : Exchanging s) (hstep : FirmwareStep s s') (hfew : FewPerPass s') :
    Exchanging s' := by
  cases hstep with
  | poll => exact h.poll
  | idle => exact h.firmwareMoves (fun _ => .inl rfl) trivial
  | see state hfirmware hd hrecv => exact h.see hfirmware hd hrecv state
  | receive hfirmware hlt => exact h.receive hfirmware hlt
  | decide hfirmware hlength hxmit => exact h.decide hfirmware hlength hxmit _
  | reply hfirmware hbytes hb => exact h.reply hfirmware hbytes hb
  | replied hfirmware hall => exact h.replied hfirmware hall
  | stamp hfirmware hw => exact h.stamp hfirmware hw
  | done hfirmware => exact h.done hfirmware hfew

theorem reset (h : Exchanging s) (hhost : s.host = .idle) :
    Exchanging { s with mailbox := .boot, firmware := .polling, passNumber := s.started } := by
  refine ⟨Nat.le_refl _, .inr ⟨rfl, .inl rfl⟩, ?_, ?_, ?_, trivial, ?_, h.results⟩
  · intro hne
    rw [hhost] at hne
    exact absurd rfl hne
  · rw [hhost]
    trivial
  · unfold HostReads
    simp only [hhost]
  · intro request hr
    rw [hhost] at hr
    cases hr

theorem step (h : Exchanging s) (hstep : SwdStep s s') (hfew : FewPerPass s')
    (hheld : NotHeld s s') : Exchanging s' := by
  cases hstep with
  | host hstep => exact h.hostStep hstep hheld
  | firmware hstep => exact h.firmwareStep hstep hfew
  | reset hhost => exact h.reset hhost

end Exchanging

theorem SwdState.Reachable.exchanging
    (h : SwdState.Reachable (fun s s' => FewPerPass s' ∧ NotHeld s s') s) : Exchanging s := by
  induction h with
  | refl => exact .boot
  | tail _ hstep ih =>
    obtain ⟨hstep, hfew, hheld⟩ := hstep
    exact ih.step hstep hfew hheld

end PicoGnss
