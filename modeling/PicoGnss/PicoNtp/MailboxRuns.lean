import PicoGnss.PicoNtp.MailboxSafety

/-! Whole exchanges through the mailbox, one after another, and how their numbers can come round. -/

namespace PicoGnss
set_option autoImplicit true

open FixedWidth Bytes Cells

variable {s s' : SwdState}

/-- The steps that the mailbox is safe under. -/
def SwdSafeStep (s s' : SwdState) : Prop := SwdStep s s' ∧ FewPerPass s' ∧ NotHeld s s'

def SwdState.Leads : SwdState → SwdState → Prop := Relation.ReflTransGen SwdSafeStep

theorem SwdState.Leads.single (h : SwdSafeStep s s') : s.Leads s' := Relation.ReflTransGen.single h

/-- A step that starts no exchange takes no number. -/
theorem SwdSafeStep.of_started (h : SwdStep s s') (hfew : FewPerPass s')
    (hstarted : s'.started = s.started) : SwdSafeStep s s' :=
  ⟨h, hfew, fun hlt => absurd hstarted (Nat.ne_of_gt hlt)⟩

/-- A pass that no exchange comes between is free to run. -/
theorem safe_firmware (h : FirmwareStep s s') (hpass : s'.passNumber = s'.started)
    (hstarted : s'.started = s.started) : SwdSafeStep s s' := by
  apply SwdSafeStep.of_started (.firmware h) _ hstarted
  rw [FewPerPass, hpass, Nat.sub_self]
  decide

namespace SwdState

/-- The host has written some bytes of its request. -/
def writing (s : SwdState) (request : List UInt8) (i : Nat) : SwdState :=
  { s with
    mailbox := { s.mailbox with request := load s.mailbox.request (request.take i) }
    host := .writing request i }

/-- The host has written its request and rung. -/
def waiting (s : SwdState) (request : List UInt8) : SwdState :=
  { s with
    mailbox := { s.mailbox with
      request := load s.mailbox.request request
      doorbell := s.seq + 1 }
    seq := s.seq + 1
    host := .waiting request
    started := s.started + 1 }

/-- The firmware has read some bytes of a request, for an answer that starts with these. -/
def receiving (s : SwdState) (p : SwdPass) (i : Nat) : SwdState :=
  { s with
    firmware := .receiving s.mailbox.doorbell p.state p.recvUnixNs (p.request.take i)
    passNumber := s.started }

def replying (s : SwdState) (p : SwdPass) (i : Nat) : SwdState :=
  { s with
    mailbox := { s.mailbox with reply := load s.mailbox.reply ((p.reply.getD []).take i) }
    firmware := .replying s.mailbox.doorbell p i
    passNumber := s.started }

def stamping (s : SwdState) (p : SwdPass) (i : Nat) : SwdState :=
  { s with
    mailbox := { s.mailbox with
      reply := load s.mailbox.reply (p.reply.getD [])
      stamps := load s.mailbox.stamps (p.stamps.take i) }
    firmware := .stamping s.mailbox.doorbell p i
    passNumber := s.started }

/-- The firmware has completed a pass over what it found. -/
def answered (s : SwdState) (p : SwdPass) : SwdState :=
  { s with
    mailbox := { s.mailbox with
      reply := load s.mailbox.reply (p.reply.getD [])
      stamps := load s.mailbox.stamps p.stamps
      done := s.mailbox.doorbell }
    firmware := .polling
    passNumber := s.started
    passes := p :: s.passes }

def returned (s : SwdState) (request : List UInt8) (p : SwdPass) : SwdState :=
  { s with host := .idle, results := ⟨s.started, request, p.answer⟩ :: s.results }

theorem leads_writing (request : List UInt8) (hhost : s.host = .idle)
    (hlength : request.length = packetLen)
    (hfew : FewPerPass s) : s.Leads (s.writing request packetLen) := by
  have hfirst : s.Leads (s.writing request 0) :=
    .single (.of_started (.host (.receive hhost hlength)) hfew rfl)
  have hloop : (s.writing request 0).Leads (s.writing request packetLen) := by
    apply reflTransGen_of_loop (s.writing request) packetLen
    intro i hi
    have hb := List.getElem?_eq_getElem (hlength.symm ▸ hi : i < request.length)
    have hstep : HostStep (s.writing request i) (s.writing request (i + 1)) := by
      have hwrite := HostStep.write (s := s.writing request i) rfl hb
      simp only [writing, update_load_take hb] at hwrite ⊢
      exact hwrite
    exact .of_started (.host hstep) hfew rfl
  exact hfirst.trans hloop

theorem ring_writing (hlength : request.length = packetLen) :
    HostStep (s.writing request packetLen) (s.waiting request) := by
  have hstep : HostStep (s.writing request packetLen) _ := .ring rfl
  simp only [writing, ← hlength, List.take_length] at hstep ⊢
  exact hstep

/-- An exchange that takes a number which is not the one answered last. -/
theorem leads_waiting (hhost : s.host = .idle) (hlength : request.length = packetLen)
    (hfew : s.started + 1 - s.passNumber < 4294967296) (hheld : s.seq + 1 ≠ s.mailbox.done) :
    s.Leads (s.waiting request) := by
  have hwritten := leads_writing request hhost hlength (Nat.lt_of_le_of_lt (by omega) hfew)
  exact hwritten.tail ⟨.host (ring_writing hlength), hfew, fun _ => hheld⟩

theorem receive_receiving (hcells : Holds s.mailbox.request p.request packetLen)
    (hlength : p.request.length = packetLen) (hi : i < packetLen) :
    FirmwareStep (s.receiving p i) (s.receiving p (i + 1)) := by
  have hlt : (p.request.take i).length < packetLen := by
    rw [List.length_take]
    omega
  have hstep := FirmwareStep.receive (s := s.receiving p i) rfl hlt
  have htake := hcells.take_succ hi hlength.ge
  simp only [receiving, htake] at hstep ⊢
  exact hstep

theorem decide_receiving (hnumber : p.number = s.started) (hlength : p.request.length = packetLen)
    (hxmit : ∀ t ∈ p.xmit, InI64 t) :
    FirmwareStep (s.receiving p packetLen) (s.replying p 0) := by
  have hall : p.request.take packetLen = p.request := List.take_of_length_le hlength.le
  have hstep : FirmwareStep (s.receiving p packetLen) { s.receiving p packetLen with
      firmware := .replying s.mailbox.doorbell
        ⟨s.started, p.request.take packetLen, p.state, p.recvUnixNs, p.provisional, p.xmit⟩ 0 } :=
    .decide rfl (by rw [hall, hlength]) hxmit
  simp only [receiving, replying, hall, ← hnumber] at hstep ⊢
  exact hstep

theorem reply_replying (hi : i < (p.reply.getD []).length) :
    FirmwareStep (s.replying p i) (s.replying p (i + 1)) := by
  cases hr : p.reply with
  | none =>
    rw [hr] at hi
    exact absurd hi (Nat.not_lt_zero i)
  | some bytes =>
    rw [hr] at hi
    have hb := List.getElem?_eq_getElem hi
    have hstep := FirmwareStep.reply (s := s.replying p i) rfl hr hb
    simp only [replying, hr, Option.getD_some] at hstep hb ⊢
    rw [update_load_take hb] at hstep
    exact hstep

theorem replied_replying (s : SwdState) (p : SwdPass) :
    FirmwareStep (s.replying p (p.reply.getD []).length) (s.stamping p 0) := by
  have hall : ∀ bytes ∈ p.reply, (p.reply.getD []).length = bytes.length := by
    intro bytes hb
    rw [hb]
    rfl
  have hstep := FirmwareStep.replied (s := s.replying p (p.reply.getD []).length) rfl hall
  simp only [replying, stamping, List.take_length] at hstep ⊢
  exact hstep

theorem stamp_stamping (hi : i < p.stamps.length) :
    FirmwareStep (s.stamping p i) (s.stamping p (i + 1)) := by
  have hw := List.getElem?_eq_getElem hi
  have hstep := FirmwareStep.stamp (s := s.stamping p i) rfl hw
  simp only [stamping, update_load_take hw] at hstep ⊢
  exact hstep

theorem done_stamping (s : SwdState) (p : SwdPass) :
    FirmwareStep (s.stamping p p.stamps.length) (s.answered p) := by
  have hstep := FirmwareStep.done (s := s.stamping p p.stamps.length) (p := p) rfl
  simp only [stamping, List.take_length] at hstep ⊢
  exact hstep

theorem leads_timedOut (request : List UInt8) (hhost : s.host = .idle)
    (hlength : request.length = packetLen)
    (hfew : s.started + 1 - s.passNumber < 4294967296) (hheld : s.seq + 1 ≠ s.mailbox.done) :
    s.Leads { s.waiting request with host := .idle } :=
  (leads_waiting hhost hlength hfew hheld).tail
    (.of_started (.host (.timeOut rfl hheld.symm)) hfew rfl)

/-- A pass of the firmware up to the word that announces it. -/
theorem leads_stamping (hfirmware : s.firmware = .polling)
    (hnew : s.mailbox.doorbell ≠ s.mailbox.done) (hnumber : p.number = s.started)
    (hlength : p.request.length = packetLen) (hcells : Holds s.mailbox.request p.request packetLen)
    (hrecv : InI64 p.recvUnixNs) (hxmit : ∀ t ∈ p.xmit, InI64 t) :
    s.Leads (s.stamping p p.stamps.length) := by
  have hpolled : s.Leads { s with firmware := .rung s.mailbox.doorbell, passNumber := s.started } :=
    .single (safe_firmware (.poll hfirmware) rfl rfl)
  have hseen : s.Leads (s.receiving p 0) :=
    hpolled.tail (safe_firmware (.see p.state rfl hnew hrecv) rfl rfl)
  have hread : (s.receiving p 0).Leads (s.receiving p packetLen) :=
    reflTransGen_of_loop (s.receiving p) packetLen fun i hi =>
      safe_firmware (receive_receiving hcells hlength hi) rfl rfl
  have hdecided := safe_firmware (decide_receiving hnumber hlength hxmit) rfl rfl
  have hwritten : (s.replying p 0).Leads (s.replying p (p.reply.getD []).length) :=
    reflTransGen_of_loop (s.replying p) (p.reply.getD []).length fun i hi =>
      safe_firmware (reply_replying hi) rfl rfl
  have hreplied := safe_firmware (s.replied_replying p) rfl rfl
  have hstamped : (s.stamping p 0).Leads (s.stamping p p.stamps.length) :=
    reflTransGen_of_loop (s.stamping p) p.stamps.length fun i hi =>
      safe_firmware (stamp_stamping hi) rfl rfl
  exact ((((hseen.trans hread).tail hdecided).trans hwritten).tail hreplied).trans hstamped

def reading (s : SwdState) (request bytes : List UInt8) (i : Nat) : SwdState :=
  { s with host := .reading request (bytes.take i) }

def readingStamps (s : SwdState) (request bytes : List UInt8) (p : SwdPass) (i : Nat) : SwdState :=
  { s with host := .stamping request bytes (p.stamps.take i) }

theorem read_reading (hcells : Holds s.mailbox.reply bytes packetLen)
    (hlength : bytes.length = packetLen) (hi : i < packetLen) :
    HostStep (s.reading request bytes i) (s.reading request bytes (i + 1)) := by
  have hlt : (bytes.take i).length < packetLen := by
    rw [List.length_take]
    omega
  have hstep := HostStep.read (s := s.reading request bytes i) rfl hlt
  have htake := hcells.take_succ hi hlength.ge
  simp only [reading, htake] at hstep ⊢
  exact hstep

theorem stamp_readingStamps (hcells : Holds s.mailbox.stamps p.stamps p.stamps.length)
    (hi : i < silentWord) :
    HostStep (s.readingStamps request bytes p i) (s.readingStamps request bytes p (i + 1)) := by
  have hlt : (p.stamps.take i).length < silentWord := by
    rw [List.length_take]
    omega
  have hstep := HostStep.stamp (s := s.readingStamps request bytes p i) rfl hlt
  have htake := hcells.take_succ (Nat.lt_succ_of_lt hi) (Nat.le_refl _)
  simp only [readingStamps, htake] at hstep ⊢
  exact hstep

/-- The host takes what a pass has left for it. -/
theorem leads_returned (hhost : s.host = .waiting request) (hdone : s.mailbox.done = s.seq)
    (hdelivered : Delivered s.mailbox p) (hfew : FewPerPass s) :
    s.Leads (s.returned request p) := by
  have hseen : s.Leads { s with host := .seen request } :=
    .single (.of_started (.host (.see hhost hdone)) hfew rfl)
  have hword := Exchanging.silent hdelivered
  by_cases hsilent : p.silent = 0
  · obtain ⟨bytes, hbytes, hlength⟩ := SwdPass.reply_of_served hsilent
    have hreply := hdelivered.reply bytes hbytes
    rw [hlength] at hreply
    have hserved : SwdSafeStep { s with host := .seen request } (s.reading request bytes 0) :=
      .of_started (.host (.served rfl (hword.trans hsilent))) hfew rfl
    have hread : (s.reading request bytes 0).Leads (s.reading request bytes packetLen) :=
      reflTransGen_of_loop (s.reading request bytes) packetLen fun i hi =>
        .of_started (.host (read_reading hreply hlength hi)) hfew rfl
    have hall : SwdSafeStep (s.reading request bytes packetLen)
        (s.readingStamps request bytes p 0) := by
      have htake : bytes.take packetLen = bytes := List.take_of_length_le hlength.le
      have hstep := HostStep.readAll (s := s.reading request bytes packetLen) rfl
        (by rw [htake, hlength])
      rw [htake] at hstep
      exact .of_started (.host hstep) hfew rfl
    have hstamped : (s.readingStamps request bytes p 0).Leads
        (s.readingStamps request bytes p silentWord) :=
      reflTransGen_of_loop (s.readingStamps request bytes p) silentWord fun i hi =>
        .of_started (.host (stamp_readingStamps hdelivered.stamps hi)) hfew rfl
    have hfinished : SwdSafeStep (s.readingStamps request bytes p silentWord)
        (s.returned request p) := by
      have hstep := HostStep.finish (s := s.readingStamps request bytes p silentWord) rfl
      rw [i64OfWords_eq hdelivered.recv, i64OfWords_eq hdelivered.xmit] at hstep
      have hanswer : p.answer = some ⟨bytes, p.recvUnixNs, p.xmitUnixNs⟩ := by
        rw [SwdPass.answer, hbytes]
        rfl
      rw [returned, hanswer]
      exact .of_started (.host hstep) hfew rfl
    exact ((((hseen.tail hserved).trans hread).tail hall).trans hstamped).tail hfinished
  · have hdeclined : SwdSafeStep { s with host := .seen request } (s.returned request p) := by
      rw [returned, SwdPass.answer_of_silent hsilent]
      exact .of_started (.host (.declined rfl (hword ▸ hsilent))) hfew rfl
    exact hseen.tail hdeclined

/-- Both parts of an answer are whole once they have been written. -/
theorem delivered_load (hrecv : InI64 p.recvUnixNs) (hxmit : ∀ t ∈ p.xmit, InI64 t)
    (hreply : m.reply = load reply (p.reply.getD [])) (hstamps : m.stamps = load stamps p.stamps) :
    Delivered m p := by
  refine ⟨hrecv, SwdPass.inI64_xmitUnixNs hrecv hxmit, ?_, hstamps ▸ holds_load _ _⟩
  intro bytes hbytes
  rw [hreply, hbytes, Option.getD_some]
  exact holds_load _ _

/-- A pass that finds the mailbox as the host has left it, and the host in time for its end. -/
theorem leads_exchange (hhost : s.host = .idle) (hfirmware : s.firmware = .polling)
    (hfew : s.started + 1 - s.passNumber < 4294967296) (hheld : s.seq + 1 ≠ s.mailbox.done)
    (hnumber : p.number = s.started + 1) (hlength : p.request.length = packetLen)
    (hrecv : InI64 p.recvUnixNs) (hxmit : ∀ t ∈ p.xmit, InI64 t) :
    s.Leads (((s.waiting p.request).answered p).returned p.request p) := by
  have hasked := leads_waiting hhost hlength hfew hheld
  have hcells : Holds (s.waiting p.request).mailbox.request p.request packetLen :=
    hlength ▸ holds_load s.mailbox.request p.request
  have hstamped := leads_stamping (s := s.waiting p.request) hfirmware hheld hnumber hlength hcells
    hrecv hxmit
  have hdone := safe_firmware ((s.waiting p.request).done_stamping p) rfl rfl
  have hdelivered : Delivered ((s.waiting p.request).answered p).mailbox p :=
    delivered_load hrecv hxmit rfl rfl
  have hreturned := leads_returned (s := (s.waiting p.request).answered p) rfl rfl hdelivered
    (hdone.2.1)
  exact ((hasked.trans hstamped).tail hdone).trans hreturned

end SwdState

/-- Whatever the interleaving, the host returns what one pass made of the whole of its request in
this very exchange, and silence only where that pass declined. -/
theorem exchange_never_stale (s : SwdState)
    (h : SwdState.Reachable (fun s s' => FewPerPass s' ∧ NotHeld s s') s) :
    ∀ x ∈ s.results, ∃ p ∈ s.passes, x.MadeBy p :=
  h.exchanging.results

/-- A client's request, with its last byte. -/
def clientRequest (b : UInt8) : List UInt8 := 35 :: List.replicate 46 0 ++ [b]

/-- A first pass that serves it. -/
def servedPass : SwdPass where
  number := 1
  request := clientRequest 0
  state := ⟨some 1700000000000000000, 0, true, .none⟩
  recvUnixNs := 1700000000000000000
  provisional := none
  xmit := some 1700000000000100000

theorem inI64_servedPass : InI64 servedPass.recvUnixNs ∧ ∀ t ∈ servedPass.xmit, InI64 t := by
  refine ⟨by unfold InI64; decide, ?_⟩
  intro t ht
  cases ht
  unfold InI64
  decide

theorem servedPass_silent : servedPass.silent = 0 := by decide +kernel

theorem exchange_never_stale_first :
    ∃ s : SwdState, SwdState.Reachable (fun s s' => FewPerPass s' ∧ NotHeld s s') s ∧
      (∃ x ∈ s.results, x.request = clientRequest 0 ∧ x.outcome ≠ none) ∧
      ∀ x ∈ s.results, ∃ p ∈ s.passes, x.MadeBy p := by
  have hrun := SwdState.leads_exchange (s := .boot) (p := servedPass) rfl rfl (by decide)
    (by decide) rfl (by decide) inI64_servedPass.1 inI64_servedPass.2
  refine ⟨_, hrun, ⟨_, List.mem_cons_self .., rfl, ?_⟩, exchange_never_stale _ hrun⟩
  obtain ⟨bytes, hbytes, -⟩ := SwdPass.reply_of_served servedPass_silent
  rw [SwdPass.answer, hbytes]
  exact Option.some_ne_none _

/-- The first exchange is answered too late, and the pass after it stands still, with the second
request in place, while the host tries again and again. -/
def SwdState.lapped (n : Nat) : SwdState where
  mailbox :=
    { doorbell := .ofNat (2 + n)
      done := 1
      stamps := load (fun _ => 0) servedPass.stamps
      request := load (load (fun _ => 0) (clientRequest 0)) (clientRequest 1)
      reply := load (fun _ => 0) (servedPass.reply.getD []) }
  seq := .ofNat (2 + n)
  host := .idle
  firmware := .receiving 2 servedPass.state servedPass.recvUnixNs []
  started := 2 + n
  passNumber := 2
  passes := [servedPass]
  results := []

theorem leads_lapped_zero : SwdState.boot.Leads (.lapped 0) := by
  have hfirst := SwdState.leads_timedOut (s := .boot) (clientRequest 0) rfl (by decide)
    (by decide) (by decide)
  have hstamped := hfirst.trans (SwdState.leads_stamping (p := servedPass) rfl (by decide) rfl
    (by decide) (holds_load _ _) inI64_servedPass.1 inI64_servedPass.2)
  -- the second exchange comes before the first is announced
  have hsecond := hstamped.trans (SwdState.leads_timedOut (clientRequest 1) rfl
    (by decide) (by decide) (by decide))
  have hdone := hsecond.tail
    (.of_started (.firmware (.done rfl)) (by unfold FewPerPass; decide) rfl)
  have hpolled := hdone.tail (safe_firmware (.poll rfl) rfl rfl)
  exact hpolled.tail
    (safe_firmware (.see servedPass.state rfl (by decide) inI64_servedPass.1) rfl rfl)

theorem leads_lapped_succ (hn : n + 3 ≤ 4294967296) :
    (SwdState.lapped n).Leads (.lapped (n + 1)) := by
  have hseq : (SwdState.lapped n).seq + 1 = .ofNat (2 + (n + 1)) := (UInt32.ofNat_add _ _).symm
  have hheld : (SwdState.lapped n).seq + 1 ≠ (SwdState.lapped n).mailbox.done := by
    rw [hseq]
    intro heq
    have hnat : (2 + (n + 1)) % 4294967296 = 1 := congrArg UInt32.toNat heq
    omega
  have hfew : (SwdState.lapped n).started + 1 - (SwdState.lapped n).passNumber < 4294967296 := by
    change 2 + n + 1 - 2 < 4294967296
    omega
  have hround := SwdState.leads_timedOut (s := .lapped n) (clientRequest 1) rfl
    (by decide) hfew hheld
  rw [SwdState.waiting, hseq] at hround
  have hcells : load (SwdState.lapped n).mailbox.request (clientRequest 1) =
      (SwdState.lapped n).mailbox.request := load_of_holds (holds_load _ _)
  rw [hcells] at hround
  exact hround

theorem leads_lapped (hn : n + 2 ≤ 4294967296) : SwdState.boot.Leads (.lapped n) := by
  induction n with
  | zero => exact leads_lapped_zero
  | succ n ih => exact (ih (Nat.le_of_succ_le hn)).trans (leads_lapped_succ hn)

/-- Exchange 4294967297 bears the number of the first and is given its answer, though neither pass
has seen as many exchanges as there are numbers. -/
theorem exchange_stale_after_lap :
    ¬∀ s : SwdState, SwdState.Reachable (fun _ s' => FewPerPass s') s →
      ∀ x ∈ s.results, ∃ p ∈ s.passes, x.MadeBy p := by
  intro hclaim
  have hfew : FewPerPass ((SwdState.lapped 4294967294).waiting (clientRequest 1)) := by
    unfold FewPerPass
    decide
  have hforget {s s' : SwdState} (h : s.Leads s') :
      Relation.ReflTransGen (fun s s' => SwdStep s s' ∧ FewPerPass s') s s' :=
    Relation.ReflTransGen.mono (fun _ _ hstep => ⟨hstep.1, hstep.2.1⟩) _ _ h
  have hwritten := (leads_lapped (Nat.le_refl 4294967296)).trans
    (SwdState.leads_writing (clientRequest 1) rfl (by decide)
      (by unfold FewPerPass; decide))
  have hrung := (hforget hwritten).tail ⟨.host (SwdState.ring_writing (by decide)), hfew⟩
  have hdelivered : Delivered ((SwdState.lapped 4294967294).waiting (clientRequest 1)).mailbox
      servedPass := SwdState.delivered_load inI64_servedPass.1 inI64_servedPass.2 rfl rfl
  have hreturned := hrung.trans (hforget (SwdState.leads_returned rfl (by decide) hdelivered hfew))
  obtain ⟨p, hp, hmade⟩ := hclaim _ hreturned _ (List.mem_cons_self ..)
  have hsame := List.mem_singleton.1 hp
  have hrequest : servedPass.request = clientRequest 1 := hsame ▸ hmade.request
  exact absurd hrequest (by decide)

end PicoGnss
