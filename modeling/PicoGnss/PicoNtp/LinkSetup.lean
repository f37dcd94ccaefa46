import PicoGnss.Firmware.Mt3333
import PicoGnss.PicoNtp.Broadcast

/-! The rate of the receiver's link, on which the server's trust in the source rests. -/

namespace PicoGnss
set_option autoImplicit true

def gnssBootBaud : Nat := 9600

/-- The line capacity of the server's `send_pmtk`. -/
def ntpPmtkCapacity : Nat := 64

namespace Port

def probeGnssBaud (port : Port) (air : Air) : Option Nat × Port :=
  port.probeRates air [gnssBootBaud, gnssFastBaud]

/-- As `establishLink`, but where nothing is heard the port stays where the search left it. -/
def establishGnssLink (port : Port) (before after : Air) : Nat × Port :=
  match port.probeGnssBaud before with
  | (none, port) => (gnssBootBaud, port)
  | (some found, port) =>
    if found = gnssFastBaud then (found, port)
    else
      match (port.sendPmtk ntpPmtkCapacity pmtk251).probeGnssBaud after with
      | (some rate, port) => (rate, port)
      | (none, port) => (gnssBootBaud, port.setBaudrate gnssBootBaud)

end Port

def raiseBaud : Bool := true

/-- What `main` sets up before it starts the tasks: the port, and whether the source is trusted. -/
def linkSetup (before after : Air) : Port × Bool :=
  let port : Port := ⟨gnssBootBaud, []⟩
  let link := if raiseBaud then port.establishGnssLink before after else (gnssBootBaud, port)
  (link.2, decide (link.1 = gnssFastBaud))

/-- Something is framed at one of the two rates. -/
def Heard (air : Air) : Prop :=
  Framed (heardBytes (air gnssBootBaud)) ∨ Framed (heardBytes (air gnssFastBaud))

theorem heard_iff (air : Air) :
    Heard air ↔ awaitNmea (air gnssBootBaud) = true ∨ awaitNmea (air gnssFastBaud) = true := by
  rw [Heard, awaitNmea_iff, awaitNmea_iff]

namespace Port

theorem establishGnssLink_eq (port : Port) (before after : Air) :
    port.establishGnssLink before after = (settledRate before after,
      ⟨if awaitNmea (before gnssBootBaud) || awaitNmea (before gnssFastBaud) then
        settledRate before after else gnssFastBaud, port.written ++ raiseRequests before⟩) := by
  have hne : gnssBaud ≠ gnssFastBaud := by decide
  rw [establishGnssLink, probeGnssBaud, show gnssBootBaud = gnssBaud from rfl, ← probeBaud,
    probeBaud_eq, settledRate, raiseRequests]
  cases awaitNmea (before gnssBaud) with
  | true =>
    simp only [if_true, if_neg hne, sendPmtk_pmtk251 _ (show 20 ≤ ntpPmtkCapacity by decide),
      Bool.true_or, probeGnssBaud]
    rw [show gnssBootBaud = gnssBaud from rfl, ← probeBaud, probeBaud_eq]
    cases awaitNmea (after gnssBaud) with
    | true => rfl
    | false => cases awaitNmea (after gnssFastBaud) <;> rfl
  | false =>
    simp only [if_neg Bool.false_ne_true, List.append_nil]
    cases awaitNmea (before gnssFastBaud) <;> rfl

/-- The server's set-up returns the rate that the firmware's does and asks the receiver for the
same.
It leaves the port at that rate exactly when its first search heard something; otherwise it returns
the boot rate and leaves the port at the fast one. -/
theorem establishGnssLink_port_iff (port : Port) (before after : Air) :
    let link := port.establishGnssLink before after
    let firmware := port.establishLink before after
    link.1 = firmware.1 ∧ link.2.written = firmware.2.written ∧
      firmware.2.baud = firmware.1 ∧ (link.2.baud = link.1 ↔ Heard before) ∧
      (¬ Heard before → link.1 = gnssBootBaud ∧ link.2.baud = gnssFastBaud) := by
  intro link firmware
  have hlink : link = _ := establishGnssLink_eq port before after
  have hfirmware : firmware = _ := establishLink_eq port before after
  have hsilent : ¬ Heard before →
      link.1 = gnssBootBaud ∧ link.2.baud = gnssFastBaud := by
    rw [heard_iff, not_or, Bool.not_eq_true, Bool.not_eq_true]
    rintro ⟨hslow, hfast⟩
    rw [hlink, settledRate, show gnssBaud = gnssBootBaud from rfl, hslow, hfast]
    exact ⟨rfl, rfl⟩
  refine ⟨by rw [hlink, hfirmware], by rw [hlink, hfirmware], by rw [hfirmware], ?_, hsilent⟩
  constructor
  · intro hport
    by_contra hheard
    obtain ⟨hrate, hbaud⟩ := hsilent hheard
    rw [hrate, hbaud] at hport
    exact absurd hport (by decide)
  · intro hheard
    rw [hlink]
    exact if_pos (Bool.or_eq_true_iff.2 ((heard_iff before).1 hheard))

end Port

/-- A search that settled on the fast rate framed a sentence at it, and none at the boot rate. -/
def FastOnly (air : Air) : Prop :=
  ¬ Framed (heardBytes (air gnssBootBaud)) ∧ Framed (heardBytes (air gnssFastBaud))

theorem settledRate_fast_iff (before after : Air) : settledRate before after = gnssFastBaud ↔
    FastOnly before ∨ (Framed (heardBytes (before gnssBootBaud)) ∧ FastOnly after) := by
  have hne : gnssBaud ≠ gnssFastBaud := by decide
  simp only [FastOnly, ← awaitNmea_iff, settledRate, show gnssBootBaud = gnssBaud from rfl]
  cases awaitNmea (before gnssBaud) <;> cases awaitNmea (before gnssFastBaud) <;>
    cases awaitNmea (after gnssBaud) <;> cases awaitNmea (after gnssFastBaud) <;> decide

theorem sends_untrusted (port : UInt16) {reads : List NtpReads}
    (h : ∀ x ∈ reads, x.trusted = false) : NtpTask.sends port reads = [] := by
  have hrun : ∀ s : NtpTask, (Mealy.outputs (NtpTask.iterate port) s reads).flatMap
      (fun actions => (actions.getD []).filterMap NtpTask.sentWords) = [] := by
    induction reads with
    | nil => exact fun _ => rfl
    | cons x reads ih =>
      intro s
      have hx := h x (List.mem_cons_self ..)
      have hhold : s.iterate port x = (some NtpTask.holdLink, s) := by
        simp only [NtpTask.iterate, hx, Bool.false_eq_true, if_false]
        rfl
      rw [Mealy.outputs_cons, hhold, List.flatMap_cons,
        ih (fun y hy => h y (List.mem_cons_of_mem x hy)) s]
      rfl
  exact hrun .start

/-- The source is trusted exactly when the last search framed sentences at the fast rate and none at
the boot rate; then the tasks read the port at that rate, and otherwise no run of the server's loop
sends anything. -/
theorem broadcasts_need_fast_link (before after : Air) :
    ((linkSetup before after).2 = true ↔
      FastOnly before ∨ (Framed (heardBytes (before gnssBootBaud)) ∧ FastOnly after)) ∧
    ((linkSetup before after).2 = true → (linkSetup before after).1.baud = gnssFastBaud) ∧
    ∀ (port : UInt16) (reads : List NtpReads),
      (∀ x ∈ reads, x.trusted = (linkSetup before after).2) →
      NtpTask.sends port reads ≠ [] → (linkSetup before after).2 = true := by
  let port : Port := ⟨gnssBootBaud, []⟩
  have hsetup : linkSetup before after = ((port.establishGnssLink before after).2,
      decide (settledRate before after = gnssFastBaud)) := by
    rw [linkSetup, raiseBaud, if_pos rfl, Port.establishGnssLink_eq]
  refine ⟨?_, ?_, ?_⟩
  · rw [hsetup, decide_eq_true_iff]
    exact settledRate_fast_iff before after
  · rw [hsetup, decide_eq_true_iff]
    intro hfast
    rw [Port.establishGnssLink_eq, hfast, ite_self]
  · intro ntpPort reads htrust hsends
    by_contra hno
    rw [Bool.not_eq_true] at hno
    exact hsends (sends_untrusted ntpPort fun x hx => (htrust x hx).trans hno)

theorem broadcasts_need_fast_link_raised :
    (linkSetup (Port.airAt gnssBootBaud) (Port.airAt gnssFastBaud)).1.baud = gnssFastBaud := by
  obtain ⟨htrusted, hport, -⟩ :=
    broadcasts_need_fast_link (Port.airAt gnssBootBaud) (Port.airAt gnssFastBaud)
  have hbefore := Port.talks_airAt gnssBootBaud
  have hafter := Port.talks_airAt gnssFastBaud
  apply hport
  apply htrusted.2
  exact .inr ⟨(hbefore _).2 rfl, fun h => absurd ((hafter _).1 h) (by decide), (hafter _).2 rfl⟩

end PicoGnss
