namespace PicoGnss
set_option autoImplicit true

def captureCyclesPerTick : Nat := 2

/-- The counter counts down, so the elapsed ticks are the wrapping difference. -/
def intervalTicks (prev curr : UInt32) : UInt32 := prev - curr

def intervalNs (prev curr : UInt32) (clkHz : Nat) : Nat :=
  (intervalTicks prev curr).toNat * captureCyclesPerTick * 1000000000 / clkHz % 18446744073709551616

structure TimedEdge where
  raw : UInt32
  intervalNs : Nat
  edgeNs : Nat
deriving DecidableEq

structure PpsEdgeTimeline where
  clkHz : Nat
  last : Option UInt32
  edgeNs : Nat
deriving DecidableEq

namespace PpsEdgeTimeline

def new (clkHz : Nat) : PpsEdgeTimeline where
  clkHz := clkHz
  last := none
  edgeNs := 0

def observe (t : PpsEdgeTimeline) (raw : UInt32) : TimedEdge × PpsEdgeTimeline :=
  let interval := match t.last with
    | some prev => PicoGnss.intervalNs prev raw t.clkHz
    | none => 0
  let edgeNs := (t.edgeNs + interval) % 18446744073709551616
  (⟨raw, interval, edgeNs⟩, { t with last := some raw, edgeNs := edgeNs })

end PpsEdgeTimeline

end PicoGnss
