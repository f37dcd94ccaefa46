import PicoGnss.Lib.FixedWidth

namespace PicoGnss
set_option autoImplicit true

/-- A larger correction of one edge is a glitch. -/
def corrClampNs : Int := 100000000

structure ControlInput where
  errNs : Int
  valid : Bool
deriving DecidableEq

structure ControlDebug where
  predNs : Int := 0
  pNs : Int := 0
  dNs : Int := 0
  observerFreqMppb : Int := 0
  state : Nat := 0
deriving DecidableEq

/-- The two actuator values of an edge, and what the controller made of it. -/
structure ControlOutput where
  trimMppb : Int
  pcorrNs : Int
  applied : Bool
  locked : Bool
  rejected : Bool
  dbg : ControlDebug
deriving DecidableEq

structure ControlInit where
  residualTrimMppb : Int := 0

end PicoGnss
