import PicoGnss.Lib.FixedWidth
import PicoGnss.Lib.Mealy
import PicoGnss.Lib.Noninterference
import PicoGnss.Lib.Bytes
import PicoGnss.Lib.Crc
import PicoGnss.Lib.OnesComplement
import PicoGnss.Lib.Pio
import PicoGnss.Lib.PioOut
import PicoGnss.Lib.Rounding
import PicoGnss.Lib.Drift
import PicoGnss.Lib.PlanarForm
import PicoGnss.Lib.Cells
import PicoGnss.Lib.Serialiser
import PicoGnss.Lib.Fifo
import PicoGnss.Lib.Window
import PicoGnss.Lib.Reactor
import PicoGnss.Lib.Folding
import PicoGnss.Lib.Calendar
import PicoGnss.Lib.Numerals
import PicoGnss.Lib.Utf8
import PicoGnss.Gnssdo.Gnssdo
import PicoGnss.Gnssdo.Recovery
import PicoGnss.Gnssdo.Temperature
import PicoGnss.Gnssdo.Checked
import PicoGnss.Gnssdo.Range
import PicoGnss.Gnssdo.FeedforwardRuns
import PicoGnss.Gnssdo.Trusted
import PicoGnss.Gnssdo.ConstantCrystal
import PicoGnss.Gnssdo.MissedPulses
import PicoGnss.Gnssdo.RampTracking
import PicoGnss.Gnssdo.Monotone
import PicoGnss.Gnssdo.RoundTrip
import PicoGnss.Gnssdo.RampHoldover
import PicoGnss.Gnssdo.Control
import PicoGnss.Gnssdo.PhaseLockLoop
import PicoGnss.Gnssdo.Controllers
import PicoGnss.Gnssdo.FairStart
import PicoGnss.Gnssdo.PhaseServo
import PicoGnss.Gnssdo.ActuatorLimit
import PicoGnss.Gnssdo.HeldEdges
import PicoGnss.Gnssdo.BoostTimer
import PicoGnss.Gnssdo.LockHistory
import PicoGnss.Gnssdo.Acquisition
import PicoGnss.Gnssdo.QErr
import PicoGnss.RpPps.Assembler
import PicoGnss.RpPps.PpsGpsdo
import PicoGnss.RpPps.Pairing
import PicoGnss.RpPps.Glitches
import PicoGnss.RpPps.LostEdges
import PicoGnss.RpPps.Outage
import PicoGnss.RpPps.CivilTime
import PicoGnss.RpPps.Sentences
import PicoGnss.RpPps.SentenceDates
import PicoGnss.RpPps.Checksum
import PicoGnss.RpPps.EdgeTimeline
import PicoGnss.RpPps.Calibration
import PicoGnss.RpPps.Capture
import PicoGnss.RpPps.WrapBalanced
import PicoGnss.RpPps.Output
import PicoGnss.RpPps.PeriodWords
import PicoGnss.RpPps.Polarity
import PicoGnss.RpPps.Ingest
import PicoGnss.TenBaseT.FrameReceiver
import PicoGnss.TenBaseT.Phy
import PicoGnss.TenBaseT.Transmitter
import PicoGnss.TinyNtp.Client
import PicoGnss.TinyNtp.Chain
import PicoGnss.TinyNtp.Dispersion
import PicoGnss.PicoNtp.Service
import PicoGnss.PicoNtp.ReferenceTime
import PicoGnss.PicoNtp.Schedule
import PicoGnss.PicoNtp.Broadcast
import PicoGnss.PicoNtp.Server
import PicoGnss.PicoNtp.OnTime
import PicoGnss.PicoNtp.Mailbox
import PicoGnss.PicoNtp.MailboxSafety
import PicoGnss.PicoNtp.MailboxRuns
import PicoGnss.Firmware.Mt3333
import PicoGnss.PicoNtp.LinkSetup
import PicoGnss.Firmware.KCalibration
import PicoGnss.Firmware.GenCapture
import PicoGnss.Firmware.Steering
import PicoGnss.Firmware.Reception
import PicoGnss.Firmware.Tasks
import PicoGnss.Firmware.TaskRuns
import PicoGnss.Firmware.Naive
