import HilLab.Rtl.EventExecution
import HilLab.Rtl.SafeOutputs
import HilLab.Host.ScheduleDio
import HilLab.Pru.StimulusStop
import HilLab.Pru.StimulusUpdate
import HilLab.Pru.PwmSeqlock
import HilLab.Host.ForceSafe
import HilLab.Host.RpmsgRecovery
import HilLab.Plant.PhaseAccumulator
import HilLab.Backends.AbzDirection
import HilLab.Rtl.QuadStreamSafe
import HilLab.Backends.PwmAgreement
import HilLab.Backends.PwmConformance
import HilLab.Plant.Transforms
import HilLab.Plant.ClosedLoop
import HilLab.Rtl.HilDigitalCore
import HilLab.Boards.Axu2cgbHilTop
import HilLab.Boards.PlantExcitation
import HilLab.Host.PwmSnapshot
import HilLab.Boards.DacSubmit
import HilLab.Host.ReadPwm
import HilLab.Host.ControlFrame
import HilLab.Rtl.AxiWrite
import HilLab.Pru.RawFreeze
import HilLab.Rtl.ScenarioExecution
import HilLab.Rtl.PwmLoopback
import HilLab.Backends.AbzIndex
import HilLab.Rtl.SsiRoundTrip
import HilLab.Fieldbus.Pdo
import HilLab.Rtl.QueueRefinement
import HilLab.Pru.PwmFaultFlags
import HilLab.Pru.PwmRing
import HilLab.Pru.PwmOverlap
import HilLab.Pru.PwmGap
import HilLab.Fieldbus.PdoConfig
import HilLab.Pru.BissFrame
import HilLab.Pru.SerialStream
import HilLab.Plant.VoltagePath
import HilLab.Host.ReadTimestamp
import HilLab.Rtl.TriggerEngine
import HilLab.Rtl.SsiResync
import HilLab.Rtl.IntervalReports
import HilLab.Pru.PwmDeadtime
import HilLab.Rtl.SpiExchange
import HilLab.Pru.SpiFrames
import HilLab.Backends.RawDecoding
import HilLab.Pru.StimulusDeadlines
import HilLab.Plant.CurrentFeedback
import HilLab.Fieldbus.Cia402
import HilLab.Pru.GpioLoopback
import HilLab.Host.BenchSharing
import HilLab.Rtl.AxiRead
import HilLab.Pru.LoopbackService
import HilLab.Pru.StimulusHall
import HilLab.Host.StimulusLink
import HilLab.Rtl.CoreMaster
import HilLab.Host.ZynqBackend
import HilLab.Host.Timeline
import HilLab.Boards.GatedLoopback
import HilLab.Boards.Ax7010FpgaLiteTop
import HilLab.Pru.PwmMonitor
import HilLab.Pru.PwmCaptureService
import HilLab.Host.PwmLink
