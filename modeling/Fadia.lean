import Fadia.Proof.TreeProofs
import Fadia.Proof.ReportFlow
import Fadia.Proof.ReportTiming
import Fadia.Proof.ChildReports
import Fadia.Proof.OneReport
import Fadia.Proof.TreeSteps
import Fadia.Proof.NetworkTrees
import Fadia.Proof.CountedOnce
import Fadia.Proof.Conservation
import Fadia.Proof.ChildLimit
import Fadia.Proof.Takeoff
import Fadia.Proof.StaleTimers
import Fadia.Proof.Budget
import Fadia.Proof.CarrierSense
import Fadia.Proof.CollectorLock
import Fadia.Proof.Keys
import Fadia.Proof.ReportCounts
import Fadia.Proof.NullSessions
import Fadia.Proof.WakeUp
import Fadia.Proof.RadioRange
import Fadia.Proof.Charge
import Fadia.Proof.Rescheduling
import Fadia.Proof.OneRole
import Fadia.Proof.NestedTimeouts
import Fadia.Proof.Gates
import Fadia.Proof.Rejections
import Fadia.Proof.Independence
import Fadia.Proof.AbsentFields
import Fadia.Proof.MaxChildren
import Fadia.Proof.KeyDistribution
import Fadia.Proof.SpanningTrees
import Fadia.Devices.System
import Fadia.Lib.Taken
import Fadia.Proof.CollectorTotal
import Fadia.Proof.RecordLedger
import Fadia.Proof.DeadTransmitter
import Fadia.Proof.Periods
import Fadia.Proof.Quiescence
import Fadia.Proof.SystemLedger
