import Fadia.Devices.Report

/-!
# The collector

`ACollector` as far as reports concern it: how it counts the records of one, and
its processing state, which a prover sets when it transmits a report
(`setProcessing`) and `procendmsg` resets.
-/

namespace Fadia

/-- The loop of `ACollector::handleUpReq` over `report1`: `size` counts down. -/
def countRecords (report1 : List Int) : Nat → Nat
  | 0 => 0
  | size + 1 => countRecords report1 size + if report1.getD size NOID ≠ NOID then 1 else 0

/-- The number of records the collector counts in a report. -/
def UpdateReq.size (m : UpdateReq) : Nat := countRecords m.report1 m.report1.length

/-- `pstat_e` -/
inductive ProcStat
  | PBUSY
  | PIDLE
deriving DecidableEq, Repr

/-- `procendmsg` says whether the message is scheduled; `failed` that the simulation
ended because it already was. -/
structure Collector where
  procstat : ProcStat := .PIDLE
  procendmsg : Bool := false
  sum : Nat := 0
  failed : Bool := false
deriving DecidableEq, Repr

namespace Collector

def setProcessing (c : Collector) : Collector := { c with procstat := .PBUSY }

def isProcessing (c : Collector) : Bool := c.procstat == .PBUSY

/-- `scheduleAt(simTime() + processuptime, procendmsg)`, then the count. -/
def handleUpReq (m : UpdateReq) (c : Collector) : Collector :=
  if c.procendmsg then { c with failed := true }
  else { c with procendmsg := true, sum := c.sum + m.size }

/-- The event queue hands out `procendmsg`. -/
def handleProcDoneMsg (c : Collector) : Collector :=
  { c with procendmsg := false, procstat := .PIDLE }

end Collector

end Fadia
