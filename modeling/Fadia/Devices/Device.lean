import Fadia.Devices.Network

/-!
# The send pipeline of a device

`ADevice`: `sendProver`, `sendProverBroadcast`, `sendCollector` and the handlers of
the self messages that go with them.  The surroundings of a device, which
`isChannelBusy`, `isCollectorBusy` and `isWithinRange` ask about, are a parameter.

* `sent` records what was transmitted, `handed` counts the hand-overs; no function
  of the source reads them.
* The self messages are allocated once; `scheduled` says which are scheduled.
  `entxmsg` is due `ndelay` before `txmsg`.
* A redirected report comes from the radio: drained from the queue it goes through
  `handleUpReq`, which gives it to `sendCollector` as `handleMessage` does.
-/

namespace Fadia

/-- The two builds, `WIRELESS` with `ENERGY_TEST` and wired with `RUNTIME_TEST`. -/
inductive Build
  | wireless
  | wired
deriving DecidableEq, Repr

/-- `txrx_e` -/
inductive TxRxStat
  | TRANSMITING
  | DIDLE
deriving DecidableEq, Repr

/-- `cstat_e` -/
inductive ChanStat
  | BUSY
  | CIDLE
deriving DecidableEq, Repr

inductive SelfMsg
  | txmsg
  | entxmsg
  | cbusymsg
  | collbusymsg
deriving DecidableEq, Repr

/-- Where a transmission goes. -/
inductive Route
  | prover
  | broadcast
  | collector
deriving DecidableEq, Repr

/-- A message and the number of its hand-over. -/
structure Outgoing where
  serial : Nat
  pkt : Packet
deriving DecidableEq, Repr

/-- The report that a message is. -/
def Packet.report : Packet → Option UpdateReq
  | .collector m => some m
  | .prover (.updateReq m) => some m
  | _ => none

/-- What a device finds around it: `isChannelBusy(drange, -1)`, `isCollectorBusy()`,
`isWithinRange` of a target, and whether a broadcast meets any prover. -/
structure Surroundings where
  build : Build
  channelBusy : Bool
  collectorBusy : Bool
  withinRange : Uid → Bool
  heard : Bool

structure Device where
  txrxstat : TxRxStat := .DIDLE
  chanstat : ChanStat := .CIDLE
  scheduled : SelfMsg → Bool := fun _ => false
  msgqueue : List Outgoing := []
  pupmsg : Option Outgoing := none
  crashed : Bool := false
  fault : Bool := false
  handed : Nat := 0
  sent : List (Outgoing × Route) := []

inductive DeviceEvent
  | handOver (pkt : Packet)
  | selfMsg (t : SelfMsg) (depleted : Bool)
  | energyDone (depleted : Bool)
deriving DecidableEq, Repr

namespace Device

variable (w : Surroundings)

/-- `scheduleAt` of a self message; a run-time error where it is scheduled already. -/
def scheduleAt (t : SelfMsg) (d : Device) : Device :=
  if d.scheduled t then { d with fault := true }
  else { d with scheduled := Function.update d.scheduled t true }

def isTransmiting (d : Device) : Bool := d.txrxstat == .TRANSMITING

/-- `msgqueue.push` -/
def push (m : Outgoing) (d : Device) : Device := { d with msgqueue := d.msgqueue ++ [m] }

/-- The tests that all send functions begin with: behind a transmission or a
postponement a message queues, on a busy channel it is postponed. -/
def whenFree (m : Outgoing) (transmit : Device → Device) (d : Device) : Device :=
  if d.txrxstat = .TRANSMITING ∨ d.chanstat = .BUSY then d.push m
  else if w.channelBusy then
    ({ d with chanstat := .BUSY }.push m).scheduleAt .cbusymsg
  else transmit d

/-- A message goes on the air. -/
def transmit (m : Outgoing) (route : Route) (d : Device) : Device :=
  let d := { d with sent := d.sent ++ [(m, route)], txrxstat := .TRANSMITING }
  match w.build with
  | .wireless => (d.scheduleAt .entxmsg).scheduleAt .txmsg
  | .wired => d.scheduleAt .txmsg

def sendProver (m : Outgoing) (d : Device) : Device :=
  d.whenFree w m (·.transmit w m .prover)

/-- A broadcast that no prover hears is over at once. -/
def sendProverBroadcast (m : Outgoing) (d : Device) : Device :=
  d.whenFree w m fun d =>
    if w.heard then d.transmit w m .broadcast
    else { d with sent := d.sent ++ [(m, .broadcast)] }

/-- The report waits in `pupmsg` until the collector is free. -/
def postponeUp (m : Outgoing) (d : Device) : Device :=
  let d := { d with pupmsg := some m }
  if d.scheduled .collbusymsg then d else d.scheduleAt .collbusymsg

def sendCollector (m : Outgoing) (d : Device) : Device :=
  { d with pupmsg := none }.whenFree w m fun d =>
    if w.collectorBusy then d.postponeUp m else d.transmit w m .collector

/-- `handleMessage` of a report that is to be sent. -/
def dispatchReport (m : Outgoing) (r : UpdateReq) (d : Device) : Device :=
  match r.kind with
  | .UPRQ =>
    match w.build with
    | .wireless =>
      if w.withinRange r.destination then d.sendProver w m
      else d.sendCollector w { m with pkt := .collector r.redirected }
    | .wired => d.sendProver w m
  | .UPRQC | .UPRQF => d.sendCollector w m

/-- `handleMessage` of a message that is to be sent. -/
def dispatch (m : Outgoing) (d : Device) : Device :=
  match m.pkt with
  | .creqmsg | .prover (.commitReq _) => d.sendProverBroadcast w m
  | .prover (.updateReq r) | .collector r => d.dispatchReport w m r
  | .prover (.commitResp _) | .prover (.commitAck _) => d.sendProver w m

/-- `handleMessage(msgqueue.front()); msgqueue.pop();` -/
def drain (d : Device) : Device :=
  match d.msgqueue with
  | [] => d
  | m :: _ =>
    let d := d.dispatch w m
    { d with msgqueue := d.msgqueue.tail }

def handleTxDoneMsg (d : Device) : Device := { d with txrxstat := .DIDLE }.drain w

def handlePostponeDoneMsg (d : Device) : Device := { d with chanstat := .CIDLE }.drain w

/-- Without a report, an error is logged; only `ENERGY_TEST` dispatches it. -/
def handlePostponeUpMsg (d : Device) : Device :=
  match w.build, d.pupmsg with
  | .wireless, some m => d.dispatch w m
  | _, _ => d

def handleDoneEnMsg (depleted : Bool) (d : Device) : Device :=
  { d with crashed := d.crashed || depleted }

/-- A message is given to the device for sending. -/
def handOver (pkt : Packet) (d : Device) : Device :=
  { d with handed := d.handed + 1 }.dispatch w ⟨d.handed, pkt⟩

/-- A crashed device drops everything. -/
def handleMessage (f : Device → Device) (d : Device) : Device := if d.crashed then d else f d

def onSelfMsg (t : SelfMsg) (depleted : Bool) (d : Device) : Device :=
  match t with
  | .txmsg => d.handleTxDoneMsg w
  | .entxmsg => d.handleDoneEnMsg depleted
  | .cbusymsg => d.handlePostponeDoneMsg w
  | .collbusymsg => d.handlePostponeUpMsg w

/-- The event queue can hand out the self message. -/
def Due (t : SelfMsg) (d : Device) : Prop :=
  d.scheduled t = true ∧ (t = .txmsg → d.scheduled .entxmsg = false)

instance (t : SelfMsg) (d : Device) : Decidable (d.Due t) := inferInstanceAs (Decidable (_ ∧ _))

/-- The event queue hands out a self message. -/
def pop (t : SelfMsg) (d : Device) : Device :=
  { d with scheduled := Function.update d.scheduled t false }

/-- One event of a device; `energyDone` ends a reception or the computing of a MAC. -/
def step (e : DeviceEvent) (d : Device) : Option Device :=
  if d.fault then none
  else
    match e with
    | .handOver pkt => some (d.handleMessage (·.handOver w pkt))
    | .selfMsg t depleted =>
      if d.Due t then some ((d.pop t).handleMessage (·.onSelfMsg w t depleted)) else none
    | .energyDone depleted =>
      match w.build with
      | .wireless => some (d.handleMessage (·.handleDoneEnMsg depleted))
      | .wired => none

end Device

end Fadia
