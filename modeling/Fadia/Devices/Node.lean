import Fadia.Devices.Device

/-!
# A prover with its device and its battery

`AProver` is an `ADevice`: what a handler hands over goes to the send pipeline at once, and
both set `energy->totalPowerConsumption`.  Here a prover and a device are put together; the
times of the device's own self messages are left open.

* `sendProver`, `sendProverBroadcast` and `sendCollector` set the power where they set
  `txrxstat` to `TRANSMITING`; such a call adds to `sent` (`Device.begins`).
* `energyMsgs` counts the `ENRXDONE` and `ENMAC` messages that are scheduled.
-/

namespace Fadia

/-- The values of `totalPowerConsumption`. -/
inductive Power
  | IDLE
  | LISTENING
  | RECEPTION
  | TRANSMITION
deriving DecidableEq, Repr

/-- `IDLE_CONSUMPTION`, `LISTENING_CONSUMPTION`, … -/
def Power.mW : Power → Rat
  | .IDLE => 0.16
  | .LISTENING => 65.4
  | .RECEPTION => 65.4
  | .TRANSMITION => 58.5

/-- A transmission has begun between two states of a device. -/
def Device.begins (d d' : Device) : Bool :=
  decide (d.sent.length < d'.sent.length) && d'.isTransmiting

structure Node where
  prover : Prover
  device : Device := {}
  power : Power := .IDLE
  energyMsgs : Nat := 0

inductive NodeEvent
  | prover (e : Prover.Event)
  | selfMsg (t : SelfMsg) (depleted : Bool)
  | energyDone (depleted : Bool)
deriving DecidableEq, Repr

namespace Node

open Prover (Act)

/-- The messages that get past the first tests of their handlers cost the power of a
reception. -/
def receives (m : Msg) (p : Prover) : Bool :=
  match m with
  | .commitReq _ => p.status == .READY
  | .commitAck _ => true
  | .commitResp _ => p.status == .CREATING && decide (subSize p.csessions.keys.length 1 < p.maxchildren)
  | .updateReq m => m.kind != .UPRQF && m.destination == p.cfg.UId

/-- The power that a handler sets before it sends anything. -/
def handlerPower (act : Act) (p : Prover) : Option Power :=
  match act with
  | .timer .startmsg _ | .timer .attesttimer _ => some .LISTENING
  | .recv m _ => if receives m p then some .RECEPTION else none
  | _ => none

/-- The power that `handleDoneEnMsg` and `handlePostponeUpMsg` end with. -/
def restingPower (p : Prover) (d : Device) : Power :=
  if p.status = .FINISHED ∧ d.pupmsg = none then .IDLE else .LISTENING

/-- The prover whose handlers are called. -/
def handler (n : Node) : Prover := { n.prover with crashed := n.device.crashed }

variable (w : Surroundings)

/-- What the prover hands over goes to the device. -/
def send (pkt : Packet) (n : Node) : Node :=
  let d := n.device.handOver w pkt
  { n with device := d, power := if n.device.begins d then .TRANSMITION else n.power }

def sendAll (pkts : List Packet) (n : Node) : Node := pkts.foldl (fun n pkt => n.send w pkt) n

/-- An event of the prover; its reception and the MACs that it computes end later. -/
def onProver (e : Prover.Event) (p' : Prover) (n : Node) : Node :=
  let set := if n.device.crashed then none else handlerPower e.act n.prover
  let ended := (p'.outbox.length - n.prover.outbox.length) + if set = some .RECEPTION then 1 else 0
  { n with prover := p', power := set.getD n.power, energyMsgs := n.energyMsgs + ended }.sendAll w
    (p'.out.drop n.prover.out.length)

/-- A self message of the device, which it leaves as `d`. -/
def onSelfMsg (t : SelfMsg) (d : Device) (n : Node) : Node :=
  let power :=
    match t with
    | .txmsg | .cbusymsg => if n.device.begins d then .TRANSMITION else n.power
    | .entxmsg => restingPower n.prover d
    | .collbusymsg => if n.device.pupmsg.isSome then restingPower n.prover d else n.power
  { n with device := d, power := if n.device.crashed then n.power else power }

/-- The end of a reception or of the computing of a MAC. -/
def onEnergyDone (d : Device) (n : Node) : Node :=
  { n with
    device := d
    power := if n.device.crashed then n.power else restingPower n.prover d
    energyMsgs := n.energyMsgs - 1 }

/-- One event; a prover crashes only at the end of a consumption. -/
def step (e : NodeEvent) (n : Node) : Option Node :=
  if n.prover.fault.isSome ∨ n.device.fault = true then none
  else
    match e with
    | .prover e =>
      if e.act = .crash then none
      else (Prover.step e n.handler).map fun p' => n.onProver w e p'
    | .selfMsg t depleted =>
      (n.device.step w (.selfMsg t depleted)).map fun d => n.onSelfMsg t d
    | .energyDone depleted =>
      if n.energyMsgs = 0 then none
      else (n.device.step w (.energyDone depleted)).map fun d => n.onEnergyDone d

def init (cfg : Config) (start : Nat) : Node := ⟨.init cfg start, {}, .IDLE, 0⟩

end Node

end Fadia
