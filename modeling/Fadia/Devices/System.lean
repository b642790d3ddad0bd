import Fadia.Devices.Field
import Fadia.Devices.Process

/-!
# The provers with their devices and the collector

In `Net` a packet goes on the air at any time.  Here each prover has its device: a handler
hands its packets to the send pipeline at once, and a packet goes on the air when the device
transmits it.  The wireless build; a broadcast reaches the provers in range.

* `isWithinRange` is asked by the device, so a prover leaves the choice to it (`Act.Plain`),
  and a prover crashes only with its device.
* The times of the device's own self messages are left open, as in `Device`.
-/

namespace Fadia

/-- The provers of a deployment with radios of the given range. -/
def Deployment.site (D : Deployment) (range : Rat) : Site := ⟨D.size, .wireless range⟩

structure System where
  now : Nat := 0
  prover : Uid → Prover
  field : Field
  air : List (Uid × Msg) := []
  handled : List UpdateReq := []
  halted : Bool := false

inductive SystemEvent
  | prover (u : Uid) (e : Prover.Event)
  | deliver (u : Uid) (m : Msg) (time : Nat) (c : Choice)
  | device (u : Uid) (e : DeviceEvent)
  | arrive (m : UpdateReq)
  | procDone
  | move (u : Uid) (c : Coord)
deriving DecidableEq

/-- An event of a prover that no message and no device causes. -/
def Prover.Act.Plain : Prover.Act → Prop
  | .timer _ _ => True
  | .upto _ => True
  | .self _ c => c.inRange = true
  | .recv _ _ => False
  | .crash => False

instance : DecidablePred Prover.Act.Plain
  | .timer _ _ => .isTrue trivial
  | .upto _ => .isTrue trivial
  | .self _ c => inferInstanceAs (Decidable (c.inRange = true))
  | .recv _ _ => .isFalse id
  | .crash => .isFalse id

/-- An event of a device that its prover does not cause. -/
def DeviceEvent.Own : DeviceEvent → Prop
  | .handOver _ => False
  | .selfMsg _ _ => True
  | .energyDone _ => True

instance : DecidablePred DeviceEvent.Own
  | .handOver _ => .isFalse id
  | .selfMsg _ _ => .isTrue trivial
  | .energyDone _ => .isTrue trivial

/-- The event of a prover within an event of the system. -/
def SystemEvent.localEvent : SystemEvent → Option (Uid × Prover.Event)
  | .prover u e => some (u, e)
  | .deliver u m time c => some (u, ⟨time, .recv m c⟩)
  | _ => none

namespace System

open Fadia.Field (FieldEvent)

variable (D : Deployment) (range : Rat)

/-- The prover whose handlers are called. -/
def handler (s : System) (u : Uid) : Prover :=
  { s.prover u with crashed := (s.field.device u).crashed }

/-- All that is scheduled is due at `time` or later. -/
def Due (time : Nat) (s : System) : Prop :=
  s.now ≤ time ∧ ∀ v ∈ D.ids, (s.prover v).NoneBefore time

instance (time : Nat) (s : System) : Decidable (s.Due D time) :=
  inferInstanceAs (Decidable (_ ∧ _))

/-- What goes on the air when the device of prover `u` transmits. -/
def onAir (s : System) (u : Uid) (x : Outgoing × Route) : List (Uid × Msg) :=
  match x.2 with
  | .broadcast =>
    match x.1.pkt with
    | .creqmsg => (s.field.inRange (D.site range) range u).map fun v =>
      (v, .commitReq (s.prover u).creqmsg)
    | .prover m => (s.field.inRange (D.site range) range u).map fun v => (v, m)
    | .collector _ => []
  | .prover =>
    match x.1.pkt with
    | .prover m => [(m.destination, m)]
    | .creqmsg | .collector _ => []
  | .collector => []

/-- An event of the devices or of the collector. -/
def fieldEvent (e : FieldEvent) (s : System) : Option System :=
  (Field.step (D.site range) e s.field).map fun f => { s with field := f }

/-- The device of prover `u` takes an event. -/
def deviceEvent (u : Uid) (e : DeviceEvent) (s : System) : Option System :=
  (s.fieldEvent D range (.device u e)).map fun s' =>
    let sent := (s'.field.device u).sent.drop (s.field.device u).sent.length
    { s' with air := s.air ++ sent.flatMap (s.onAir D range u) }

/-- What a handler has handed over goes to the device. -/
def handOver (u : Uid) : List Packet → System → Option System
  | [], s => some s
  | pkt :: pkts, s => (s.deviceEvent D range u (.handOver pkt)).bind (handOver u pkts)

/-- The prover behind a handler. -/
def setProver (u : Uid) (time : Nat) (p : Prover) (s : System) : System :=
  { s with
    now := time
    prover := Function.update s.prover u p
    halted := p.fault.isSome }

/-- Prover `u` takes an event; behind a run-time error nothing is handed over. -/
def proverEvent (u : Uid) (e : Prover.Event) (s : System) : Option System :=
  if u ∈ D.ids ∧ s.Due D e.time then
    (Prover.step e (s.handler u)).bind fun p =>
      if p.fault.isSome then some (s.setProver u e.time p)
      else handOver D range u (p.out.drop (s.prover u).out.length) (s.setProver u e.time p)
  else none

/-- How many provers have crashed. -/
def crashes (s : System) : Nat := D.ids.countP fun u => (s.field.device u).crashed

/-- A run-time error or the last of `MAX_CRASH` crashes has ended the simulation. -/
def Ended (s : System) : Prop :=
  s.halted = true ∨ s.field.collector.failed = true ∨
    (∃ u ∈ D.ids, (s.field.device u).fault = true) ∨ MAX_CRASH ≤ s.crashes D

instance (s : System) : Decidable (s.Ended D) := inferInstanceAs (Decidable (_ ∨ _ ∨ _ ∨ _))

/-- One event, as long as the simulation has not ended. -/
def step (e : SystemEvent) (s : System) : Option System :=
  if s.Ended D then none
  else
    match e with
    | .prover u e => if e.act.Plain then s.proverEvent D range u e else none
    | .deliver u m time c =>
      if s.air.contains (u, m) then
        { s with air := s.air.erase (u, m) }.proverEvent D range u ⟨time, .recv m c⟩
      else none
    | .device u e => if e.Own then s.deviceEvent D range u e else none
    | .arrive m =>
      (s.fieldEvent D range (.arrive m)).map fun s' => { s' with handled := s.handled ++ [m] }
    | .procDone => s.fieldEvent D range .procDone
    | .move u c => s.fieldEvent D range (.move u c)

def init (pos : Uid → Coord) : System where
  prover := fun u => Prover.init (D.cfg u) (D.start u)
  field := Field.init pos

end System

end Fadia
