import Fadia.Devices.Prover

/-!
# The network of provers and one collector

A state holds the provers, the messages on the air and those under way to the
collector.  A prover takes its own events in the order of its schedule; no event is
due anywhere else before it.  What a prover has handed over goes on the air at any
later time, in any order, and arrives after any delay; a broadcast reaches any of
the other provers.
-/

namespace Fadia

/-- The provers `1, …, size` with their settings and the time of their first attestation. -/
structure Deployment where
  size : Nat
  cfg : Uid → Config
  start : Uid → Nat
  size_lt : size < MAXUID
  uid_eq : ∀ u, (cfg u).UId = u

def Deployment.ids (D : Deployment) : List Uid := List.range' baseID D.size

/-- `creqmsg`. -/
def Prover.creqmsg (p : Prover) : CommitReq :=
  ⟨p.cfg.UId, p.creqDepth, p.cfg.KeyRing, p.creqTreeID⟩

/-- The report `m`, redirected by a prover whose parent is out of range. -/
def UpdateReq.redirected (m : UpdateReq) : UpdateReq :=
  { m with kind := .UPRQF, destination := baseID }

def Msg.destination : Msg → Uid
  | .commitReq _ => NOID
  | .commitResp m => m.destination
  | .commitAck m => m.destination
  | .updateReq m => m.destination

structure Net where
  now : Nat := 0
  prover : Uid → Prover
  air : List (Uid × Msg) := []
  toColl : List UpdateReq := []
  handled : List UpdateReq := []
  halted : Bool := false

inductive NetEvent
  | prover (u : Uid) (e : Prover.Event)
  | deliver (u : Uid) (m : Msg) (time : Nat) (c : Choice)
  | transmit (u : Uid) (pkt : Packet) (targets : List Uid) (inRange : Bool)
  | collect (m : UpdateReq)
deriving DecidableEq, Repr

/-- The event of a prover within an event of the network. -/
def NetEvent.localEvent : NetEvent → Option (Uid × Prover.Event)
  | .prover u e => some (u, e)
  | .deliver u m time c => some (u, ⟨time, .recv m c⟩)
  | .transmit _ _ _ _ => none
  | .collect _ => none

/-- An event that no message causes. -/
def Prover.Act.Own : Prover.Act → Prop
  | .recv _ _ => False
  | _ => True

instance : DecidablePred Prover.Act.Own
  | .recv _ _ => .isFalse id
  | .timer _ _ => .isTrue trivial
  | .upto _ => .isTrue trivial
  | .self _ _ => .isTrue trivial
  | .crash => .isTrue trivial

namespace Net

variable (D : Deployment)

/-- All that is scheduled is due at `time` or later. -/
def Due (time : Nat) (s : Net) : Prop :=
  s.now ≤ time ∧ ∀ v ∈ D.ids, (s.prover v).NoneBefore time

instance (time : Nat) (s : Net) : Decidable (s.Due D time) :=
  inferInstanceAs (Decidable (_ ∧ _))

/-- A run-time error of a prover ends the simulation. -/
def setProver (u : Uid) (p : Prover) (s : Net) : Net :=
  { s with
    prover := Function.update s.prover u p
    halted := p.fault.isSome }

/-- Prover `u` takes an event. -/
def event (u : Uid) (e : Prover.Event) (s : Net) : Option Net :=
  if u ∈ D.ids ∧ s.Due D e.time then
    ((s.prover u).step e).map fun p => { s.setProver u p with now := e.time }
  else none

/-- A packet of prover `u` is taken for transmission. -/
def takePacket (u : Uid) (pkt : Packet) (s : Net) : Net :=
  { s with
    prover := Function.update s.prover u
      { s.prover u with out := (s.prover u).out.erase pkt } }

/-- What goes on the air for a packet of `p`. -/
def radiate (p : Prover) (targets : List Uid) (inRange : Bool) (s : Net) : Packet → Net
  | .creqmsg => { s with air := s.air ++ targets.map fun v => (v, .commitReq p.creqmsg) }
  | .prover (.updateReq m) =>
    if m.kind = .UPRQ ∧ ¬ inRange then { s with toColl := s.toColl ++ [m.redirected] }
    else { s with air := s.air ++ [(m.destination, .updateReq m)] }
  | .prover m => { s with air := s.air ++ [(m.destination, m)] }
  | .collector m => { s with toColl := s.toColl ++ [m] }

def step (e : NetEvent) (s : Net) : Option Net :=
  if s.halted then none
  else
    match e with
    | .prover u e => if e.act.Own then s.event D u e else none
    | .deliver u m time c =>
      if (u, m) ∈ s.air then
        { s with air := s.air.erase (u, m) }.event D u ⟨time, .recv m c⟩
      else none
    | .transmit u pkt targets inRange =>
      let p := s.prover u
      if u ∈ D.ids ∧ ¬ p.crashed ∧ pkt ∈ p.out ∧ targets.Nodup ∧ (∀ v ∈ targets, v ∈ D.ids ∧ v ≠ u) then
        some ((s.takePacket u pkt).radiate p targets inRange pkt)
      else none
    | .collect m =>
      if m ∈ s.toColl then
        some { s with toColl := s.toColl.erase m, handled := s.handled ++ [m] }
      else none

def init : Net where
  prover := fun u => Prover.init (D.cfg u) (D.start u)

end Net

end Fadia
