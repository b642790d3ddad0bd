import Fadia.Devices.Field
import Fadia.Devices.Process

/-!
# The gates of the wired build

`deviceg` of a device, the map from ids to gates: `updateGates` fills it from the messages that
arrive, `sendProver` and `sendCollector` look up their target in it.  Provers and collectors
share its keys: prover 0 and collector 0 both have the id 1.
-/

namespace Fadia

/-- The kinds of messages that `handleMessage` takes from another device. -/
inductive MsgKind
  | JNRQ
  | JNRP
  | JNAK
  | CMRQ
  | CMRP
  | CMAK
  | UPRQ
  | UPRQC
  | UPRQF
  | RVKRQ
deriving DecidableEq, Repr

/-- `map<uid_t, int> deviceg` -/
abbrev GateMap := Uid → Option Nat

/-- What happens to a prover: a message arrives, or one is transmitted. -/
inductive GateEvent
  | arrived (kind : MsgKind) (source : Uid) (gate : Nat)
  | sendProver (target : Uid)
  | sendCollector (target : Uid)
deriving DecidableEq, Repr

/-- Only the first gate is recorded. -/
def updateGates (source : Uid) (gate : Nat) (deviceg : GateMap) : GateMap :=
  match deviceg source with
  | none => Function.update deviceg source (some gate)
  | some _ => deviceg

/-- `deviceg[target]`, which inserts 0 where there is no entry. -/
def selectGate (target : Uid) (deviceg : GateMap) : Nat × GateMap :=
  match deviceg target with
  | some gate => (gate, deviceg)
  | none => (0, Function.update deviceg target (some 0))

/-- A `RevokeReq` has no source and does not go through `updateGates`. -/
def GateEvent.apply (e : GateEvent) (deviceg : GateMap) : GateMap :=
  match e with
  | .arrived .RVKRQ _ _ => deviceg
  | .arrived _ source gate => updateGates source gate deviceg
  | .sendProver target | .sendCollector target => (selectGate target deviceg).2

/-- `deviceg` behind the events of a prover. -/
def gatesAfter (history : List GateEvent) : GateMap :=
  history.foldl (fun deviceg e => e.apply deviceg) fun _ => none

/-- Provers with the indices below `numProvers`; the root's first gate is joined to the
collector, and no other gate is. -/
structure WiredNetwork where
  topology : Topology
  numProvers : Nat
  root : Nat
  root_lt : root < numProvers
  linked : (topology.gates (initUID root))[0]? = some (some .collector)
  only : ∀ u k, (topology.gates u)[k]? = some (some .collector) → u = initUID root ∧ k = 0

/-- What gate `k` of prover `u` leads to. -/
def WiredNetwork.peer (N : WiredNetwork) (u : Uid) (k : Nat) : Option Peer :=
  (N.topology.gates u)[k]?.join

end Fadia
