import Fadia.Devices.Collector
import Fadia.Devices.Device

/-!
# The devices of a field

All provers with their send pipelines, the collector, and the reports under way to
it.  A `Site` says how the provers hear each other: in the wireless build by their
positions, in the wired build by the gates that join them.
-/

namespace Fadia

/-- A position; coordinates are exact here. -/
structure Coord where
  x : Rat
  y : Rat
  z : Rat
deriving DecidableEq, Repr

def Coord.sqrdist (a b : Coord) : Rat :=
  (a.x - b.x) * (a.x - b.x) + (a.y - b.y) * (a.y - b.y) + (a.z - b.z) * (a.z - b.z)

/-- `NEIGHBOR_DISTANCE` -/
def NEIGHBOR_DISTANCE : Nat := 2

/-- The other end of a link: a gate of a prover, or the gate of the collector, which is
no vector. -/
inductive Peer
  | prover (u : Uid) (gate : Nat)
  | collector
deriving DecidableEq, Repr

/-- The gates `gate$o` of each prover and where they lead; links go both ways. -/
structure Topology where
  gates : Uid → List (Option Peer)
  paired : ∀ u i v j, (gates u)[i]? = some (some (Peer.prover v j)) →
    (gates v)[j]? = some (some (Peer.prover u i))

/-- How provers hear each other. -/
inductive Medium
  | wireless (range : Rat)
  | wired (topology : Topology)

/-- The provers `1, …, size` and their medium. -/
structure Site where
  size : Nat
  medium : Medium

def Site.ids (site : Site) : List Uid := List.range' baseID site.size

def Site.build (site : Site) : Build :=
  match site.medium with
  | .wireless _ => .wireless
  | .wired _ => .wired

structure Field where
  device : Uid → Device := fun _ => {}
  pos : Uid → Coord
  collector : Collector := {}
  inFlight : List UpdateReq := []

/-- `isChannelBusy(far, gid)` of prover `u`; `gid` is the gate the search came by. -/
def Topology.isChannelBusy (T : Topology) (transmiting : Uid → Bool) :
    Nat → Option Nat → Uid → Bool
  | 0, _, u => transmiting u
  | far + 1, gid, u =>
    transmiting u || (List.range (T.gates u).length).reverse.any fun i =>
      match (T.gates u)[i]? with
      | some (some (.prover v j)) => some i != gid && T.isChannelBusy transmiting far (some j) v
      | _ => false

namespace Field

variable (site : Site) (f : Field)

/-- The provers other than `u` within `range` of it. -/
def inRange (range : Rat) (u : Uid) : List Uid :=
  site.ids.filter fun v => decide (v ≠ u ∧ (f.pos u).sqrdist (f.pos v) ≤ range * range)

/-- `isChannelBusy(drange, -1)` of prover `u`, given which provers transmit. -/
def channelBusy (transmiting : Uid → Bool) (u : Uid) : Bool :=
  match site.medium with
  | .wireless range => transmiting u || (f.inRange site range u).any transmiting
  | .wired T => T.isChannelBusy transmiting NEIGHBOR_DISTANCE none u

def isChannelBusy (u : Uid) : Bool :=
  f.channelBusy site (fun v => (f.device v).isTransmiting) u

/-- What prover `u` finds around it.  When it asks for the channel it does not transmit
itself (`Device.whenFree`), though it may have when the event began. -/
def surroundings (u : Uid) : Surroundings where
  build := site.build
  channelBusy := f.channelBusy site (fun v => v != u && (f.device v).isTransmiting) u
  collectorBusy := f.collector.isProcessing
  withinRange := fun v =>
    match site.medium with
    | .wireless range => decide ((f.pos u).sqrdist (f.pos v) ≤ range * range)
    | .wired _ => true
  heard :=
    match site.medium with
    | .wireless range => !(f.inRange site range u).isEmpty
    | .wired T => (T.gates u).any Option.isSome

inductive FieldEvent
  | device (u : Uid) (e : DeviceEvent)
  | arrive (m : UpdateReq)
  | procDone
  | move (u : Uid) (c : Coord)
deriving DecidableEq, Repr

/-- The reports that a device has sent to the collector between `d` and `d'`. -/
def reportsSent (d d' : Device) : List UpdateReq :=
  (d'.sent.drop d.sent.length).filterMap fun x => if x.2 = .collector then x.1.pkt.report else none

/-- The device of prover `u` takes an event; in the wireless build it tells the
collector of each report that it transmits. -/
def setDevice (u : Uid) (d : Device) (f : Field) : Field :=
  let ms := reportsSent (f.device u) d
  { f with
    device := Function.update f.device u d
    inFlight := f.inFlight ++ ms
    collector :=
      if site.build = .wireless ∧ ms ≠ [] then f.collector.setProcessing else f.collector }

/-- One event; a run-time error of a device or of the collector ends the simulation. -/
def step (e : FieldEvent) (f : Field) : Option Field :=
  if f.collector.failed ∨ ∃ u ∈ site.ids, (f.device u).fault = true then none
  else
    match e with
    | .device u e =>
      if u ∈ site.ids then
        ((f.device u).step (f.surroundings site u) e).map fun d => f.setDevice site u d
      else none
    | .arrive m =>
      if m ∈ f.inFlight then
        some { f with inFlight := f.inFlight.erase m, collector := f.collector.handleUpReq m }
      else none
    | .procDone =>
      if f.collector.procendmsg then some { f with collector := f.collector.handleProcDoneMsg }
      else none
    | .move u c => some { f with pos := Function.update f.pos u c }

def init (pos : Uid → Coord) : Field where
  pos := pos

end Field

end Fadia
