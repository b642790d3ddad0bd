import Fadia.Devices.NetworkOwner

/-!
# Simulation runs of one process

`selfcount`, `NO` and `countcrash` are static: a run finds them as the one before it left them.
`AProver::initialize` and `handleDoneEnMsg` as far as they read or change them.
-/

namespace Fadia

/-- `initUID` -/
def initUID (index : Nat) : Uid := (baseID + index) % MAXUID

/-- The parameters of a run that `initialize` reads: what is left in the battery of each
prover in J, and the generator. -/
structure RunConfig where
  numProvers : Nat
  numself : Int32
  keyPoolSize : Nat
  keyRingSize : Nat
  residual : Nat → ℚ
  rng : Rng

/-- `NO` is `none` before it is initialised. -/
structure Statics where
  selfcount : Nat := 0
  NO : Option NetworkOwner := none
  countcrash : Nat := 0

/-- What `initialize` sets. -/
structure InitState where
  UId : Uid
  KeyRing : KeyMap
  selfish : Bool
deriving DecidableEq, Repr

/-- The choice of the selfish provers in `initialize`: `selfish` and `selfcount`.
`numProvers - UId` is an `uint32_t` and `numselfish - selfcount` a `size_t`. -/
def chooseSelfish (numProvers : Nat) (numselfish : Int32) (residual : ℚ) (UId : Uid)
    (selfcount : Nat) : Bool × Nat :=
  if selfcount < sizeOfInt numselfish.toInt then
    if 250 < residual ∨
        uidOfInt ((numProvers : Int) - UId) < sizeOfInt (numselfish.toInt - selfcount) then
      (true, selfcount + 1)
    else (false, selfcount)
  else (false, selfcount)

/-- The choices for the provers of a list of indices, one after the other. -/
def chooseAll (numProvers : Nat) (numselfish : Int32) (residual : Nat → ℚ) :
    List Nat → Nat → List Bool × Nat
  | [], selfcount => ([], selfcount)
  | index :: rest, selfcount =>
    let (selfish, selfcount) :=
      chooseSelfish numProvers numselfish (residual index) (initUID index) selfcount
    let (others, selfcount) := chooseAll numProvers numselfish residual rest selfcount
    (selfish :: others, selfcount)

/-- `initNO` -/
def initNO (fuel : Nat) (r : RunConfig) (s : Statics) : Option NetworkOwner :=
  match s.NO with
  | some o => some o
  | none => NetworkOwner.create fuel r.rng r.keyPoolSize r.keyRingSize

/-- `AProver::initialize` of the prover with an index; the loops of the network owner may run
out of fuel. -/
def initializeProver (fuel : Nat) (r : RunConfig) (index : Nat) (s : Statics) :
    Option (InitState × Statics) :=
  match initNO fuel r s with
  | none => none
  | some o =>
    match o.getKeyRing fuel with
    | none => none
    | some (ring, o) =>
      let (selfish, selfcount) :=
        chooseSelfish r.numProvers r.numself (r.residual index) (initUID index) s.selfcount
      some (⟨initUID index, ring, selfish⟩, { s with NO := some o, selfcount := selfcount })

/-- `initialize` of the provers of a list of indices. -/
def initializeList (fuel : Nat) (r : RunConfig) :
    List Nat → Statics → Option (List InitState × Statics)
  | [], s => some ([], s)
  | index :: rest, s =>
    match initializeProver fuel r index s with
    | none => none
    | some (prover, s) =>
      (initializeList fuel r rest s).map fun x => (prover :: x.1, x.2)

/-- `initialize` of all provers of a run. -/
def initializeAll (fuel : Nat) (r : RunConfig) (s : Statics) :
    Option (List InitState × Statics) := initializeList fuel r (List.range r.numProvers) s

def MAX_CRASH : Nat := 5

/-- A battery is depleted: `++countcrash >= MAX_CRASH` ends the simulation. -/
def crash (s : Statics) : Bool × Statics :=
  let s := { s with countcrash := s.countcrash + 1 }
  (decide (MAX_CRASH ≤ s.countcrash), s)

/-- The simulation is ended by the crash that is the `n`th of the run. -/
def endedBy : Nat → Statics → Bool
  | 0, _ => false
  | 1, s => (crash s).1
  | n + 2, s => !(crash s).1 && endedBy (n + 1) (crash s).2

/-- The crashes of a run, of which only the last one may end it. -/
def crashes : Nat → Statics → Option Statics
  | 0, s => some s
  | n + 1, s => if (crash s).1 ∧ n ≠ 0 then none else crashes n (crash s).2

/-- A run of the simulation with its parameters and as many crashes. -/
structure SimRun where
  config : RunConfig
  fuel : Nat
  crashed : Nat

namespace SimRun

/-- What a run leaves behind. -/
def step (r : SimRun) (s : Statics) : Option Statics :=
  match initializeAll r.fuel r.config s with
  | none => none
  | some (_, s) => crashes r.crashed s

end SimRun

end Fadia
