import Mathlib

/-!
# The connections of the tree topologies

The loops of `Fadia-tree.ned` and `Fadia-tree-fair.ned`.  The connection
`prover[a].gate++ <--> C <--> prover[b].gate++` is the link `(a, b)`.
-/

namespace Fadia

abbrev Link := Nat × Nat

/-- `root` of both networks. -/
def root : Nat := 0

/-- `*.prover[*].type = index % 2 + 2` -/
def proverType (index : Nat) : Nat := index % 2 + 2

/-- The connections of `Fadiatree`. -/
def fadiatree (numProvers neighbors : Nat) : List Link :=
  (List.range numProvers).flatMap fun i =>
    (List.range' 1 neighbors).filterMap fun j =>
      if neighbors * i + j < numProvers then some (i, neighbors * i + j) else none

/-- `floor(double(i/2))`; the `/` of NED divides numbers. -/
def floorHalf (i : Nat) : Nat := ⌊(i : ℚ) / 2⌋₊

/-- The connections of `Fadiatreefair`. -/
def fadiatreefair (numProvers neighbors : Nat) : List Link :=
  ((List.range numProvers).filterMap fun i =>
    if proverType i = 2 ∧ floorHalf i * (neighbors + 1) + 1 < numProvers then
      some (i, floorHalf i * (neighbors + 1) + 1)
    else none) ++
  (List.range numProvers).flatMap fun i =>
    (List.range' 1 neighbors).filterMap fun j =>
      if proverType i = 3 ∧ floorHalf i * (neighbors + 1) + 1 + j < numProvers then
        some (i, floorHalf i * (neighbors + 1) + 1 + j)
      else none

/-- The gates of prover `i` that are connected, the one to the collector included. -/
def gatesUsed (links : List Link) (i : Nat) : Nat :=
  links.countP (·.1 = i) + links.countP (·.2 = i) + if i = root then 1 else 0

/-- `inout gate[neighbors + 1]` of a prover. -/
def gateCount (neighbors : Nat) : Nat := neighbors + 1

end Fadia
