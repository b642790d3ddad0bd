import Fadia.Devices.Prover
import Mathlib

/-!
# The battery and the number of children

`updateMaxChildren` and its macros.  `per` is the part of the nominal capacity that is left;
a `double` is a rational here.
-/

namespace Fadia

def CRITICAL_ENERGY : ℚ := 1 / 10

def FULL_ENERGY : ℚ := 9 / 10

/-- `CHILDREN(per)` as the preprocessor expands it. -/
def CHILDREN (per : ℚ) : ℚ :=
  (MAXCHILDREN - 0) / (FULL_ENERGY - CRITICAL_ENERGY) * per +
    (0 * FULL_ENERGY - MAXCHILDREN * CRITICAL_ENERGY) / (FULL_ENERGY - CRITICAL_ENERGY)

/-- `v<1?0:v` -/
def cutOff (v : ℚ) : ℚ := if v < 1 then 0 else v

/-- The `maxchildren` that `updateMaxChildren` sets. -/
def updateMaxChildren (selfish : Bool) (per : ℚ) : Nat :=
  if selfish then 0 else ⌈cutOff (CHILDREN per)⌉.toNat

end Fadia
