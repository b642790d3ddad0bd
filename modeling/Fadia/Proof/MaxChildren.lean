import Fadia.Devices.Energy
import Mathlib

/-!
# The number of children follows the battery

The macro is the line `25 * per - 5 / 2` (`CHILDREN_eq`), which is 0 at `CRITICAL_ENERGY` and
`MAXCHILDREN` at `FULL_ENERGY`.  What is below is cut off, what is above is not: with more than
`FULL_ENERGY` left a prover gets more than `MAXCHILDREN` (`maxChildren_capped_iff`).
-/

namespace Fadia

theorem CHILDREN_eq (per : ℚ) : CHILDREN per = 25 * per - 5 / 2 := by
  have hmax : (MAXCHILDREN : ℚ) = 20 := by norm_num [MAXCHILDREN]
  unfold CHILDREN FULL_ENERGY CRITICAL_ENERGY
  rw [hmax]
  ring

theorem cutOff_mono : Monotone cutOff := by
  intro a b hab
  unfold cutOff
  split
  · next ha =>
    split
    · exact le_refl _
    · next hb =>
      have h1 : (1 : ℚ) ≤ b := not_lt.mp hb
      linarith
  · next ha =>
    have h1 : (1 : ℚ) ≤ a := not_lt.mp ha
    rw [if_neg (not_lt.mpr (h1.trans hab))]
    exact hab

section
variable {per per' : ℚ}

/-- **More energy never gives fewer children.** -/
theorem maxChildren_mono (selfish : Bool) (h : per ≤ per') :
    updateMaxChildren selfish per ≤ updateMaxChildren selfish per' := by
  unfold updateMaxChildren
  cases selfish with
  | true => exact Nat.le_refl _
  | false =>
    have hline : CHILDREN per ≤ CHILDREN per' := by
      rw [CHILDREN_eq, CHILDREN_eq]
      linarith
    exact Int.toNat_le_toNat (Int.ceil_le_ceil (cutOff_mono hline))

/-- Without energy enough for one child the value is cut off. -/
theorem maxChildren_critical (h : per ≤ CRITICAL_ENERGY) : updateMaxChildren false per = 0 := by
  have hlt : CHILDREN per < 1 := by
    rw [CHILDREN_eq]
    unfold CRITICAL_ENERGY at h
    linarith
  unfold updateMaxChildren cutOff
  rw [if_pos hlt]
  simp

theorem maxChildren_le (h : per ≤ FULL_ENERGY) : updateMaxChildren false per ≤ MAXCHILDREN := by
  have hline : cutOff (CHILDREN per) ≤ ((20 : ℤ) : ℚ) := by
    unfold cutOff
    split
    · norm_num
    · rw [CHILDREN_eq]
      unfold FULL_ENERGY at h
      norm_num
      linarith
  have hceil : ⌈cutOff (CHILDREN per)⌉ ≤ 20 := Int.ceil_le.mpr hline
  show ⌈cutOff (CHILDREN per)⌉.toNat ≤ 20
  omega

/-- Above `FULL_ENERGY` nothing caps the line. -/
theorem lt_maxChildren (h : FULL_ENERGY < per) : MAXCHILDREN < updateMaxChildren false per := by
  have hline : ((20 : ℤ) : ℚ) < CHILDREN per := by
    rw [CHILDREN_eq]
    unfold FULL_ENERGY at h
    norm_num
    linarith
  have hcut : cutOff (CHILDREN per) = CHILDREN per := by
    unfold cutOff
    rw [if_neg]
    push Not
    refine le_trans ?_ hline.le
    norm_num
  have hceil : 20 < ⌈CHILDREN per⌉ := Int.lt_ceil.mpr hline
  show 20 < ⌈cutOff (CHILDREN per)⌉.toNat
  rw [hcut]
  omega

theorem maxChildren_full : updateMaxChildren false FULL_ENERGY = MAXCHILDREN := by
  have hline : CHILDREN FULL_ENERGY = ((20 : ℤ) : ℚ) := by
    rw [CHILDREN_eq]
    norm_num [FULL_ENERGY]
  have hcut : cutOff ((20 : ℤ) : ℚ) = ((20 : ℤ) : ℚ) := if_neg (by norm_num)
  show ⌈cutOff (CHILDREN FULL_ENERGY)⌉.toNat = 20
  rw [hline, hcut, Int.ceil_intCast]
  rfl

/-- The number of children with `per` left lies between the anchors: none up to
`CRITICAL_ENERGY`, never more than `MAXCHILDREN`, and all of them from `FULL_ENERGY` on; and no
prover with less energy gets more. -/
structure Capped (per : ℚ) : Prop where
  critical : per ≤ CRITICAL_ENERGY → updateMaxChildren false per = 0
  capped : updateMaxChildren false per ≤ MAXCHILDREN
  full : FULL_ENERGY ≤ per → updateMaxChildren false per = MAXCHILDREN
  monotone : ∀ per' ≤ per, updateMaxChildren false per' ≤ updateMaxChildren false per

/-- **The number of children is capped up to `FULL_ENERGY`** and nowhere above. -/
theorem maxChildren_capped_iff (per : ℚ) : Capped per ↔ per ≤ FULL_ENERGY := by
  constructor
  · intro h
    by_contra hgt
    exact absurd h.capped (not_le.mpr (lt_maxChildren (not_le.mp hgt)))
  · intro h
    refine ⟨maxChildren_critical, maxChildren_le h, fun hfull => ?_,
      fun per' hle => maxChildren_mono false hle⟩
    rw [le_antisymm h hfull]
    exact maxChildren_full

/-- A full battery gives 23 children. -/
theorem fullBattery_overflows : ¬ ∀ per : ℚ, 0 ≤ per → per ≤ 1 → Capped per := by
  intro h
  have hcap := (h 1 (by norm_num) (le_refl 1)).capped
  exact absurd hcap (not_le.mpr (lt_maxChildren (by norm_num [FULL_ENERGY])))

end

end Fadia
