import Fadia.Devices.Wiring
import Fadia.Lib.LinkTree
import Mathlib

/-!
# The tree topologies are spanning trees

The loops write each link at its parent.  Division with remainder tells which parent reaches
a prover: `(k - 1) / neighbors` in `Fadiatree` (`rooted_fadiatree`), and in `Fadiatreefair`
a prover of the pair `(k - 1) / (neighbors + 1)`, the even one if the remainder is 0
(`rooted_fadiatreefair`).  So both are trees on all provers (`spanning_trees`).
-/

namespace Fadia

open LinkTree

/-- The links form a tree on the provers, rooted at prover 0. -/
structure SpanningTree (numProvers : Nat) (links : List Link) : Prop where
  parent : ∀ k, 1 ≤ k → k < numProvers → ∃! p, p < k ∧ ((p, k) ∈ links ∨ (k, p) ∈ links)
  once : (links.map fun l => s(l.1, l.2)).Nodup
  proper : ∀ l ∈ links, l.1 ≠ l.2 ∧ l.1 < numProvers ∧ l.2 < numProvers
  tree : (graph numProvers links).IsTree

theorem spanningTree_of_rooted {n : Nat} {links : List Link} (h : Rooted n links) (hn : 1 ≤ n) :
    SpanningTree n links := by
  refine ⟨fun k h1 hk => h.existsUnique h1 hk, h.nodup_edges, fun l hl => ?_, h.isTree hn⟩
  have := h.down l hl
  omega

section
variable {numProvers neighbors a b : Nat}

/-! ## Fadiatree -/

theorem mem_fadiatree : (a, b) ∈ fadiatree numProvers neighbors ↔
    a < numProvers ∧ b < numProvers ∧ neighbors * a < b ∧ b ≤ neighbors * a + neighbors := by
  simp only [fadiatree, List.mem_flatMap, List.mem_filterMap, List.mem_range, List.mem_range'_1]
  constructor
  · rintro ⟨i, hi, j, hj, hl⟩
    split at hl
    · obtain ⟨rfl, rfl⟩ := Prod.mk.inj (Option.some.inj hl)
      refine ⟨hi, ?_, ?_, ?_⟩
      all_goals omega
    · cases hl
  · rintro ⟨ha, hb, hlt, hle⟩
    have hj : neighbors * a + (b - neighbors * a) = b := by omega
    refine ⟨a, ha, b - neighbors * a, by omega, ?_⟩
    rw [hj, if_pos hb]

/-- The loop over `j` writes no link twice. -/
theorem nodup_inner (i c : Nat) (p : Nat → Prop) [DecidablePred p] :
    ((List.range' 1 neighbors).filterMap fun j =>
      if p j then some (i, c + j) else none).Nodup := by
  refine (List.nodup_range' (s := 1) (n := neighbors)).filterMap fun j j' x hj hj' => ?_
  have hadd : ∀ {k : Nat}, x ∈ (if p k then some (i, c + k) else none) → x.2 = c + k := by
    intro k hk
    split at hk
    · rw [← Option.mem_some.mp hk]
    · cases hk
  have h1 := hadd hj
  have h2 := hadd hj'
  omega

/-- Different `i` write different links. -/
theorem nodup_outer (f : Nat → Nat → Option Link) (hf : ∀ i j l, f i j = some l → l.1 = i)
    (hinner : ∀ i, ((List.range' 1 neighbors).filterMap (f i)).Nodup) :
    ((List.range numProvers).flatMap fun i => (List.range' 1 neighbors).filterMap (f i)).Nodup := by
  refine List.nodup_flatMap.mpr ⟨fun i _ => hinner i, List.nodup_range.imp fun {i i'} hne => ?_⟩
  intro l hl hl'
  obtain ⟨j, -, hj⟩ := List.mem_filterMap.mp hl
  obtain ⟨j', -, hj'⟩ := List.mem_filterMap.mp hl'
  exact hne ((hf i j l hj).symm.trans (hf i' j' l hj'))

theorem fst_eq {p : Prop} [Decidable p] {i c : Nat} {l : Link}
    (h : (if p then some (i, c) else none) = some l) : l.1 = i := by
  split at h
  · rw [← Option.some.inj h]
  · cases h

theorem nodup_fadiatree : (fadiatree numProvers neighbors).Nodup :=
  nodup_outer _ (fun _ _ _ h => fst_eq h) fun i =>
    nodup_inner i (neighbors * i) fun j => neighbors * i + j < numProvers

/-- **The links of `Fadiatree`**: the parent of `k` is `(k - 1) / neighbors`. -/
theorem rooted_fadiatree (hn : 1 ≤ neighbors) : Rooted numProvers (fadiatree numProvers neighbors) := by
  refine ⟨nodup_fadiatree, ?_, fun k h1 hk => ⟨(k - 1) / neighbors, ?_, fun p hp => ?_⟩⟩
  · rintro ⟨a, b⟩ hl
    obtain ⟨-, hb, hlt, -⟩ := mem_fadiatree.mp hl
    have : a ≤ neighbors * a := Nat.le_mul_of_pos_left a hn
    exact ⟨by omega, hb⟩
  · have hdiv := Nat.div_add_mod (k - 1) neighbors
    have hmod := Nat.mod_lt (k - 1) hn
    have hle := Nat.div_le_self (k - 1) neighbors
    refine mem_fadiatree.mpr ⟨by omega, hk, by omega, by omega⟩
  · obtain ⟨-, -, hlt, hle⟩ := mem_fadiatree.mp hp
    refine (Nat.div_eq_of_lt_le ?_ ?_).symm
    · rw [Nat.mul_comm]
      omega
    · rw [Nat.add_mul, Nat.mul_comm p]
      omega

theorem children_fadiatree (hn : 1 ≤ neighbors) (i : Nat) :
    (fadiatree numProvers neighbors).countP (·.1 = i) ≤ neighbors := by
  have hrooted : Rooted numProvers (fadiatree numProvers neighbors) := rooted_fadiatree hn
  have hle := hrooted.children_le (i := i)
    (Finset.Ioc (neighbors * i) (neighbors * i + neighbors)) fun k hk => by
      obtain ⟨-, -, hlt, hle⟩ := mem_fadiatree.mp hk
      exact Finset.mem_Ioc.mpr ⟨hlt, hle⟩
  rw [Nat.card_Ioc, Nat.add_sub_cancel_left] at hle
  exact hle

/-! ## Fadiatreefair -/

theorem floorHalf_eq (i : Nat) : floorHalf i = i / 2 := by
  unfold floorHalf
  exact_mod_cast Nat.floor_div_eq_div (K := ℚ) i 2

theorem mem_fadiatreefair : (a, b) ∈ fadiatreefair numProvers neighbors ↔
    a < numProvers ∧ b < numProvers ∧ (a % 2 = 0 ∧ b = a / 2 * (neighbors + 1) + 1 ∨
      a % 2 = 1 ∧ a / 2 * (neighbors + 1) + 1 < b ∧
        b ≤ a / 2 * (neighbors + 1) + 1 + neighbors) := by
  simp only [fadiatreefair, List.mem_append, List.mem_flatMap, List.mem_filterMap, List.mem_range,
    List.mem_range'_1, floorHalf_eq, proverType]
  constructor
  · rintro (⟨i, hi, hl⟩ | ⟨i, hi, j, hj, hl⟩)
    · split at hl
      · obtain ⟨rfl, rfl⟩ := Prod.mk.inj (Option.some.inj hl)
        refine ⟨hi, by omega, .inl ⟨by omega, rfl⟩⟩
      · cases hl
    · split at hl
      · obtain ⟨rfl, rfl⟩ := Prod.mk.inj (Option.some.inj hl)
        refine ⟨hi, by omega, .inr ⟨by omega, by omega, by omega⟩⟩
      · cases hl
  · rintro ⟨ha, hb, ⟨he, rfl⟩ | ⟨ho, hlt, hle⟩⟩
    · refine .inl ⟨a, ha, ?_⟩
      rw [if_pos ⟨by omega, hb⟩]
    · have hj : a / 2 * (neighbors + 1) + 1 + (b - (a / 2 * (neighbors + 1) + 1)) = b := by omega
      refine .inr ⟨a, ha, b - (a / 2 * (neighbors + 1) + 1), by omega, ?_⟩
      rw [hj, if_pos ⟨by omega, hb⟩]

theorem nodup_fadiatreefair : (fadiatreefair numProvers neighbors).Nodup := by
  refine List.nodup_append'.mpr ⟨?_, ?_, ?_⟩
  · refine List.nodup_range.filterMap fun i i' l hl hl' => ?_
    exact (fst_eq hl).symm.trans (fst_eq hl')
  · exact nodup_outer _ (fun _ _ _ h => fst_eq h) fun i =>
      nodup_inner i (floorHalf i * (neighbors + 1) + 1) fun j =>
        proverType i = 3 ∧ floorHalf i * (neighbors + 1) + 1 + j < numProvers
  · -- the two loops write the links of provers of different types
    intro l hl hl'
    obtain ⟨i, -, hi⟩ := List.mem_filterMap.mp hl
    obtain ⟨i', -, hl'⟩ := List.mem_flatMap.mp hl'
    obtain ⟨j, -, hj⟩ := List.mem_filterMap.mp hl'
    obtain rfl : i = i' := (fst_eq hi).symm.trans (fst_eq hj)
    split at hi
    · next h2 =>
      split at hj
      · next h3 => exact absurd (h2.1.symm.trans h3.1) (by decide)
      · cases hj
    · cases hi

/-- **The links of `Fadiatreefair`**: prover `k` hangs below the pair
`(k - 1) / (neighbors + 1)`, below the even one if nothing remains. -/
theorem rooted_fadiatreefair (hn : 1 ≤ neighbors) :
    Rooted numProvers (fadiatreefair numProvers neighbors) := by
  have hmul : ∀ m : Nat, 2 * m ≤ m * (neighbors + 1) := fun m => by
    rw [Nat.mul_comm]
    exact Nat.mul_le_mul_left m (by omega)
  refine ⟨nodup_fadiatreefair, ?_, fun k h1 hk => ?_⟩
  · rintro ⟨a, b⟩ hl
    obtain ⟨-, hb, hcase⟩ := mem_fadiatreefair.mp hl
    have := hmul (a / 2)
    exact ⟨by omega, hb⟩
  · have hdiv := Nat.div_add_mod' (k - 1) (neighbors + 1)
    have hmod : (k - 1) % (neighbors + 1) < neighbors + 1 := Nat.mod_lt _ (Nat.succ_pos neighbors)
    have hm := hmul ((k - 1) / (neighbors + 1))
    -- a pair that reaches `k` is the quotient
    have hquot : ∀ m r, m * (neighbors + 1) + 1 + r = k → r ≤ neighbors →
        m = (k - 1) / (neighbors + 1) := by
      intro m r he hr
      refine (Nat.div_eq_of_lt_le ?_ ?_).symm
      · omega
      · rw [Nat.add_mul]
        omega
    by_cases hr : (k - 1) % (neighbors + 1) = 0
    · have hhalf : 2 * ((k - 1) / (neighbors + 1)) / 2 = (k - 1) / (neighbors + 1) := by omega
      refine ⟨2 * ((k - 1) / (neighbors + 1)), ?_, fun p hp => ?_⟩
      · refine mem_fadiatreefair.mpr ⟨by omega, hk, .inl ⟨by omega, ?_⟩⟩
        rw [hhalf]
        omega
      · obtain ⟨-, -, ⟨he, hb⟩ | ⟨ho, hlt, hle⟩⟩ := mem_fadiatreefair.mp hp
        · have := hquot (p / 2) 0 (by omega) (Nat.zero_le _)
          omega
        · have hq := hquot (p / 2) (k - (p / 2 * (neighbors + 1) + 1)) (by omega) (by omega)
          rw [← hq] at hdiv
          omega
    · have hhalf : (2 * ((k - 1) / (neighbors + 1)) + 1) / 2 = (k - 1) / (neighbors + 1) := by omega
      refine ⟨2 * ((k - 1) / (neighbors + 1)) + 1, ?_, fun p hp => ?_⟩
      · refine mem_fadiatreefair.mpr ⟨by omega, hk, .inr ⟨by omega, ?_⟩⟩
        rw [hhalf]
        omega
      · obtain ⟨-, -, ⟨he, hb⟩ | ⟨ho, hlt, hle⟩⟩ := mem_fadiatreefair.mp hp
        · have hq := hquot (p / 2) 0 (by omega) (Nat.zero_le _)
          rw [← hq] at hdiv
          omega
        · have := hquot (p / 2) (k - (p / 2 * (neighbors + 1) + 1)) (by omega) (by omega)
          omega

theorem children_fadiatreefair (hn : 1 ≤ neighbors) (i : Nat) :
    (fadiatreefair numProvers neighbors).countP (·.1 = i) ≤ if i % 2 = 0 then 1 else neighbors := by
  have hrooted : Rooted numProvers (fadiatreefair numProvers neighbors) := rooted_fadiatreefair hn
  split
  · next he =>
    refine hrooted.children_le {i / 2 * (neighbors + 1) + 1} fun k hk => ?_
    obtain ⟨-, -, ⟨-, hb⟩ | ⟨ho, -⟩⟩ := mem_fadiatreefair.mp hk
    · exact Finset.mem_singleton.mpr hb
    · omega
  · next ho =>
    have hle := hrooted.children_le (i := i) (Finset.Ioc (i / 2 * (neighbors + 1) + 1)
      (i / 2 * (neighbors + 1) + 1 + neighbors)) fun k hk => by
        obtain ⟨-, -, ⟨he, -⟩ | ⟨-, hlt, hle⟩⟩ := mem_fadiatreefair.mp hk
        · exact absurd he ho
        · exact Finset.mem_Ioc.mpr ⟨hlt, hle⟩
    rw [Nat.card_Ioc, Nat.add_sub_cancel_left] at hle
    exact hle

/-- A prover with at most `neighbors` children has gates for all its links. -/
theorem gatesUsed_le {links : List Link} (h : Rooted numProvers links) {i : Nat}
    (hc : links.countP (·.1 = i) ≤ neighbors) : gatesUsed links i ≤ gateCount neighbors := by
  have hp : links.countP (·.2 = i) ≤ if i = 0 then 0 else 1 := h.parents_le i
  unfold gatesUsed gateCount root
  split at hp
  · next hi =>
    rw [if_pos hi]
    omega
  · next hi =>
    rw [if_neg hi]
    omega

/-- **Both topologies are spanning trees** rooted at prover 0, with at most `neighbors`
children each (one for the even provers of `Fadiatreefair`) and gates for all links. -/
theorem spanning_trees (numProvers neighbors : Nat) (hN : 1 ≤ numProvers) (hn : 1 ≤ neighbors) :
    (SpanningTree numProvers (fadiatree numProvers neighbors) ∧
      ∀ i, (fadiatree numProvers neighbors).countP (·.1 = i) ≤ neighbors ∧
        gatesUsed (fadiatree numProvers neighbors) i ≤ gateCount neighbors) ∧
    SpanningTree numProvers (fadiatreefair numProvers neighbors) ∧
      ∀ i, (i % 2 = 0 → (fadiatreefair numProvers neighbors).countP (·.1 = i) ≤ 1) ∧
        (i % 2 = 1 → (fadiatreefair numProvers neighbors).countP (·.1 = i) ≤ neighbors) ∧
        gatesUsed (fadiatreefair numProvers neighbors) i ≤ gateCount neighbors := by
  have htree : Rooted numProvers (fadiatree numProvers neighbors) := rooted_fadiatree hn
  have hfair : Rooted numProvers (fadiatreefair numProvers neighbors) := rooted_fadiatreefair hn
  refine ⟨⟨spanningTree_of_rooted htree hN, fun i => ?_⟩, spanningTree_of_rooted hfair hN,
    fun i => ?_⟩
  · have hc := @children_fadiatree numProvers neighbors hn i
    exact ⟨hc, gatesUsed_le htree hc⟩
  · have hc := @children_fadiatreefair numProvers neighbors hn i
    refine ⟨fun he => ?_, fun ho => ?_, gatesUsed_le hfair (hc.trans ?_)⟩
    · rwa [if_pos he] at hc
    · rwa [if_neg (by omega)] at hc
    · split
      · exact hn
      · exact Nat.le_refl _

/-- Ten provers with fan-out two, as configured. -/
theorem spanning_trees_ten : SpanningTree 10 (fadiatree 10 2) ∧ SpanningTree 10 (fadiatreefair 10 2) :=
  have h := spanning_trees 10 2 (by decide) (by decide)
  ⟨h.1.1, h.2.1⟩

end

end Fadia
