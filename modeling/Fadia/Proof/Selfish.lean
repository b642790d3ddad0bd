import Fadia.Devices.Process
import Mathlib

/-!
# The number of selfish provers

The choice is made prover by prover.  Where `missing` are still to be chosen and `left` provers
to come, as many as the smaller of the two will be chosen (`chooseAll_count`): a prover is
passed over only if the others suffice.
-/

namespace Fadia

section
variable {N : Nat} {numself : Int32} {residual : Nat → ℚ}

theorem chooseAll_cons (index : Nat) (rest : List Nat) (c : Nat) :
    chooseAll N numself residual (index :: rest) c =
      ((chooseSelfish N numself (residual index) (initUID index) c).1 ::
        (chooseAll N numself residual rest
          (chooseSelfish N numself (residual index) (initUID index) c).2).1,
        (chooseAll N numself residual rest
          (chooseSelfish N numself (residual index) (initUID index) c).2).2) := rfl

/-- The sizes that the code compares do not wrap. -/
theorem sizeOfInt_numself (h0 : 0 ≤ numself.toInt) :
    sizeOfInt numself.toInt = numself.toInt.toNat := by
  have hlt := numself.toInt_lt
  unfold sizeOfInt
  omega

theorem sizeOfInt_sub {c : Nat} (h0 : 0 ≤ numself.toInt) (hc : c < numself.toInt.toNat) :
    sizeOfInt (numself.toInt - c) = numself.toInt.toNat - c := by
  have hlt := numself.toInt_lt
  unfold sizeOfInt
  omega

theorem uidOfInt_left {i left : Nat} (hN : N = i + (left + 1)) (hlt : N < MAXUID) :
    uidOfInt ((N : Int) - (i + 1 : Nat)) = left := by
  unfold uidOfInt
  unfold MAXUID at hlt
  omega

/-- **One choice.**  With the prover at hand `left + 1` are left. -/
theorem chooseSelfish_cases {i left c : Nat} (hN : N = i + (left + 1)) (hlt : N < MAXUID)
    (h0 : 0 ≤ numself.toInt) (res : ℚ) :
    chooseSelfish N numself res (i + 1) c = (true, c + 1) ∧ c < numself.toInt.toNat ∨
      chooseSelfish N numself res (i + 1) c = (false, c) ∧ numself.toInt.toNat - c ≤ left := by
  unfold chooseSelfish
  rw [sizeOfInt_numself h0, uidOfInt_left hN hlt]
  split
  · next hc =>
    rw [sizeOfInt_sub h0 hc]
    split
    · exact .inl ⟨rfl, hc⟩
    · next hno =>
      rw [not_or, Nat.not_lt] at hno
      exact .inr ⟨rfl, hno.2⟩
  · next hc => exact .inr ⟨rfl, by omega⟩

/-- **The provers from index `i` on.** -/
theorem chooseAll_count (huid : ∀ i < N, initUID i = i + 1) (hlt : N < MAXUID)
    (h0 : 0 ≤ numself.toInt) : ∀ (left i c : Nat), N = i + left →
      ((chooseAll N numself residual (List.range' i left) c).1.count true =
          min (numself.toInt.toNat - c) left ∧
        (chooseAll N numself residual (List.range' i left) c).2 =
          c + min (numself.toInt.toNat - c) left) ∧
      (chooseAll N numself residual (List.range' i left) c).1.length = left := by
  intro left
  induction left with
  | zero =>
    intro i c _
    exact ⟨⟨(Nat.min_zero _).symm, by rw [Nat.min_zero]; rfl⟩, rfl⟩
  | succ left ih =>
    intro i c hN
    have huid := huid i (by omega)
    rw [List.range'_succ, chooseAll, huid]
    rcases chooseSelfish_cases hN hlt h0 (residual i) (c := c) with ⟨he, hc⟩ | ⟨he, hc⟩
    · obtain ⟨⟨hcount, hself⟩, hlen⟩ := ih (i + 1) (c + 1) (by omega)
      rw [he]
      dsimp only
      rw [List.count_cons_self, hcount, hself, List.length_cons, hlen]
      omega
    · obtain ⟨⟨hcount, hself⟩, hlen⟩ := ih (i + 1) c (by omega)
      rw [he]
      dsimp only
      rw [List.count_cons_of_ne (by decide), hcount, hself, List.length_cons, hlen]
      omega

theorem lt_maxuid_of_uid (huid : ∀ i < N, initUID i = i + 1) : N < MAXUID := by
  rcases Nat.eq_zero_or_pos N with rfl | hpos
  · decide
  · calc N = N - 1 + 1 := by omega
      _ = initUID (N - 1) := (huid (N - 1) (by omega)).symm
      _ < MAXUID := Nat.mod_lt _ (by decide)

end

/-! ## The choice within `initialize` -/

/-- `initialize` chooses prover by prover. -/
theorem initializeList_selfish {fuel : Nat} {r : RunConfig} {indices : List Nat} {s s' : Statics}
    {provers : List InitState} (h : initializeList fuel r indices s = some (provers, s')) :
    chooseAll r.numProvers r.numself r.residual indices s.selfcount =
      (provers.map (·.selfish), s'.selfcount) := by
  induction indices generalizing s provers with
  | nil =>
    obtain ⟨rfl, rfl⟩ := Prod.mk.inj (Option.some.inj h)
    rfl
  | cons index rest ih =>
    rw [initializeList] at h
    split at h
    · cases h
    next prover s₁ hone =>
    obtain ⟨⟨others, s₂⟩, hrest, he⟩ := Option.map_eq_some_iff.mp h
    obtain ⟨rfl, rfl⟩ := Prod.mk.inj he
    unfold initializeProver at hone
    split at hone
    · cases hone
    split at hone
    · cases hone
    obtain ⟨rfl, rfl⟩ := Prod.mk.inj (Option.some.inj hone)
    have hih := ih hrest
    change chooseAll _ _ _ rest (chooseSelfish _ _ _ (initUID index) s.selfcount).2 = _ at hih
    rw [chooseAll_cons, hih]
    rfl

/-- **As many provers are selfish as asked for**, or all if there are fewer, in the first run
of a process.  The provers are initialised in the order of their indices, and `UId` is
`index + 1`. -/
theorem selfish_exact (r : RunConfig) (huid : ∀ index < r.numProvers, initUID index = index + 1)
    (h0 : 0 ≤ r.numself.toInt) :
    ((chooseAll r.numProvers r.numself r.residual (List.range r.numProvers) 0).1.count true =
        min r.numself.toInt.toNat r.numProvers ∧
      (chooseAll r.numProvers r.numself r.residual (List.range r.numProvers) 0).2 =
        min r.numself.toInt.toNat r.numProvers) ∧
    ∀ fuel provers s, initializeAll fuel r {} = some (provers, s) →
      (provers.map (·.selfish)).count true = min r.numself.toInt.toNat r.numProvers ∧
        s.selfcount = min r.numself.toInt.toNat r.numProvers := by
  have hchoose : (chooseAll r.numProvers r.numself r.residual (List.range r.numProvers) 0).1.count
      true = min r.numself.toInt.toNat r.numProvers ∧
      (chooseAll r.numProvers r.numself r.residual (List.range r.numProvers) 0).2 =
        min r.numself.toInt.toNat r.numProvers := by
    obtain ⟨⟨hcount, hself⟩, -⟩ := @chooseAll_count r.numProvers r.numself r.residual huid
      (lt_maxuid_of_uid huid) h0 r.numProvers 0 0 (by omega)
    rw [List.range_eq_range', hcount, hself]
    exact ⟨rfl, Nat.zero_add _⟩
  refine ⟨hchoose, fun fuel provers s h => ?_⟩
  have he := initializeList_selfish h
  change chooseAll _ _ _ _ 0 = _ at he
  rw [he] at hchoose
  exact hchoose

/-- Three provers with little energy, one of them selfish. -/
def oneSelfish : RunConfig where
  numProvers := 3
  numself := 1
  keyPoolSize := 1
  keyRingSize := 1
  residual := fun _ => 100
  rng := ⟨fun call n => call % n, fun _ _ hn => Nat.mod_lt _ hn⟩

theorem selfish_exact_three :
    (chooseAll 3 1 (fun _ => 100) (List.range 3) 0).1.count true = 1 :=
  (selfish_exact oneSelfish (by decide) (by decide)).1.1

end Fadia
