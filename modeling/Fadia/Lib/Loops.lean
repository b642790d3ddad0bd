import Mathlib

/-!
# Loops that stop on exact equality

`doWhile body again` is `do body while (again)`, run for as many passes as there is fuel;
`none` means that it has not stopped by then.  It stops if some pass ends the loop
(`doWhile_stops_iff`).

A loop that collects values one by one until it has exactly `k` of them stops if there are
`k` values that keep coming (`exists_card_eq`): the size never skips a number, and as long as
it is too small some value that is missing will come.
-/

namespace Loops

section
variable {σ : Type}

def doWhile (body : σ → σ) (again : σ → Bool) : ℕ → σ → Option σ
  | 0, _ => none
  | fuel + 1, s => if again (body s) then doWhile body again fuel (body s) else some (body s)

variable {body : σ → σ} {again : σ → Bool} {s t t' : σ} {fuel fuel' : ℕ}

/-- **What a loop returns**: the state behind the first pass that ends it. -/
theorem doWhile_eq_some_iff : doWhile body again fuel s = some t ↔
    ∃ n < fuel, body^[n + 1] s = t ∧ again t = false ∧ ∀ m < n, again (body^[m + 1] s) = true := by
  induction fuel generalizing s with
  | zero =>
    refine iff_of_false (fun h => by cases h) ?_
    rintro ⟨n, hn, -⟩
    exact absurd hn (Nat.not_lt_zero n)
  | succ fuel ih =>
    rw [doWhile]
    cases hag : again (body s) with
    | false =>
      rw [if_neg (by simp)]
      constructor
      · intro h
        obtain rfl := Option.some.inj h
        exact ⟨0, Nat.succ_pos _, rfl, hag, fun m hm => absurd hm (Nat.not_lt_zero m)⟩
      · rintro ⟨n, -, rfl, -, hbefore⟩
        rcases Nat.eq_zero_or_pos n with rfl | hpos
        · rfl
        · cases hag.symm.trans (hbefore 0 hpos)
    | true =>
      rw [if_pos rfl, ih]
      constructor
      · rintro ⟨n, hn, ht, hstop, hbefore⟩
        refine ⟨n + 1, Nat.succ_lt_succ hn, ht, hstop, fun m hm => ?_⟩
        rcases Nat.eq_zero_or_pos m with rfl | hpos
        · exact hag
        · obtain ⟨j, rfl⟩ : ∃ j, m = j + 1 := ⟨m - 1, by omega⟩
          exact hbefore j (Nat.lt_of_succ_lt_succ hm)
      · rintro ⟨n, hn, ht, hstop, hbefore⟩
        rcases Nat.eq_zero_or_pos n with rfl | hpos
        · obtain rfl : body s = t := ht
          cases hag.symm.trans hstop
        · obtain ⟨j, rfl⟩ : ∃ j, n = j + 1 := ⟨n - 1, by omega⟩
          exact ⟨j, Nat.lt_of_succ_lt_succ hn, ht, hstop, fun m hm =>
            hbefore (m + 1) (Nat.succ_lt_succ hm)⟩

/-- **A loop stops** if some pass ends it. -/
theorem doWhile_stops_iff : (∃ fuel t, doWhile body again fuel s = some t) ↔
    ∃ n, again (body^[n + 1] s) = false := by
  constructor
  · rintro ⟨fuel, t, h⟩
    obtain ⟨n, -, rfl, hstop, -⟩ := doWhile_eq_some_iff.mp h
    exact ⟨n, hstop⟩
  · intro h
    refine ⟨Nat.find h + 1, _, doWhile_eq_some_iff.mpr ⟨Nat.find h, Nat.lt_succ_self _, rfl,
      Nat.find_spec h, fun m hm => ?_⟩⟩
    simpa using Nat.find_min h hm

theorem doWhile_mono (h : doWhile body again fuel s = some t) (hle : fuel ≤ fuel') :
    doWhile body again fuel' s = some t := by
  obtain ⟨n, hn, ht⟩ := doWhile_eq_some_iff.mp h
  exact doWhile_eq_some_iff.mpr ⟨n, hn.trans_le hle, ht⟩

/-- **Two loops in step.**  Related states lead to related results. -/
theorem doWhile_rel {R : σ → σ → Prop} (hbody : ∀ s s', R s s' → R (body s) (body s'))
    (hagain : ∀ s s', R s s' → again s = again s') (h : R s t) :
    Option.Rel R (doWhile body again fuel s) (doWhile body again fuel t) := by
  induction fuel generalizing s t with
  | zero => exact .none
  | succ fuel ih =>
    have hnext := hbody s t h
    rw [doWhile, doWhile, hagain _ _ hnext]
    split
    · exact ih hnext
    · exact .some hnext

/-- **Invariant rule.** -/
theorem doWhile_invariant {I : σ → Prop} (h0 : I s) (hbody : ∀ s, I s → I (body s))
    (h : doWhile body again fuel s = some t) : I t ∧ again t = false := by
  obtain ⟨n, -, rfl, hstop, -⟩ := doWhile_eq_some_iff.mp h
  refine ⟨?_, hstop⟩
  exact Function.Iterate.rec I h0 hbody (n + 1)

end

/-! ## Collecting -/

/-- A size that grows by at most one and does not stay below `k` takes the value `k`. -/
theorem exists_eq_of_grows {size : ℕ → ℕ} {k : ℕ} (h0 : size 0 ≤ k)
    (hstep : ∀ i, size (i + 1) ≤ size i + 1)
    (hgrow : ∀ i, size i < k → ∃ j, i < j ∧ size i < size j) : ∃ i, size i = k := by
  have key : ∀ d, size 0 + d ≤ k → ∃ i, size i = size 0 + d := by
    intro d
    induction d with
    | zero => exact fun _ => ⟨0, rfl⟩
    | succ d ih =>
      intro hd
      obtain ⟨i, hi⟩ := ih (by omega)
      have hex : ∃ j, i < j ∧ size i < size j := hgrow i (by omega)
      -- the first place behind `i` with a larger size
      obtain ⟨hlt, hsize⟩ := Nat.find_spec hex
      refine ⟨Nat.find hex, ?_⟩
      obtain ⟨j, hj⟩ : ∃ j, Nat.find hex = j + 1 := ⟨Nat.find hex - 1, by omega⟩
      have hle : size j ≤ size i := by
        rcases Nat.eq_or_lt_of_le (show i ≤ j by omega) with rfl | hij
        · exact Nat.le_refl _
        · have hmin := Nat.find_min hex (show j < Nat.find hex by omega)
          exact Nat.le_of_not_lt fun hlt => hmin ⟨hij, hlt⟩
      have := hstep j
      rw [hj] at hsize ⊢
      omega
  obtain ⟨i, hi⟩ := key (k - size 0) (by omega)
  exact ⟨i, by omega⟩

/-- **Collecting** one value after the other, of which each in `A` keeps coming. -/
theorem exists_card_eq {κ : Type} [DecidableEq κ] {S : ℕ → Finset κ} {A : Finset κ} {k : ℕ}
    (hsub : ∀ i, S i ⊆ S (i + 1)) (hcard : ∀ i, (S (i + 1)).card ≤ (S i).card + 1)
    (hfair : ∀ a ∈ A, ∀ n, ∃ i ≥ n, a ∈ S (i + 1)) (h0 : (S 0).card ≤ k) (hk : k ≤ A.card) :
    ∃ i, (S i).card = k := by
  refine exists_eq_of_grows h0 hcard fun i hi => ?_
  have hmono : Monotone S := monotone_nat_of_le_succ hsub
  obtain ⟨a, ha, hmiss⟩ : ∃ a ∈ A, a ∉ S i := by
    by_contra hall
    push Not at hall
    have := Finset.card_le_card (show A ⊆ S i from hall)
    omega
  obtain ⟨j, hj, hin⟩ := hfair a ha i
  refine ⟨j + 1, by omega, Finset.card_lt_card ⟨hmono (by omega), fun hback => hmiss (hback hin)⟩⟩

end Loops
