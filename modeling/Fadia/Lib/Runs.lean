import Mathlib

/-!
# Runs of a transition system given by a step function

A system is a function `step : ι → σ → Option σ`: the input `ι` resolves every
choice of the environment, and `none` says that the input cannot happen in that
state.  `Reaches step ok s₀ s` collects the runs all of whose steps meet the
condition `ok`.  The rules are the invariant rule, weakening and strengthening of
the condition, evaluation of a concrete run, forward simulation, and the descent of
a measure.
-/

namespace Runs

variable {σ ι τ κ : Type}

/-- Some run leads from `s₀` to `s`, each step meeting `ok` where it is taken. -/
inductive Reaches (step : ι → σ → Option σ) (ok : ι → σ → Prop) (s₀ : σ) : σ → Prop
  | refl : Reaches step ok s₀ s₀
  | tail {s s' : σ} {i : ι} :
      Reaches step ok s₀ s → ok i s → step i s = some s' → Reaches step ok s₀ s'

/-- The run along a list of inputs. -/
def run (step : ι → σ → Option σ) : List ι → σ → Option σ
  | [], s => some s
  | i :: is, s =>
    match step i s with
    | some s' => run step is s'
    | none => none

/-- The step where the condition holds. -/
def guarded (step : ι → σ → Option σ) (ok : ι → σ → Prop) [∀ i s, Decidable (ok i s)] (i : ι)
    (s : σ) : Option σ :=
  if ok i s then step i s else none

section
variable {step : ι → σ → Option σ} {ok ok' : ι → σ → Prop} {s₀ s s' : σ}

/-- **Invariant rule.** -/
theorem Reaches.invariant {I : σ → Prop} (h0 : I s₀)
    (hstep : ∀ i s s', I s → ok i s → step i s = some s' → I s')
    (h : Reaches step ok s₀ s) : I s := by
  induction h with
  | refl => exact h0
  | tail _ hok hs ih => exact hstep _ _ _ ih hok hs

theorem Reaches.weaken (hok : ∀ i s, ok i s → ok' i s) (h : Reaches step ok s₀ s) :
    Reaches step ok' s₀ s := by
  induction h with
  | refl => exact .refl
  | tail _ hk hs ih => exact .tail ih (hok _ _ hk) hs

/-- What an invariant says of every step holds of the steps of a run. -/
theorem Reaches.strengthen {I : σ → Prop} (h0 : I s₀)
    (hstep : ∀ i s s', I s → step i s = some s' → I s' ∧ ok' i s) (h : Reaches step ok s₀ s) :
    Reaches step (fun i s => ok i s ∧ ok' i s) s₀ s := by
  have hboth : I s ∧ Reaches step (fun i s => ok i s ∧ ok' i s) s₀ s := by
    induction h with
    | refl => exact ⟨h0, .refl⟩
    | tail _ hok hs ih =>
      obtain ⟨hI, hr⟩ := ih
      obtain ⟨hI', hok'⟩ := hstep _ _ _ hI hs
      exact ⟨hI', .tail hr ⟨hok, hok'⟩ hs⟩
  exact hboth.2

theorem Reaches.trans (h : Reaches step ok s₀ s) (h' : Reaches step ok s s') :
    Reaches step ok s₀ s' := by
  induction h' with
  | refl => exact h
  | tail _ hk hs ih => exact .tail ih hk hs

theorem reaches_of_run [∀ i s, Decidable (ok i s)] (is : List ι) (s s' : σ)
    (h : run (guarded step ok) is s = some s') : Reaches step ok s s' := by
  induction is generalizing s with
  | nil =>
    obtain rfl : s = s' := by simpa [run] using h
    exact .refl
  | cons i is ih =>
    rw [run] at h
    split at h
    · next s₁ hs =>
      rw [guarded] at hs
      split at hs
      · next hok =>
        have h1 : Reaches step ok s s₁ := .tail .refl hok hs
        exact h1.trans (ih s₁ h)
      · cases hs
    · cases h

/-- What a test of an optional value finds. -/
theorem exists_of_any {o : Option σ} {test : σ → Bool} (h : o.any test = true) :
    ∃ s, o = some s ∧ test s = true := by
  cases o with
  | none => cases h
  | some s => exact ⟨s, rfl, h⟩

/-- A run along a list of inputs whose last state meets a test. -/
theorem exists_of_run (step : ι → σ → Option σ) (ok : ι → σ → Prop)
    [∀ i s, Decidable (ok i s)] (is : List ι) (s : σ) (test : σ → Bool)
    (h : (run (guarded step ok) is s).any test = true) :
    ∃ s', Reaches step ok s s' ∧ test s' = true := by
  obtain ⟨s', hs, ht⟩ := exists_of_any h
  exact ⟨s', reaches_of_run is s s' hs, ht⟩

/-- **Forward simulation.**  Where every step is matched by a run of the other system between
related states, every reachable state is related to a reachable one. -/
theorem Reaches.simulate {step' : κ → τ → Option τ} {ok' : κ → τ → Prop} {R : σ → τ → Prop}
    {t₀ : τ} (h0 : R s₀ t₀)
    (hR : ∀ i s s' t, R s t → ok i s → step i s = some s' →
      ∃ t', Reaches step' ok' t t' ∧ R s' t')
    (h : Reaches step ok s₀ s) : ∃ t, Reaches step' ok' t₀ t ∧ R s t := by
  induction h with
  | refl => exact ⟨t₀, .refl, h0⟩
  | tail _ hok hs ih =>
    obtain ⟨t, ht, hrel⟩ := ih
    obtain ⟨t', ht', hrel'⟩ := hR _ _ _ t hrel hok hs
    exact ⟨t', ht.trans ht', hrel'⟩

/-- **Descent.**  Where every state that is not final has a step that keeps the invariant and
lowers the measure, a final state can be reached. -/
theorem exists_final {I final : σ → Prop} (measure : σ → Nat)
    (hstep : ∀ s, I s → ¬ final s →
      ∃ i s', ok i s ∧ step i s = some s' ∧ I s' ∧ measure s' < measure s)
    (h : I s) : ∃ s', Reaches step ok s s' ∧ I s' ∧ final s' := by
  induction hm : measure s using Nat.strong_induction_on generalizing s with
  | _ n ih =>
    by_cases hf : final s
    · exact ⟨s, .refl, h, hf⟩
    · obtain ⟨i, s₁, hok, hs, h₁, hlt⟩ := hstep s h hf
      obtain ⟨s', hrun, h', hf'⟩ := ih (measure s₁) (hm ▸ hlt) h₁ rfl
      exact ⟨s', (Reaches.tail .refl hok hs).trans hrun, h', hf'⟩

end

end Runs
