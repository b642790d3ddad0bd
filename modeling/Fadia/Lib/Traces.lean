import Mathlib

/-!
# Traces with the newest event first

What happened so far is a list whose head is the last event.  `AtEach x Q` says
that `Q` held of the past each time `x` happened; `Answered x R` says that since
each `x` something that meets `R` has happened; `since s` is what happened after
the last `s`.  Each comes with the rule for one more event.
-/

namespace Traces

variable {α : Type}

/-- Whenever `x` happened, `Q` held of what had happened before. -/
def AtEach (x : α) (Q : List α → Prop) (tr : List α) : Prop :=
  ∀ later past, tr = later ++ x :: past → Q past

/-- Since each `x`, an event that meets `R` has happened. -/
def Answered (x : α) (R : α → Prop) (tr : List α) : Prop :=
  ∀ later past, tr = later ++ x :: past → ∃ y ∈ later, R y

/-- What happened after the last `s`. -/
def since [DecidableEq α] (s : α) (tr : List α) : List α := tr.takeWhile (· ≠ s)

section
variable {x y : α} {Q : List α → Prop} {R : α → Prop} {tr : List α}

@[simp] theorem atEach_nil : AtEach x Q [] := by
  intro later past h
  simp at h

theorem atEach_cons : AtEach x Q (y :: tr) ↔ (y = x → Q tr) ∧ AtEach x Q tr := by
  constructor
  · intro h
    refine ⟨fun hy => h [] tr (by rw [hy]; rfl), fun later past htr => ?_⟩
    exact h (y :: later) past (by rw [htr]; rfl)
  · rintro ⟨hy, h⟩ later past htr
    cases later with
    | nil =>
      obtain ⟨rfl, rfl⟩ : y = x ∧ tr = past := by simpa using htr
      exact hy rfl
    | cons z later => exact h later past (by simpa using (List.cons.inj htr).2)

theorem atEach_of_not_mem (h : x ∉ tr) : AtEach x Q tr := by
  intro later past htr
  exact absurd (by rw [htr]; simp) h

theorem AtEach.cons_of_ne (h : AtEach x Q tr) (hy : y ≠ x) : AtEach x Q (y :: tr) :=
  atEach_cons.mpr ⟨fun e => absurd e hy, h⟩

@[simp] theorem answered_nil : Answered x R [] := by
  intro later past h
  simp at h

theorem Answered.cons_of_ne (h : Answered x R tr) (hy : y ≠ x) : Answered x R (y :: tr) := by
  intro later past htr
  cases later with
  | nil => exact absurd (List.cons.inj htr).1 hy
  | cons z later =>
    obtain ⟨w, hw, hR⟩ := h later past (List.cons.inj htr).2
    exact ⟨w, List.mem_cons_of_mem _ hw, hR⟩

/-- An event that meets `R` answers all that is open. -/
theorem answered_cons_of_meets (hy : y ≠ x) (hR : R y) : Answered x R (y :: tr) := by
  intro later past htr
  cases later with
  | nil => exact absurd (List.cons.inj htr).1 hy
  | cons z later =>
    obtain rfl : y = z := (List.cons.inj htr).1
    exact ⟨y, List.mem_cons_self, hR⟩

end

section
variable [DecidableEq α] {s y : α} {tr : List α}

@[simp] theorem since_self : since s (s :: tr) = [] := by simp [since]

theorem since_cons (h : y ≠ s) : since s (y :: tr) = y :: since s tr := by simp [since, h]

end

/-! ## The events of one kind -/

section
variable {x s : α} {Q : List α → Prop} {t : α → Bool}

/-- A property of the events of one kind can be read off these alone. -/
theorem atEach_filter (hx : t x = true) :
    ∀ tr : List α, AtEach x (fun past => Q (past.filter t)) tr ↔ AtEach x Q (tr.filter t)
  | [] => by simp
  | y :: tr => by
    rw [atEach_cons, atEach_filter hx tr]
    cases hy : t y with
    | true => rw [List.filter_cons_of_pos hy, atEach_cons]
    | false =>
      rw [List.filter_cons_of_neg (by simp [hy])]
      refine and_iff_right fun h => ?_
      rw [h, hx] at hy
      cases hy

theorem since_filter [DecidableEq α] (hs : t s = true) :
    ∀ tr : List α, since s (tr.filter t) = (since s tr).filter t
  | [] => rfl
  | y :: tr => by
    by_cases he : y = s
    · rw [he, List.filter_cons_of_pos hs, since_self, since_self, List.filter_nil]
    cases hy : t y with
    | true =>
      rw [List.filter_cons_of_pos hy, since_cons he, since_cons he, List.filter_cons_of_pos hy,
        since_filter hs tr]
    | false =>
      rw [List.filter_cons_of_neg (by simp [hy]), since_cons he,
        List.filter_cons_of_neg (by simp [hy]), since_filter hs tr]

end

end Traces
