import Mathlib

/-!
# Counting in a list of lists

How often `x` occurs in `l.flatMap f` when an element of `l` is found, removed or
replaced, and a sum over distinct elements of which one changes.
-/

namespace Counting

variable {α β : Type} [BEq β]

section
variable (f : α → List β) (x : β) {l l' : List α}

/-- What is found in a list and what is left of it count for no more than the list. -/
theorem count_flatMap_find? {test : α → Bool} {a : α} (h : l.find? test = some a) :
    (f a).count x + ((l.filter fun b => !test b).flatMap f).count x ≤ (l.flatMap f).count x := by
  have hmem : a ∈ l.filter test := List.mem_filter.mpr ⟨List.mem_of_find?_eq_some h,
    List.find?_some h⟩
  have hsplit := List.filter_append_perm test l
  have hperm := (hsplit.flatMap_right f).count_eq x
  have hsub := ((List.singleton_sublist.mpr hmem).flatMap f).count_le x
  rw [List.flatMap_append, List.count_append] at hperm
  rw [List.flatMap_cons, List.flatMap_nil, List.append_nil] at hsub
  omega

/-- An element and what is left behind it count for the whole list. -/
theorem count_flatMap_erase [BEq α] [LawfulBEq α] {a : α} (h : a ∈ l) :
    (f a).count x + ((l.erase a).flatMap f).count x = (l.flatMap f).count x := by
  have hperm := ((List.perm_cons_erase h).flatMap_right f).count_eq x
  rw [List.flatMap_cons, List.count_append] at hperm
  exact hperm.symm

theorem count_flatMap_le (h : l'.Sublist l) : (l'.flatMap f).count x ≤ (l.flatMap f).count x :=
  (h.flatMap f).count_le x

end

section
variable {f g : α → Nat} {a : α}

/-- Two sums that differ at one of the elements. -/
theorem sum_map_of_ne {l : List α} (hn : l.Nodup) (ha : a ∈ l)
    (h : ∀ b ∈ l, b ≠ a → f b = g b) : (l.map f).sum + g a = (l.map g).sum + f a := by
  induction l with
  | nil => cases ha
  | cons b l ih =>
    obtain ⟨hb, hn⟩ := List.nodup_cons.mp hn
    rw [List.map_cons, List.map_cons, List.sum_cons, List.sum_cons]
    rcases List.mem_cons.mp ha with rfl | ha
    · have hrest : l.map f = l.map g := List.map_congr_left fun c hc =>
        h c (List.mem_cons_of_mem _ hc) fun he => hb (he ▸ hc)
      rw [hrest]
      omega
    · have hba : f b = g b := h b List.mem_cons_self fun he => hb (he ▸ ha)
      have := ih hn ha fun c hc => h c (List.mem_cons_of_mem _ hc)
      omega

/-- A sum with a positive value has a positive summand. -/
theorem exists_pos_of_sum_map {l : List α} (h : 0 < (l.map f).sum) : ∃ b ∈ l, 0 < f b := by
  by_contra hno
  have hzero : ∀ n ∈ l.map f, n = 0 := by
    intro n hn
    obtain ⟨b, hb, rfl⟩ := List.mem_map.mp hn
    exact Nat.eq_zero_of_not_pos fun hpos => hno ⟨b, hb, hpos⟩
  rw [List.sum_eq_zero hzero] at h
  exact Nat.lt_irrefl 0 h

/-- A sum whose summands are 0 but at one element. -/
theorem sum_map_le {l : List α} (hn : l.Nodup) (h : ∀ b ∈ l, b ≠ a → f b = 0) :
    (l.map f).sum ≤ f a := by
  by_cases ha : a ∈ l
  · have hsum := sum_map_of_ne (f := f) (g := fun _ => 0) hn ha h
    have hzero : (l.map fun _ => 0).sum = 0 := by simp
    omega
  · have hzero : ∀ n ∈ l.map f, n = 0 := by
      intro n hn
      obtain ⟨b, hb, rfl⟩ := List.mem_map.mp hn
      exact h b hb fun he => ha (he ▸ hb)
    rw [List.sum_eq_zero hzero]
    exact Nat.zero_le _

end

end Counting
