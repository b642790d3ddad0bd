import Mathlib

/-!
# Sorted lists as sets and maps

Generic in the keys and values.

* `setIntersection` is `std::set_intersection` of two sorted ranges.  Where the first one
  holds each element once, so does the result (`setIntersection_eq_filter`).
* `insertEntry` is the `insert` of a `std::map`, a list of pairs in the order of their
  keys: an entry whose key is there stays as it is.  `assignEntry` is an assignment to
  `map[key]`, which overwrites it.
-/

namespace Sorted

section
variable {α : Type} [LinearOrder α]

/-- The second range is advanced to what is not below the head of the first one. -/
def setIntersection : List α → List α → List α
  | [], _ => []
  | a :: l, r =>
    match r.dropWhile (· < a) with
    | [] => []
    | b :: r' => if a < b then setIntersection l (b :: r') else a :: setIntersection l r'

variable {l r : List α} {a b x : α}

/-- Advancing a range skips nothing from `a` on. -/
theorem mem_dropWhile_lt (hx : a ≤ x) : x ∈ r.dropWhile (· < a) ↔ x ∈ r := by
  induction r with
  | nil => exact Iff.rfl
  | cons b r ih =>
    rw [List.dropWhile_cons]
    split
    · next hb =>
      have hlt : b < a := by simpa using hb
      have hne : x ≠ b := fun he => absurd (he ▸ hx) (not_le.mpr hlt)
      rw [ih, List.mem_cons]
      exact (or_iff_right hne).symm
    · exact Iff.rfl

/-- What comes first after advancing a sorted range is its least element from `a` on. -/
theorem le_of_dropWhile_lt (hr : r.Pairwise (· ≤ ·)) (h : r.dropWhile (· < a) = b :: l) :
    a ≤ b ∧ (b :: l).Pairwise (· ≤ ·) := by
  refine ⟨?_, ?_⟩
  · have hne : r.dropWhile (· < a) ≠ [] := by simp [h]
    have hhead := List.head_dropWhile_not (· < a) hne
    simp only [h, List.head_cons, decide_eq_false_iff_not, not_lt] at hhead
    exact hhead
  · rw [← h]
    exact hr.sublist (List.dropWhile_sublist _)

/-- **The intersection** of two sorted ranges, the first without repetitions, lists what
they have in common, each once and in order. -/
theorem setIntersection_eq_filter (hl : l.Pairwise (· < ·)) (hr : r.Pairwise (· ≤ ·)) :
    setIntersection l r = l.filter (· ∈ r) := by
  induction l generalizing r with
  | nil => rfl
  | cons a l ih =>
    obtain ⟨hal, hl⟩ := List.pairwise_cons.mp hl
    have hmem : ∀ x ∈ l, (x ∈ r.dropWhile (· < a) ↔ x ∈ r) := fun x hx =>
      mem_dropWhile_lt (hal x hx).le
    have hmema : a ∈ r.dropWhile (· < a) ↔ a ∈ r := mem_dropWhile_lt (le_refl a)
    rw [setIntersection]
    cases hd : r.dropWhile (· < a) with
    | nil =>
      rw [hd] at hmema
      have hno : ∀ x ∈ l, x ∉ r := fun x hx hin => by
        have hx' := (hmem x hx).mpr hin
        rw [hd] at hx'
        cases hx'
      have hna : a ∉ r := fun hin => List.not_mem_nil (hmema.mpr hin)
      rw [List.filter_cons_of_neg (by simpa using hna)]
      exact (List.filter_eq_nil_iff.mpr fun x hx => by simpa using hno x hx).symm
    | cons b r' =>
      obtain ⟨hab, hsorted⟩ := le_of_dropWhile_lt hr hd
      rw [hd] at hmema
      dsimp only
      split
      · next hlt =>
        -- `a` is below all that is left of the second range
        have hna : a ∉ r := fun hin => by
          rcases List.mem_cons.mp (hmema.mpr hin) with he | hin
          · exact absurd he hlt.ne
          · exact absurd ((List.pairwise_cons.mp hsorted).1 a hin) (not_le.mpr hlt)
        rw [List.filter_cons_of_neg (by simpa using hna), ih hl hsorted]
        refine List.filter_congr fun x hx => ?_
        rw [← hd]
        simpa using hmem x hx
      · next hlt =>
        obtain rfl : a = b := le_antisymm hab (not_lt.mp hlt)
        have hin : a ∈ r := hmema.mp List.mem_cons_self
        rw [List.filter_cons_of_pos (by simpa using hin),
          ih hl (List.pairwise_cons.mp hsorted).2]
        refine congrArg _ (List.filter_congr fun x hx => ?_)
        have hne : x ≠ a := (hal x hx).ne'
        have hx' := hmem x hx
        rw [hd, List.mem_cons, or_iff_right hne] at hx'
        simpa using hx'

/-- What two strictly sorted ranges have in common, read off either. -/
theorem filter_mem_comm (hl : l.Pairwise (· < ·)) (hr : r.Pairwise (· < ·)) :
    l.filter (· ∈ r) = r.filter (· ∈ l) := by
  have hperm : (l.filter (· ∈ r)).Perm (r.filter (· ∈ l)) := by
    have hnodup : ∀ {l : List α}, l.Pairwise (· < ·) → l.Nodup := fun h => h.imp fun h => h.ne
    refine (List.perm_ext_iff_of_nodup ((hnodup hl).filter _) ((hnodup hr).filter _)).mpr fun x => ?_
    simp only [List.mem_filter, decide_eq_true_eq]
    exact and_comm
  exact List.Perm.eq_of_pairwise (fun x y _ _ (hxy : x < y) hyx => absurd hyx hxy.asymm)
    (hl.sublist List.filter_sublist) (hr.sublist List.filter_sublist) hperm

end

/-! ## Maps -/

section
variable {κ ν : Type} [LinearOrder κ]

def insertEntry (e : κ × ν) : List (κ × ν) → List (κ × ν)
  | [] => [e]
  | x :: l =>
    if e.1 < x.1 then e :: x :: l else if e.1 = x.1 then x :: l else x :: insertEntry e l

variable {e x : κ × ν} {l : List (κ × ν)} {k : κ}

theorem mem_insertEntry (h : x ∈ insertEntry e l) : x = e ∨ x ∈ l := by
  induction l with
  | nil => exact .inl (List.mem_singleton.mp h)
  | cons y l ih =>
    rw [insertEntry] at h
    split at h
    · exact List.mem_cons.mp h
    split at h
    · exact .inr h
    rcases List.mem_cons.mp h with rfl | h
    · exact .inr List.mem_cons_self
    · exact (ih h).imp_right (List.mem_cons_of_mem y)

theorem sorted_insertEntry (h : (l.map Prod.fst).Pairwise (· < ·)) :
    ((insertEntry e l).map Prod.fst).Pairwise (· < ·) := by
  induction l with
  | nil => exact List.pairwise_singleton _ _
  | cons y l ih =>
    obtain ⟨hy, hl⟩ := List.pairwise_cons.mp h
    rw [insertEntry]
    split
    · next hlt =>
      refine List.pairwise_cons.mpr ⟨fun k hk => ?_, h⟩
      rcases List.mem_cons.mp hk with rfl | hk
      · exact hlt
      · exact hlt.trans (hy k hk)
    split
    · exact h
    next hlt hne =>
    refine List.pairwise_cons.mpr ⟨fun k hk => ?_, ih hl⟩
    obtain ⟨x, hx, rfl⟩ := List.mem_map.mp hk
    rcases mem_insertEntry hx with rfl | hx
    · exact lt_of_le_of_ne (not_lt.mp hlt) (Ne.symm hne)
    · exact hy _ (List.mem_map_of_mem hx)

theorem mem_keys_insertEntry :
    k ∈ (insertEntry e l).map Prod.fst ↔ k = e.1 ∨ k ∈ l.map Prod.fst := by
  induction l with
  | nil => simp [insertEntry]
  | cons x l ih =>
    rw [insertEntry]
    split
    · rw [List.map_cons, List.mem_cons]
    split
    · next he =>
      rw [List.map_cons, List.mem_cons, he]
      tauto
    · rw [List.map_cons, List.mem_cons, ih, List.map_cons, List.mem_cons]
      tauto

def assignEntry (e : κ × ν) : List (κ × ν) → List (κ × ν)
  | [] => [e]
  | x :: l =>
    if e.1 < x.1 then e :: x :: l else if e.1 = x.1 then e :: l else x :: assignEntry e l

/-- An assignment gives the same keys as an insertion. -/
theorem keys_assignEntry : (assignEntry e l).map Prod.fst = (insertEntry e l).map Prod.fst := by
  induction l with
  | nil => rfl
  | cons x l ih =>
    rw [assignEntry, insertEntry]
    split
    · rfl
    split
    · next he => rw [List.map_cons, List.map_cons, he]
    · rw [List.map_cons, List.map_cons, ih]

end

end Sorted
