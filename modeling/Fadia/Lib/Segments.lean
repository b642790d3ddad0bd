import Mathlib

/-!
# Lists cut into groups by separators

Generic in the element type, the separator test `sep` and the accumulation `op`.

* `openTail sep l` is the run after the last separator, `closedPart sep l` what
  stands before it; `closedPart ++ openTail = l`.
* `groups sep l` are the non-empty runs between separators, in order, and `closedGroups`
  those that a separator closes; in a `Filled` list none of the latter is empty.
* `total op e f g` accumulates `f` over a group; `sums` does so group by group.

A list whose open tail is empty is *closed*: `groups` and `sums` distribute over
an append on its right (`groups_append`, `sums_append`).
-/

namespace Segments

section Groups
variable {α : Type} (sep : α → Bool)

def openTail (l : List α) : List α := l.rtakeWhile fun a => !sep a

def closedPart (l : List α) : List α := l.rdropWhile fun a => !sep a

def groups (l : List α) : List (List α) := (l.splitOnP sep).filter fun g => !g.isEmpty

/-- Close the open tail with `a` once it holds `k` elements. -/
def closeAt (k : Nat) (a : α) (l : List α) : List α :=
  if (openTail sep l).length = k then l ++ [a] else l

/-- Nothing stands after the last separator. -/
def Closed (l : List α) : Prop := openTail sep l = []

/-- No element is a separator. -/
def Plain (l : List α) : Prop := ∀ a ∈ l, sep a = false

variable {sep} {l l' t : List α}

variable (sep) in
@[simp] theorem closedPart_append_openTail (l : List α) :
    closedPart sep l ++ openTail sep l = l := List.rdropWhile_append_rtakeWhile

theorem openTail_plain (l : List α) : Plain sep (openTail sep l) := by
  intro a ha
  have := List.mem_rtakeWhile_imp ha
  simpa using this

theorem openTail_of_plain (h : Plain sep t) : openTail sep t = t := by
  rw [openTail, List.rtakeWhile_eq_self_iff]
  intro a ha
  simp [h a ha]

@[simp] theorem openTail_nil : openTail sep ([] : List α) = [] := rfl

theorem openTail_append_sep (l : List α) {a : α} (ha : sep a = true) :
    openTail sep (l ++ [a]) = [] := by
  rw [openTail, List.rtakeWhile_concat_neg]
  simp [ha]

theorem openTail_concat (l : List α) {a : α} (ha : sep a = false) :
    openTail sep (l ++ [a]) = openTail sep l ++ [a] := by
  rw [openTail, List.rtakeWhile_concat_pos _ _ _ (by simp [ha])]
  rfl

/-- A plain list extends the open tail. -/
theorem openTail_append_plain (l : List α) (h : Plain sep t) :
    openTail sep (l ++ t) = openTail sep l ++ t := by
  induction t using List.reverseRecOn with
  | nil => simp
  | append_singleton t a ih =>
    have ha : sep a = false := h a (by simp)
    have ht : Plain sep t := fun b hb => h b (by simp [hb])
    rw [← List.append_assoc, openTail_concat _ ha, ih ht, List.append_assoc]

theorem closed_append_sep (l : List α) {a : α} (ha : sep a = true) : Closed sep (l ++ [a]) :=
  openTail_append_sep l ha

/-- A closed list is empty or ends with a separator. -/
theorem Closed.cases (h : Closed sep l) : l = [] ∨ ∃ c a, sep a = true ∧ l = c ++ [a] := by
  induction l using List.reverseRecOn with
  | nil => exact .inl rfl
  | append_singleton c a _ =>
    refine .inr ⟨c, a, ?_, rfl⟩
    cases ha : sep a with
    | true => rfl
    | false =>
      rw [Closed, openTail_concat _ ha] at h
      simp at h

variable (sep) in
theorem closed_closedPart (l : List α) : Closed sep (closedPart sep l) := by
  rw [Closed, openTail, closedPart, List.rtakeWhile_eq_nil_iff]
  intro hl
  exact List.rdropWhile_last_not _ _ hl

/-- Appending to a closed list: the open tail is the right list's. -/
theorem openTail_append (h : Closed sep l) (r : List α) :
    openTail sep (l ++ r) = openTail sep r := by
  rcases (closed_closedPart sep r).cases with hc | ⟨c, a, ha, hc⟩
  · have hr : r = openTail sep r := by
      have := closedPart_append_openTail sep r
      rw [hc] at this; simpa using this.symm
    have hp : Plain sep r := by rw [hr]; exact openTail_plain r
    rw [openTail_append_plain _ hp, h, List.nil_append, openTail_of_plain hp]
  · have hr : r = c ++ [a] ++ openTail sep r := by
      rw [← hc]; exact (closedPart_append_openTail sep r).symm
    calc openTail sep (l ++ r) = openTail sep (l ++ c ++ [a] ++ openTail sep r) := by
          conv_lhs => rw [hr]
          simp
      _ = openTail sep r := by
          rw [openTail_append_plain _ (openTail_plain r), openTail_append_sep _ ha, List.nil_append]

theorem openTail_map {β : Type} (g : β → α) (l : List β) :
    openTail sep (l.map g) = (openTail (fun b => sep (g b)) l).map g := by
  simp [openTail, List.rtakeWhile, ← List.map_reverse, List.takeWhile_map, Function.comp_def]

/-! ## Groups -/

@[simp] theorem groups_nil : groups sep ([] : List α) = [] := by simp [groups]

theorem groups_of_plain (h : Plain sep t) : groups sep t = if t = [] then [] else [t] := by
  rw [groups, List.splitOnP_eq_singleton h]
  cases t <;> simp

theorem groups_append_sep_cons (l r : List α) {a : α} (ha : sep a = true) :
    groups sep (l ++ a :: r) = groups sep l ++ groups sep r := by
  rw [groups, List.splitOnP_append_cons l r ha, List.filter_append]
  rfl

theorem groups_append_sep (l : List α) {a : α} (ha : sep a = true) :
    groups sep (l ++ [a]) = groups sep l := by
  rw [groups_append_sep_cons l [] ha, groups_nil, List.append_nil]

/-- Groups of a list standing after a closed one. -/
theorem groups_append (h : Closed sep l) (r : List α) :
    groups sep (l ++ r) = groups sep l ++ groups sep r := by
  rcases h.cases with rfl | ⟨c, a, ha, rfl⟩
  · simp
  · rw [List.append_assoc, List.singleton_append, groups_append_sep_cons c r ha,
      groups_append_sep c ha]

/-- The groups of `l`: those of its closed part, and its open tail if there is one. -/
theorem groups_eq (l : List α) :
    groups sep l = groups sep (closedPart sep l) ++
      (if openTail sep l = [] then [] else [openTail sep l]) := by
  have h := groups_append (closed_closedPart sep l) (openTail sep l)
  rw [closedPart_append_openTail] at h
  rw [h, groups_of_plain (openTail_plain l)]

/-! ### Closed groups -/

variable (sep) in
/-- The runs that a separator closes, empty ones included. -/
def closedGroups (l : List α) : List (List α) := (l.splitOnP sep).dropLast

theorem closedGroups_of_plain (h : Plain sep t) : closedGroups sep t = [] := by
  rw [closedGroups, List.splitOnP_eq_singleton h]
  rfl

theorem closedGroups_append_sep_cons (l r : List α) {a : α} (ha : sep a = true) :
    closedGroups sep (l ++ a :: r) = l.splitOnP sep ++ closedGroups sep r := by
  rw [closedGroups, List.splitOnP_append_cons l r ha,
    List.dropLast_append_of_ne_nil (List.splitOnP_ne_nil sep r)]
  rfl

theorem closedGroups_append (h : Closed sep l) (r : List α) :
    closedGroups sep (l ++ r) = closedGroups sep l ++ closedGroups sep r := by
  rcases h.cases with rfl | ⟨c, a, ha, rfl⟩
  · rw [List.nil_append, closedGroups_of_plain (t := []) (fun a ha => by cases ha),
      List.nil_append]
  · rw [List.append_assoc, List.singleton_append, closedGroups_append_sep_cons c r ha,
      closedGroups_append_sep_cons c [] ha,
      closedGroups_of_plain (t := []) (fun a ha => by cases ha), List.append_nil]

theorem closedGroups_append_plain (h : Plain sep t) (l : List α) :
    closedGroups sep (l ++ t) = closedGroups sep (closedPart sep l) := by
  have hpt : Plain sep (openTail sep l ++ t) := by
    intro a ha
    rcases List.mem_append.mp ha with ha | ha
    · exact openTail_plain l a ha
    · exact h a ha
  conv_lhs => rw [← closedPart_append_openTail sep l, List.append_assoc]
  rw [closedGroups_append (closed_closedPart sep l), closedGroups_of_plain hpt, List.append_nil]

variable (sep) in
theorem closedGroups_closedPart (l : List α) :
    closedGroups sep (closedPart sep l) = closedGroups sep l := by
  have hnil : Plain sep [] := fun a ha => by cases ha
  have h := closedGroups_append_plain hnil l
  rw [List.append_nil] at h
  exact h.symm

variable (sep) in
/-- The runs of a list: the closed ones and the open tail. -/
theorem splitOnP_eq (l : List α) : l.splitOnP sep = closedGroups sep l ++ [openTail sep l] := by
  have hplain : Plain sep (openTail sep l) := openTail_plain l
  rcases (closed_closedPart sep l).cases with hc | ⟨c, a, ha, hc⟩
  · have hl : l = openTail sep l := by
      have h := closedPart_append_openTail sep l
      rw [hc, List.nil_append] at h
      exact h.symm
    have hp : Plain sep l := hl.symm ▸ hplain
    rw [List.splitOnP_eq_singleton hp, closedGroups_of_plain hp, ← hl, List.nil_append]
  · have hl : l = c ++ a :: openTail sep l := by
      rw [List.append_cons, ← hc]
      exact (closedPart_append_openTail sep l).symm
    have hgroups : closedGroups sep l = c.splitOnP sep := by
      rw [hl, closedGroups_append_sep_cons _ _ ha, closedGroups_of_plain hplain, List.append_nil]
    rw [hgroups]
    conv_lhs => rw [hl, List.splitOnP_append_cons _ _ ha]
    rw [List.splitOnP_eq_singleton hplain]

theorem closedGroups_append_sep (l : List α) {a : α} (ha : sep a = true) :
    closedGroups sep (l ++ [a]) = closedGroups sep l ++ [openTail sep l] := by
  rw [closedGroups_append_sep_cons l [] ha, splitOnP_eq,
    closedGroups_of_plain (t := []) (fun a ha => by cases ha), List.append_nil]

theorem mem_groups {g : List α} :
    g ∈ groups sep l ↔ g ≠ [] ∧ (g ∈ closedGroups sep l ∨ g = openTail sep l) := by
  rw [groups, splitOnP_eq, List.mem_filter, List.mem_append, List.mem_singleton]
  cases g <;> simp

variable (sep) in
/-- No separator closes an empty group. -/
def Filled (l : List α) : Prop := ∀ g ∈ closedGroups sep l, g ≠ []

theorem Filled.append (h : Filled sep l) (h' : Filled sep l') (hc : Closed sep l) :
    Filled sep (l ++ l') := by
  intro g hg
  rw [closedGroups_append hc] at hg
  rcases List.mem_append.mp hg with hg | hg
  · exact h g hg
  · exact h' g hg

theorem Filled.append_plain (h : Filled sep l) (ht : Plain sep t) : Filled sep (l ++ t) := by
  intro g hg
  rw [closedGroups_append_plain ht, closedGroups_closedPart] at hg
  exact h g hg

theorem Filled.append_sep (h : Filled sep l) (ht : openTail sep l ≠ []) {a : α}
    (ha : sep a = true) : Filled sep (l ++ [a]) := by
  intro g hg
  rw [closedGroups_append_sep l ha] at hg
  rcases List.mem_append.mp hg with hg | hg
  · exact h g hg
  · rw [List.mem_singleton.mp hg]
    exact ht

theorem Filled.closedPart (h : Filled sep l) : Filled sep (closedPart sep l) := by
  intro g hg
  rw [closedGroups_closedPart] at hg
  exact h g hg

theorem Filled.closeAt (h : Filled sep l) (ht : openTail sep l ≠ []) (k : Nat) {a : α}
    (ha : sep a = true) : Filled sep (closeAt sep k a l) := by
  unfold Segments.closeAt
  split
  · exact h.append_sep ht ha
  · exact h

/-! ### Bounded groups -/

variable (sep) in
/-- Every group holds at most `k` elements, and the open tail fewer. -/
def Bounded (k : Nat) (l : List α) : Prop :=
  (∀ g ∈ groups sep l, g.length ≤ k) ∧ (openTail sep l).length < k

theorem groups_closeAt (k : Nat) {a : α} (ha : sep a = true) (l : List α) :
    groups sep (closeAt sep k a l) = groups sep l := by
  unfold closeAt
  split
  · exact groups_append_sep l ha
  · rfl

theorem bounded_closeAt {k : Nat} (hk : 0 < k) {a : α} (ha : sep a = true)
    (hg : ∀ g ∈ groups sep l, g.length ≤ k) (ht : (openTail sep l).length ≤ k) :
    Bounded sep k (closeAt sep k a l) := by
  refine ⟨by rw [groups_closeAt k ha]; exact hg, ?_⟩
  unfold closeAt
  split
  · rw [openTail_append_sep l ha]; simpa using hk
  · omega

/-! ### Groups of the images -/

end Groups

/-! ## Accumulating over groups -/

section Sums
variable {α G : Type} (op : G → G → G) (e : G) (f : α → G)

def total (l : List α) : G := l.foldr (fun a acc => op (f a) acc) e

variable (sep : α → Bool)

def sums (l : List α) : List G := (groups sep l).map (total op e f)

@[simp] theorem total_nil : total op e f ([] : List α) = e := rfl

@[simp] theorem total_cons (a : α) (l : List α) :
    total op e f (a :: l) = op (f a) (total op e f l) := rfl

theorem total_append [Std.Associative op] [Std.LawfulIdentity op e] (l l' : List α) :
    total op e f (l ++ l') = op (total op e f l) (total op e f l') := by
  induction l with
  | nil => simp [Std.LawfulLeftIdentity.left_id]
  | cons a l ih => simp [ih, Std.Associative.assoc]

theorem total_singleton [Std.LawfulIdentity op e] (a : α) : total op e f [a] = f a := by
  simp [Std.LawfulRightIdentity.right_id]

@[simp] theorem sums_nil : sums op e f sep ([] : List α) = [] := by simp [sums]

variable {sep}

theorem sums_append {l : List α} (h : Closed sep l) (r : List α) :
    sums op e f sep (l ++ r) = sums op e f sep l ++ sums op e f sep r := by
  rw [sums, groups_append h, List.map_append]
  rfl

theorem sums_closeAt (k : Nat) {a : α} (ha : sep a = true) (l : List α) :
    sums op e f sep (closeAt sep k a l) = sums op e f sep l := by
  rw [sums, groups_closeAt k ha]
  rfl

/-- The sums of `l`: those of its closed part, and its open tail's. -/
theorem sums_eq (l : List α) :
    sums op e f sep l = sums op e f sep (closedPart sep l) ++
      (if openTail sep l = [] then [] else [total op e f (openTail sep l)]) := by
  rw [sums, groups_eq, List.map_append]
  split <;> simp [sums]

end Sums

end Segments
