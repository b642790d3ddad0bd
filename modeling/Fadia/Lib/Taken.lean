import Mathlib

/-!
# A list from which some places are taken

`rest l ks` is the list `l` without the elements at the places `ks`.  Taking one more place takes
out its element (`rest_concat`), what is put behind the list stays (`rest_append`) unless it is
taken too (`rest_append_range`), and what is taken and what is left add up (`count_rest`).
-/

namespace Taken

variable {α : Type}

/-- What is left when the places `ks` are taken. -/
def rest (l : List α) (ks : List Nat) : List α :=
  (l.zipIdx.filter fun x => decide (x.2 ∉ ks)).map Prod.fst

section
variable {l l' : List α} {ks : List Nat} {k : Nat} {a : α}

theorem rest_append (h : ∀ k ∈ ks, k < l.length) : rest (l ++ l') ks = rest l ks ++ l' := by
  unfold rest
  rw [List.zipIdx_append, List.filter_append, List.map_append]
  have hall : ((l'.zipIdx (0 + l.length)).filter fun x => decide (x.2 ∉ ks)) =
      l'.zipIdx (0 + l.length) := by
    refine List.filter_eq_self.mpr fun x hx => decide_eq_true fun hin => ?_
    have hle := List.le_snd_of_mem_zipIdx hx
    have hlt := h _ hin
    omega
  rw [hall, List.zipIdx_map_fst]

theorem nodup_zipIdx (l : List α) : l.zipIdx.Nodup := by
  refine List.Nodup.of_map Prod.snd ?_
  rw [List.zipIdx_map_snd]
  exact List.nodup_range'

theorem mem_zipIdx : (a, k) ∈ l.zipIdx ↔ l[k]? = some a := by
  rw [List.mem_zipIdx_iff_getElem?]

/-- One more place is taken. -/
theorem rest_concat [DecidableEq α] (ha : l[k]? = some a) (hk : k ∉ ks) :
    (rest l ks).Perm (a :: rest l (ks ++ [k])) := by
  have hmem : (a, k) ∈ l.zipIdx.filter fun x => decide (x.2 ∉ ks) :=
    List.mem_filter.mpr ⟨mem_zipIdx.mpr ha, decide_eq_true hk⟩
  have hnodup := (nodup_zipIdx l).filter fun x => decide (x.2 ∉ ks)
  have herase : (l.zipIdx.filter fun x => decide (x.2 ∉ ks)).erase (a, k) =
      l.zipIdx.filter fun x => decide (x.2 ∉ ks ++ [k]) := by
    rw [hnodup.erase_eq_filter, List.filter_filter]
    refine List.filter_congr fun x hx => ?_
    -- the only element at the place `k` is `a`
    have hplace : x.2 = k → x = (a, k) := by
      rintro rfl
      have := mem_zipIdx.mp (show (x.1, x.2) ∈ l.zipIdx from hx)
      rw [ha] at this
      exact Prod.ext (Option.some.inj this).symm rfl
    by_cases he : x = (a, k)
    · simp [he]
    · have hne : x.2 ≠ k := fun h => he (hplace h)
      simp [he, hne]
  have hperm := (List.perm_cons_erase hmem).map Prod.fst
  rwa [herase, List.map_cons] at hperm

theorem rest_congr {ks' : List Nat} (h : ∀ k, k ∈ ks ↔ k ∈ ks') : rest l ks = rest l ks' := by
  unfold rest
  simp only [h]

/-- What is put behind the list and taken leaves what was left. -/
theorem rest_append_range :
    rest (l ++ l') (List.range' l.length l'.length ++ ks) = rest l ks := by
  unfold rest
  rw [List.zipIdx_append, List.filter_append]
  have hnew : ((l'.zipIdx (0 + l.length)).filter fun x =>
      decide (x.2 ∉ List.range' l.length l'.length ++ ks)) = [] := by
    refine List.filter_eq_nil_iff.mpr fun x hx hno => of_decide_eq_true hno ?_
    have hle := List.le_snd_of_mem_zipIdx hx
    have hlt := List.snd_lt_of_mem_zipIdx hx
    refine List.mem_append_left _ (List.mem_range'_1.mpr ?_)
    omega
  have hold : ∀ x ∈ l.zipIdx, x.2 ∉ List.range' l.length l'.length ++ ks ↔ x.2 ∉ ks := by
    intro x hx
    have hlt := List.snd_lt_of_mem_zipIdx hx
    rw [List.mem_append, List.mem_range'_1]
    have hout : ¬ (l.length ≤ x.2 ∧ x.2 < l.length + l'.length) := by omega
    rw [or_iff_right hout]
  rw [hnew, List.append_nil]
  exact congrArg _ (List.filter_congr fun x hx => by rw [decide_eq_decide]; exact hold x hx)

/-- What more places hold and what is left behind them are what was left before. -/
theorem count_rest {β μ : Type} [DecidableEq α] [BEq β] {f : α → List β} {g : μ → List β}
    {place : μ → Nat} {ms : List μ} (x : β) (h : ∀ m ∈ ms, ∃ a, l[place m]? = some a ∧ f a = g m)
    (hn : (ks ++ ms.map place).Nodup) :
    ((rest l ks).flatMap f).count x =
      (ms.flatMap g).count x + ((rest l (ks ++ ms.map place)).flatMap f).count x := by
  induction ms generalizing ks with
  | nil => simp
  | cons m ms ih =>
    obtain ⟨a, ha, hf⟩ := h m List.mem_cons_self
    rw [List.map_cons, List.append_cons] at hn ⊢
    have hfresh : place m ∉ ks := fun hin =>
      (List.nodup_append.mp (hn.sublist (List.sublist_append_left _ _))).2.2 _ hin _ (by simp) rfl
    have htaken := ((rest_concat ha hfresh).flatMap_right f).count_eq x
    have hih := ih (fun m' hm' => h m' (List.mem_cons_of_mem _ hm')) hn
    rw [List.flatMap_cons, List.count_append, hf] at htaken
    rw [List.flatMap_cons, List.count_append]
    omega

end

end Taken
