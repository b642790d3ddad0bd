import Fadia.Devices.Report

/-!
# What a merge and an own record do to a report

A report is read as one list of entries `(uid, counter)`, an entry with uid
`NOID` being a separator; `Holds r E` says that the two vectors of `r` are the
halves of `E`.  `mergeEntries` and `mergeProofs` say what `mergeReport` does to
the entries and to the proofs (`mergeReport_holds`, `mergeReport_proofs`).

`Aligned` says that proof `i` is the XOR of the MACs of group `i`, that no group
exceeds `aggsize` and that the open one stays below it.  A merge keeps two
aligned reports aligned (`merge_aligned`); an own record keeps alignment exactly
when the length test of `addOwnReport` agrees with the open tail
(`addOwn_aligned_iff`).
-/

namespace Fadia

open Segments

/-- The entry is a separator. -/
def sepEntry (x : Uid × Nat) : Bool := isSep x.1

def Report.entries (r : Report) : List (Uid × Nat) := r.uids.zip r.counters

/-- The vectors of `r` are the two halves of `E`. -/
def Report.Holds (r : Report) (E : List (Uid × Nat)) : Prop :=
  r.uids = E.map Prod.fst ∧ r.counters = E.map Prod.snd

def mergeEntries (k : Nat) (E E' : List (Uid × Nat)) : List (Uid × Nat) :=
  let t := openTail sepEntry E
  if t = [] then E ++ E'
  else
    let F := closedPart sepEntry E ++ E'
    if (openTail sepEntry F).length % k + t.length ≤ k then closeAt sepEntry k (NOID, 0) (F ++ t)
    else F ++ (NOID, 0) :: t

def mergeProofs (k : Nat) (E E' : List (Uid × Nat)) (ps ps' : List Mac) : List Mac :=
  let t := openTail sepEntry E
  if t = [] then ps ++ ps'
  else
    let rem := (openTail sepEntry (closedPart sepEntry E ++ E')).length % k
    if rem + t.length ≤ k ∧ rem ≠ 0 then xorBack (ps.dropLast ++ ps') (ps.getLastD 0)
    else ps.dropLast ++ ps' ++ [ps.getLastD 0]

/-! ## The entries -/

section Entries
variable {r : Report} {E : List (Uid × Nat)}

theorem Report.Holds.entries_eq (h : r.Holds E) : r.entries = E := by
  rw [Report.entries, h.1, h.2, ← List.unzip_fst, ← List.unzip_snd, List.zip_unzip]

theorem Report.Holds.length_eq (h : r.Holds E) : r.uids.length = E.length := by
  rw [h.1, List.length_map]

theorem Report.Holds.uncompleted_eq (h : r.Holds E) :
    uncompleted r.uids = (openTail sepEntry E).length := by
  rw [uncompleted, h.1, openTail_map, List.length_map]
  rfl

/-- The index `a` at which the loops of the merge stop. -/
theorem Report.Holds.cut_eq (h : r.Holds E) :
    r.uids.length - uncompleted r.uids = (closedPart sepEntry E).length := by
  have := congrArg List.length (closedPart_append_openTail sepEntry E)
  rw [List.length_append] at this
  rw [h.uncompleted_eq, h.length_eq]
  omega

theorem take_closedPart (E : List (Uid × Nat)) :
    E.take (closedPart sepEntry E).length = closedPart sepEntry E := by
  have h : (closedPart sepEntry E ++ openTail sepEntry E).take (closedPart sepEntry E).length =
      closedPart sepEntry E := List.take_left
  rwa [closedPart_append_openTail] at h

theorem drop_closedPart (E : List (Uid × Nat)) :
    E.drop (closedPart sepEntry E).length = openTail sepEntry E := by
  have h : (closedPart sepEntry E ++ openTail sepEntry E).drop (closedPart sepEntry E).length =
      openTail sepEntry E := List.drop_left
  rwa [closedPart_append_openTail] at h

theorem fixProofs_holds (k : Nat) (h : r.Holds E) :
    (fixProofs k r).Holds (closeAt sepEntry k (NOID, 0) E) := by
  unfold fixProofs closeAt
  rw [h.uncompleted_eq]
  split
  · simp [Report.Holds, h.1, h.2]
  · exact h

theorem cutTail_holds (h : r.Holds E) : (cutTail r).Holds (closedPart sepEntry E) := by
  simp only [cutTail, Report.Holds, h.cut_eq]
  rw [h.1, h.2, ← List.map_take, ← List.map_take, take_closedPart]
  exact ⟨rfl, rfl⟩

theorem appendMsg_holds (h : r.Holds E) (m : UpdateReq) :
    (appendMsg r m).Holds (E ++ m.entries) := by
  simp [appendMsg, Report.Holds, h.1, h.2]

theorem attachTail_holds (k : Nat) (h : r.Holds E) (t : List (Uid × Nat)) (p : Mac) :
    (attachTail k (t.map Prod.fst) (t.map Prod.snd) p r).Holds
      (if (openTail sepEntry E).length % k + t.length ≤ k then
        closeAt sepEntry k (NOID, 0) (E ++ t) else E ++ (NOID, 0) :: t) := by
  simp only [attachTail, h.uncompleted_eq, List.length_map]
  split
  · apply fixProofs_holds
    simp [Report.Holds, h.1, h.2]
  · simp [Report.Holds, h.1, h.2]

/-- What the merge does to the entries. -/
theorem mergeReport_holds (k : Nat) (h : r.Holds E) (m : UpdateReq) :
    (mergeReport k r m).Holds (mergeEntries k E m.entries) := by
  simp only [mergeReport, mergeEntries, h.uncompleted_eq, List.length_eq_zero_iff]
  split
  · exact appendMsg_holds h m
  · have hcut := h.cut_eq
    rw [h.uncompleted_eq] at hcut
    rw [hcut, h.1, h.2, ← List.map_drop, ← List.map_drop, drop_closedPart]
    exact attachTail_holds k (appendMsg_holds (cutTail_holds h) m) _ _

theorem addOwnReport_holds (k : Nat) (mac : Uid → Nat → TreeId → Mac) (uid : Uid) (counter : Nat)
    (h : r.Holds E) :
    (addOwnReport k mac uid counter r).Holds
      (closeAt sepEntry k (NOID, 0) (E ++ [(uid, counter)])) := by
  apply fixProofs_holds
  simp [Report.Holds, h.1, h.2]

end Entries

/-! ## The wire -/

/-- The entries survive the `int` fields of the wire. -/
def OnWire (E : List (Uid × Nat)) : Prop := ∀ x ∈ E, x.1 < 2 ^ 32 ∧ x.2 < 2 ^ 31

section Wire
variable {r : Report} {E E' : List (Uid × Nat)}

/-- An entry as the receiver reads it. -/
def readBack (x : Uid × Nat) : Uid × Nat := (uidOfInt (toInt32 x.1), sizeOfInt (toInt32 x.2))

theorem fst_readBack (x : Uid × Nat) : (readBack x).1 = uidOfInt (toInt32 x.1) := by rw [readBack]

theorem snd_readBack (x : Uid × Nat) : (readBack x).2 = sizeOfInt (toInt32 x.2) := by rw [readBack]

theorem toUpdateReq_readBack (h : r.Holds E) (kind : UpKind) (src dest : Uid) (tid : TreeId)
    (kid : KeyId) : (r.toUpdateReq kind src dest tid kid).entries = E.map readBack := by
  have htake : r.counters.take r.uids.length = r.counters := by
    apply List.take_of_length_le
    rw [h.1, h.2, List.length_map, List.length_map]
  have hu : E.map (fun x => uidOfInt (toInt32 x.1)) = (E.map readBack).map Prod.fst := by
    simp only [List.map_map, Function.comp_def, fst_readBack]
  have hc : E.map (fun x => sizeOfInt (toInt32 x.2)) = (E.map readBack).map Prod.snd := by
    simp only [List.map_map, Function.comp_def, snd_readBack]
  simp only [UpdateReq.entries, Report.toUpdateReq, htake, List.map_map, Function.comp_def]
  rw [h.1, h.2, List.map_map, List.map_map]
  simp only [Function.comp_def]
  rw [hu, hc, ← List.unzip_fst, ← List.unzip_snd, List.zip_unzip]

theorem readBack_of_lt {x : Uid × Nat} (h : x.1 < 2 ^ 32 ∧ x.2 < 2 ^ 31) : readBack x = x := by
  rw [readBack, uidOfInt_toInt32 h.1, sizeOfInt_toInt32 h.2]

theorem toUpdateReq_entries (h : r.Holds E) (hE : OnWire E) (kind : UpKind) (src dest : Uid)
    (tid : TreeId) (kid : KeyId) : (r.toUpdateReq kind src dest tid kid).entries = E := by
  rw [toUpdateReq_readBack h]
  exact (List.map_congr_left fun x hx => readBack_of_lt (hE x hx)).trans (List.map_id E)

theorem toUpdateReq_proof (r : Report) (kind : UpKind) (src dest : Uid) (tid : TreeId)
    (kid : KeyId) : (r.toUpdateReq kind src dest tid kid).proof.map macOfInt = r.proofs := by
  simp [Report.toUpdateReq, Function.comp_def]

theorem mem_closeAt {k : Nat} {a x : Uid × Nat} (hx : x ∈ closeAt sepEntry k a E) :
    x ∈ E ∨ x = a := by
  unfold closeAt at hx
  split at hx
  · simpa using hx
  · exact .inl hx

theorem mem_mergeEntries {k : Nat} {x : Uid × Nat} (hx : x ∈ mergeEntries k E E') :
    x ∈ E ∨ x ∈ E' ∨ x = (NOID, 0) := by
  have hc : ∀ y, y ∈ closedPart sepEntry E ∨ y ∈ openTail sepEntry E → y ∈ E := by
    intro y hy
    rw [← closedPart_append_openTail sepEntry E]
    exact List.mem_append.mpr hy
  simp only [mergeEntries] at hx
  split at hx
  · rcases List.mem_append.mp hx with h | h
    · exact .inl h
    · exact .inr (.inl h)
  · split at hx
    · rcases mem_closeAt hx with h | h
      · simp only [List.mem_append] at h
        rcases h with (h | h) | h
        · exact .inl (hc x (.inl h))
        · exact .inr (.inl h)
        · exact .inl (hc x (.inr h))
      · exact .inr (.inr h)
    · simp only [List.mem_append, List.mem_cons] at hx
      rcases hx with (h | h) | h | h
      · exact .inl (hc x (.inl h))
      · exact .inr (.inl h)
      · exact .inr (.inr h)
      · exact .inl (hc x (.inr h))

theorem onWire_mergeEntries (k : Nat) (h : OnWire E) (h' : OnWire E') :
    OnWire (mergeEntries k E E') := by
  intro x hx
  rcases mem_mergeEntries hx with hx | hx | rfl
  · exact h x hx
  · exact h' x hx
  · norm_num

end Wire

/-! ## Counting records -/

/-- The two vectors are of one length. -/
def Report.Paired (r : Report) : Prop := r.Holds r.entries

section Counting
variable {E E' : List (Uid × Nat)} {x : Uid × Nat}

theorem count_closeAt (hx : x.1 ≠ NOID) (k : Nat) :
    (closeAt sepEntry k (NOID, 0) E).count x = E.count x := by
  unfold closeAt
  split
  · have hne : ¬ (NOID, 0) = x := fun h => hx (by rw [← h])
    rw [List.count_append, List.count_singleton, if_neg (by simpa using hne), Nat.add_zero]
  · rfl

/-- A merge keeps the records of both sides. -/
theorem count_mergeEntries (hx : x.1 ≠ NOID) (k : Nat) :
    (mergeEntries k E E').count x = E.count x + E'.count x := by
  have hne : ¬ (NOID, 0) = x := fun h => hx (by rw [← h])
  have hsplit : (closedPart sepEntry E).count x + (openTail sepEntry E).count x = E.count x := by
    rw [← List.count_append, closedPart_append_openTail]
  unfold mergeEntries
  dsimp only
  split
  · rw [List.count_append]
  · split
    · rw [count_closeAt hx, List.count_append, List.count_append]
      omega
    · rw [List.count_append, List.count_append, List.count_cons_of_ne hne]
      omega

theorem Report.Holds.paired {r : Report} (h : r.Holds E) : r.Paired := by
  rw [Paired, h.entries_eq]
  exact h

/-- The records of a report behind a merge. -/
theorem count_mergeReport {r : Report} (h : r.Paired) (hx : x.1 ≠ NOID) (k : Nat) (m : UpdateReq) :
    (mergeReport k r m).entries.count x = r.entries.count x + m.entries.count x := by
  rw [(mergeReport_holds k h m).entries_eq, count_mergeEntries hx]

/-- The records of a report behind `addOwnReport`. -/
theorem count_addOwnReport {r : Report} (h : r.Paired) (hx : x.1 ≠ NOID) (k : Nat)
    (mac : Uid → Nat → TreeId → Mac) (uid : Uid) (counter : Nat) :
    (addOwnReport k mac uid counter r).entries.count x =
      r.entries.count x + [(uid, counter)].count x := by
  rw [(addOwnReport_holds k mac uid counter h).entries_eq, count_closeAt hx, List.count_append]

end Counting

/-! ## The proofs -/

section Proofs
variable {r : Report} {E : List (Uid × Nat)}

@[simp] theorem fixProofs_proofs (k : Nat) (r : Report) : (fixProofs k r).proofs = r.proofs := by
  unfold fixProofs
  split <;> rfl

@[simp] theorem xorBack_concat (ps : List Mac) (p m : Mac) :
    xorBack (ps ++ [p]) m = ps ++ [p ^^^ m] := by
  simp [xorBack]

theorem length_xorBack (ps : List Mac) (m : Mac) : (xorBack ps m).length = ps.length := by
  induction ps using List.reverseRecOn with
  | nil => rfl
  | append_singleton ps p _ => simp

/-- What the merge does to the proofs. -/
theorem mergeReport_proofs (k : Nat) (h : r.Holds E) (m : UpdateReq) :
    (mergeReport k r m).proofs =
      mergeProofs k E m.entries r.proofs (m.proof.map macOfInt) := by
  have hF := appendMsg_holds (cutTail_holds h) m
  have hlen : (r.uids.drop (r.uids.length - uncompleted r.uids)).length =
      (openTail sepEntry E).length := by
    rw [h.cut_eq, h.1, ← List.map_drop, drop_closedPart, List.length_map]
  simp only [mergeReport, mergeProofs, h.uncompleted_eq, List.length_eq_zero_iff]
  split
  · rfl
  · rw [h.uncompleted_eq] at hlen
    simp only [attachTail, hF.uncompleted_eq, hlen]
    split
    · next hfit =>
      rw [fixProofs_proofs]
      simp only [hfit, true_and]
      rfl
    · next hfit =>
      rw [if_neg (fun hc => hfit hc.1)]
      rfl

theorem addOwnReport_proofs (k : Nat) (mac : Uid → Nat → TreeId → Mac) (uid : Uid) (counter : Nat)
    (r : Report) :
    (addOwnReport k mac uid counter r).proofs =
      if r.uids.length % k = 0 then r.proofs ++ [mac uid counter r.tid]
      else xorBack r.proofs (mac uid counter r.tid) :=
  fixProofs_proofs _ _

end Proofs

/-! ## Alignment -/

section Alignment
variable (k : Nat) (mac : Uid → Nat → TreeId → Mac) (tid : TreeId)

/-- The MAC of a record. -/
def recordMac (x : Uid × Nat) : Mac := mac x.1 x.2 tid

/-- The XOR of the MACs of a list of records. -/
abbrev macSum : List (Uid × Nat) → Mac := total (· ^^^ ·) 0 (recordMac mac tid)

/-- The proofs a list of entries should come with, one for each group. -/
abbrev groupProofs : List (Uid × Nat) → List Mac := sums (· ^^^ ·) 0 (recordMac mac tid) sepEntry

structure Aligned (E : List (Uid × Nat)) (ps : List Mac) : Prop where
  bounded : Bounded sepEntry k E
  proofs : ps = groupProofs mac tid E

variable {k mac tid} {E E' : List (Uid × Nat)} {ps ps' : List Mac}

variable (mac tid) in
theorem aligned_nil (hk : 0 < k) : Aligned k mac tid [] [] :=
  ⟨⟨by simp, by simpa using hk⟩, by simp⟩

theorem Bounded.append {F F' : List (Uid × Nat)} (hF : ∀ g ∈ groups sepEntry F, g.length ≤ k)
    (hc : Closed sepEntry F) (h : Bounded sepEntry k F') : Bounded sepEntry k (F ++ F') := by
  refine ⟨?_, by rw [openTail_append hc]; exact h.2⟩
  rw [groups_append hc]
  intro g hg
  rcases List.mem_append.mp hg with hg | hg
  · exact hF g hg
  · exact h.1 g hg

/-- Proofs of a list with a non-empty open tail. -/
theorem Aligned.proofs_open (h : Aligned k mac tid E ps) (ht : openTail sepEntry E ≠ []) :
    ps = groupProofs mac tid (closedPart sepEntry E) ++ [macSum mac tid (openTail sepEntry E)] := by
  rw [h.proofs, groupProofs, sums_eq, if_neg ht]

theorem Aligned.groups_closed (h : Aligned k mac tid E ps) :
    ∀ g ∈ groups sepEntry (closedPart sepEntry E), g.length ≤ k := by
  intro g hg
  apply h.bounded.1
  rw [groups_eq]
  exact List.mem_append_left _ hg

/-- A plain list behind any list joins its open tail. -/
theorem groups_append_plain {t : List (Uid × Nat)} (hp : Plain sepEntry t) (F : List (Uid × Nat)) :
    groups sepEntry (F ++ t) = groups sepEntry (closedPart sepEntry F) ++
      (if openTail sepEntry F ++ t = [] then [] else [openTail sepEntry F ++ t]) := by
  have hpt : Plain sepEntry (openTail sepEntry F ++ t) := by
    intro a ha
    rcases List.mem_append.mp ha with ha | ha
    · exact openTail_plain F a ha
    · exact hp a ha
  conv_lhs => rw [← closedPart_append_openTail sepEntry F, List.append_assoc]
  rw [groups_append (closed_closedPart sepEntry F), groups_of_plain hpt]

variable (mac tid) in
/-- A plain list joined to the group that `F` leaves open. -/
theorem aligned_join (hk : 0 < k) {F t : List (Uid × Nat)}
    (hF : ∀ g ∈ groups sepEntry F, g.length ≤ k) (ht : t ≠ []) (hp : Plain sepEntry t)
    (hfit : (openTail sepEntry F).length + t.length ≤ k) :
    Aligned k mac tid (closeAt sepEntry k (NOID, 0) (F ++ t))
      (if openTail sepEntry F = [] then groupProofs mac tid F ++ [macSum mac tid t]
       else xorBack (groupProofs mac tid F) (macSum mac tid t)) := by
  have hgroups := groups_append_plain hp F
  rw [if_neg (by simp [ht])] at hgroups
  have hlen : (openTail sepEntry (F ++ t)).length ≤ k := by
    rw [openTail_append_plain F hp, List.length_append]; exact hfit
  have hmem : ∀ g ∈ groups sepEntry (F ++ t), g.length ≤ k := by
    rw [hgroups]
    intro g hg
    rcases List.mem_append.mp hg with hg | hg
    · apply hF; rw [groups_eq]; exact List.mem_append_left _ hg
    · obtain rfl : g = _ := by simpa using hg
      rw [List.length_append]; exact hfit
  refine ⟨bounded_closeAt hk rfl hmem hlen, ?_⟩
  have hsum : groupProofs mac tid (closeAt sepEntry k (NOID, 0) (F ++ t)) =
      groupProofs mac tid (closedPart sepEntry F) ++ [macSum mac tid (openTail sepEntry F ++ t)] := by
    rw [groupProofs, sums_closeAt _ _ _ _ rfl]
    unfold sums
    rw [hgroups, List.map_append]
    rfl
  have heq : groupProofs mac tid F = groupProofs mac tid (closedPart sepEntry F) ++
      (if openTail sepEntry F = [] then [] else [macSum mac tid (openTail sepEntry F)]) :=
    sums_eq _ _ _ F
  rw [hsum, heq]
  by_cases ho : openTail sepEntry F = []
  · simp [ho]
  · rw [if_neg ho, if_neg ho, xorBack_concat, macSum, total_append]

/-- A plain list put behind a separator of its own. -/
theorem aligned_apart {F t : List (Uid × Nat)} (hF : ∀ g ∈ groups sepEntry F, g.length ≤ k)
    (ht : t ≠ []) (hp : Plain sepEntry t) (htk : t.length < k) :
    Aligned k mac tid (F ++ (NOID, 0) :: t) (groupProofs mac tid F ++ [macSum mac tid t]) := by
  have hsplit : groups sepEntry (F ++ (NOID, 0) :: t) = groups sepEntry F ++ [t] := by
    rw [groups_append_sep_cons F t rfl, groups_of_plain hp, if_neg ht]
  refine ⟨⟨?_, ?_⟩, ?_⟩
  · rw [hsplit]
    intro g hg
    rcases List.mem_append.mp hg with hg | hg
    · exact hF g hg
    · obtain rfl : g = t := by simpa using hg
      exact htk.le
  · rw [List.append_cons, openTail_append (closed_append_sep F rfl), openTail_of_plain hp]
    exact htk
  · unfold groupProofs sums
    rw [hsplit, List.map_append]
    rfl

/-- **A merge keeps alignment.** -/
theorem merge_aligned (hk : 0 < k) (h : Aligned k mac tid E ps) (h' : Aligned k mac tid E' ps') :
    Aligned k mac tid (mergeEntries k E E') (mergeProofs k E E' ps ps') := by
  simp only [mergeEntries, mergeProofs]
  by_cases ht : openTail sepEntry E = []
  · rw [if_pos ht, if_pos ht]
    refine ⟨Bounded.append h.bounded.1 ht h'.bounded, ?_⟩
    rw [h.proofs, h'.proofs, groupProofs, sums_append _ _ _ ht]
  · rw [if_neg ht, if_neg ht]
    have hclosed : Closed sepEntry (closedPart sepEntry E) := closed_closedPart sepEntry E
    have hplain : Plain sepEntry (openTail sepEntry E) := openTail_plain E
    have hps := h.proofs_open ht
    have hdrop : ps.dropLast = groupProofs mac tid (closedPart sepEntry E) := by rw [hps]; simp
    have hlast : ps.getLastD 0 = macSum mac tid (openTail sepEntry E) := by rw [hps]; simp
    have hF : ∀ g ∈ groups sepEntry (closedPart sepEntry E ++ E'), g.length ≤ k :=
      (Bounded.append h.groups_closed hclosed h'.bounded).1
    have hsums : groupProofs mac tid (closedPart sepEntry E ++ E') = ps.dropLast ++ ps' := by
      rw [groupProofs, sums_append _ _ _ hclosed, hdrop, h'.proofs]
    have hrem : (openTail sepEntry (closedPart sepEntry E ++ E')).length % k =
        (openTail sepEntry (closedPart sepEntry E ++ E')).length := by
      rw [openTail_append hclosed]; exact Nat.mod_eq_of_lt h'.bounded.2
    rw [hrem, hlast, ← hsums]
    by_cases hfit : (openTail sepEntry (closedPart sepEntry E ++ E')).length +
        (openTail sepEntry E).length ≤ k
    · -- the tail joins the group that the message left open
      rw [if_pos hfit]
      simp only [hfit, true_and, ne_eq, List.length_eq_zero_iff, ite_not]
      exact aligned_join mac tid hk hF ht hplain hfit
    · -- the tail stays a group of its own
      rw [if_neg hfit, if_neg (fun hc => hfit hc.1)]
      exact aligned_apart hF ht hplain h.bounded.2

/-- **An own record** keeps alignment exactly when the length test of
`addOwnReport` tells whether a group is open. -/
theorem addOwn_aligned_iff (hk : 0 < k) (h : Aligned k mac tid E ps) {x : Uid × Nat}
    (hx : sepEntry x = false) :
    Aligned k mac tid (closeAt sepEntry k (NOID, 0) (E ++ [x]))
        (if E.length % k = 0 then ps ++ [recordMac mac tid x] else xorBack ps (recordMac mac tid x)) ↔
      (E.length % k = 0 ↔ openTail sepEntry E = []) := by
  have hp : Plain sepEntry [x] := by
    intro a ha
    rw [List.mem_singleton.mp ha]
    exact hx
  have hj := aligned_join mac tid hk h.bounded.1 (List.cons_ne_nil x []) hp
    (Nat.succ_le_of_lt h.bounded.2)
  have hm : macSum mac tid [x] = recordMac mac tid x := total_singleton _ _ _ x
  rw [hm, ← h.proofs] at hj
  constructor
  · intro ha
    have hlen := congrArg List.length (ha.proofs.trans hj.proofs.symm)
    by_cases h0 : E.length % k = 0 <;> by_cases ho : openTail sepEntry E = [] <;>
      simp [h0, ho, length_xorBack] at hlen ⊢
  · intro hiff
    by_cases ho : openTail sepEntry E = []
    · rw [if_pos ho] at hj
      rwa [if_pos (hiff.mpr ho)]
    · rw [if_neg ho] at hj
      rwa [if_neg (fun h0 => ho (hiff.mp h0))]

end Alignment

/-! ## Well-formed reports -/

section WellFormed
variable (k : Nat) (mac : Uid → Nat → TreeId → Mac) (tid : TreeId)

/-- Closed groups have from 1 to `k` entries, the open tail has fewer than `k`, and each group
that is not empty has its proof, the XOR of the MACs of its records. -/
structure WellFormed (E : List (Uid × Nat)) (ps : List Mac) : Prop where
  closed : ∀ g ∈ closedGroups sepEntry E, 1 ≤ g.length ∧ g.length ≤ k
  tail : (openTail sepEntry E).length < k
  proofs : ps = (groups sepEntry E).map fun g => g.foldr (fun x acc => mac x.1 x.2 tid ^^^ acc) 0

structure Report.WellFormed (r : Report) : Prop where
  paired : r.uids.length = r.counters.length
  wellFormed : Fadia.WellFormed k mac tid r.entries r.proofs

structure UpdateReq.WellFormed (m : UpdateReq) : Prop where
  paired : m.report1.length = m.report2.length
  wellFormed : Fadia.WellFormed k mac tid m.entries (m.proof.map macOfInt)

/-- The records of a list of entries. -/
def records (E : List (Uid × Nat)) : List (Uid × Nat) := E.filter fun x => !sepEntry x

variable {k mac tid} {E E' : List (Uid × Nat)} {ps ps' : List Mac} {r : Report} {m : UpdateReq}

theorem wellFormed_iff :
    WellFormed k mac tid E ps ↔ Aligned k mac tid E ps ∧ Filled sepEntry E := by
  constructor
  · intro h
    refine ⟨⟨⟨fun g hg => ?_, h.tail⟩, h.proofs⟩, fun g hg => ?_⟩
    · rcases (mem_groups.mp hg).2 with hg | rfl
      · exact (h.closed g hg).2
      · exact h.tail.le
    · exact List.length_pos_iff.mp (h.closed g hg).1
  · rintro ⟨h, hf⟩
    refine ⟨fun g hg => ⟨List.length_pos_iff.mpr (hf g hg), ?_⟩, h.bounded.2, h.proofs⟩
    exact h.bounded.1 g (mem_groups.mpr ⟨hf g hg, .inl hg⟩)

theorem filled_mergeEntries (h : Filled sepEntry E) (h' : Filled sepEntry E')
    (ht : (openTail sepEntry E).length < k) (ht' : (openTail sepEntry E').length < k) :
    Filled sepEntry (mergeEntries k E E') := by
  unfold mergeEntries
  dsimp only
  split
  · next hno => exact h.append h' hno
  · next hne =>
    have hclosed : Closed sepEntry (closedPart sepEntry E) := closed_closedPart sepEntry E
    have hF : Filled sepEntry (closedPart sepEntry E ++ E') := h.closedPart.append h' hclosed
    have hplain : Plain sepEntry (openTail sepEntry E) := openTail_plain E
    have htail : openTail sepEntry (closedPart sepEntry E ++ E') = openTail sepEntry E' :=
      openTail_append hclosed E'
    split
    · refine (hF.append_plain hplain).closeAt ?_ k rfl
      rw [openTail_append_plain _ hplain]
      simp [hne]
    · next hover =>
      -- the tail overflows a group, so the message has left one open
      rw [htail, Nat.mod_eq_of_lt ht'] at hover
      have hopen : openTail sepEntry E' ≠ [] := by
        intro h0
        rw [h0, List.length_nil] at hover
        omega
      rw [List.append_cons]
      exact (hF.append_sep (htail ▸ hopen) rfl).append_plain hplain

theorem count_records {x : Uid × Nat} :
    (records E).count x = if x.1 = NOID then 0 else E.count x := by
  by_cases hx : x.1 = NOID
  · rw [if_pos hx]
    refine List.count_eq_zero.mpr fun hmem => ?_
    have hno := (List.mem_filter.mp hmem).2
    simp [sepEntry, isSep, hx] at hno
  · rw [if_neg hx]
    exact List.count_filter (by simpa [sepEntry, isSep] using hx)

theorem Report.WellFormed.holds (h : r.WellFormed k mac tid) : r.Holds r.entries :=
  ⟨(List.map_fst_zip h.paired.le).symm, (List.map_snd_zip h.paired.ge).symm⟩

/-- **A merge keeps a report well formed**, and its records are those of both sides. -/
theorem mergeReport_wellFormed (h : r.WellFormed k mac tid) (h' : m.WellFormed k mac tid) :
    (mergeReport k r m).WellFormed k mac tid ∧
      (records (mergeReport k r m).entries).Perm (records r.entries ++ records m.entries) := by
  have hE := mergeReport_holds k h.holds m
  have hk : 0 < k := Nat.zero_lt_of_lt h.wellFormed.tail
  obtain ⟨ha, hf⟩ := wellFormed_iff.mp h.wellFormed
  obtain ⟨ha', hf'⟩ := wellFormed_iff.mp h'.wellFormed
  refine ⟨⟨?_, ?_⟩, ?_⟩
  · rw [hE.1, hE.2, List.length_map, List.length_map]
  · rw [hE.entries_eq, mergeReport_proofs k h.holds]
    refine wellFormed_iff.mpr ⟨merge_aligned hk ha ha', ?_⟩
    exact filled_mergeEntries hf hf' h.wellFormed.tail h'.wellFormed.tail
  · rw [hE.entries_eq, List.perm_iff_count]
    intro x
    rw [List.count_append, count_records, count_records, count_records]
    split
    · rfl
    · next hx => exact count_mergeEntries hx k

/-- A tail of two that overflows the group left open by the message. -/
theorem mergeReport_wellFormed_overflow :
    (mergeReport 3 ⟨[4, 5], [1, 1], [5 ^^^ 6], 9, 2, 0⟩
      ⟨.UPRQ, 2, 1, [7, 8], [1, 1], 9, 0, 5, [1]⟩).WellFormed 3 (fun u c _ => .ofNat 32 (u + c)) 9 :=
  (mergeReport_wellFormed ⟨by decide, ⟨by decide, by decide, by decide⟩⟩
    ⟨by decide, ⟨by decide, by decide, by decide⟩⟩).1

end WellFormed

end Fadia
