import Fadia.Devices.Collector
import Fadia.Proof.TreeProofs

/-!
# Aggregation conserves records and proof material

Whatever the order of the merges and however the proofs lie against the groups, a
merge keeps the records of both sides and the XOR of all their proofs, and no
`back()` or `pop_back()` meets an empty list (`merge_records`, `xorAll_merge`,
`MergeBackOk`).  By induction on the tree the root sends the record of every
prover once, and the XOR of its proofs is that of the MACs of its records
(`report_conserved`).
-/

namespace Fadia

open Segments

/-- The XOR of a list of proofs. -/
abbrev xorAll : List Mac → Mac := total (· ^^^ ·) 0 id

/-- The entries that are records. -/
def plainEntries (E : List (Uid × Nat)) : List (Uid × Nat) := E.filter fun x => !sepEntry x

/-! ## Records -/

section Records
variable {E E' : List (Uid × Nat)}

theorem count_plainEntries (E : List (Uid × Nat)) (x : Uid × Nat) :
    (plainEntries E).count x = if sepEntry x then 0 else E.count x := by
  unfold plainEntries
  split
  · next h =>
    refine List.count_eq_zero.mpr fun hx => ?_
    simp [h] at hx
  · next h => exact List.count_filter (by simpa using h)

/-- Two lists of entries with the same counts of records. -/
theorem plainEntries_perm {F : List (Uid × Nat)}
    (h : ∀ x, x.1 ≠ NOID → E.count x = F.count x) : (plainEntries E).Perm (plainEntries F) := by
  rw [List.perm_iff_count]
  intro x
  rw [count_plainEntries, count_plainEntries]
  split
  · rfl
  · next hx =>
    refine h x fun h0 => hx ?_
    simp [sepEntry, isSep, h0]

theorem merge_records (k : Nat) :
    (plainEntries (mergeEntries k E E')).Perm (plainEntries E ++ plainEntries E') := by
  rw [plainEntries, plainEntries, plainEntries, ← List.filter_append]
  refine plainEntries_perm fun x hx => ?_
  rw [count_mergeEntries hx, List.count_append]

/-- The records of a sent report: those merged and the prover's own. -/
theorem own_records (k : Nat) (p : ProverInfo) :
    (plainEntries (closeAt sepEntry k (NOID, 0) (E ++ [p.record]))).Perm
      (plainEntries E ++ [p.record]) := by
  have hown : plainEntries [p.record] = [p.record] := by
    simp [plainEntries, Tree.record_plain p]
  have happ : plainEntries E ++ [p.record] = plainEntries (E ++ [p.record]) := by
    unfold plainEntries at hown ⊢
    rw [List.filter_append, hown]
  rw [happ]
  exact plainEntries_perm fun x hx => count_closeAt hx k

end Records

/-! ## Proofs -/

section Xor
variable {ps ps' : List Mac}

theorem xorAll_append (ps ps' : List Mac) : xorAll (ps ++ ps') = xorAll ps ^^^ xorAll ps' :=
  total_append _ _ _ ps ps'

theorem xorAll_concat (ps : List Mac) (p : Mac) : xorAll (ps ++ [p]) = xorAll ps ^^^ p := by
  rw [xorAll_append]
  simp

/-- Moving a MAC into the last proof. -/
theorem xorAll_xorBack (h : ps ≠ []) (m : Mac) : xorAll (xorBack ps m) = xorAll ps ^^^ m := by
  obtain ⟨qs, p, rfl⟩ := (List.eq_nil_or_concat ps).resolve_left h
  rw [List.concat_eq_append, xorBack_concat, xorAll_concat, xorAll_concat, BitVec.xor_assoc]

/-- Taking the last proof off. -/
theorem xorAll_dropLast (ps : List Mac) : xorAll ps.dropLast ^^^ ps.getLastD 0 = xorAll ps := by
  induction ps using List.reverseRecOn with
  | nil => simp
  | append_singleton qs p _ =>
    rw [List.dropLast_concat, xorAll_concat]
    simp

theorem xorBack_ne_nil (h : ps ≠ []) (m : Mac) : xorBack ps m ≠ [] := by
  intro he
  have := congrArg List.length he
  rw [length_xorBack] at this
  exact h (List.eq_nil_of_length_eq_zero this)

variable {E E' : List (Uid × Nat)}

theorem mergeProofs_ne_nil (k : Nat) (h : ps' ≠ []) : mergeProofs k E E' ps ps' ≠ [] := by
  unfold mergeProofs
  dsimp only
  split
  · simp [h]
  · split
    · exact xorBack_ne_nil (by simp [h]) _
    · simp

/-- **A merge conserves the proofs' XOR**, for every `aggsize` and every open tail. -/
theorem xorAll_merge (k : Nat) (h : ps' ≠ []) :
    xorAll (mergeProofs k E E' ps ps') = xorAll ps ^^^ xorAll ps' := by
  have hcut : xorAll (ps.dropLast ++ ps') ^^^ ps.getLastD 0 = xorAll ps ^^^ xorAll ps' := by
    rw [xorAll_append, BitVec.xor_assoc, BitVec.xor_comm (xorAll ps'), ← BitVec.xor_assoc,
      xorAll_dropLast]
  unfold mergeProofs
  dsimp only
  split
  · exact xorAll_append ps ps'
  · split
    · rw [xorAll_xorBack (by simp [h]), hcut]
    · rw [xorAll_concat, hcut]

end Xor

/-- The XOR of the MACs does not depend on the order of the records. -/
theorem macSum_perm {mac : Uid → Nat → TreeId → Mac} {tid : TreeId} {l l' : List (Uid × Nat)}
    (h : l.Perm l') : macSum mac tid l = macSum mac tid l' := by
  refine h.foldr_eq' (fun x _ y _ z => ?_) 0
  show recordMac mac tid y ^^^ (recordMac mac tid x ^^^ z) =
    recordMac mac tid x ^^^ (recordMac mac tid y ^^^ z)
  rw [← BitVec.xor_assoc, ← BitVec.xor_assoc, BitVec.xor_comm (recordMac mac tid y)]

/-! ## The collector's count -/

theorem countRecords_append (l l' : List Int) {n : Nat} (h : n ≤ l.length) :
    countRecords (l ++ l') n = countRecords l n := by
  induction n with
  | zero => rfl
  | succ n ih =>
    have hn : (l ++ l').getD n NOID = l.getD n NOID := by
      rw [List.getD_eq_getElem?_getD, List.getD_eq_getElem?_getD, List.getElem?_append_left h]
    rw [countRecords, countRecords, ih (Nat.le_of_succ_le h), hn]

theorem countRecords_eq (l : List Int) :
    countRecords l l.length = (l.filter fun i => decide (i ≠ ((NOID : Nat) : Int))).length := by
  induction l using List.reverseRecOn with
  | nil => rfl
  | append_singleton l i ih =>
    have hi : (l ++ [i]).getD l.length NOID = i := by simp [List.getD_eq_getElem?_getD]
    rw [List.length_append, List.length_singleton, countRecords, countRecords_append _ _ le_rfl,
      ih, hi, List.filter_append, List.length_append]
    by_cases h : i = ((NOID : Nat) : Int)
    · simp [h]
    · simp [show i ≠ 0 from h]

theorem toInt32_eq_zero {n : Nat} (h : n < 2 ^ 32) : toInt32 n = 0 ↔ n = 0 := by
  unfold toInt32
  rw [Int.bmod_def]
  norm_num at h ⊢
  split <;> omega

/-- An entry counts when its `int` is not the separator. -/
theorem counts_iff {x : Uid × Nat} (h : x.1 < 2 ^ 32) :
    decide (toInt32 x.1 ≠ ((NOID : Nat) : Int)) = !sepEntry x := by
  have h0 : toInt32 x.1 = ((NOID : Nat) : Int) ↔ x.1 = NOID := toInt32_eq_zero h
  have hs : sepEntry x = decide (x.1 = NOID) := rfl
  rw [hs, ← decide_not, decide_eq_decide, ne_eq, h0]

/-- The collector counts the records of what goes over the wire. -/
theorem size_toUpdateReq {r : Report} {E : List (Uid × Nat)} (h : r.Holds E) (hE : OnWire E)
    (kind : UpKind) (src dest : Uid) (tid : TreeId) (kid : KeyId) :
    (r.toUpdateReq kind src dest tid kid).size = (plainEntries E).length := by
  have h1 : (r.toUpdateReq kind src dest tid kid).report1 = (E.map Prod.fst).map toInt32 := by
    rw [Report.toUpdateReq, h.1]
  rw [UpdateReq.size, countRecords_eq, h1, List.filter_map, List.filter_map, List.length_map,
    List.length_map, plainEntries]
  refine congrArg List.length (List.filter_congr fun x hx => ?_)
  rw [Function.comp_apply, Function.comp_apply]
  exact counts_iff (hE x hx).1

/-! ## The calls of `back()` and `pop_back()` -/

/-- `addOwnReport` calls `back()` on a non-empty list only. -/
def OwnBackOk (aggsize : Nat) (r : Report) : Prop := r.uids.length % aggsize ≠ 0 → r.proofs ≠ []

/-- The merge calls `back()` and `pop_back()` on non-empty lists only: on the own proofs
where it cuts the tail off, on the joined ones where it adds the cut proof to the last. -/
structure MergeBackOk (aggsize : Nat) (r : Report) (m : UpdateReq) : Prop where
  cut : uncompleted r.uids ≠ 0 → r.proofs ≠ []
  attach : uncompleted r.uids ≠ 0 → (appendMsg (cutTail r) m).proofs ≠ []

namespace Tree

variable (k : Nat) (mac : Uid → Nat → TreeId → Mac) (tid : TreeId)

/-- All calls made in the tree before the root adds its own record. -/
def BacksOk : Tree → Prop
  | prover _ => True
  | adopt t child =>
    t.BacksOk ∧ child.BacksOk ∧ OwnBackOk k (child.merged k mac tid) ∧
      MergeBackOk k (t.merged k mac tid) (child.sent k mac tid t.root.UId)

/-- What the root of a tree sends and keeps. -/
structure Conserved (t : Tree) (dest : Uid) : Prop where
  records : (t.sent k mac tid dest).records.Perm (t.provers.map ProverInfo.record)
  lengths : (t.report k mac tid).uids.length = (t.report k mac tid).counters.length
  count : (t.sent k mac tid dest).size = t.provers.length
  proofs : xorAll ((t.sent k mac tid dest).proof.map macOfInt) =
    macSum mac tid (t.sent k mac tid dest).records
  backs : t.BacksOk k mac tid ∧ OwnBackOk k (t.merged k mac tid)

variable {k mac tid}

/-- Where entries come with proofs, an own record goes to some proof. -/
theorem own_backOk {r : Report} {E : List (Uid × Nat)} (h : r.Holds E)
    (hp : E ≠ [] → r.proofs ≠ []) : OwnBackOk k r := by
  intro hlen
  refine hp fun hE => hlen ?_
  rw [h.length_eq, hE]
  exact Nat.zero_mod k

section Own
variable (p : ProverInfo) (dest : Uid) {r : Report} {E : List (Uid × Nat)}

variable (k mac tid) in
/-- The proofs of a sent report: one at least, with the own MAC XORed in. -/
theorem ownReport_xor (h : r.Holds E) (hE : OnWire E) (hp : E ≠ [] → r.proofs ≠ []) :
    (ownReport k mac tid p dest r).proof.map macOfInt ≠ [] ∧
      xorAll ((ownReport k mac tid p dest r).proof.map macOfInt) =
        xorAll r.proofs ^^^ recordMac mac tid p.record := by
  rw [(ownReport_spec k mac tid p dest h hE).2]
  split
  · exact ⟨by simp, xorAll_concat _ _⟩
  · next hlen =>
    have hne := own_backOk (k := k) h hp (by rwa [h.length_eq])
    exact ⟨xorBack_ne_nil hne _, xorAll_xorBack hne _⟩

end Own

variable (mac tid) in
/-- What a prover has merged: the records of its children's trees, the XOR of their
MACs, and a proof wherever there is an entry. -/
theorem merged_conserved (hk : 0 < k) (t : Tree) :
    let E := (t.merged k mac tid).entries
    (plainEntries E ++ [t.root.record]).Perm (t.provers.map ProverInfo.record) ∧
      xorAll (t.merged k mac tid).proofs = macSum mac tid (plainEntries E) ∧
      (E ≠ [] → (t.merged k mac tid).proofs ≠ []) ∧ t.BacksOk k mac tid := by
  induction t with
  | prover p =>
    exact ⟨List.Perm.refl _, rfl, fun h => absurd rfl h, trivial⟩
  | adopt t c iht ihc =>
    obtain ⟨htr, htx, htp, htb⟩ := iht
    obtain ⟨hcr, hcx, hcp, hcb⟩ := ihc
    obtain ⟨ht, -, -⟩ := merged_spec mac tid hk t
    obtain ⟨hc, hcw, -⟩ := merged_spec mac tid hk c
    have hown := (ownReport_spec k mac tid c.root t.root.UId hc hcw).1
    obtain ⟨hne, hxor⟩ := ownReport_xor k mac tid c.root t.root.UId hc hcw hcp
    have hm := mergeReport_holds k ht (ownReport k mac tid c.root t.root.UId (c.merged k mac tid))
    have hps := mergeReport_proofs k ht (ownReport k mac tid c.root t.root.UId (c.merged k mac tid))
    have hrec : (plainEntries (closeAt sepEntry k (NOID, 0)
        ((c.merged k mac tid).entries ++ [c.root.record]))).Perm
          (c.provers.map ProverInfo.record) := (own_records k c.root).trans hcr
    have hall : (plainEntries (mergeEntries k (t.merged k mac tid).entries
        (ownReport k mac tid c.root t.root.UId (c.merged k mac tid)).entries)).Perm
          (plainEntries (t.merged k mac tid).entries ++ c.provers.map ProverInfo.record) := by
      rw [hown]
      exact (merge_records k).trans (hrec.append_left _)
    dsimp only
    rw [merged, hm.entries_eq, hps]
    refine ⟨?_, ?_, ?_, ?_⟩
    · rw [provers, List.map_append]
      refine (hall.append_right _).trans ?_
      rw [List.append_assoc]
      refine (List.perm_append_comm.append_left _).trans ?_
      rw [← List.append_assoc]
      exact htr.append_right _
    · have hcm : macSum mac tid (c.provers.map ProverInfo.record) =
          xorAll (c.merged k mac tid).proofs ^^^ recordMac mac tid c.root.record := by
        rw [← macSum_perm hcr, macSum, total_append, hcx, total_singleton]
      rw [xorAll_merge k hne, hxor, macSum_perm hall, macSum, total_append, htx, ← hcm]
    · intro _
      exact mergeProofs_ne_nil k hne
    · refine ⟨htb, hcb, own_backOk hc hcp, ⟨fun hu => htp fun hE => hu ?_, fun _ => ?_⟩⟩
      · rw [ht.uncompleted_eq, hE]
        rfl
      · intro happ
        exact hne (List.append_eq_nil_iff.mp happ).2

variable (mac tid) in
theorem conserved (hk : 0 < k) (t : Tree) (dest : Uid) : t.Conserved k mac tid dest := by
  obtain ⟨hr, hx, hp, hb⟩ := merged_conserved mac tid hk t
  obtain ⟨h, hw, -⟩ := merged_spec mac tid hk t
  have hent := (ownReport_spec k mac tid t.root dest h hw).1
  obtain ⟨-, hxor⟩ := ownReport_xor k mac tid t.root dest h hw hp
  have hrec : (t.sent k mac tid dest).records.Perm (t.provers.map ProverInfo.record) := by
    show (plainEntries (ownReport k mac tid t.root dest (t.merged k mac tid)).entries).Perm _
    rw [hent]
    exact (own_records k t.root).trans hr
  have hrep : (t.report k mac tid).Holds (closeAt sepEntry k (NOID, 0)
      ((t.merged k mac tid).entries ++ [t.root.record])) :=
    addOwnReport_holds k mac _ _ h
  refine ⟨hrec, ?_, ?_, ?_, hb, own_backOk h hp⟩
  · rw [hrep.1, hrep.2, List.length_map, List.length_map]
  · have hs : (t.sent k mac tid dest).size = _ :=
      size_toUpdateReq hrep (record_onWire k t.root hw) .UPRQ t.root.UId dest tid NOID
    rw [hs, ((own_records k t.root).trans hr).length_eq, List.length_map]
  · have hm : macSum mac tid (t.provers.map ProverInfo.record) =
        xorAll (t.merged k mac tid).proofs ^^^ recordMac mac tid t.root.record := by
      rw [← macSum_perm hr, macSum, total_append, hx, total_singleton]
    rw [macSum_perm hrec, hm]
    exact hxor

/-- **Aggregation conserves records and proof material**, and two trees of the same
provers, merged in any order, agree on the records and on the XOR of the proofs. -/
theorem report_conserved (aggsize : Nat) (hk : 0 < aggsize) (mac : Uid → Nat → TreeId → Mac)
    (tid : TreeId) (t : Tree) (dest : Uid) :
    t.Conserved aggsize mac tid dest ∧
      ∀ (t' : Tree) (dest' : Uid), t'.provers.Perm t.provers →
        (t'.sent aggsize mac tid dest').records.Perm (t.sent aggsize mac tid dest).records ∧
          xorAll ((t'.sent aggsize mac tid dest').proof.map macOfInt) =
            xorAll ((t.sent aggsize mac tid dest).proof.map macOfInt) := by
  have h := conserved mac tid hk t dest
  refine ⟨h, fun t' dest' hperm => ?_⟩
  have h' := conserved mac tid hk t' dest'
  have hrec := h'.records.trans ((hperm.map _).trans h.records.symm)
  exact ⟨hrec, by rw [h'.proofs, h.proofs, macSum_perm hrec]⟩

theorem report_conserved_threeChain :
    0 < 2 ∧ (threeChain.Conserved 2 (fun u c _ => BitVec.ofNat 32 (u + c)) NOID NOID ∧
      ∀ (t' : Tree) (dest' : Uid), t'.provers.Perm threeChain.provers →
        (t'.sent 2 (fun u c _ => BitVec.ofNat 32 (u + c)) NOID dest').records.Perm
            (threeChain.sent 2 (fun u c _ => BitVec.ofNat 32 (u + c)) NOID NOID).records ∧
          xorAll ((t'.sent 2 (fun u c _ => BitVec.ofNat 32 (u + c)) NOID dest').proof.map macOfInt) =
            xorAll ((threeChain.sent 2 (fun u c _ => BitVec.ofNat 32 (u + c)) NOID NOID).proof.map
              macOfInt)) :=
  ⟨by decide, report_conserved 2 (by decide) (fun u c _ => BitVec.ofNat 32 (u + c)) NOID threeChain NOID⟩

end Tree

end Fadia
