import Fadia.Devices.ReportTree
import Fadia.Proof.ReportMerge

/-!
# Proofs and records of a tree of provers

Where `addOwnReport` finds the length of `uids` a multiple of `aggsize` exactly
when no group is open, the proofs of all reports stay aligned with their groups;
where it does not, the report sent there is already misaligned
(`reports_aligned_iff`).
-/

namespace Fadia

open Segments

/-- Splitting the uids of a message at `NOID` gives groups of at most `aggsize`
entries; there are as many proofs as non-empty groups, and proof `i` is the XOR of
the MACs of the records of non-empty group `i`. -/
structure ProofsAligned (aggsize : Nat) (mac : Uid → Nat → TreeId → Mac) (tid : TreeId)
    (m : UpdateReq) : Prop where
  group_le : ∀ g ∈ m.entries.splitOnP sepEntry, g.length ≤ aggsize
  length_eq : m.proof.length = (groups sepEntry m.entries).length
  proof_eq : ∀ (i : Nat) (g : List (Uid × Nat)), (groups sepEntry m.entries)[i]? = some g →
    (m.proof.map macOfInt)[i]? = some (macSum mac tid g)

/-- The length test of `addOwnReport` tells whether a group is open. -/
def OwnTestRight (aggsize : Nat) (r : Report) : Prop :=
  r.uids.length % aggsize = 0 ↔ uncompleted r.uids = 0

theorem proofsAligned_iff {k : Nat} {mac : Uid → Nat → TreeId → Mac} {tid : TreeId}
    {m : UpdateReq} :
    ProofsAligned k mac tid m ↔
      (∀ g ∈ groups sepEntry m.entries, g.length ≤ k) ∧
        m.proof.map macOfInt = groupProofs mac tid m.entries := by
  constructor
  · intro h
    refine ⟨fun g hg => h.group_le g (List.mem_filter.mp hg).1, ?_⟩
    apply List.ext_getElem?
    intro i
    unfold groupProofs sums
    rw [List.getElem?_map (l := groups sepEntry m.entries)]
    cases hg : (groups sepEntry m.entries)[i]? with
    | some g => exact h.proof_eq i g hg
    | none =>
      rw [List.getElem?_eq_none_iff] at hg
      simpa [h.length_eq] using hg
  · rintro ⟨hle, hp⟩
    refine ⟨?_, ?_, ?_⟩
    · intro g hg
      cases g with
      | nil => simp
      | cons a g => exact hle _ (List.mem_filter.mpr ⟨hg, rfl⟩)
    · have := congrArg List.length hp
      simpa [groupProofs, sums] using this
    · intro i g hg
      rw [hp]
      unfold groupProofs sums
      rw [List.getElem?_map, hg]
      rfl

section Wire
variable {r : Report} {E E' : List (Uid × Nat)}

/-- The entries of a merge are bounded, whatever the proofs are. -/
theorem mergeEntries_bounded {k : Nat} (hk : 0 < k) (h : Bounded sepEntry k E)
    (h' : Bounded sepEntry k E') : Bounded sepEntry k (mergeEntries k E E') := by
  have ha : Aligned k (fun _ _ _ => 0) NOID E _ := ⟨h, rfl⟩
  have ha' : Aligned k (fun _ _ _ => 0) NOID E' _ := ⟨h', rfl⟩
  exact (merge_aligned hk ha ha').bounded

end Wire

namespace Tree

variable {k : Nat} {mac : Uid → Nat → TreeId → Mac} {tid : TreeId}

theorem record_plain (p : ProverInfo) : sepEntry p.record = false := by
  simp [sepEntry, isSep, ProverInfo.record, p.uid_ne]

theorem record_bounded {E : List (Uid × Nat)} (hk : 0 < k) (p : ProverInfo)
    (h : Bounded sepEntry k E) :
    Bounded sepEntry k (closeAt sepEntry k (NOID, 0) (E ++ [p.record])) := by
  have hp : Plain sepEntry [p.record] := by
    intro a ha
    rw [List.mem_singleton.mp ha]
    exact record_plain p
  exact (aligned_join (fun _ _ _ => 0) NOID hk h.1 (List.cons_ne_nil _ _) hp
    (Nat.succ_le_of_lt h.2)).bounded

theorem record_onWire {E : List (Uid × Nat)} (k : Nat) (p : ProverInfo) (h : OnWire E) :
    OnWire (closeAt sepEntry k (NOID, 0) (E ++ [p.record])) := by
  intro x hx
  rcases mem_closeAt hx with hx | rfl
  · rcases List.mem_append.mp hx with hx | hx
    · exact h x hx
    · rw [List.mem_singleton.mp hx]
      exact ⟨p.uid_lt, p.count_lt⟩
  · norm_num

variable (k mac tid) in
/-- The message of a prover, entries and proofs, from the report it merged. -/
theorem ownReport_spec (p : ProverInfo) (dest : Uid) {r : Report} {E : List (Uid × Nat)}
    (h : r.Holds E) (hE : OnWire E) :
    (ownReport k mac tid p dest r).entries = closeAt sepEntry k (NOID, 0) (E ++ [p.record]) ∧
      (ownReport k mac tid p dest r).proof.map macOfInt =
        if E.length % k = 0 then r.proofs ++ [recordMac mac tid p.record]
        else xorBack r.proofs (recordMac mac tid p.record) := by
  have h' : ({ r with tid := tid } : Report).Holds E := h
  constructor
  · exact toUpdateReq_entries (addOwnReport_holds k mac _ _ h') (record_onWire k p hE) _ _ _ _ _
  · rw [ownReport, toUpdateReq_proof, addOwnReport_proofs, h'.length_eq]
    rfl

variable (mac tid) in
/-- The vectors of a merged report: paired, on the wire and in bounded groups. -/
theorem merged_spec (hk : 0 < k) (t : Tree) :
    (t.merged k mac tid).Holds (t.merged k mac tid).entries ∧
      OnWire (t.merged k mac tid).entries ∧ Bounded sepEntry k (t.merged k mac tid).entries := by
  induction t with
  | prover p =>
    refine ⟨⟨rfl, rfl⟩, by simp [merged, Report.entries, OnWire], ?_⟩
    exact (aligned_nil mac tid hk).bounded
  | adopt t c iht ihc =>
    obtain ⟨ht, htw, htb⟩ := iht
    obtain ⟨hc, hcw, hcb⟩ := ihc
    have hm := (ownReport_spec k mac tid c.root t.root.UId hc hcw).1
    have h := mergeReport_holds k ht (ownReport k mac tid c.root t.root.UId (c.merged k mac tid))
    rw [hm] at h
    rw [merged, h.entries_eq]
    exact ⟨h, onWire_mergeEntries k htw (record_onWire k c.root hcw),
      mergeEntries_bounded hk htb (record_bounded hk c.root hcb)⟩

theorem ownTestRight_iff (hk : 0 < k) (t : Tree) :
    OwnTestRight k (t.merged k mac tid) ↔
      ((t.merged k mac tid).entries.length % k = 0 ↔
        openTail sepEntry (t.merged k mac tid).entries = []) := by
  have h := (merged_spec mac tid hk t).1
  rw [OwnTestRight, h.length_eq, h.uncompleted_eq, List.length_eq_zero_iff]

/-- A sent report is aligned as `ProofsAligned` says iff it is as `Aligned` does. -/
theorem sent_aligned (hk : 0 < k) (t : Tree) (dest : Uid) :
    ProofsAligned k mac tid (t.sent k mac tid dest) ↔
      Aligned k mac tid (t.sent k mac tid dest).entries
        ((t.sent k mac tid dest).proof.map macOfInt) := by
  obtain ⟨h, hw, hb⟩ := merged_spec mac tid hk t
  rw [proofsAligned_iff]
  refine ⟨fun ⟨_, hp⟩ => ⟨?_, hp⟩, fun ha => ⟨ha.bounded.1, ha.proofs⟩⟩
  rw [sent, (ownReport_spec k mac tid t.root dest h hw).1]
  exact record_bounded hk t.root hb

/-- Where the children's reports are aligned, so is what their parent merged. -/
theorem merged_aligned (hk : 0 < k) (t : Tree)
    (h : ∀ c ∈ t.descendants, ∀ dest, ProofsAligned k mac tid (c.sent k mac tid dest)) :
    Aligned k mac tid (t.merged k mac tid).entries (t.merged k mac tid).proofs := by
  induction t with
  | prover p => exact aligned_nil mac tid hk
  | adopt t c iht _ =>
    have ht := iht fun u hu => h u (List.mem_append_left _ hu)
    have hc := (sent_aligned hk c t.root.UId).mp (h c (by simp [descendants]) t.root.UId)
    have hold := (merged_spec mac tid hk t).1
    have hm := merge_aligned hk ht hc
    rw [← mergeReport_proofs k hold, ← (mergeReport_holds k hold _).entries_eq] at hm
    exact hm

/-- One prover: given aligned merged reports, its own report is aligned exactly
when its length test is right. -/
theorem sent_aligned_iff (hk : 0 < k) (t : Tree) (dest : Uid)
    (h : Aligned k mac tid (t.merged k mac tid).entries (t.merged k mac tid).proofs) :
    ProofsAligned k mac tid (t.sent k mac tid dest) ↔ OwnTestRight k (t.merged k mac tid) := by
  obtain ⟨hold, hw, -⟩ := merged_spec mac tid hk t
  obtain ⟨he, hp⟩ := ownReport_spec k mac tid t.root dest hold hw
  rw [sent_aligned hk, ownTestRight_iff hk, sent, he, hp]
  exact addOwn_aligned_iff hk h (record_plain t.root)

theorem descendants_trans {t u c : Tree} (hu : u ∈ t.descendants) (hc : c ∈ u.descendants) :
    c ∈ t.descendants := by
  induction t with
  | prover p => simp [descendants] at hu
  | adopt t d iht ihd =>
    simp only [descendants, List.mem_append, List.mem_cons] at hu ⊢
    rcases hu with hu | rfl | hu
    · exact .inl (iht hu)
    · exact .inr (.inr hc)
    · exact .inr (.inr (ihd hu))

variable (mac tid) in
theorem descendants_aligned (hk : 0 < k) (t : Tree)
    (h : ∀ u ∈ t.descendants, OwnTestRight k (u.merged k mac tid)) :
    ∀ u ∈ t.descendants, ∀ dest, ProofsAligned k mac tid (u.sent k mac tid dest) := by
  induction t with
  | prover p => simp [descendants]
  | adopt t c iht ihc =>
    simp only [descendants, List.mem_append, List.mem_cons] at h ⊢
    have hc := ihc fun u hu => h u (.inr (.inr hu))
    intro u hu dest
    rcases hu with hu | rfl | hu
    · exact iht (fun v hv => h v (.inl hv)) u hu dest
    · exact (sent_aligned_iff hk u dest (merged_aligned hk u hc)).mpr (h u (.inr (.inl rfl)))
    · exact hc u hu dest

/-- **Proofs and records of a tree.**  All reports sent in a tree are aligned if
and only if every prover's length test is right before it adds its own record. -/
theorem reports_aligned_iff (aggsize : Nat) (hk : 0 < aggsize)
    (mac : Uid → Nat → TreeId → Mac) (tid : TreeId) (t : Tree) :
    (∀ u ∈ t.subtrees, ∀ dest, ProofsAligned aggsize mac tid (u.sent aggsize mac tid dest)) ↔
      ∀ u ∈ t.subtrees, OwnTestRight aggsize (u.merged aggsize mac tid) := by
  have hsub : ∀ u ∈ t.subtrees, ∀ c ∈ u.descendants, c ∈ t.subtrees := by
    intro u hu c hc
    rcases List.mem_cons.mp hu with rfl | hu
    · exact List.mem_cons_of_mem _ hc
    · exact List.mem_cons_of_mem _ (descendants_trans hu hc)
  constructor
  · intro h u hu
    have ha := merged_aligned hk u fun c hc => h c (hsub u hu c hc)
    exact (sent_aligned_iff hk u NOID ha).mp (h u hu NOID)
  · intro h u hu dest
    have hd := descendants_aligned mac tid hk u
      fun c hc => h c (hsub u hu c hc)
    exact (sent_aligned_iff hk u dest (merged_aligned hk u hd)).mpr (h u hu)

/-- A chain of three provers in their first attestation, the first one the root. -/
def threeChain : Tree :=
  adopt (prover ⟨1, 0, by decide, by decide, by decide⟩)
    (adopt (prover ⟨2, 0, by decide, by decide, by decide⟩)
      (prover ⟨3, 0, by decide, by decide, by decide⟩))

/-- With `aggsize = 2` the root of `threeChain` finds three entries, the last one a
separator, and adds its record to the proof of a closed group. -/
theorem threeChain_misaligned :
    ¬ ∀ (aggsize : Nat), 0 < aggsize → ∀ (mac : Uid → Nat → TreeId → Mac) (tid : TreeId) (t : Tree),
      ∀ u ∈ t.subtrees, ∀ dest, ProofsAligned aggsize mac tid (u.sent aggsize mac tid dest) := by
  intro h
  have hlen := (h 2 (by decide) (fun _ _ _ => 0) NOID threeChain threeChain
    List.mem_cons_self NOID).length_eq
  revert hlen
  decide

theorem threeChain_aligned_iff :
    0 < 2 ∧ ((∀ u ∈ threeChain.subtrees, ∀ dest,
        ProofsAligned 2 (fun _ _ _ => 0) NOID (u.sent 2 (fun _ _ _ => 0) NOID dest)) ↔
      ∀ u ∈ threeChain.subtrees, OwnTestRight 2 (u.merged 2 (fun _ _ _ => 0) NOID)) :=
  ⟨by decide, reports_aligned_iff 2 (by decide) (fun _ _ _ => 0) NOID threeChain⟩

end Tree

end Fadia
