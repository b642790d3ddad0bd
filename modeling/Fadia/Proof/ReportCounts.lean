import Fadia.Proof.ReportFlow

/-!
# The counters of the report

`size` and `sepsize` of `aggreport` are kept apart from the vectors.  Relative to an offset
they count the records and the separators of `uids` (`Report.CountsFrom`): a merge and an
own record keep the offset (`mergeReport_countsFrom`, `addOwnReport_countsFrom`), and
`startAttestation`, which clears the vectors only, moves it up.  So the cut of a merge never
wraps (`cut_never_wraps`), and the counters are exact as long as each round finds an empty
report (`report_exact`).
-/

namespace Fadia

open Segments

/-- The two vectors are of one length, and the counters count the records and the
separators from `a` and `b` on. -/
structure Report.CountsFrom (a b : Nat) (r : Report) : Prop where
  lengths : r.uids.length = r.counters.length
  size : r.size = a + r.uids.countP (!isSep ·)
  sepsize : r.sepsize = b + r.uids.countP isSep

/-- The bookkeeping of a report is exact. -/
abbrev Report.Exact (r : Report) : Prop := r.CountsFrom 0 0

section
variable {a b : Nat} {r : Report}

theorem countP_plain {t : List Uid} (h : Plain isSep t) :
    t.countP (!isSep ·) = t.length ∧ t.countP isSep = 0 := by
  constructor
  · exact List.countP_eq_length.mpr fun u hu => by simp [h u hu]
  · exact List.countP_eq_zero.mpr fun u hu => by simp [h u hu]

/-- The entries behind the last separator are records. -/
theorem uncompleted_le_countP (uids : List Uid) :
    uncompleted uids ≤ uids.countP (!isSep ·) := by
  have hsplit : uids.countP (!isSep ·) =
      (closedPart isSep uids).countP (!isSep ·) + (openTail isSep uids).countP (!isSep ·) := by
    rw [← List.countP_append, closedPart_append_openTail]
  have hplain : Plain isSep (openTail isSep uids) := openTail_plain uids
  rw [uncompleted, ← (countP_plain hplain).1]
  omega

theorem Report.CountsFrom.uncompleted_le (h : r.CountsFrom a b) : uncompleted r.uids ≤ r.size := by
  have hle := uncompleted_le_countP r.uids
  rw [h.size]
  omega

theorem Report.CountsFrom.fixProofs (h : r.CountsFrom a b) (k : Nat) :
    (fixProofs k r).CountsFrom a b := by
  unfold Fadia.fixProofs
  split
  · have hsize := h.size
    have hsep := h.sepsize
    refine ⟨by simp [h.lengths], ?_, ?_⟩
    · simp [List.countP_append, isSep, hsize]
    · simp only [List.countP_append, hsep]
      simp [isSep]
      omega
  · exact h

theorem addOwnReport_countsFrom {uid : Uid} (h : r.CountsFrom a b) (hid : uid ≠ NOID) (k : Nat)
    (mac : Uid → Nat → TreeId → Mac) (counter : Nat) :
    (addOwnReport k mac uid counter r).CountsFrom a b := by
  have hsize := h.size
  have hsep := h.sepsize
  have hrec : isSep uid = false := by simpa [isSep] using hid
  unfold addOwnReport
  refine Report.CountsFrom.fixProofs ⟨by simp [h.lengths], ?_, ?_⟩ k
  · simp [List.countP_append, hrec, hsize, Nat.add_assoc]
  · simp [List.countP_append, hrec, hsep]

theorem cut_append (uids : List Uid) : uids.take (uids.length - uncompleted uids) =
    closedPart isSep uids ∧ uids.drop (uids.length - uncompleted uids) = openTail isSep uids := by
  have hsplit := closedPart_append_openTail isSep uids
  have hlen : uids.length - uncompleted uids = (closedPart isSep uids).length := by
    have h := congrArg List.length hsplit
    rw [List.length_append] at h
    rw [uncompleted]
    omega
  have htake : (closedPart isSep uids ++ openTail isSep uids).take (closedPart isSep uids).length =
      closedPart isSep uids := List.take_left
  have hdrop : (closedPart isSep uids ++ openTail isSep uids).drop (closedPart isSep uids).length =
      openTail isSep uids := List.drop_left
  rw [hsplit] at htake hdrop
  rw [hlen]
  exact ⟨htake, hdrop⟩

theorem cutTail_countsFrom (h : r.CountsFrom a b) : (cutTail r).CountsFrom a b := by
  have hsize := h.size
  have hsep := h.sepsize
  have hle := h.uncompleted_le
  have hplain : Plain isSep (openTail isSep r.uids) := openTail_plain r.uids
  obtain ⟨hrec, hno⟩ := countP_plain hplain
  have hcount : ∀ P : Uid → Bool, r.uids.countP P =
      (closedPart isSep r.uids).countP P + (openTail isSep r.uids).countP P := fun P => by
    rw [← List.countP_append, closedPart_append_openTail]
  refine ⟨?_, ?_, ?_⟩
  · simp [cutTail, h.lengths]
  · simp only [cutTail, (cut_append r.uids).1, subSize, if_pos hle]
    rw [hcount, hrec] at hsize
    rw [hsize, uncompleted]
    omega
  · simp only [cutTail, (cut_append r.uids).1]
    rw [hcount, hno] at hsep
    exact hsep

theorem appendMsg_countsFrom (h : r.CountsFrom a b) (m : UpdateReq) :
    (appendMsg r m).CountsFrom a b := by
  refine ⟨by simp [appendMsg, h.lengths], ?_, ?_⟩
  · have hm : (m.entries.filter fun x => !isSep x.1).length =
        (m.entries.map Prod.fst).countP (!isSep ·) := by
      rw [List.countP_map, List.countP_eq_length_filter]
      rfl
    simp only [appendMsg, hm, h.size, List.countP_append]
    omega
  · have hm : (m.entries.filter fun x => isSep x.1).length =
        (m.entries.map Prod.fst).countP isSep := by
      rw [List.countP_map, List.countP_eq_length_filter]
      rfl
    simp only [appendMsg, hm, h.sepsize, List.countP_append]
    omega

theorem attachTail_countsFrom (h : r.CountsFrom a b) {t : List Uid} (ht : Plain isSep t)
    {tmpcounters : List Nat} (hlen : t.length = tmpcounters.length) (k : Nat) (p : Mac) :
    (attachTail k t tmpcounters p r).CountsFrom a b := by
  have hsize := h.size
  have hsep := h.sepsize
  obtain ⟨hrec, hno⟩ := countP_plain ht
  unfold attachTail
  dsimp only
  split
  · refine Report.CountsFrom.fixProofs ⟨by simp [h.lengths, hlen], ?_, ?_⟩ k
    · simp only [List.countP_append, hrec, hsize]
      omega
    · simp only [List.countP_append, hno, hsep]
      omega
  · refine ⟨by simp [h.lengths, hlen], ?_, ?_⟩
    · simp only [List.countP_append, List.countP_singleton, hrec, hsize]
      simp [isSep]
      omega
    · simp only [List.countP_append, List.countP_singleton, hno, hsep]
      simp [isSep]
      omega

/-- **A merge keeps the counters** in step with the vectors. -/
theorem mergeReport_countsFrom (h : r.CountsFrom a b) (k : Nat) (m : UpdateReq) :
    (mergeReport k r m).CountsFrom a b := by
  unfold mergeReport
  dsimp only
  split
  · exact appendMsg_countsFrom h m
  · rw [(cut_append r.uids).2]
    refine attachTail_countsFrom (appendMsg_countsFrom (cutTail_countsFrom h) m)
      (openTail_plain r.uids) ?_ k _
    rw [← (cut_append r.uids).2, List.length_drop, List.length_drop, h.lengths]

end

namespace Prover

/-- A round that begins at a prover that lives finds an empty report. -/
def FindsEmpty (p : Prover) (e : Event) : Prop :=
  StartsAttestation e.act → p.crashed = false → p.aggreport.uids = []

instance (e : Event) (p : Prover) : Decidable (p.FindsEmpty e) :=
  inferInstanceAs (Decidable (_ → _ → _))

section
variable {p q : Prover} {st : Prop} {o : Option UpdateReq} {a b : Nat}

theorem Sends.countsFrom (h : Sends p q) (hid : p.cfg.UId ≠ NOID)
    (hp : p.aggreport.CountsFrom a b) : q.aggreport.CountsFrom a b := by
  obtain ⟨tid, hr⟩ := h.report
  have hp' : Report.CountsFrom a b { p.aggreport with tid := tid } :=
    ⟨hp.lengths, hp.size, hp.sepsize⟩
  rw [hr]
  exact addOwnReport_countsFrom hp' hid _ _ _

theorem TakesIn.countsFrom {m : UpdateReq} (h : TakesIn m p q)
    (hp : p.aggreport.CountsFrom a b) : q.aggreport.CountsFrom a b := by
  rw [h.report]
  exact mergeReport_countsFrom hp _ m

/-- **Step lemma** for the counters: only a new round moves the offset. -/
theorem Flow.countsFrom (h : Flow st o p q) (hid : p.cfg.UId ≠ NOID)
    (hp : p.aggreport.CountsFrom a b) : q.aggreport.CountsFrom a b ∨
      st ∧ q.aggreport.uids = [] ∧ q.aggreport.CountsFrom p.aggreport.size p.aggreport.sepsize := by
  cases h with
  | quiet h => exact .inl (h.report ▸ hp)
  | restart hst h =>
    refine .inr ⟨hst, h.uids, ?_, ?_, ?_⟩
    · rw [h.uids, h.counters]
    · rw [h.uids, h.sizes.1]
      rfl
    · rw [h.uids, h.sizes.2]
      rfl
  | send h => exact .inl (h.countsFrom hid hp)
  | passOn _ h => exact .inl (h.report ▸ hp)
  | merge _ h => exact .inl (h.countsFrom hp)
  | mergeSend _ h h' => exact .inl (h'.countsFrom (h.cfg ▸ hid) (h.countsFrom hp))

/-- The cut of a merge never wraps, in any run. -/
theorem cut_never_wraps {ok : Event → Prover → Prop} {cfg : Config} {start : Nat}
    (h : Runs.Reaches step ok (init cfg start) p) (hid : cfg.UId ≠ NOID) :
    p.aggreport.uids.length = p.aggreport.counters.length ∧
      uncompleted p.aggreport.uids ≤ p.aggreport.size := by
  have hinv : p.cfg = cfg ∧ ∃ a b, p.aggreport.CountsFrom a b := by
    refine h.invariant (I := fun p => p.cfg = cfg ∧ ∃ a b, p.aggreport.CountsFrom a b)
      ⟨rfl, 0, 0, rfl, rfl, rfl⟩ ?_
    rintro e p p' ⟨hcfg, a, b, hc⟩ _ hs
    refine ⟨(step_cfg hs).trans hcfg, ?_⟩
    obtain ⟨hf, -, ⟨-, _, _, _, _, -, rfl⟩ | ⟨-, hlive⟩⟩ := step_cases hs
    · exact ⟨a, b, hc⟩
    · rcases (flow_of_live hf hlive).countsFrom (hcfg ▸ hid) hc with hc | ⟨-, -, hc⟩
      · exact ⟨a, b, hc⟩
      · exact ⟨_, _, hc⟩
  obtain ⟨-, a, b, hc⟩ := hinv
  exact ⟨hc.lengths, hc.uncompleted_le⟩

/-- A round begins with empty vectors and the counters of the round before. -/
theorem countsFrom_of_starts {e : Event} (hst : StartsAttestation e.act) (h : p.Live e q) :
    q.aggreport.CountsFrom p.aggreport.size p.aggreport.sepsize := by
  cases h with
  | @timer t c s hact =>
    rw [hact] at hst
    have hround : ∀ p₁ : Prover, p₁.aggreport = p.aggreport →
        (p₁.startAttestation c).aggreport.CountsFrom p.aggreport.size p.aggreport.sepsize := by
      intro p₁ hp₁
      obtain ⟨_, _, _, he⟩ := startAttestation_shape (p := p₁) c
      rw [he, ← hp₁]
      exact ⟨rfl, rfl, rfl⟩
    cases t with
    | startmsg => exact hround _ rfl
    | attesttimer => exact hround _ rfl
    | checkdelaymsg => exact hst.elim
    | mktreetimer => exact hst.elim
    | creqmsg => exact hst.elim
    | cacktomsg => exact hst.elim
    | cresptomsg => exact hst.elim
  | upto hact => exact (hact ▸ hst : StartsAttestation (.upto _)).elim
  | self hact => exact (hact ▸ hst : StartsAttestation (.self _ _)).elim
  | recv hact => exact (hact ▸ hst : StartsAttestation (.recv _ _)).elim

/-- Zero counters that are exact are those of an empty report. -/
theorem uids_eq_nil_iff {r : Report} (h : r.Exact) :
    r.uids = [] ↔ r.size = 0 ∧ r.sepsize = 0 := by
  have hsize := h.size
  have hsep := h.sepsize
  constructor
  · intro hnil
    rw [hnil] at hsize hsep
    exact ⟨hsize, hsep⟩
  · rintro ⟨h0, h0'⟩
    have hlen : r.uids.length = r.uids.countP isSep + r.uids.countP (!isSep ·) := by
      rw [List.length_eq_countP_add_countP isSep]
      simp
    exact List.length_eq_zero_iff.mp (by omega)

/-- The counters are exact behind a step exactly if a round that it begins finds an empty
report. -/
theorem exact_step_iff {e : Event} (h : p.aggreport.Exact) (hid : p.cfg.UId ≠ NOID)
    (hs : step e p = some q) : q.aggreport.Exact ↔ p.FindsEmpty e := by
  obtain ⟨hf, -, ⟨hcrash, _, _, _, _, -, rfl⟩ | ⟨halive, hlive⟩⟩ := step_cases hs
  · refine ⟨fun _ hst hno => ?_, fun _ => h⟩
    rcases hcrash with hcrash | hact
    · cases hcrash.symm.trans hno
    · exact (hact ▸ hst : StartsAttestation .crash).elim
  · constructor
    · intro hq hst _
      have hc := countsFrom_of_starts hst hlive
      have hsize := hc.size
      have hsep := hc.sepsize
      rw [hq.size] at hsize
      rw [hq.sepsize] at hsep
      exact (uids_eq_nil_iff h).mpr ⟨by omega, by omega⟩
    · intro hempty
      rcases (flow_of_live hf hlive).countsFrom hid h with hc | ⟨hst, -, hc⟩
      · exact hc
      · obtain ⟨h0, h0'⟩ := (uids_eq_nil_iff h).mp (hempty hst halive)
        rwa [h0, h0'] at hc

/-- **The bookkeeping of the report is exact** in every run whose rounds all find an empty
report, and ends to be exactly with the first one that does not. -/
theorem report_exact {cfg : Config} {start : Nat} (hid : cfg.UId ≠ NOID)
    (h : Runs.Reaches step (fun e p => p.FindsEmpty e) (init cfg start) p) :
    (p.aggreport.uids.length = p.aggreport.counters.length ∧
      p.aggreport.size = p.aggreport.uids.countP (· ≠ NOID) ∧
      p.aggreport.sepsize = p.aggreport.uids.count NOID ∧
      uncompleted p.aggreport.uids ≤ p.aggreport.size) ∧
    ∀ e q, step e p = some q → (q.aggreport.Exact ↔ p.FindsEmpty e) := by
  have hinv : p.cfg = cfg ∧ p.aggreport.Exact := by
    refine h.invariant (I := fun p => p.cfg = cfg ∧ p.aggreport.Exact) ⟨rfl, rfl, rfl, rfl⟩ ?_
    rintro e p p' ⟨hcfg, hexact⟩ hok hs
    exact ⟨(step_cfg hs).trans hcfg, (exact_step_iff hexact (hcfg ▸ hid) hs).mpr hok⟩
  obtain ⟨hcfg, hexact⟩ := hinv
  refine ⟨⟨hexact.lengths, ?_, ?_, hexact.uncompleted_le⟩, fun e q hs =>
    exact_step_iff hexact (hcfg ▸ hid) hs⟩
  · rw [hexact.size, Nat.zero_add]
    exact List.countP_congr fun u _ => by simp [isSep]
  · rw [hexact.sepsize, Nat.zero_add]
    rfl

end

/-- A prover without neighbours. -/
def loneConfig : Config where
  UId := 1
  KeyRing := [5]
  maxdepth := 1
  deltah := 28 * second
  aggsize := 2

/-- It reports alone; the next round starts at 28 s. -/
def twoRounds : List Event :=
  [⟨0, .timer .startmsg { maxchildren := 0 }⟩,
   ⟨1960 * 10 ^ 9, .timer .checkdelaymsg {}⟩,
   ⟨1960 * 10 ^ 9, .timer .mktreetimer { treeID := 7 }⟩,
   ⟨2033712348000, .self 4 {}⟩,
   ⟨28 * second, .timer .attesttimer { maxchildren := 0 }⟩]

/-- The second round begins with an empty report and `size = 1`. -/
theorem secondRound_inexact : ¬ ∀ (cfg : Config) (start : Nat) (p : Prover), cfg.UId ≠ NOID →
    Runs.Reaches step (fun _ _ => True) (init cfg start) p →
    p.aggreport.size = p.aggreport.uids.countP (· ≠ NOID) := by
  intro h
  obtain ⟨p, hp, ht⟩ := Runs.exists_of_run step (fun _ _ => True) twoRounds (init loneConfig 0)
    (fun p => p.aggreport.size ≠ p.aggreport.uids.countP (· ≠ NOID)) (by decide +kernel)
  exact of_decide_eq_true ht (h loneConfig 0 p (by decide) hp)

/-- In the first round the counters are those of the one record. -/
theorem report_exact_lone : ∃ p : Prover, p.aggreport.uids = [1] ∧ p.aggreport.size = 1 := by
  obtain ⟨p, hp, ht⟩ := Runs.exists_of_run step (fun e p => p.FindsEmpty e) (twoRounds.take 4)
    (init loneConfig 0) (fun p => p.aggreport.uids = [1]) (by decide +kernel)
  have hids : p.aggreport.uids = [1] := of_decide_eq_true ht
  have hexact := (report_exact (by decide) hp).1
  refine ⟨p, hids, ?_⟩
  rw [hexact.2.1, hids]
  decide

end Prover

end Fadia
