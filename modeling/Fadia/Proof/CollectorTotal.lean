import Fadia.Proof.CollectorLock
import Fadia.Proof.Conservation
import Fadia.Proof.MessageInvariants
import Fadia.Proof.SystemRefinement

/-!
# What the collector has counted

`sum` is what the collector has counted of the reports that it has handled, without knowing
their provers.  A report that a prover makes counts as many records as it carries (`Exact`), a
redirection keeps this, and nothing else is ever on its way (`Net.wired_of_reaches`).

So in the system, as long as no prover with children is made a leaf, `sum` is the number of
different records that reached the collector, and not more than the provers have made
(`sum_exact`).
-/

namespace Fadia

/-- The collector counts the records of the report. -/
def UpdateReq.Exact (r : UpdateReq) : Prop := r.size = r.records.length

theorem UpdateReq.Exact.redirected {r : UpdateReq} (h : r.Exact) : r.redirected.Exact := h

theorem toInt32_eq_zero_iff (n : Nat) : toInt32 n = 0 ↔ uidOfInt (toInt32 n) = NOID := by
  have hlow : -(2 ^ 31 : Int) ≤ toInt32 n := Int.le_bmod (by decide)
  have hhigh : toInt32 n < 2 ^ 31 := Int.bmod_lt (by decide)
  unfold uidOfInt NOID
  omega

/-- A report that a prover makes of two vectors of one length. -/
theorem exact_toUpdateReq {r : Report} (h : r.Paired) (kind : UpKind) (src dest : Uid)
    (tid : TreeId) (kid : KeyId) : (r.toUpdateReq kind src dest tid kid).Exact := by
  have hlen : r.uids.length = r.counters.length := by
    have h1 := congrArg List.length h.1
    have h2 := congrArg List.length h.2
    rw [List.length_map] at h1 h2
    exact h1.trans h2.symm
  unfold UpdateReq.Exact UpdateReq.size UpdateReq.records UpdateReq.entries
  rw [countRecords_eq]
  simp only [Report.toUpdateReq]
  have hfst : ∀ l : List (Uid × Nat), (l.filter fun x => x.1 != NOID).length =
      ((l.map Prod.fst).filter (· != NOID)).length := fun l => by
    rw [List.filter_map, List.length_map]
    rfl
  rw [hfst, List.map_fst_zip (by simp [hlen]), List.map_map, List.filter_map, List.length_map,
    List.filter_map, List.length_map]
  refine congrArg List.length (List.filter_congr fun n _ => ?_)
  have hzero := toInt32_eq_zero_iff n
  rw [Function.comp_apply, Function.comp_apply, Function.comp_apply, Bool.eq_iff_iff, decide_eq_true_iff,
    bne_iff_ne]
  exact not_congr hzero

/-- The report in the message, if it is one, is exact. -/
def Msg.Exact (m : Msg) : Prop := ∀ r, m.report = some r → r.Exact

theorem Msg.Exact.update {r : UpdateReq} : (Msg.updateReq r).Exact ↔ r.Exact :=
  ⟨fun h => h r rfl, fun h _ hr => Option.some.inj hr ▸ h⟩

theorem gathers_exact (cfg : Config) : Gathers cfg Report.Paired Msg.Exact := by
  refine ⟨fun a hu hc => ?_, fun a tid count h => ?_, fun a m h _ => ?_,
    fun _ h _ _ _ _ => Msg.Exact.update.mpr (exact_toUpdateReq h ..),
    fun _ h => Msg.Exact.update.mpr (Msg.Exact.update.mp h).redirected,
    fun _ _ _ hr => (by cases hr), fun m hm r hr => ?_⟩
  · simp [Report.Paired, Report.Holds, Report.entries, hu, hc]
  · exact (addOwnReport_holds _ _ _ _ (show Report.Holds { a with tid := tid } _ from h)).paired
  · exact (mergeReport_holds _ h m).paired
  · cases m with
    | updateReq m => exact hm.elim
    | commitReq m => cases hr
    | commitResp m => cases hr
    | commitAck m => cases hr

namespace System

open Prover (Event)

/-- A prover begins fewer than `2 ^ 31` rounds, and none with children is made a leaf. -/
def KeepsChildren (e : SystemEvent) (s : System) : Prop :=
  Locally (fun ev p => (Prover.StartsAttestation ev.act → p.log.count .start + 1 < 2 ^ 31) ∧
    ¬ p.LeavesChildren ev) e s

section
variable {D : Deployment} {range : Rat} {s s' : System} {u : Uid}

theorem not_leavesChildren_crash {time : Nat} {p : Prover} :
    ¬ p.LeavesChildren ⟨time, .crash⟩ := by
  rintro ⟨m, c, parent, hact, -⟩
  cases hact

/-- Whether a prover leaves its children depends neither on the clock nor on what was handed
over. -/
theorem leavesChildren_resumed {e : Event} {p : Prover} {out : List Packet} {t : Nat}
    (h : Prover.LeavesChildren e { p with out := out, now := t }) : p.LeavesChildren e := by
  obtain ⟨m, c, parent, hact, hack, hleaf, hchild⟩ := h
  exact ⟨m, c, parent, hact, ⟨hack.source, hack.destination, hack.second, hack.key, hack.mac⟩,
    hleaf, hchild⟩

/-! ## The sum -/

/-- Nothing is counted and no report is handled. -/
structure SameTally (s s' : System) : Prop where
  sum : s'.field.collector.sum = s.field.collector.sum
  failed : s'.field.collector.failed = s.field.collector.failed
  handled : s'.handled = s.handled

theorem SameTally.trans {s'' : System} (h : SameTally s s') (h' : SameTally s' s'') :
    SameTally s s'' :=
  ⟨h'.sum.trans h.sum, h'.failed.trans h.failed, h'.handled.trans h.handled⟩

theorem sameTally_deviceEvent {e : DeviceEvent} (h : s.deviceEvent D range u e = some s') :
    SameTally s s' := by
  obtain ⟨-, d, -, rfl⟩ := deviceEvent_cases h
  have hcoll : ∀ c : Prop, [Decidable c] →
      (if c then s.field.collector.setProcessing else s.field.collector).sum = s.field.collector.sum ∧
      (if c then s.field.collector.setProcessing else s.field.collector).failed =
        s.field.collector.failed := by
    intro c _
    split
    · exact ⟨rfl, rfl⟩
    · exact ⟨rfl, rfl⟩
  exact ⟨(hcoll _).1, (hcoll _).2, rfl⟩

theorem sameTally_handOver (pkts : List Packet) :
    ∀ s : System, s.handOver D range u pkts = some s' → SameTally s s' := by
  induction pkts with
  | nil =>
    intro s h
    cases h
    exact ⟨rfl, rfl, rfl⟩
  | cons pkt pkts ih =>
    intro s h
    obtain ⟨s₁, hs₁, h⟩ := Option.bind_eq_some_iff.mp h
    exact (sameTally_deviceEvent hs₁).trans (ih s₁ h)

theorem sameTally_proverEvent {e : Event} (h : s.proverEvent D range u e = some s') :
    SameTally s s' := by
  obtain ⟨-, -, p, -, ⟨-, rfl⟩ | ⟨-, h⟩⟩ := proverEvent_cases h
  · exact ⟨rfl, rfl, rfl⟩
  · obtain ⟨h1, h2, h3⟩ := sameTally_handOver _ (s.setProver u e.time p) h
    exact ⟨h1, h2, h3⟩

/-- The sum is that of the reports that were handled. -/
def Tallied (s : System) : Prop :=
  s.field.collector.failed = false → s.field.collector.sum = (s.handled.map UpdateReq.size).sum

theorem SameTally.tallied (h : SameTally s s') (ht : Tallied s) : Tallied s' := by
  intro hf
  rw [h.sum, h.handled]
  exact ht (h.failed.symm.trans hf)

theorem tallied_step {e : SystemEvent} (h : Tallied s) (hs : step D range e s = some s') :
    Tallied s' := by
  unfold step at hs
  split at hs
  · cases hs
  cases e with
  | prover u ev =>
    dsimp only at hs
    split at hs
    · exact (sameTally_proverEvent hs).tallied h
    · cases hs
  | deliver u m time c =>
    dsimp only at hs
    split at hs
    · exact SameTally.tallied (s := { s with air := s.air.erase (u, m) })
        (sameTally_proverEvent hs) h
    · cases hs
  | device u e =>
    dsimp only at hs
    split at hs
    · exact (sameTally_deviceEvent hs).tallied h
    · cases hs
  | arrive m =>
    obtain ⟨s₁, hs₁, rfl⟩ := Option.map_eq_some_iff.mp hs
    obtain ⟨f, hf, rfl⟩ := fieldEvent_cases hs₁
    rw [Field.step] at hf
    split at hf
    · cases hf
    split at hf
    · obtain rfl := Option.some.inj hf
      intro hfail
      simp only [Collector.handleUpReq] at hfail ⊢
      split at hfail
      · cases hfail
      · next hproc =>
        rw [if_neg hproc]
        change s.field.collector.sum + m.size = _
        rw [h hfail, List.map_append, List.sum_append]
        simp
    · cases hf
  | procDone =>
    obtain ⟨f, hf, rfl⟩ := fieldEvent_cases hs
    rw [Field.step] at hf
    split at hf
    · cases hf
    split at hf
    · obtain rfl := Option.some.inj hf
      exact h
    · cases hf
  | move u c =>
    obtain ⟨f, hf, rfl⟩ := fieldEvent_cases hs
    rw [Field.step] at hf
    split at hf
    · cases hf
    obtain rfl := Option.some.inj hf
    exact h

/-- The collector never fails, so the sum is that of all reports that were handled. -/
theorem sum_of_reaches {pos : Uid → Coord} {ok : SystemEvent → System → Prop}
    (h : Runs.Reaches (step D range) ok (init D pos) s) :
    s.field.collector.sum = (s.handled.map UpdateReq.size).sum := by
  have htally : Tallied s := h.invariant (fun _ => rfl) fun _ _ _ ih _ hs => tallied_step ih hs
  have hlock : Field.Locked s.field :=
    (fieldRun_of_reaches (h.weaken fun _ _ _ _ _ _ => trivial) :
      FieldRun D range (fun _ _ => True) _ _).invariant
      ⟨⟨fun hp => (by cases hp), fun hp => (by cases hp)⟩, Nat.zero_le _, rfl⟩
      fun _ _ _ ih _ hs => Field.locked_step rfl ih hs
  exact htally hlock.failed

/-! ## The records -/

theorem mem_records {r : UpdateReq} {x : Uid × Nat} (h : x ∈ r.records) :
    x ∈ r.entries ∧ x.1 ≠ NOID := by
  obtain ⟨hx, hne⟩ := List.mem_filter.mp h
  exact ⟨hx, bne_iff_ne.mp hne⟩

theorem count_records_le (rs : List UpdateReq) (x : Uid × Nat) :
    (rs.flatMap UpdateReq.records).count x ≤ (rs.flatMap UpdateReq.entries).count x := by
  induction rs with
  | nil => exact Nat.le_refl _
  | cons r rs ih =>
    have hone : r.records.count x ≤ r.entries.count x := List.filter_sublist.count_le x
    rw [List.flatMap_cons, List.flatMap_cons, List.count_append, List.count_append]
    exact Nat.add_le_add hone ih

/-- A list of different records that the provers have made is no longer than their rounds. -/
theorem length_le_attests {l : List (Uid × Nat)} {count : Uid → Nat} (hl : l.Nodup)
    (hmem : ∀ x ∈ l, x.1 ∈ D.ids ∧ 1 ≤ x.2 ∧ x.2 ≤ count x.1) :
    l.length ≤ (D.ids.map count).sum := by
  let all := D.ids.flatMap fun u => (List.range' 1 (count u)).map fun k => (u, k)
  have hsub : l ⊆ all := by
    intro x hx
    obtain ⟨hu, h1, h2⟩ := hmem x hx
    refine List.mem_flatMap.mpr ⟨x.1, hu, List.mem_map.mpr ⟨x.2, ?_, rfl⟩⟩
    rw [List.mem_range'_1]
    omega
  have hlen : all.length = (D.ids.map count).sum := by
    simp only [all, List.length_flatMap, List.length_map, List.length_range']
  rw [← hlen]
  exact (List.subperm_of_subset hl hsub).length_le

/-- The network of a run in which no prover with children is made a leaf. -/
theorem exists_keepsChildren {pos : Uid → Coord}
    (h : Runs.Reaches (step D range) KeepsChildren (init D pos) s) :
    ∃ n, Runs.Reaches (Net.step D) Net.KeepsChildren (Net.init D) n ∧ Matches D s n := by
  let ok : Event → Prover → Prop := fun ev p =>
    (Prover.StartsAttestation ev.act → p.log.count .start + 1 < 2 ^ 31) ∧ ¬ p.LeavesChildren ev
  have hlocal : Runs.Reaches (step D range) (Locally ok) (init D pos) s := h
  obtain ⟨n, hn, ht⟩ := simulates
    (fun _ _ => ⟨fun hst => hst.elim, not_leavesChildren_crash⟩)
    (fun _ _ _ _ hok => ⟨hok.1, hok.2 ∘ leavesChildren_resumed⟩) hlocal
  have hreal := hn.strengthen Net.realMail_init fun _ _ _ hm => hm.step
  exact ⟨n, hreal.weaken fun _ _ hok => ⟨fun u ev he => ⟨hok.2 u ev he, (hok.1 u ev he).1⟩,
    fun u ev he => (hok.1 u ev he).2⟩, ht.same⟩

/-- The records that reached the collector are different, were made, and are as many as it has
counted. -/
theorem counted_of_reaches {pos : Uid → Coord}
    (h : Runs.Reaches (step D range) KeepsChildren (init D pos) s) :
    (s.handled.flatMap UpdateReq.records).Nodup ∧
      (∀ x ∈ s.handled.flatMap UpdateReq.records,
        x.1 ∈ D.ids ∧ 1 ≤ x.2 ∧ x.2 ≤ (s.prover x.1).attestcount) ∧
      s.field.collector.sum = (s.handled.flatMap UpdateReq.records).length := by
  obtain ⟨n, hkeeps, hm⟩ := exists_keepsChildren h
  have hord : Net.Orderly D n := hkeeps.invariant Net.orderly_init fun _ _ _ ih hok hs =>
    ih.step hok (Net.moves_of_step hs).2
  have hwired : Net.Wired Report.Paired Msg.Exact D n :=
    Net.wired_of_reaches (fun u _ => gathers_exact (D.cfg u)) hkeeps
  have hcount : ∀ x : Uid × Nat, x.1 ≠ NOID →
      (s.handled.flatMap UpdateReq.entries).count x ≤ Net.made D x n := by
    intro x hx
    have := hord.records x hx
    rw [Net.total, hm.handled] at this
    omega
  have hnodup : (s.handled.flatMap UpdateReq.records).Nodup := by
    refine List.nodup_iff_count_le_one.mpr fun x => ?_
    by_cases hin : x ∈ s.handled.flatMap UpdateReq.records
    · obtain ⟨r, -, hx⟩ := List.mem_flatMap.mp hin
      exact (count_records_le _ x).trans ((hcount x (mem_records hx).2).trans (Net.made_le hord.cfg x))
    · rw [List.count_eq_zero.mpr hin]
      exact Nat.zero_le 1
  have hmade : ∀ x ∈ s.handled.flatMap UpdateReq.records,
      x.1 ∈ D.ids ∧ 1 ≤ x.2 ∧ x.2 ≤ (s.prover x.1).attestcount := by
    intro x hin
    obtain ⟨r, hr, hx⟩ := List.mem_flatMap.mp hin
    obtain ⟨hentry, hne⟩ := mem_records hx
    have hpos : 0 < (s.handled.flatMap UpdateReq.entries).count x :=
      List.count_pos_iff.mpr (List.mem_flatMap.mpr ⟨r, hr, hentry⟩)
    obtain ⟨u, hu, hmu⟩ := Counting.exists_pos_of_sum_map (Nat.lt_of_lt_of_le hpos (hcount x hne))
    rw [Prover.made] at hmu
    split at hmu
    · next hx' =>
      rw [hord.cfg, D.uid_eq] at hx'
      obtain ⟨out, t, he, -⟩ := hm.prover u hu
      rw [hx'.1]
      refine ⟨hu, hx'.2.1, ?_⟩
      have hle := hx'.2.2
      rw [he] at hle
      exact hle
    · cases hmu
  have hsum : s.field.collector.sum = (s.handled.flatMap UpdateReq.records).length := by
    rw [sum_of_reaches h, List.length_flatMap]
    refine congrArg List.sum (List.map_congr_left fun r hr => ?_)
    exact Msg.Exact.update.mp (hwired.handled r (hm.handled.symm ▸ hr))
  exact ⟨hnodup, hmade, hsum⟩

/-- **What the collector has counted** are different records, each made by its prover in one of
its rounds, so that the sum never exceeds the number of attestations: whatever is parked,
postponed or redirected on the way, and whoever crashes. -/
theorem sum_exact {pos : Uid → Coord}
    (h : Runs.Reaches (step D range) KeepsChildren (init D pos) s) :
    (s.handled.flatMap UpdateReq.records).Nodup ∧
      (∀ x ∈ s.handled.flatMap UpdateReq.records,
        x.1 ∈ D.ids ∧ 1 ≤ x.2 ∧ x.2 ≤ (s.prover x.1).attestcount) ∧
      s.field.collector.sum = (s.handled.flatMap UpdateReq.records).length ∧
      s.field.collector.sum ≤ (D.ids.map fun u => (s.prover u).attestcount).sum := by
  obtain ⟨hnodup, hmade, hsum⟩ := counted_of_reaches h
  exact ⟨hnodup, hmade, hsum, hsum ▸ length_le_attests hnodup hmade⟩

end

/-- No prover of `relayedReport` gets an ack when it has children. -/
theorem exists_of_relayed (test : System → Bool)
    (h : (Runs.run (Runs.guarded (step rootAndChild 50) (Locally fun ev p =>
      (Prover.StartsAttestation ev.act → p.log.count .start + 1 < 2 ^ 31) ∧
        (ev.isAck = false ∨ ∀ k ∈ p.csessions.keys, k = NOID))) relayedReport
      (init rootAndChild fun _ => ⟨0, 0, 0⟩)).any test = true) :
    ∃ s, Runs.Reaches (step rootAndChild 50) KeepsChildren
      (init rootAndChild fun _ => ⟨0, 0, 0⟩) s ∧ test s = true := by
  obtain ⟨s, hs, ht⟩ := Runs.exists_of_run (step rootAndChild 50) _ relayedReport _ test h
  exact ⟨s, hs.weaken fun e s hok u ev hloc =>
    ⟨(hok u ev hloc).1, Net.not_leavesChildren (hok u ev hloc).2⟩, ht⟩

/-- In `relayedReport` the collector counts both records. -/
theorem sum_exact_relayed : ∃ s : System, s.field.collector.sum = 2 ∧
    (s.handled.flatMap UpdateReq.records).Nodup ∧
    s.field.collector.sum ≤ (rootAndChild.ids.map fun u => (s.prover u).attestcount).sum := by
  obtain ⟨s, hs, ht⟩ := exists_of_relayed (fun s => s.field.collector.sum = 2) (by decide +kernel)
  obtain ⟨hnodup, -, -, hle⟩ := sum_exact hs
  exact ⟨s, of_decide_eq_true ht, hnodup, hle⟩

end System

end Fadia
