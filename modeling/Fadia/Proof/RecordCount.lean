import Fadia.Proof.OneReport
import Fadia.Proof.OnceRun

/-!
# The records of one prover over many rounds

A prover makes one record a round.  `held x p` counts the places in which a prover
has the record `x` to report or to pass on, `made x p` tells whether it has made
`x`; `held_step` is their balance over one event.  `Orderly` is the invariant that
the balance rests on: one report for each attestation, and no more records than
rounds.
-/

namespace Fadia

open Traces

instance : DecidablePred SentIn := fun log =>
  inferInstanceAs (Decidable (.sendUpReq ∈ since .start log))

/-! ## The wire -/

/-- A record survives the `int` fields of the wire. -/
def Fitting (x : Uid × Nat) : Prop := x.1 < 2 ^ 32 ∧ x.2 < 2 ^ 31

/-- A report with records that survive carries each as often as it holds it. -/
theorem count_toUpdateReq {r : Report} (h : r.Paired) {x : Uid × Nat} (hx : x.1 ≠ NOID)
    (hw : ∀ y ∈ r.entries, y.1 ≠ NOID → Fitting y) (kind : UpKind) (src dest : Uid)
    (tid : TreeId) (kid : KeyId) :
    (r.toUpdateReq kind src dest tid kid).entries.count x = r.entries.count x := by
  rw [toUpdateReq_readBack h, List.count_eq_countP, List.count_eq_countP, List.countP_map]
  refine List.countP_congr fun y hy => ?_
  rw [Function.comp_apply, beq_iff_eq, beq_iff_eq]
  by_cases hsep : y.1 = NOID
  · have h1 : readBack y ≠ x := fun he => hx <| by
      rw [← he, fst_readBack, hsep]
      exact uidOfInt_toInt32 (Nat.two_pow_pos 32)
    exact iff_of_false h1 fun he => hx (he ▸ hsep)
  · rw [readBack_of_lt (hw y hy hsep)]

namespace Prover

/-- Message sources are real and fewer than `2 ^ 31` rounds are started. -/
def Regular (e : Event) (p : Prover) : Prop :=
  RealSource e.act ∧ (StartsAttestation e.act → p.log.count .start + 1 < 2 ^ 31)

instance (e : Event) (p : Prover) : Decidable (Regular e p) :=
  inferInstanceAs (Decidable (_ ∧ (_ → _)))

/-- How often a prover has the record `x` to report or to pass on. -/
def held (x : Uid × Nat) (p : Prover) : Nat :=
  (if SentIn p.log then 0 else p.aggreport.entries.count x) + p.carried.count x

/-- A prover has made the record `x`. -/
def made (x : Uid × Nat) (p : Prover) : Nat :=
  if x.1 = p.cfg.UId ∧ 1 ≤ x.2 ∧ x.2 ≤ p.attestcount then 1 else 0

/-- The entries of the report that was received, if it was one. -/
def received (o : Option UpdateReq) : List (Uid × Nat) := o.toList.flatMap UpdateReq.entries

/-- A prover that has started has made at most one record in each round. -/
def Tallied (p : Prover) : Prop :=
  p.attestcount + (if SentIn p.log then 0 else 1) ≤ p.log.count .start

/-- The invariant over many rounds. -/
structure Orderly (p : Prover) : Prop where
  oneReport : OneReport p.log
  sound : Alive Sound p
  begun : p.Idle ∧ p.attestcount = 0 ∨ .start ∈ p.log ∧ p.Tallied
  rounds : p.log.count .start < 2 ^ 31
  paired : p.aggreport.Paired

section
variable {p q r : Prover} {st : Prop} {o : Option UpdateReq} {x : Uid × Nat}

/-! ## The balance of the records -/

/-- A report that is sent is the first of its round. -/
theorem Sends.first (h : Sends p q) (hr : OneReport q.log) : ¬ SentIn p.log := by
  obtain ⟨past, hlog, hext⟩ := h.log
  rw [OneReport, hlog] at hr
  exact fun hs => (atEach_cons.mp hr).1 rfl (hext.sentIn.mpr hs)

theorem Sends.sentIn (h : Sends p q) : SentIn q.log := by
  obtain ⟨past, hlog, -⟩ := h.log
  rw [hlog]
  exact sentIn_sendUpReq

theorem Sends.made (h : Sends p q) (x : Uid × Nat) :
    q.made x = p.made x + [(p.cfg.UId, p.attestcount + 1)].count x := by
  obtain ⟨u, n⟩ := x
  rw [List.count_singleton]
  by_cases hu : u = p.cfg.UId
  · simp only [Prover.made, h.cfg, h.count, beq_iff_eq, Prod.mk.injEq, hu, true_and]
    split_ifs <;> omega
  · simp [Prover.made, h.cfg, hu, Ne.symm hu]

theorem Sends.entries (h : Sends p q) (hp : p.aggreport.Paired) (hx : x.1 ≠ NOID) :
    q.aggreport.entries.count x =
      p.aggreport.entries.count x + [(p.cfg.UId, p.attestcount + 1)].count x := by
  obtain ⟨tid, hr⟩ := h.report
  rw [hr, count_addOwnReport (r := { p.aggreport with tid := tid }) hp hx]
  rfl

/-- The own record and what was merged move into the report. -/
theorem Sends.held (h : Sends p q) (hp : p.aggreport.Paired) (hsent : ¬ SentIn p.log)
    (hx : x.1 ≠ NOID) (hown : Fitting (p.cfg.UId, p.attestcount + 1))
    (hw : ∀ y, y.1 ≠ NOID → 0 < p.held y → Fitting y) :
    q.held x + p.made x ≤ p.held x + q.made x := by
  obtain ⟨kind, src, dest, tid, kid, hcar⟩ := h.carried
  have hwire : ∀ y ∈ q.aggreport.entries, y.1 ≠ NOID → Fitting y := by
    intro y hy hsep
    have hpos := List.count_pos_iff.mpr hy
    rw [h.entries hp hsep] at hpos
    by_cases hin : 0 < p.aggreport.entries.count y
    · refine hw y hsep ?_
      rw [Prover.held, if_neg hsent]
      omega
    · have hown' : 0 < [(p.cfg.UId, p.attestcount + 1)].count y := by omega
      rw [List.mem_singleton.mp (List.count_pos_iff.mp hown')]
      exact hown
  have hq := count_toUpdateReq (h.paired hp) hx hwire kind src dest tid kid
  have hcar := hcar x
  rw [hq, h.entries hp hx] at hcar
  rw [Prover.held, if_pos h.sentIn, Prover.held, if_neg hsent, h.made]
  omega

theorem TakesIn.held {m : UpdateReq} (h : TakesIn m p q) (hp : p.aggreport.Paired)
    (hx : x.1 ≠ NOID) : q.held x ≤ p.held x + m.entries.count x := by
  simp only [Prover.held, h.log.sentIn, h.carried, h.report, count_mergeReport hp hx]
  split <;> omega

theorem TakesIn.made {m : UpdateReq} (h : TakesIn m p q) (x : Uid × Nat) : q.made x = p.made x := by
  rw [Prover.made, Prover.made, h.cfg, h.count]

/-- **The balance of one event**: what a prover holds more than before it has received
or made. -/
theorem Flow.held (h : Flow st o p q) (hp : p.aggreport.Paired) (hr : OneReport q.log)
    (hx : x.1 ≠ NOID) (hown : ¬ SentIn p.log → Fitting (p.cfg.UId, p.attestcount + 1))
    (hw : ∀ y, y.1 ≠ NOID → 0 < p.held y + (received o).count y → Fitting y) :
    q.held x + p.made x ≤ p.held x + (received o).count x + q.made x := by
  have hmade : q.cfg = p.cfg → q.attestcount = p.attestcount → q.made x = p.made x := fun h1 h2 => by
    rw [Prover.made, Prover.made, h1, h2]
  cases h with
  | quiet h =>
    have hcar := h.carried x
    simp only [Prover.held, h.log.sentIn, h.report, hmade h.cfg h.count]
    omega
  | restart _ h =>
    have hcar := h.carried x
    have hnil : q.aggreport.entries = [] := by rw [Report.entries, h.uids, List.zip_nil_left]
    simp only [Prover.held, hnil, List.count_nil, hmade h.cfg h.count]
    split <;> omega
  | send h =>
    have hfirst := h.first hr
    have := h.held hp hfirst hx (hown hfirst) fun y hy hpos => hw y hy (by omega)
    omega
  | @passOn m hm h =>
    have hrec : (received o).count x = m.entries.count x := by simp [received, hm]
    simp only [Prover.held, h.log.sentIn, h.report, hmade h.cfg h.count, h.carried x, hrec]
    omega
  | @merge m hm h =>
    have hrec : (received o).count x = m.entries.count x := by simp [received, hm]
    have := h.held hp hx
    rw [h.made]
    omega
  | @mergeSend m r hm h h' =>
    have hrec : ∀ y, (received o).count y = m.entries.count y := fun y => by simp [received, hm]
    have hin := h.held hp hx
    have hfirst := h'.first hr
    have hown' : Fitting (r.cfg.UId, r.attestcount + 1) := by
      rw [h.cfg, h.count]
      exact hown fun hs => hfirst (h.log.sentIn.mpr hs)
    have hout := h'.held (h.paired hp) hfirst hx hown' fun y hy hpos => by
      have := h.held hp hy
      rw [← hrec] at this
      exact hw y hy (by omega)
    rw [hrec, ← h.made]
    omega

/-! ## One event -/

/-- Before its first attestation a prover only starts it or passes reports on. -/
theorem Idle.live {e : Event} (h : p.Idle) (hf : p.fault = none) (hsrc : RealSource e.act)
    (hl : p.Live e q) : q.Idle ∨ StartsAttestation e.act ∧ q.log = .start :: p.log := by
  have hnow : (p.atTime e.time).Idle := h.congr rfl rfl rfl (fun _ _ => rfl) rfl fun _ => .inl
  cases hl with
  | @timer t c s hact ht =>
    have hstart : t = .startmsg := by
      by_contra hne
      rw [h.timers t hne] at ht
      cases ht
    rw [hact, hstart]
    exact .inr ⟨trivial, startAttestation_log (p := (p.atTime e.time).cancelEvent .startmsg) c⟩
  | upto hact hu =>
    rw [h.uptos] at hu
    cases hu
  | self hact ho =>
    obtain ⟨out, he⟩ := onSelf_eq (p := (p.atTime e.time).popOutbox _) _ _
    rw [he]
    exact .inl (h.congr rfl rfl rfl (fun _ _ => rfl) rfl fun _ => .inl)
  | @recv m c hact =>
    rw [hact] at hsrc
    exact .inl (hnow.recv c hf hsrc)

/-- The rounds a prover has started. -/
theorem Flow.tallied (h : Flow st o p q) (hb : p.Idle ∧ p.attestcount = 0 ∨ .start ∈ p.log ∧ p.Tallied)
    (hi : p.Idle → q.Idle ∨ q.log = .start :: p.log) (hr : OneReport q.log) :
    q.Idle ∧ q.attestcount = 0 ∨ .start ∈ q.log ∧ q.Tallied := by
  have hsame : p.attestcount = q.attestcount → Extends p.log q.log →
      q.Idle ∧ q.attestcount = 0 ∨ .start ∈ q.log ∧ q.Tallied := by
    intro hc hext
    have hcount := hext.count_start
    rcases hb with ⟨hidle, h0⟩ | ⟨hst, ht⟩
    · rcases hi hidle with hq | hlog
      · exact .inl ⟨hq, hc ▸ h0⟩
      · rw [hlog, List.count_cons_self] at hcount
        omega
    · refine .inr ⟨?_, ?_⟩
      · rw [← List.count_pos_iff] at hst ⊢
        omega
      · rw [Tallied, ← hc, hcount]
        simp only [hext.sentIn]
        exact ht
  have hsend : ∀ {r}, r.attestcount = p.attestcount → (SentIn r.log ↔ SentIn p.log) →
      r.log.count .start = p.log.count .start → Sends r q → .start ∈ q.log ∧ q.Tallied := by
    intro r hc hs hcount h
    have hfirst := h.first hr
    obtain ⟨past, hlog, hext⟩ := h.log
    have hne : Mark.sendUpReq ≠ .start := nofun
    have hqcount : q.log.count .start = p.log.count .start := by
      rw [hlog, List.count_cons_of_ne hne, hext.count_start, hcount]
    obtain ⟨hst, ht⟩ : .start ∈ p.log ∧ p.Tallied := by
      refine hb.resolve_left fun ⟨hidle, _⟩ => ?_
      rcases hi hidle with hq | hq
      · exact (hq.log _ (by rw [hlog]; exact List.mem_cons_self) : Passing .sendUpReq)
      · rw [hlog] at hq
        cases hq
    rw [Tallied, if_neg fun h => hfirst (hs.mpr h)] at ht
    refine ⟨?_, ?_⟩
    · rw [← List.count_pos_iff] at hst ⊢
      omega
    · rw [Tallied, if_pos h.sentIn, h.count, hc, hqcount]
      omega
  cases h with
  | quiet h => exact hsame h.count.symm h.log
  | restart _ h =>
    obtain ⟨past, hlog, hext⟩ := h.log
    have hcount : q.log.count .start = p.log.count .start + 1 := by
      rw [hlog, List.count_cons_self, hext.count_start]
    refine .inr ⟨by rw [hlog]; exact List.mem_cons_self, ?_⟩
    have hle : p.attestcount ≤ p.log.count .start := by
      rcases hb with ⟨-, h0⟩ | ⟨-, ht⟩
      · omega
      · rw [Tallied] at ht
        omega
    rw [Tallied, h.count, hcount]
    split <;> omega
  | send h => exact .inr (hsend rfl Iff.rfl rfl h)
  | passOn _ h => exact hsame h.count.symm h.log
  | merge _ h => exact hsame h.count.symm h.log
  | mergeSend _ h h' => exact .inr (hsend h.count h.log.sentIn h.log.count_start h')

/-- Fewer than `2 ^ 31` rounds are started. -/
theorem Flow.rounds (h : Flow st o p q) (hp : p.log.count .start < 2 ^ 31)
    (hok : st → p.log.count .start + 1 < 2 ^ 31) : q.log.count .start < 2 ^ 31 := by
  have hsend : ∀ {r}, Sends r q → q.log.count .start = r.log.count .start := by
    intro r h
    obtain ⟨past, hlog, hext⟩ := h.log
    have hne : Mark.sendUpReq ≠ .start := nofun
    rw [hlog, List.count_cons_of_ne hne, hext.count_start]
  cases h with
  | quiet h => rw [h.log.count_start]; exact hp
  | restart hst h =>
    obtain ⟨past, hlog, hext⟩ := h.log
    rw [hlog, List.count_cons_self, hext.count_start]
    exact hok hst
  | send h => rw [hsend h]; exact hp
  | passOn _ h => rw [h.log.count_start]; exact hp
  | merge _ h => rw [h.log.count_start]; exact hp
  | mergeSend _ h h' => rw [hsend h', h.log.count_start]; exact hp

/-- **One event of an orderly prover.** -/
theorem Orderly.step {e : Event} (h : p.Orderly) (hok : Regular e p) (hl : ¬ p.LeavesChildren e)
    (hs : Prover.step e p = some q) : q.Orderly := by
  obtain ⟨hf, -, ⟨-, _, _, _, _, ⟨ht, hu, ho⟩, rfl⟩ | ⟨hc, hlive⟩⟩ := step_cases hs
  · refine ⟨h.oneReport, nofun, ?_, h.rounds, h.paired⟩
    refine h.begun.imp_left fun ⟨hi, h0⟩ => ⟨⟨hi.status, ⟨hi.sessions.1, hi.sessions.2⟩, ?_, ?_, hi.log⟩, h0⟩
    · exact fun t hne => (ht t).elim id fun he => he.trans (hi.timers t hne)
    · have hnil := hi.uptos
      rw [hnil] at hu
      exact List.sublist_nil.mp hu
  · have hflow := flow_of_live hf hlive
    obtain ⟨hr, hsound⟩ := (h.sound hf hc).step hf h.oneReport hok.1 hl hlive
    refine ⟨hr, fun hf' _ => hsound hf', ?_, ?_, hflow.paired h.paired⟩
    · exact hflow.tallied h.begun (fun hi => (hi.live hf hok.1 hlive).imp_right And.right) hr
    · exact hflow.rounds h.rounds hok.2

/-- The next record of a prover that has not reported in the round. -/
theorem Orderly.own_lt (h : p.Orderly) (hs : ¬ SentIn p.log) : p.attestcount + 1 < 2 ^ 31 := by
  rcases h.begun with ⟨-, h0⟩ | ⟨-, ht⟩
  · rw [h0]
    norm_num
  · rw [Tallied, if_neg hs] at ht
    exact Nat.lt_of_le_of_lt ht h.rounds

/-- The records that were made. -/
theorem Orderly.made_lt (h : p.Orderly) : p.attestcount < 2 ^ 31 := by
  have hr := h.rounds
  rcases h.begun with ⟨-, h0⟩ | ⟨-, ht⟩
  · rw [h0]
    norm_num
  · rw [Tallied] at ht
    omega

/-- What was handed over does not matter. -/
theorem Orderly.of_out (h : p.Orderly) (out : List Packet) : { p with out := out }.Orderly :=
  ⟨h.oneReport, fun hf hc => (h.sound hf hc).congr rfl rfl rfl rfl rfl (h.sound hf hc).cackto rfl
    (List.Sublist.refl _) Iff.rfl, h.begun.imp_left fun ⟨hi, h0⟩ => ⟨⟨hi.status, ⟨hi.sessions.1,
    hi.sessions.2⟩, hi.timers, hi.uptos, hi.log⟩, h0⟩, h.rounds, h.paired⟩

theorem orderly_init (cfg : Config) (start : Nat) : (init cfg start).Orderly :=
  ⟨atEach_nil, fun _ _ => sound_init cfg start, .inl ⟨idle_init cfg start, rfl⟩, Nat.two_pow_pos 31,
    ⟨rfl, rfl⟩⟩

/-- **The balance of a step.** -/
theorem held_step {e : Event} (h : p.Orderly) (hs : Prover.step e p = some q) (hq : OneReport q.log)
    (hx : x.1 ≠ NOID) (huid : p.cfg.UId < 2 ^ 32)
    (hw : ∀ y, y.1 ≠ NOID → 0 < p.held y + (received e.report).count y → Fitting y) :
    q.held x + p.made x ≤ p.held x + (received e.report).count x + q.made x := by
  obtain ⟨hf, -, ⟨-, _, _, _, outbox, ⟨-, -, ho⟩, rfl⟩ | ⟨-, hlive⟩⟩ := step_cases hs
  · have hcar := Counting.count_flatMap_le (fun o : Stamp × Msg => o.2.entries) x ho
    simp only [Prover.held, Prover.made, carried, List.count_append]
    omega
  · exact (flow_of_live hf hlive).held h.paired hq hx (fun hsent => ⟨huid, h.own_lt hsent⟩) hw

end

end Prover

end Fadia
