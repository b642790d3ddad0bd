import Fadia.Proof.AckedReports

/-!
# What becomes of the report of an acknowledged child

`Taken m p q` says that the step from `p` to `q` merged `m` with all its records or
handed it to `sendCollector`.  For the first report of a child that had an ack this
is so exactly when the prover has finished or still has the child's session
(`taken_iff`); a child whose update timer has fired has none, and while the prover
waits for another child its report is lost (`lateReport_lost`).
-/

namespace Fadia

open Traces

namespace Prover

/-- `m` was merged with all its records, or handed to `sendCollector`. -/
inductive Taken (m : UpdateReq) (p q : Prover) : Prop
  | merged (hl : Mark.merge m.source :: .upReq m.source :: p.log <:+ q.log)
      (hr : ∀ x, x.1 ≠ NOID →
        p.aggreport.entries.count x + m.entries.count x ≤ q.aggreport.entries.count x)
  | handedOver {m' : UpdateReq} (hm : m' = m ∨ m' = { m with kind := .UPRQF, destination := baseID })
      (ho : q.out = p.out ++ [.collector m'])

/-- A child that was acknowledged has its session, has reported or has timed out. -/
def Remembered (p : Prover) : Prop :=
  ∀ c, .ack c ∈ p.log → p.Child c ∨ .upReq c ∈ p.log ∨ .upTimeOut c ∈ p.log

section
variable {p q : Prover} {e : Event} {m : UpdateReq}

theorem ack_mem_childLog {c : Uid} : .ack c ∈ p.childLog ↔ .ack c ∈ p.log := by
  rw [childLog, List.mem_filter, childMark, and_iff_left rfl]

theorem log_of_live (hf : p.fault = none) (h : p.Live e q) : p.log <:+ q.log := by
  cases h with
  | @timer t c => exact log_onTimer (p := (p.atTime e.time).cancelEvent t) c t hf
  | @upto k u => exact log_handleUpdateTimeOut (p := (p.atTime e.time).popUpto k) u.2
  | self =>
    obtain ⟨out, he⟩ := onSelf_eq (p := (p.atTime e.time).popOutbox _) _ _
    exact suffix_of_eq he rfl
  | @recv m c => exact log_onRecv (p := p.atTime e.time) c m hf

/-- **One event** of a prover that lives; an attestation that starts finds no acks. -/
theorem Remembered.step (h : p.Remembered) (hf : p.fault = none) (hl : p.Live e q)
    (hs : StartsAttestation e.act → ∀ c, .ack c ∉ p.log) (hok : q.fault = none)
    (hsrc : RealSource e.act) : q.Remembered := by
  have hlog := log_of_live hf hl
  intro c hc
  have hmarks : .upReq c ∈ p.log ∨ .upTimeOut c ∈ p.log →
      q.Child c ∨ .upReq c ∈ q.log ∨ .upTimeOut c ∈ q.log := fun hm =>
    .inr (hm.imp (fun hm => hlog.mem hm) fun hm => hlog.mem hm)
  rw [← ack_mem_childLog] at hc
  -- the marks of `c`, unless its session is in question
  have hold : q.childLog = p.childLog → (p.Child c →
      q.Child c ∨ .upReq c ∈ q.log ∨ .upTimeOut c ∈ q.log) →
      q.Child c ∨ .upReq c ∈ q.log ∨ .upTimeOut c ∈ q.log := by
    intro he hchild
    rw [he, ack_mem_childLog] at hc
    exact (h c hc).elim hchild hmarks
  cases children_of_live hf hl with
  | same hsame => exact hold hsame.log fun hk => .inl ((hsame.child c).mpr hk)
  | halt hfault => exact absurd hok hfault
  | restart hst he =>
    rw [he, List.mem_cons, ack_mem_childLog] at hc
    exact hc.elim nofun fun hc => absurd hc (hs hst c)
  | @accept m _ hact _ he hchild =>
    rw [he, List.mem_cons, ack_mem_childLog] at hc
    rcases hc with hk | hc
    · have hk : c = m.source := Mark.ack.inj hk
      rw [hact] at hsrc
      exact .inl ((hchild c).mpr ⟨fun hno => hsrc (hk.symm.trans hno), .inl hk⟩)
    · exact (h c hc).elim (fun hk => .inl ((hchild c).mpr ⟨hk.1, .inr hk⟩)) hmarks
  | @merge m' _ _ _ _ _ he hup hchild =>
    rw [he, List.mem_cons, ack_mem_childLog] at hc
    refine (h c (hc.resolve_left nofun)).elim (fun hk => ?_) hmarks
    by_cases hsame : c = m'.source
    · exact .inr (.inl (hsame ▸ hup))
    · exact .inl ((hchild c).mpr ⟨hsame, hk⟩)
  | @timeOut _ u _ he hup hchild =>
    refine hold he fun hk => ?_
    by_cases hsame : c = u.2.device
    · exact .inr (.inr (hsame ▸ hup))
    · exact .inl ((hchild c).mpr ⟨hsame, hk⟩)

/-- Acks come after the start of an attestation. -/
theorem started_step (h : ∀ c, .ack c ∈ p.log → .start ∈ p.log)
    (hcr : p.status = .CREATING → .start ∈ p.log) (hf : p.fault = none) (hl : p.Live e q) :
    ∀ c, .ack c ∈ q.log → .start ∈ q.log := by
  intro c hc
  have hlog := log_of_live hf hl
  have hold : .ack c ∈ p.childLog → .start ∈ q.log := fun hack =>
    hlog.mem (h c (ack_mem_childLog.mp hack))
  rw [← ack_mem_childLog] at hc
  cases children_of_live hf hl with
  | same hsame => exact hold (hsame.log ▸ hc)
  | halt _ he => exact hold (he ▸ hc)
  | restart _ he =>
    have hst : .start ∈ q.childLog := by rw [he]; exact List.mem_cons_self
    exact List.mem_of_mem_filter hst
  | accept _ hm => exact hlog.mem (hcr hm.status)
  | merge _ _ he =>
    rw [he, List.mem_cons] at hc
    exact hold (hc.resolve_left nofun)
  | timeOut _ he => exact hold (he ▸ hc)

theorem remembered_of_reaches {cfg : Config} {start : Nat}
    (h : Runs.Reaches Prover.step OnceOk (init cfg start) p) : Alive Remembered p := by
  let I : Prover → Prop := fun p => Alive (fun p =>
    p.Once True ∧ (∀ c, .ack c ∈ p.log → .start ∈ p.log) ∧ p.Remembered) p
  have hinit : I (init cfg start) := fun _ _ =>
    ⟨once_init True cfg start, fun _ hc => absurd hc List.not_mem_nil,
      fun _ hc => absurd hc List.not_mem_nil⟩
  have key : I p := by
    refine h.invariant hinit ?_
    intro e p p' ih hok hs hf' hc'
    obtain ⟨hf, -, ⟨-, _, _, _, _, -, rfl⟩ | ⟨hc, hlive⟩⟩ := step_cases hs
    · cases hc'
    obtain ⟨ho, hst, hr⟩ := ih hf hc
    refine ⟨ho.step hok (fun _ => trivial) hs hf' hc', started_step hst ?_ hf hlive,
      hr.step hf hlive (fun hst' c hack => hok.1 hst' (hst c hack)) hf' hok.2⟩
    intro hcr
    rcases ho.phase with hi | ⟨hlog, -⟩
    · cases hcr.symm.trans hi.status
    · exact hlog
  exact fun hf hc => (key hf hc).2.2

/-! ## The four outcomes of `handleUpReq` -/

theorem taken_merged {child : Session} (h : q.log = .merge m.source :: .upReq m.source :: p.log)
    (hr : q.aggreport = (p.merged m child).aggreport) (hp : p.aggreport.Paired) : Taken m p q := by
  refine .merged (h ▸ List.suffix_refl _) fun x hx => ?_
  rw [hr, ← count_mergeReport hp hx p.cfg.aggsize m]
  exact Nat.le_refl _

/-- A report whose sender has a session is merged. -/
theorem taken_of_merges {child parent : Session} (h : p.Merges m child parent)
    (hp : p.aggreport.Paired) : Taken m p (p.handleUpReq m) := by
  have hm : Taken m p (p.merged m child) := taken_merged rfl rfl hp
  rw [handleUpReq_of_merges h]
  split
  · have hpm : (p.merged m child).aggreport.Paired := takesIn_merged.paired hp
    obtain ⟨tid, hrep⟩ := (sends_sendUpReq (p := p.merged m child) m.treeID).report
    refine .merged (by rw [sendUpReq_log]; exact List.suffix_cons _ _) fun x hx => ?_
    have hadd := count_addOwnReport (r := { (p.merged m child).aggreport with tid := tid }) hpm hx
      (p.merged m child).cfg.aggsize (p.merged m child).cfg.recordMac (p.merged m child).cfg.UId
      ((p.merged m child).attestcount + 1)
    rw [hrep, hadd]
    refine Nat.le_trans ?_ (Nat.le_add_right _ _)
    exact Nat.le_of_eq (count_mergeReport hp hx p.cfg.aggsize m).symm
  · exact hm

/-- A report that leaves neither a merge nor a message to the collector behind is lost. -/
theorem not_taken (hl : q.log = .upReq m.source :: p.log) (ho : q.out = p.out) : ¬ Taken m p q := by
  rintro (⟨hlog, -⟩ | ⟨-, hout⟩)
  · have := hlog.length_le
    rw [hl] at this
    simp at this
  · rw [ho] at hout
    simpa using congrArg List.length hout

theorem taken_atTime {time : Nat} : Taken m (p.atTime time) q ↔ Taken m p q := by
  constructor
  · rintro (⟨hl, hr⟩ | ⟨hm, ho⟩)
    · exact .merged hl hr
    · exact .handedOver hm ho
  · rintro (⟨hl, hr⟩ | ⟨hm, ho⟩)
    · exact .merged hl hr
    · exact .handedOver hm ho

/-- **The outcome of `handleUpReq`**, for a report meant for the prover that passes the
checks of its sender's session, if there is one. -/
theorem taken_handleUpReq_iff (hp : p.aggreport.Paired) (hdest : m.destination = p.cfg.UId)
    (hopen : m.source ∈ p.csessions → p.psessions.second.isSome)
    (hmerges : m.kind ≠ .UPRQF → m.source ∈ p.csessions → m.report1.length ≤ m.report2.length →
      ∃ child parent, p.Merges m child parent) :
    Taken m p (p.handleUpReq m) ↔ m.kind = .UPRQF ∨ p.status = .FINISHED ∨
      m.source ∈ p.csessions ∧ m.report1.length ≤ m.report2.length := by
  have hlost : ∀ {p'}, p'.log = .upReq m.source :: p.log → p'.out = p.out → m.kind ≠ .UPRQF →
      p.status ≠ .FINISHED →
      ¬ (m.source ∈ p.csessions ∧ m.report1.length ≤ m.report2.length) →
      (Taken m p p' ↔ m.kind = .UPRQF ∨ p.status = .FINISHED ∨
        m.source ∈ p.csessions ∧ m.report1.length ≤ m.report2.length) := by
    intro p' hl ho hk hs hno
    exact iff_of_false (not_taken hl ho) fun h => h.elim hk fun h => h.elim hs hno
  have hbusy : p.status = .COLLECTING ∨ p.status = .CREATING → p.status ≠ .FINISHED := by
    rintro (hs | hs) <;> rw [hs] <;> nofun
  have hkept : ∀ {child parent}, p.Merges m child parent →
      (Taken m p (p.handleUpReq m) ↔ m.kind = .UPRQF ∨ p.status = .FINISHED ∨
        m.source ∈ p.csessions ∧ m.report1.length ≤ m.report2.length) := by
    intro child parent h
    have hin : m.source ∈ p.csessions :=
      AList.lookup_isSome.mp (Option.isSome_of_eq_some h.sender)
    exact iff_of_true (taken_of_merges h hp) (.inr (.inr ⟨hin, h.arrays⟩))
  have hcase := handleUpReq_cases (p := p) m
  generalize hq : p.handleUpReq m = p' at hcase hkept ⊢
  cases hcase with
  | forward hk => exact iff_of_true (.handedOver (.inl rfl) rfl) (.inl hk)
  | redirect _ _ hs => exact iff_of_true (.handedOver (.inr rfl) rfl) (.inr (.inl hs))
  | ignored hk hs hno =>
    refine hlost rfl rfl hk (hs hdest) fun ⟨hin, hlen⟩ => ?_
    obtain ⟨child, parent, h⟩ := hmerges hk hin hlen
    exact hno child parent h
  | unverified hk hs hno =>
    refine hlost rfl rfl hk (hbusy hs) fun ⟨hin, hlen⟩ => ?_
    obtain ⟨child, parent, h⟩ := hmerges hk hin hlen
    exact hno child parent h
  | null _ _ hin hnull =>
    have := hopen hin
    rw [hnull] at this
    cases this
  | array hs hlen hk =>
    exact hlost rfl rfl hk (hbusy hs) fun h => absurd h.2 (Nat.not_le.mpr hlen)
  | last h => exact hkept h
  | more h => exact hkept h

end

/-- **The first report of an acknowledged child** is merged or handed to `sendCollector`
exactly when the prover has finished or still has the child's session; where it has
not, the child's update timer has fired. -/
theorem taken_iff {cfg : Config} {start time : Nat} {p q : Prover} {m : UpdateReq} {c : Choice}
    (h : Runs.Reaches step OnceOk (init cfg start) p) (hc : p.crashed = false)
    (hs : step ⟨time, .recv (.updateReq m) c⟩ p = some q) (hdest : m.destination = p.cfg.UId)
    (hack : .ack m.source ∈ p.log) (hfirst : .upReq m.source ∉ p.log)
    (htid : ∀ parent, p.psessions.second = some parent → m.treeID = parent.treeID)
    (hmac : ∀ child, p.csessions.lookup m.source = some child →
      p.cfg.checkMAC (.updateReq m) child.keyID = true) :
    (Taken m p q ↔ m.kind = .UPRQF ∨ p.status = .FINISHED ∨
      m.source ∈ p.csessions ∧ m.report1.length ≤ m.report2.length) ∧
    (m.source ∉ p.csessions → .upTimeOut m.source ∈ p.log) := by
  obtain ⟨hf, -, ⟨hcr, -⟩ | ⟨-, hlive⟩⟩ := step_cases hs
  · simp [hc] at hcr
  have hrem := remembered_of_reaches h hf hc
  have hrest : m.source ∉ p.csessions → .upTimeOut m.source ∈ p.log := fun hno =>
    ((hrem m.source hack).resolve_left fun hk => hno hk.2).resolve_left hfirst
  refine ⟨?_, hrest⟩
  have hp := paired_of_reaches h
  have ho := once_of_reaches h hf hc
  have hopen : m.source ∈ p.csessions → p.Opened ∧ (p.status = .CREATING ∨ p.status = .COLLECTING) := by
    intro hin
    rcases ho.phase with hi | ⟨-, ha⟩
    · exact absurd hin (not_mem_of_keys_nil hi.sessions.children _)
    · exact (ha.opened hin).imp_right (Or.imp And.left And.left)
  -- a prover with a session for the sender merges
  have hmerges : m.kind ≠ .UPRQF → m.source ∈ p.csessions →
      m.report1.length ≤ m.report2.length →
      ∃ child parent, (p.atTime time).Merges m child parent := by
    intro hk hin hlen
    obtain ⟨child, hchild⟩ := Option.isSome_iff_exists.mp (AList.lookup_isSome.mpr hin)
    obtain ⟨parent, hparent⟩ := Option.isSome_iff_exists.mp (hopen hin).1.second
    exact ⟨child, parent, hk, hdest, (hopen hin).2.symm, hchild, hparent, htid parent hparent,
      hmac child hchild, hlen⟩
  cases hlive with
  | recv hact =>
    cases hact
    rw [← taken_atTime ]
    exact taken_handleUpReq_iff hp hdest (fun hin => (hopen hin).1.second) hmerges
  | timer hact => cases hact
  | upto hact => cases hact
  | self hact => cases hact

/-- The report of child 2 in `earlyReport`. -/
def childReport : UpdateReq := ⟨.UPRQ, 2, 1, [2, 0], [1, 0], 7, 0, 5, [0]⟩

/-- The child's report is taken where its session is still there. -/
theorem taken_iff_early : ∃ p q, 2 ∈ p.csessions ∧ Taken childReport p q := by
  obtain ⟨p, hp, ht⟩ := Runs.exists_of_run step OnceOk (earlyReport.take 6) (init rootConfig 0)
    (fun p => 2 ∈ p.csessions ∧ p.crashed = false ∧ .ack 2 ∈ p.log ∧
      .upReq 2 ∉ p.log ∧ p.psessions.second = some ⟨7, NOID, ckey, 1, true, none⟩ ∧
      (step ⟨4 * second, .recv (.updateReq childReport) {}⟩ p).isSome) (by decide +kernel)
  obtain ⟨hin, hc, hack, hfirst, hsecond, hs⟩ := of_decide_eq_true ht
  have hcfg := cfg_of_reaches hp
  obtain ⟨q, hq⟩ := Option.isSome_iff_exists.mp hs
  have htaken := taken_iff hp hc hq (by rw [hcfg]; rfl) hack hfirst
    (fun parent h => by rw [hsecond] at h; cases h; rfl) (fun child _ => by rw [hcfg]; rfl)
  exact ⟨p, q, hin, htaken.1.mpr (.inr (.inr ⟨hin, by decide⟩))⟩

/-- Children 2 and 3 are acknowledged; the update timer of 2 fires first. -/
def lateReport : List Event :=
  earlyReport.take 6 ++
    [⟨4 * second, .recv (.commitResp ⟨3, 1, 5, 7, 0, 5⟩) {}⟩,
     ⟨4133198816000, .self 8 {}⟩,
     ⟨13960000000000, .timer .cresptomsg {}⟩,
     ⟨15 * second, .upto 7⟩]

/-- Behind `lateReport` the report of child 2 is deleted. -/
theorem lateReport_lost :
    ¬ ∀ (cfg : Config) (start time : Nat) (p q : Prover) (m : UpdateReq) (c : Choice),
      Runs.Reaches step OnceOk (init cfg start) p → p.crashed = false →
      step ⟨time, .recv (.updateReq m) c⟩ p = some q → m.destination = p.cfg.UId →
      .ack m.source ∈ p.log → .upReq m.source ∉ p.log →
      (∀ parent, p.psessions.second = some parent → m.treeID = parent.treeID) →
      (∀ child, p.csessions.lookup m.source = some child →
        p.cfg.checkMAC (.updateReq m) child.keyID = true) → Taken m p q := by
  intro h
  obtain ⟨p, hp, ht⟩ := Runs.exists_of_run step OnceOk lateReport (init rootConfig 0)
    (fun p => p.crashed = false ∧ p.cfg.UId = 1 ∧ .ack 2 ∈ p.log ∧ .upReq 2 ∉ p.log ∧
      p.psessions.second = some ⟨7, NOID, ckey, 1, true, none⟩ ∧ p.csessions.lookup 2 = none ∧
      (step ⟨15500000000000, .recv (.updateReq childReport) {}⟩ p).any fun q =>
        q.log = .upReq 2 :: p.log ∧ q.out = p.out) (by decide +kernel)
  obtain ⟨hc, huid, hack, hfirst, hsecond, hsess, hs⟩ := of_decide_eq_true ht
  obtain ⟨q, hq, hres⟩ := (Option.any_eq_true _ _).mp hs
  obtain ⟨hlog, hout⟩ := of_decide_eq_true hres
  refine not_taken (m := childReport) hlog hout
    (h rootConfig 0 _ p q childReport {} hp hc hq huid.symm hack hfirst ?_ ?_)
  · intro parent hparent
    rw [hsecond] at hparent
    cases hparent
    rfl
  · intro child hchild
    cases hsess.symm.trans hchild

end Prover

end Fadia
