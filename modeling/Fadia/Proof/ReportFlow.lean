import Fadia.Proof.ProverSteps
import Fadia.Proof.ReportMerge
import Fadia.Lib.Traces
import Fadia.Lib.Counting

/-!
# Where the records of a prover go

What an event does to `aggreport`, to `attestcount` and to the reports a prover
has prepared or handed over: nothing, a new round, a merge, an own record with the
report sent, a merge followed by that, or a child's report passed on
(`flow_of_live`).
-/

namespace Fadia

open Traces

/-- The entries in what was handed over for sending. -/
def Packet.entries : Packet → List (Uid × Nat)
  | .creqmsg => []
  | .prover m => m.entries
  | .collector m => m.entries

/-- The message to a prover that was handed over. -/
def Packet.msg? : Packet → Option Msg
  | .creqmsg => none
  | .prover m => some m
  | .collector _ => none

/-- A report was sent since the last `startAttestation`. -/
def SentIn (log : List Mark) : Prop := .sendUpReq ∈ since .start log

section
variable {log : List Mark} {y : Mark}

theorem not_sentIn_start : ¬ SentIn (.start :: log) := by simp [SentIn]

theorem sentIn_sendUpReq : SentIn (.sendUpReq :: log) := by
  have hne : Mark.sendUpReq ≠ .start := nofun
  rw [SentIn, since_cons hne]
  exact List.mem_cons_self

theorem sentIn_cons (hs : y ≠ .start) (hu : y ≠ .sendUpReq) : SentIn (y :: log) ↔ SentIn log := by
  rw [SentIn, since_cons hs, List.mem_cons]
  exact or_iff_right (Ne.symm hu)

theorem sentIn_append {marks : List Mark} (h : ∀ y ∈ marks, y ≠ .start ∧ y ≠ .sendUpReq) :
    SentIn (marks ++ log) ↔ SentIn log := by
  induction marks with
  | nil => exact Iff.rfl
  | cons y ys ih =>
    obtain ⟨h1, h2⟩ := h y List.mem_cons_self
    exact (sentIn_cons h1 h2).trans (ih fun z hz => h z (List.mem_cons_of_mem _ hz))

/-- `log'` extends `log`, within the round and without a report sent. -/
def Extends (log log' : List Mark) : Prop :=
  ∃ marks, log' = marks ++ log ∧ ∀ y ∈ marks, y ≠ .start ∧ y ≠ .sendUpReq

theorem Extends.refl : Extends log log := ⟨[], rfl, nofun⟩

theorem Extends.trans {log₁ log₂ : List Mark} (h : Extends log log₁) (h' : Extends log₁ log₂) :
    Extends log log₂ := by
  obtain ⟨marks, rfl, hm⟩ := h
  obtain ⟨marks', rfl, hm'⟩ := h'
  refine ⟨marks' ++ marks, (List.append_assoc ..).symm, fun y hy => ?_⟩
  exact (List.mem_append.mp hy).elim (hm' y) (hm y)

theorem Extends.sentIn {log' : List Mark} (h : Extends log log') : SentIn log' ↔ SentIn log := by
  obtain ⟨marks, rfl, hm⟩ := h
  exact sentIn_append hm

theorem Extends.count_start {log' : List Mark} (h : Extends log log') :
    log'.count .start = log.count .start := by
  obtain ⟨marks, rfl, hm⟩ := h
  rw [List.count_append, List.count_eq_zero.mpr fun hy => (hm _ hy).1 rfl, Nat.zero_add]

end

/-- The report a message is. -/
def Msg.report : Msg → Option UpdateReq
  | .updateReq m => some m
  | _ => none

namespace Prover

/-- The messages to provers that are prepared or handed over. -/
def mail (p : Prover) : List Msg := p.outbox.map Prod.snd ++ p.out.filterMap Packet.msg?

/-- The entries of the reports that are prepared or handed over. -/
def carried (p : Prover) : List (Uid × Nat) :=
  p.outbox.flatMap (·.2.entries) ++ p.out.flatMap Packet.entries

/-- The records stay where they are. -/
structure Quiet (p q : Prover) : Prop where
  cfg : q.cfg = p.cfg
  report : q.aggreport = p.aggreport
  count : q.attestcount = p.attestcount
  log : Extends p.log q.log
  carried : ∀ x, q.carried.count x ≤ p.carried.count x

/-- `sendUpReq`: the own record is added and the report is prepared. -/
structure Sends (p q : Prover) : Prop where
  cfg : q.cfg = p.cfg
  report : ∃ tid, q.aggreport = addOwnReport p.cfg.aggsize p.cfg.recordMac p.cfg.UId
    (p.attestcount + 1) { p.aggreport with tid := tid }
  count : q.attestcount = p.attestcount + 1
  log : ∃ past, q.log = .sendUpReq :: past ∧ Extends p.log past
  carried : ∃ kind src dest tid kid, ∀ x, q.carried.count x ≤
    p.carried.count x + (q.aggreport.toUpdateReq kind src dest tid kid).entries.count x

/-- The report `m` of a child is merged. -/
structure TakesIn (m : UpdateReq) (p q : Prover) : Prop where
  cfg : q.cfg = p.cfg
  report : q.aggreport = mergeReport p.cfg.aggsize p.aggreport m
  count : q.attestcount = p.attestcount
  log : Extends p.log q.log
  carried : q.carried = p.carried

/-- A new round. -/
structure Restarts (p q : Prover) : Prop where
  cfg : q.cfg = p.cfg
  uids : q.aggreport.uids = []
  counters : q.aggreport.counters = []
  sizes : q.aggreport.size = p.aggreport.size ∧ q.aggreport.sepsize = p.aggreport.sepsize
  count : q.attestcount = p.attestcount
  log : ∃ past, q.log = .start :: past ∧ Extends p.log past
  carried : ∀ x, q.carried.count x ≤ p.carried.count x

/-- The report `m` is passed on to the collector. -/
structure PassesOn (m : UpdateReq) (p q : Prover) : Prop where
  cfg : q.cfg = p.cfg
  report : q.aggreport = p.aggreport
  count : q.attestcount = p.attestcount
  log : Extends p.log q.log
  carried : ∀ x, q.carried.count x = p.carried.count x + m.entries.count x

/-- What an event does to the records; `st` says that it starts a round, `o` is the
report received, if it was one. -/
inductive Flow (st : Prop) (o : Option UpdateReq) (p q : Prover) : Prop
  | quiet (h : Quiet p q)
  | restart (hst : st) (h : Restarts p q)
  | send (h : Sends p q)
  | passOn {m : UpdateReq} (hm : o = some m) (h : PassesOn m p q)
  | merge {m : UpdateReq} (hm : o = some m) (h : TakesIn m p q)
  | mergeSend {m : UpdateReq} {r : Prover} (hm : o = some m) (h : TakesIn m p r) (h' : Sends r q)

section
variable {p q r : Prover} {st : Prop} {o : Option UpdateReq}

theorem Quiet.trans (h : Quiet p q) (h' : Quiet q r) : Quiet p r :=
  ⟨h'.cfg.trans h.cfg, h'.report.trans h.report, h'.count.trans h.count, h.log.trans h'.log,
    fun x => (h'.carried x).trans (h.carried x)⟩

theorem Quiet.trans_send (h : Quiet p q) (h' : Sends q r) : Sends p r := by
  obtain ⟨past, hlog, hext⟩ := h'.log
  obtain ⟨kind, src, dest, tid, kid, hcar⟩ := h'.carried
  refine ⟨h'.cfg.trans h.cfg, ?_, by rw [h'.count, h.count], ⟨past, hlog, h.log.trans hext⟩,
    kind, src, dest, tid, kid, fun x => (hcar x).trans (Nat.add_le_add_right (h.carried x) _)⟩
  have := h'.report
  rwa [h.cfg, h.report, h.count] at this

/-- A change of other fields, with a log that grew by `marks`. -/
theorem quiet_of (marks : List Mark) (hcfg : q.cfg = p.cfg) (hr : q.aggreport = p.aggreport)
    (hc : q.attestcount = p.attestcount) (hl : q.log = marks ++ p.log)
    (hm : ∀ y ∈ marks, y ≠ .start ∧ y ≠ .sendUpReq) (hcar : q.carried = p.carried) : Quiet p q := by
  exact ⟨hcfg, hr, hc, ⟨marks, hl, hm⟩, fun x => by rw [hcar]⟩

/-- A message without entries adds nothing to what is carried. -/
theorem carried_prepare {m : Msg} (hm : m.entries = []) : (p.prepare m).carried = p.carried := by
  simp [carried, prepare, hm]

theorem sends_sendUpReq (tid : TreeId) : Sends p (p.sendUpReq tid) := by
  cases hs : p.psessions.second with
  | none =>
    refine ⟨?_, ?_, ?_, ⟨p.log, sendUpReq_log tid, .refl⟩, .UPRQ, 0, 0, 0, 0, fun x => ?_⟩
    · simp [sendUpReq, hs, fail]
    · exact ⟨tid, by simp [sendUpReq, hs, fail]⟩
    · simp [sendUpReq, hs, fail]
    · have : (p.sendUpReq tid).carried = p.carried := by simp [sendUpReq, hs, fail, carried]
      rw [this]
      exact Nat.le_add_right _ _
  | some parent =>
    rw [sendUpReq_of_some tid hs]
    have hmsg : ∃ kind src dest, p.reportMsg tid parent =
        (addOwnReport p.cfg.aggsize p.cfg.recordMac p.cfg.UId (p.attestcount + 1)
          { p.aggreport with tid := tid }).toUpdateReq kind src dest tid parent.keyID := by
      unfold reportMsg
      dsimp only
      split <;> exact ⟨_, _, _, rfl⟩
    obtain ⟨kind, src, dest, hmsg⟩ := hmsg
    refine ⟨rfl, ⟨tid, rfl⟩, rfl, ⟨p.log, rfl, .refl⟩, kind, src, dest, tid, parent.keyID, ?_⟩
    intro x
    simp only [carried, prepare, hmsg, List.flatMap_append, List.flatMap_cons, List.flatMap_nil,
      List.append_nil, List.count_append, Msg.entries]
    omega

theorem quiet_broadcast (depth : Nat) (tid : TreeId) (hf : p.fault = none) :
    Quiet p (p.broadcastCommitReq depth tid) := by
  cases h : p.timers .creqmsg with
  | some s =>
    have hb : ∃ st d t f, p.broadcastCommitReq depth tid = { p with
        status := st, creqDepth := d, creqTreeID := t, fault := f } := by
      refine ⟨.CREATING, depth, tid, some .alreadyScheduled, ?_⟩
      simp [broadcastCommitReq, scheduleAt, h, andThen, fail]
    obtain ⟨_, _, _, _, hb⟩ := hb
    rw [hb]
    exact quiet_of [] rfl rfl rfl rfl (by simp) rfl
  | none =>
    rw [broadcast_of_none tid depth hf h]
    exact quiet_of [.broadcast] rfl rfl rfl rfl (by simp) rfl

theorem flow_sendCommitReq (c : Choice) (tid : TreeId) (hf : p.fault = none) :
    Flow st o p (p.sendCommitReq c tid) := by
  have hroot : Quiet p (p.startTree c.treeID) := quiet_of [.root] rfl rfl rfl rfl (by simp) rfl
  by_cases hs : p.status = .ATTESTING
  · rw [sendCommitReq_attesting tid c hs]
    exact .quiet (quiet_of [] rfl rfl rfl rfl (by simp) rfl)
  by_cases hm : p.maxchildren = 0
  · rw [sendCommitReq_leaf tid c hs hm]
    exact .send (hroot.trans_send (sends_sendUpReq _))
  by_cases hfirst : p.psessions.first = NOID
  · rw [sendCommitReq_root tid c hs hm hfirst]
    exact .quiet (hroot.trans (quiet_broadcast _ _ hf))
  cases hp : p.psessions.second with
  | none =>
    rw [sendCommitReq_null tid c hs hm hfirst hp]
    exact .quiet (quiet_of [] rfl rfl rfl rfl (by simp) rfl)
  | some parent =>
    rw [sendCommitReq_inner tid c hs hm hfirst hp]
    have hsub : Quiet p (p.record (.depthSub parent.depth)) :=
      quiet_of [.depthSub parent.depth] rfl rfl rfl rfl (by simp) rfl
    exact .quiet (hsub.trans (quiet_broadcast _ _ hf))

theorem Flow.of_quiet (h : Quiet p q) (h' : Flow st none q r) : Flow st o p r := by
  cases h' with
  | quiet h' => exact .quiet (h.trans h')
  | restart hst h' =>
    obtain ⟨past, hlog, hext⟩ := h'.log
    have hsizes : r.aggreport.size = p.aggreport.size ∧
        r.aggreport.sepsize = p.aggreport.sepsize := h.report ▸ h'.sizes
    refine .restart hst ⟨h'.cfg.trans h.cfg, h'.uids, h'.counters, hsizes, h'.count.trans h.count,
      ⟨past, hlog, h.log.trans hext⟩, fun x => (h'.carried x).trans (h.carried x)⟩
  | send h' => exact .send (h.trans_send h')
  | passOn hm => cases hm
  | merge hm => cases hm
  | mergeSend hm => cases hm

theorem flow_onTimer (t : Timer) (c : Choice) (hf : p.fault = none) :
    Flow (StartsAttestation (.timer t c)) o p (p.onTimer t c) := by
  have hstart : Restarts p (p.startAttestation c) := by
    obtain ⟨_, _, _, h⟩ := startAttestation_shape (p := p) c
    rw [h]
    exact ⟨rfl, rfl, rfl, ⟨rfl, rfl⟩, rfl, ⟨p.log, rfl, .refl⟩, fun _ => Nat.le_refl _⟩
  cases t with
  | startmsg => exact .restart trivial hstart
  | attesttimer => exact .restart trivial hstart
  | checkdelaymsg => exact .quiet (quiet_of [] rfl rfl rfl rfl (by simp) rfl)
  | mktreetimer => exact flow_sendCommitReq c NOID hf
  | creqmsg =>
    refine .quiet (quiet_of [] rfl rfl rfl rfl (by simp) ?_)
    simp [onTimer, carried, Packet.entries]
  | cacktomsg =>
    change Flow _ o p (p.handleCommitAckTimeOut c)
    by_cases hd : p.cackto.device = p.psessions.first
    · by_cases hs : p.status = .ATTESTING_CREATING
      · rw [handleCommitAckTimeOut_creating c hd hs]
        have hq : Quiet p { p with psessions := {}, status := .CREATING } :=
          quiet_of [] rfl rfl rfl rfl (by simp) rfl
        exact .of_quiet hq (flow_sendCommitReq c NOID hf)
      · rw [handleCommitAckTimeOut_ready c hd hs]
        exact .quiet (quiet_of [] rfl rfl rfl rfl (by simp) rfl)
    · rw [handleCommitAckTimeOut_stale c hd]
      exact .quiet (quiet_of [] rfl rfl rfl rfl (by simp) rfl)
  | cresptomsg =>
    change Flow _ o p p.handleCommitRespTimeOut
    have hq : Quiet p p.closeWindow := quiet_of [.respClosed] rfl rfl rfl rfl (by simp) rfl
    by_cases hl : p.csessions.keys.length = 1
    · rw [handleCommitRespTimeOut_last hl]
      exact .send (hq.trans_send (sends_sendUpReq _))
    · rw [handleCommitRespTimeOut_open hl]
      exact .quiet hq

theorem flow_handleUpdateTimeOut (u : CommitTimeOut) : Flow st o p (p.handleUpdateTimeOut u) := by
  by_cases hl : (p.csessions.erase u.device).keys.length = 1
  · rw [handleUpdateTimeOut_last hl]
    have hq : Quiet p { p.timedOut u with status := .FINISHED } :=
      quiet_of [.upTimeOut u.device] rfl rfl rfl rfl (by simp) rfl
    exact .send (hq.trans_send (sends_sendUpReq _))
  · rw [handleUpdateTimeOut_more hl]
    exact .quiet (quiet_of [.upTimeOut u.device] rfl rfl rfl rfl (by simp) rfl)

/-- The redirection of a report does not change its entries. -/
theorem entries_redirect (m : UpdateReq) :
    UpdateReq.entries { m with kind := .UPRQF, destination := baseID } = m.entries := rfl

/-- What a message whose MAC delay is over is handed over as. -/
theorem onSelf_out (m : Msg) (c : Choice) :
    ∃ pkt, p.onSelf m c = { p with out := p.out ++ [pkt] } ∧ pkt.entries = m.entries ∧
      pkt ≠ .creqmsg ∧ ∀ m', pkt.msg? = some m' → m' = m := by
  unfold onSelf
  split
  · split
    · split
      · exact ⟨_, rfl, rfl, nofun, fun m' hm => by cases hm; rfl⟩
      · exact ⟨_, rfl, rfl, nofun, nofun⟩
    · exact ⟨_, rfl, rfl, nofun, nofun⟩
    · exact ⟨_, rfl, rfl, nofun, nofun⟩
  · exact ⟨_, rfl, rfl, nofun, fun m' hm => by cases hm; rfl⟩

/-- A prepared message is handed over. -/
theorem quiet_self {k : Nat} {a : Stamp × Msg} (c : Choice)
    (ha : p.outbox.find? (·.1.seq = k) = some a) : Quiet p ((p.popOutbox k).onSelf a.2 c) := by
  obtain ⟨pkt, he, hpkt, -⟩ := onSelf_out (p := p.popOutbox k) a.2 c
  rw [he]
  refine ⟨rfl, rfl, rfl, .refl, fun x => ?_⟩
  have hcount := Counting.count_flatMap_find? (fun o : Stamp × Msg => o.2.entries) x ha
  have hleft : p.outbox.filter (·.1.seq ≠ k) = p.outbox.filter fun b => !decide (b.1.seq = k) := by
    simp
  simp only [carried, popOutbox, hleft, List.flatMap_append, List.flatMap_cons, List.flatMap_nil,
    List.append_nil, List.count_append, hpkt]
  omega

theorem takesIn_merged {m : UpdateReq} {child : Session} : TakesIn m p (p.merged m child) := by
  have hmarks : ∀ y ∈ [Mark.merge m.source, .upReq m.source], y ≠ .start ∧ y ≠ .sendUpReq := by
    simp
  exact ⟨rfl, rfl, rfl, ⟨_, rfl, hmarks⟩, rfl⟩

theorem passesOn_sendCollector (m : UpdateReq) :
    PassesOn m p ((p.record (.upReq m.source)).sendCollector m) := by
  have hmarks : ∀ y ∈ [Mark.redirect m.source, .upReq m.source], y ≠ .start ∧ y ≠ .sendUpReq := by
    simp
  refine ⟨rfl, rfl, rfl, ⟨_, rfl, hmarks⟩, fun x => ?_⟩
  simp only [carried, record, sendCollector, List.flatMap_append, List.flatMap_cons,
    List.flatMap_nil, List.append_nil, List.count_append, Packet.entries]
  omega

theorem flow_handleUpReq (m : UpdateReq) : Flow st (some m) p (p.handleUpReq m) := by
  have hquiet : Quiet p (p.record (.upReq m.source)) :=
    quiet_of [.upReq m.source] rfl rfl rfl rfl (by simp) rfl
  have hcase := handleUpReq_cases (p := p) m
  generalize p.handleUpReq m = p' at hcase ⊢
  cases hcase with
  | forward => exact .passOn rfl (passesOn_sendCollector m)
  | redirect =>
    have h := passesOn_sendCollector (p := p) { m with kind := .UPRQF, destination := baseID }
    exact .passOn rfl ⟨h.cfg, h.report, h.count, h.log, h.carried⟩
  | ignored => exact .quiet hquiet
  | unverified => exact .quiet (quiet_of [.upReq m.source] rfl rfl rfl rfl (by simp) rfl)
  | null => exact .quiet (quiet_of [.upReq m.source] rfl rfl rfl rfl (by simp) rfl)
  | array => exact .quiet (quiet_of [.upReq m.source] rfl rfl rfl rfl (by simp) rfl)
  | last => exact .mergeSend rfl takesIn_merged (sends_sendUpReq _)
  | more => exact .merge rfl takesIn_merged

theorem quiet_sendCommitResp (target : Uid) (tid : TreeId) (parent : Session) :
    Quiet p (p.sendCommitResp target tid parent) := by
  unfold sendCommitResp scheduleAt
  dsimp only
  split <;> exact quiet_of [] rfl rfl rfl rfl (by simp) (carried_prepare (m := .commitResp _) rfl)

theorem quiet_sendCommitAck (target : Uid) (tid : TreeId) (child : Session) :
    Quiet p (p.sendCommitAck target tid child) := by
  unfold sendCommitAck
  dsimp only
  split
  · exact quiet_of [] rfl rfl rfl rfl (by simp) (carried_prepare (m := .commitAck _) rfl)
  · next parent _ =>
    exact quiet_of [.ack target, .depthSub parent.depth] rfl rfl rfl rfl (by simp)
      (carried_prepare (m := .commitAck _) rfl)

theorem quiet_handleCommitResp (m : CommitResp) (hf : p.fault = none) :
    Quiet p (p.handleCommitResp m) := by
  have htakes : Quiet p (p.admitChild m) := quiet_of [] rfl rfl rfl rfl (by simp) rfl
  have hack := htakes.trans (quiet_sendCommitAck m.source m.treeID (childSession m))
  have hcase := handleCommitResp_cases hf m
  generalize p.handleCommitResp m = p' at hcase ⊢
  cases hcase with
  | ignored => exact quiet_of [] rfl rfl rfl rfl (by simp) rfl
  | unverified => exact quiet_of [] rfl rfl rfl rfl (by simp) rfl
  | null _ _ _ _ he => exact he ▸ hack
  | more _ _ he => exact he ▸ hack
  | @full _ _ _ p' he =>
    have hclose : Quiet p' (p'.closeWindow.cancelEvent .cresptomsg) :=
      quiet_of [.respClosed] rfl rfl rfl rfl (by simp) rfl
    exact (he ▸ hack : Quiet p p').trans hclose

theorem flow_onRecv (m : Msg) (c : Choice) (hf : p.fault = none) :
    Flow st m.report p (p.onRecv m c) := by
  cases m with
  | commitReq m =>
    change Flow st none p (p.handleCommitReq m)
    rcases handleCommitReq_cases (p := p) m with he | ⟨sess, -, he⟩
    · rw [he]
      exact .quiet (quiet_of [] rfl rfl rfl rfl (by simp) rfl)
    · rw [he]
      have hjoin : Quiet p { p with psessions := ⟨m.source, some sess⟩ } :=
        quiet_of [] rfl rfl rfl rfl (by simp) rfl
      exact .quiet (hjoin.trans (quiet_sendCommitResp _ _ _))
  | commitResp m => exact .quiet (quiet_handleCommitResp m hf)
  | commitAck m =>
    change Flow st none p (p.handleCommitAck c m)
    have hcase := handleCommitAck_cases (p := p) c m
    generalize p.handleCommitAck c m = p' at hcase ⊢
    cases hcase with
    | ignored => exact .quiet (quiet_of [] rfl rfl rfl rfl (by simp) rfl)
    | unverified => exact .quiet (quiet_of [] rfl rfl rfl rfl (by simp) rfl)
    | null => exact .quiet (quiet_of [] rfl rfl rfl rfl (by simp) rfl)
    | @leaf parent =>
      have hq : Quiet p { (p.queueMacDelay (.commitAck m)).validateParent parent with
        status := .FINISHED } := quiet_of [] rfl rfl rfl rfl (by simp) rfl
      exact .send (hq.trans_send (sends_sendUpReq _))
    | @inner parent =>
      have hq : Quiet p { (p.queueMacDelay (.commitAck m)).validateParent parent with
        status := .CREATING } := quiet_of [] rfl rfl rfl rfl (by simp) rfl
      exact .of_quiet hq (flow_sendCommitReq c m.treeID hf)
  | updateReq m => exact flow_handleUpReq m

/-- The report that an event delivers. -/
def Event.report (e : Event) : Option UpdateReq :=
  match e.act with
  | .recv m _ => m.report
  | _ => none

/-- **Where the records go** in a step of a prover that lives. -/
theorem flow_of_live {e : Event} (hf : p.fault = none) (h : p.Live e q) :
    Flow (StartsAttestation e.act) e.report p q := by
  cases h with
  | @timer t c s hact =>
    have hpop : Quiet p ((p.atTime e.time).cancelEvent t) :=
      quiet_of [] rfl rfl rfl rfl (by simp) rfl
    rw [hact]
    exact .of_quiet hpop (flow_onTimer t c hf)
  | @upto k u hact =>
    have hpop : Quiet p ((p.atTime e.time).popUpto k) :=
      quiet_of [] rfl rfl rfl rfl (by simp) rfl
    exact .of_quiet hpop (flow_handleUpdateTimeOut u.2)
  | @self k c o hact hout =>
    have hnow : Quiet p (p.atTime e.time) := quiet_of [] rfl rfl rfl rfl (by simp) rfl
    exact .quiet (hnow.trans (quiet_self c hout))
  | @recv m c hact =>
    have hrep : e.report = m.report := by rw [Event.report, hact]
    rw [hrep]
    have h : Flow (StartsAttestation e.act) m.report (p.atTime e.time) _ := flow_onRecv m c hf
    cases h with
    | quiet h => exact .quiet ⟨h.cfg, h.report, h.count, h.log, h.carried⟩
    | restart hst h =>
      exact .restart hst ⟨h.cfg, h.uids, h.counters, h.sizes, h.count, h.log, h.carried⟩
    | send h => exact .send ⟨h.cfg, h.report, h.count, h.log, h.carried⟩
    | passOn hm h => exact .passOn hm ⟨h.cfg, h.report, h.count, h.log, h.carried⟩
    | merge hm h => exact .merge hm ⟨h.cfg, h.report, h.count, h.log, h.carried⟩
    | mergeSend hm h h' =>
      exact .mergeSend hm ⟨h.cfg, h.report, h.count, h.log, h.carried⟩ h'

/-! ## The two vectors of `aggreport` -/

theorem Sends.paired (h : Sends p q) (hp : p.aggreport.Paired) : q.aggreport.Paired := by
  obtain ⟨tid, hr⟩ := h.report
  rw [hr]
  exact (addOwnReport_holds _ _ _ _ (show Report.Holds { p.aggreport with tid := tid } _ from hp)).paired

theorem TakesIn.paired {m : UpdateReq} (h : TakesIn m p q) (hp : p.aggreport.Paired) :
    q.aggreport.Paired := by
  rw [h.report]
  exact (mergeReport_holds _ hp m).paired

theorem Flow.paired (h : Flow st o p q) (hp : p.aggreport.Paired) : q.aggreport.Paired := by
  cases h with
  | quiet h => rw [h.report]; exact hp
  | restart _ h => simp [Report.Paired, Report.Holds, Report.entries, h.uids, h.counters]
  | send h => exact h.paired hp
  | passOn _ h => rw [h.report]; exact hp
  | merge _ h => exact h.paired hp
  | mergeSend _ h h' => exact h'.paired (h.paired hp)

theorem Flow.cfg (h : Flow st o p q) : q.cfg = p.cfg := by
  cases h with
  | quiet h => exact h.cfg
  | restart _ h => exact h.cfg
  | send h => exact h.cfg
  | passOn _ h => exact h.cfg
  | merge _ h => exact h.cfg
  | mergeSend _ h h' => exact h'.cfg.trans h.cfg

end

theorem step_cfg {e : Event} {p p' : Prover} (hs : step e p = some p') : p'.cfg = p.cfg := by
  obtain ⟨hf, -, ⟨-, _, _, _, _, -, rfl⟩ | ⟨-, hlive⟩⟩ := step_cases hs
  · rfl
  · exact (flow_of_live hf hlive).cfg

theorem cfg_of_reaches {ok : Event → Prover → Prop} {cfg : Config} {start : Nat} {p : Prover}
    (h : Runs.Reaches step ok (init cfg start) p) : p.cfg = cfg :=
  h.invariant (I := fun p => p.cfg = cfg) rfl fun _ _ _ ih _ hs => (step_cfg hs).trans ih

theorem paired_of_reaches {ok : Event → Prover → Prop} {cfg : Config} {start : Nat} {p : Prover}
    (h : Runs.Reaches step ok (init cfg start) p) : p.aggreport.Paired := by
  have hinit : (init cfg start).aggreport.Paired := ⟨rfl, rfl⟩
  refine h.invariant (I := fun p => p.aggreport.Paired) hinit ?_
  intro e p p' ih _ hs
  obtain ⟨hf, -, ⟨-, _, _, _, _, -, rfl⟩ | ⟨-, hlive⟩⟩ := step_cases hs
  · exact ih
  · exact (flow_of_live hf hlive).paired ih

end Prover

end Fadia
