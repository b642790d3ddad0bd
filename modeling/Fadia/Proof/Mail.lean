import Fadia.Devices.Network
import Fadia.Proof.ReportFlow
import Fadia.Proof.Schedule
import Mathlib

/-!
# What is prepared stays prepared

`Stores heard p q` says that the messages which wait for their MAC delay and those handed over
for sending stay, in their order, and that only a report which was heard is passed on.  Every
handler but the one of a prepared message stores what is there and adds at most one report, behind
the rest (`posts_live`).  So no handler drops a message, and a report that `sendUpReq` makes is
prepared as a whole (`Stores.carried_report`).  What is handed over is `Proper`: a report for the
parent goes to a prover, any other report to the collector, and a `CommitReq` only as a broadcast.
-/

namespace Fadia

/-- What a prover prepares; `creqmsg` is not prepared, but broadcast as it is. -/
def Msg.Prepared : Msg → Prop
  | .commitReq _ => False
  | .commitResp _ => True
  | .commitAck _ => True
  | .updateReq _ => True

/-- An answer of prover `u` to a message. -/
def Msg.Answer (u : Uid) : Msg → Prop
  | .commitResp m => m.source = u
  | .commitAck m => m.source = u
  | .commitReq _ => False
  | .updateReq _ => False

theorem Msg.Answer.prepared {u : Uid} {m : Msg} (h : m.Answer u) : m.Prepared := by
  cases m with
  | commitReq => exact h
  | commitResp => trivial
  | commitAck => trivial
  | updateReq => trivial

/-- What a prover hands over. -/
def Packet.Proper : Packet → Prop
  | .creqmsg => True
  | .prover (.commitReq _) => False
  | .prover (.updateReq r) => r.kind = .UPRQ
  | .prover (.commitResp _) => True
  | .prover (.commitAck _) => True
  | .collector r => r.kind ≠ .UPRQ

/-- What a handler hands over that heard the report `heard`, or none. -/
def Packet.PassedOn (heard : Option UpdateReq) : Packet → Prop
  | .creqmsg => True
  | .prover _ => False
  | .collector r => r.kind ≠ .UPRQ ∧ ∃ m, heard = some m ∧ (r = m ∨ r = m.redirected)

theorem Packet.PassedOn.proper {heard : Option UpdateReq} {pkt : Packet} (h : pkt.PassedOn heard) :
    pkt.Proper := by
  cases pkt with
  | creqmsg => trivial
  | prover m => exact h.elim
  | collector r => exact h.1

namespace Prover

/-- What is prepared and what is handed over stays, answers are added and what was heard, and
no report is sent. -/
structure Stores (heard : Option UpdateReq) (p q : Prover) : Prop where
  cfg : q.cfg = p.cfg
  outbox : p.outbox <+: q.outbox
  out : p.out <+: q.out
  prepared : ∀ o ∈ q.outbox, o ∈ p.outbox ∨ o.2.Answer p.cfg.UId
  proper : ∀ pkt ∈ q.out, pkt ∈ p.out ∨ pkt.PassedOn heard
  reports : q.log.count .sendUpReq = p.log.count .sendUpReq

/-- What is there stays, and at most one report is sent, unless the simulation ends. -/
inductive Posts (heard : Option UpdateReq) (p q : Prover) : Prop
  | stays (h : Stores heard p q)
  | sends {r : Prover} {tid : TreeId} {parent : Session} (h : Stores heard p r)
      (hp : r.psessions.second = some parent) (he : q = r.sendUpReq tid)
  | fails (hf : q.fault ≠ none) (hout : q.out = p.out)

section
variable {heard : Option UpdateReq} {p q r : Prover}

theorem stores_of (hcfg : q.cfg = p.cfg) (ho : q.outbox = p.outbox) (hout : q.out = p.out)
    (hl : q.log.count .sendUpReq = p.log.count .sendUpReq) : Stores heard p q := by
  refine ⟨hcfg, ?_, ?_, fun o hm => .inl (ho ▸ hm), fun pkt hm => .inl (hout ▸ hm), hl⟩
  · rw [ho]
  · rw [hout]

theorem Stores.refl : Stores heard p p := stores_of rfl rfl rfl rfl

theorem Stores.trans (h : Stores heard p q) (h' : Stores heard q r) : Stores heard p r :=
  ⟨h'.cfg.trans h.cfg, h.outbox.trans h'.outbox, h.out.trans h'.out,
    fun o ho => (h'.prepared o ho).elim (h.prepared o) fun ha => .inr (h.cfg ▸ ha),
    fun pkt hp => (h'.proper pkt hp).elim (h.proper pkt) .inr, h'.reports.trans h.reports⟩

theorem Stores.posts (h : Stores heard p q) (ho : q.out = p.out) (h' : Posts heard q r) :
    Posts heard p r := by
  cases h' with
  | stays h' => exact .stays (h.trans h')
  | sends h' hp he => exact .sends (h.trans h') hp he
  | fails hf hout => exact .fails hf (hout.trans ho)

theorem stores_prepare {m : Msg} (hm : m.Answer p.cfg.UId) : Stores heard p (p.prepare m) := by
  refine ⟨rfl, List.prefix_append _ _, List.prefix_refl _, fun o ho => ?_, fun _ => .inl, rfl⟩
  refine (List.mem_append.mp ho).imp_right fun ho => ?_
  rw [List.mem_singleton.mp ho]
  exact hm

/-- A packet is handed over. -/
theorem stores_out (pkt : Packet) (hcfg : q.cfg = p.cfg) (hb : q.outbox = p.outbox)
    (ho : q.out = p.out ++ [pkt]) (hp : pkt.PassedOn heard)
    (hl : q.log.count .sendUpReq = p.log.count .sendUpReq) :
    Stores heard p q := by
  refine ⟨hcfg, ?_, ?_, fun o hm => .inl (hb ▸ hm), fun x hx => ?_, hl⟩
  · rw [hb]
  · rw [ho]
    exact List.prefix_append _ _
  · rw [ho] at hx
    refine (List.mem_append.mp hx).imp_right fun hx => ?_
    rw [List.mem_singleton.mp hx]
    exact hp

/-! ## The handlers -/

theorem posts_sendUpReq (tid : TreeId) : Posts heard p (p.sendUpReq tid) := by
  cases hs : p.psessions.second with
  | none =>
    refine .fails (by rw [(sendUpReq_of_none tid hs).1]; simp) ?_
    simp [sendUpReq, hs, fail]
  | some parent => exact .sends .refl hs rfl

theorem stores_broadcast (depth : Nat) (tid : TreeId) (hf : p.fault = none) :
    Stores heard p (p.broadcastCommitReq depth tid) := by
  cases hc : p.timers .creqmsg with
  | some s =>
    refine stores_of ?_ ?_ ?_ ?_
    all_goals simp [broadcastCommitReq, scheduleAt, hc, andThen, fail]
  | none =>
    rw [broadcast_of_none tid depth hf hc]
    exact stores_of rfl rfl rfl (by simp)

theorem posts_sendCommitReq (c : Choice) (tid : TreeId) (hf : p.fault = none) :
    Posts heard p (p.sendCommitReq c tid) := by
  have hroot : Stores heard p (p.startTree c.treeID) := stores_of rfl rfl rfl (by simp [startTree])
  by_cases hs : p.status = .ATTESTING
  · rw [sendCommitReq_attesting tid c hs]
    exact .stays (stores_of rfl rfl rfl rfl)
  by_cases hm : p.maxchildren = 0
  · rw [sendCommitReq_leaf tid c hs hm]
    exact hroot.posts rfl (posts_sendUpReq _)
  by_cases hfirst : p.psessions.first = NOID
  · rw [sendCommitReq_root tid c hs hm hfirst]
    exact .stays (hroot.trans (stores_broadcast _ _ hf))
  cases hp : p.psessions.second with
  | none =>
    rw [sendCommitReq_null tid c hs hm hfirst hp]
    exact .fails (by simp [fail]) rfl
  | some parent =>
    rw [sendCommitReq_inner tid c hs hm hfirst hp]
    have hsub : Stores heard p (p.record (.depthSub parent.depth)) :=
      stores_of rfl rfl rfl (by simp [record])
    exact .stays (hsub.trans (stores_broadcast _ _ hf))

theorem posts_onTimer (t : Timer) (c : Choice) (hf : p.fault = none) :
    Posts heard p (p.onTimer t c) := by
  have hstart : Stores heard p (p.startAttestation c) := by
    obtain ⟨timers, seq, fault, he⟩ := startAttestation_shape (p := p) c
    rw [he]
    exact stores_of rfl rfl rfl (by simp)
  cases t with
  | startmsg => exact .stays hstart
  | attesttimer => exact .stays hstart
  | checkdelaymsg => exact .stays (stores_of rfl rfl rfl rfl)
  | mktreetimer => exact posts_sendCommitReq c NOID hf
  | creqmsg => exact .stays (stores_out .creqmsg rfl rfl rfl trivial rfl)
  | cacktomsg =>
    change Posts heard p (p.handleCommitAckTimeOut c)
    by_cases hd : p.cackto.device = p.psessions.first
    · by_cases hs : p.status = .ATTESTING_CREATING
      · rw [handleCommitAckTimeOut_creating c hd hs]
        have hleft : Stores heard p { p with psessions := {}, status := .CREATING } :=
          stores_of rfl rfl rfl rfl
        exact hleft.posts rfl (posts_sendCommitReq c NOID hf)
      · rw [handleCommitAckTimeOut_ready c hd hs]
        exact .stays (stores_of rfl rfl rfl rfl)
    · rw [handleCommitAckTimeOut_stale c hd]
      exact .stays .refl
  | cresptomsg =>
    change Posts heard p p.handleCommitRespTimeOut
    have hclosed : Stores heard p p.closeWindow :=
      stores_of rfl rfl rfl (by simp [closeWindow, record])
    by_cases hl : p.csessions.keys.length = 1
    · rw [handleCommitRespTimeOut_last hl]
      exact hclosed.posts rfl (posts_sendUpReq _)
    · rw [handleCommitRespTimeOut_open hl]
      exact .stays hclosed

theorem posts_handleUpdateTimeOut (u : CommitTimeOut) :
    Posts heard p (p.handleUpdateTimeOut u) := by
  have hout : ∀ st, Stores heard p { p.timedOut u with status := st } := fun st =>
    stores_of rfl rfl rfl (by simp [timedOut, dropSession, record])
  by_cases hl : (p.csessions.erase u.device).keys.length = 1
  · rw [handleUpdateTimeOut_last hl]
    exact (hout .FINISHED).posts rfl (posts_sendUpReq _)
  · rw [handleUpdateTimeOut_more hl]
    exact .stays (hout p.status)

theorem stores_sendCommitResp (target : Uid) (tid : TreeId) (parent : Session) :
    Stores heard p (p.sendCommitResp target tid parent) := by
  have hprep : Stores heard p _ :=
    stores_prepare (p := p) (m := .commitResp (p.respMsg target tid parent)) rfl
  refine hprep.trans ?_
  unfold sendCommitResp scheduleAt
  dsimp only
  split
  · exact stores_of rfl rfl rfl rfl
  · exact stores_of rfl rfl rfl rfl

theorem stores_sendCommitAck (target : Uid) (tid : TreeId) (child : Session) :
    Stores heard p (p.sendCommitAck target tid child) := by
  have hprep : Stores heard p _ :=
    stores_prepare (p := p) (m := .commitAck (p.ackMsg target tid child)) rfl
  refine hprep.trans ?_
  unfold sendCommitAck
  dsimp only
  split
  · exact stores_of rfl rfl rfl rfl
  · exact stores_of rfl rfl rfl (by simp [prepare])

theorem stores_handleCommitReq (m : CommitReq) : Stores heard p (p.handleCommitReq m) := by
  rcases handleCommitReq_cases (p := p) m with he | ⟨sess, -, he⟩
  · rw [he]
    exact .refl
  · rw [he]
    have hjoin : Stores heard p { p with psessions := ⟨m.source, some sess⟩ } :=
      stores_of rfl rfl rfl rfl
    exact hjoin.trans (stores_sendCommitResp _ _ _)

theorem stores_handleCommitResp (m : CommitResp) (hf : p.fault = none) :
    Stores heard p (p.handleCommitResp m) := by
  have hadds : Stores heard p (p.admitChild m) := stores_of rfl rfl rfl rfl
  have hack := hadds.trans (stores_sendCommitAck m.source m.treeID (childSession m))
  have hcase := handleCommitResp_cases hf m
  generalize p.handleCommitResp m = p' at hcase ⊢
  cases hcase with
  | ignored => exact .refl
  | unverified => exact stores_of rfl rfl rfl rfl
  | null _ _ _ _ he => exact he ▸ hack
  | more _ _ he => exact he ▸ hack
  | @full _ _ _ p' he =>
    have hclose : Stores heard p' (p'.closeWindow.cancelEvent .cresptomsg) :=
      stores_of rfl rfl rfl (by simp [closeWindow, record, cancelEvent])
    exact (he ▸ hack : Stores heard p p').trans hclose

theorem posts_handleCommitAck (c : Choice) (m : CommitAck) (hf : p.fault = none) :
    Posts heard p (p.handleCommitAck c m) := by
  have hvalid : ∀ parent st, Stores heard p
      { (p.queueMacDelay (.commitAck m)).validateParent parent with status := st } := fun _ _ =>
    stores_of rfl rfl rfl rfl
  have hcase := handleCommitAck_cases (p := p) c m
  generalize p.handleCommitAck c m = p' at hcase ⊢
  cases hcase with
  | ignored => exact .stays .refl
  | unverified => exact .stays (stores_of rfl rfl rfl rfl)
  | null => exact .fails (by simp [fail]) rfl
  | @leaf parent => exact (hvalid parent .FINISHED).posts rfl (posts_sendUpReq _)
  | @inner parent => exact (hvalid parent .CREATING).posts rfl (posts_sendCommitReq c m.treeID hf)

theorem stores_merged (m : UpdateReq) (child : Session) : Stores heard p (p.merged m child) :=
  stores_of rfl rfl rfl (by
    simp [merged, mergeChild, dropSession, cancelUpTimeOut, record, queueMacDelay])

theorem posts_handleUpReq (m : UpdateReq) : Posts (some m) p (p.handleUpReq m) := by
  have hpass : ∀ m' : UpdateReq, m'.kind ≠ .UPRQ → m' = m ∨ m' = m.redirected →
      Stores (some m) p ((p.record (.upReq m.source)).sendCollector m') := fun m' hk he =>
    stores_out (p := p) (q := (p.record (.upReq m.source)).sendCollector m') (.collector m')
      rfl rfl rfl ⟨hk, m, rfl, he⟩ (by simp [sendCollector, record])
  have hseen : Stores (some m) p (p.record (.upReq m.source)) :=
    stores_of rfl rfl rfl (by simp [record])
  have hcase := handleUpReq_cases (p := p) m
  generalize p.handleUpReq m = p' at hcase ⊢
  cases hcase with
  | forward hk => exact .stays (hpass m (by rw [hk]; simp) (.inl rfl))
  | redirect => exact .stays (hpass _ (by simp) (.inr rfl))
  | ignored => exact .stays hseen
  | unverified => exact .stays (hseen.trans (stores_of rfl rfl rfl rfl))
  | null => exact .fails (by simp [fail]) rfl
  | array => exact .fails (by simp [fail]) rfl
  | @last child => exact (stores_merged m child).posts rfl (posts_sendUpReq _)
  | @more child => exact .stays (stores_merged m child)

/-- **No handler drops a message**, but for the one that hands it over. -/
theorem posts_live {e : Event} (hf : p.fault = none) (hl : p.Live e q) :
    Posts e.report p q ∨ ∃ k c o, e.act = .self k c ∧ p.outbox.find? (·.1.seq = k) = some o ∧
      q = ((p.atTime e.time).popOutbox k).onSelf o.2 c := by
  cases hl with
  | @timer t c =>
    have hpop : Stores e.report p ((p.atTime e.time).cancelEvent t) := stores_of rfl rfl rfl rfl
    exact .inl (hpop.posts rfl (posts_onTimer t c hf))
  | @upto k u =>
    have hpop : Stores e.report p ((p.atTime e.time).popUpto k) := stores_of rfl rfl rfl rfl
    exact .inl (hpop.posts rfl (posts_handleUpdateTimeOut u.2))
  | @self k c o hact ho => exact .inr ⟨k, c, o, hact, ho, rfl⟩
  | @recv m c hact =>
    have hnow : Stores e.report p (p.atTime e.time) := stores_of rfl rfl rfl rfl
    have hheard : e.report = m.report := by rw [Event.report, hact]
    refine .inl (hnow.posts rfl ?_)
    rw [hheard]
    cases m with
    | commitReq m => exact .stays (stores_handleCommitReq m)
    | commitResp m => exact .stays (stores_handleCommitResp m hf)
    | commitAck m => exact posts_handleCommitAck c m hf
    | updateReq m => exact posts_handleUpReq m

/-- What a message whose MAC delay is over is handed over as is proper. -/
theorem proper_onSelf {m : Msg} (c : Choice) (hm : m.Prepared) (h : ∀ pkt ∈ p.out, pkt.Proper) :
    ∀ pkt ∈ (p.onSelf m c).out, pkt.Proper := by
  have happend : ∀ pkt' : Packet, pkt'.Proper → ∀ pkt ∈ p.out ++ [pkt'], pkt.Proper := by
    intro pkt' hp pkt hmem
    rcases List.mem_append.mp hmem with hmem | hmem
    · exact h pkt hmem
    · rw [List.mem_singleton.mp hmem]
      exact hp
  cases m with
  | commitReq m => exact hm.elim
  | commitResp m => exact happend _ trivial
  | commitAck m => exact happend _ trivial
  | updateReq m =>
    unfold onSelf
    dsimp only
    split
    · next hk =>
      split
      · exact happend _ hk
      · exact happend _ (by simp [Packet.Proper])
    · next hk => exact happend _ (by simp [Packet.Proper, hk])
    · next hk => exact happend _ (by simp [Packet.Proper, hk])

/-! ## A crashed prover -/

/-- What is left in the outbox of a crashed prover. -/
def leftover (e : Event) (p : Prover) : List (Stamp × Msg) :=
  match e.act with
  | .self k _ => p.outbox.filter (·.1.seq ≠ k)
  | _ => p.outbox

/-- A crashed prover drops the events it had scheduled, and what arrives. -/
theorem step_of_crashed {e : Event} (hs : step e p = some q) (hc : p.crashed = true) :
    ∃ timers uptos, q = { p with
      now := e.time, timers := timers, uptos := uptos, outbox := leftover e p } := by
  obtain ⟨time, act⟩ := e
  rw [step] at hs
  split at hs
  · cases hs
  have hmsg : ∀ {a : Prover} {f : Prover → Prover}, a.crashed = p.crashed → a.handleMessage f = a :=
    fun ha => handleMessage_of_crashed (ha.trans hc)
  cases act with
  | timer t c =>
    dsimp only at hs
    split at hs
    · split at hs
      · rw [hmsg (by rfl)] at hs
        cases hs
        exact ⟨_, _, rfl⟩
      · cases hs
    · cases hs
  | upto k =>
    dsimp only at hs
    split at hs
    · split at hs
      · rw [hmsg (by rfl)] at hs
        cases hs
        exact ⟨_, _, rfl⟩
      · cases hs
    · cases hs
  | self k c =>
    dsimp only at hs
    split at hs
    · split at hs
      · rw [hmsg (by rfl)] at hs
        cases hs
        exact ⟨_, _, rfl⟩
      · cases hs
    · cases hs
  | recv m c =>
    dsimp only at hs
    split at hs
    · rw [hmsg (by rfl)] at hs
      cases hs
      exact ⟨_, _, rfl⟩
    · cases hs
  | crash =>
    dsimp only at hs
    split at hs
    · cases hs
      exact ⟨p.timers, p.uptos, by rw [← hc]; rfl⟩
    · cases hs

/-- A crashed prover keeps what it handed over, and prepares nothing. -/
theorem mail_of_crashed {e : Event} (hs : step e p = some q) (hc : p.crashed = true) :
    q.out = p.out ∧ ∀ o ∈ q.outbox, o ∈ p.outbox := by
  obtain ⟨timers, uptos, rfl⟩ := step_of_crashed hs hc
  refine ⟨rfl, fun o ho => ?_⟩
  change o ∈ leftover e p at ho
  unfold leftover at ho
  split at ho
  · exact List.mem_of_mem_filter ho
  · exact ho

/-! ## The records in what is prepared -/

variable {x : Uid × Nat}

theorem Stores.carried (h : Stores heard p q) (x : Uid × Nat) :
    p.carried.count x ≤ q.carried.count x := by
  have h1 := (h.outbox.sublist.flatMap fun o : Stamp × Msg => o.2.entries).count_le x
  have h2 := (h.out.sublist.flatMap Packet.entries).count_le x
  rw [Prover.carried, Prover.carried, List.count_append, List.count_append]
  omega

/-- The entries of a report do not depend on what else the message says. -/
theorem entries_toUpdateReq (a : Report) (kind kind' : UpKind) (src src' dest dest' : Uid)
    (tid tid' : TreeId) (kid kid' : KeyId) : (a.toUpdateReq kind src dest tid kid).entries =
      (a.toUpdateReq kind' src' dest' tid' kid').entries := rfl

/-- **A report that is sent is prepared as a whole.** -/
theorem Stores.carried_report {tid : TreeId} {parent : Session} (h : Stores heard p r)
    (hp : r.psessions.second = some parent) (kind : UpKind) (src dest : Uid) (t : TreeId)
    (kid : KeyId) (x : Uid × Nat) :
    p.carried.count x +
        ((r.sendUpReq tid).aggreport.toUpdateReq kind src dest t kid).entries.count x ≤
      (r.sendUpReq tid).carried.count x := by
  have hcar := h.carried x
  have hmsg : (r.reportMsg tid parent).entries =
      ((r.sendUpReq tid).aggreport.toUpdateReq kind src dest t kid).entries := by
    rw [sendUpReq_of_some tid hp]
    unfold reportMsg
    dsimp only
    split
    · exact entries_toUpdateReq ..
    · exact entries_toUpdateReq ..
  rw [← hmsg]
  rw [sendUpReq_of_some tid hp]
  simp only [Prover.carried, prepare, List.flatMap_append, List.flatMap_cons, List.flatMap_nil,
    List.append_nil, List.count_append, Msg.entries] at hcar ⊢
  omega

/-- A message whose MAC delay is over carries its entries on. -/
theorem carried_self {k : Nat} {a : Stamp × Msg} (c : Choice)
    (hord : p.outbox.Pairwise fun a b => a.1.seq < b.1.seq)
    (ha : p.outbox.find? (·.1.seq = k) = some a) (x : Uid × Nat) :
    p.carried.count x ≤ ((p.popOutbox k).onSelf a.2 c).carried.count x := by
  obtain ⟨pkt, he, hpkt, -⟩ := onSelf_out (p := p.popOutbox k) a.2 c
  rw [he]
  have hmem := List.mem_of_find?_eq_some ha
  have hk : a.1.seq = k := by simpa using List.find?_some ha
  -- no other message has its place
  have hnodup : (p.outbox.map (·.1.seq)).Nodup := List.pairwise_map.mpr (hord.imp fun h => h.ne)
  have hleft : p.outbox.filter (·.1.seq ≠ k) = p.outbox.erase a := by
    have hn : p.outbox.Nodup := List.Nodup.of_map _ hnodup
    rw [hn.erase_eq_filter]
    refine List.filter_congr fun b hb => ?_
    by_cases hba : b = a
    · subst hba
      simp [hk]
    · have hne : b.1.seq ≠ k := fun hs => hba (List.inj_on_of_nodup_map hnodup hb hmem (hs.trans hk.symm))
      simp [hne, hba]
  have hcount := Counting.count_flatMap_erase (fun o : Stamp × Msg => o.2.entries) x hmem
  simp only [Prover.carried, popOutbox, hleft, List.flatMap_append, List.flatMap_cons, List.flatMap_nil,
    List.append_nil, List.count_append, hpkt]
  omega

end

end Prover

end Fadia
