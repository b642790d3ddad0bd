import Fadia.Proof.Roles
import Fadia.Proof.Budget
import Fadia.Proof.Mail
import Fadia.Proof.RecordCount
import Mathlib

/-!
# A child collects for its parent

`Serves q A p` says that `p` is a child of `q` that has not reported, and that its response
window and the update timers of its own children end before `A`.  The ack that makes it a
child starts this with `A` right behind `treeTime` of its depth (`serves_ack`), and each event
goes on or sends the report to `q` (`Serves.live`).  So the report is sent by then whatever
the children do (`Serves.waits`).

An ack comes with an update timer (`acks_live`), and a report that was sent stays until it is on
the air (`posted_live`).
-/

namespace Fadia

/-- A report of `p` to its parent `q`. -/
def Msg.reportsTo (p q : Uid) : Msg → Bool
  | .updateReq m => m.kind == .UPRQ && m.source == p && m.destination == q
  | _ => false

/-- A report to a parent. -/
def Msg.isReport : Msg → Bool
  | .updateReq m => m.kind == .UPRQ
  | _ => false

def Packet.reportsTo (p q : Uid) : Packet → Bool
  | .prover m => m.reportsTo p q
  | _ => false

def Packet.isReport : Packet → Bool
  | .prover m => m.isReport
  | _ => false

namespace Prover

/-- A child that has not reported; what it waits for ends before `A`. -/
structure Serves (q : Uid) (A : Nat) (p : Prover) : Prop extends Entered q p where
  parent : p.psessions.first = q
  unsent : ¬ SentIn p.log
  depth : ∀ s, p.psessions.second = some s → 1 ≤ s.depth
  budget : p.InBudget 0 A

/-- The report to `q` is sent and waits for its MAC delay. -/
def Reported (q : Uid) (p : Prover) : Prop :=
  SentIn p.log ∧ ∃ o ∈ p.outbox, o.2.reportsTo p.cfg.UId q = true

/-- The prover goes on, or reports to `q`. -/
def Goes (q : Uid) (p p' : Prover) : Prop :=
  p'.psessions = p.psessions ∧ (SentIn p'.log → SentIn p.log) ∨ Reported q p'

section
variable {p p' : Prover} {q : Uid} {A : Nat}

/-- **As long as a child has not reported it waits for something that ends before `A`**; and
unless it has a child of its own, this leaves time for one. -/
theorem Serves.waits (h : Serves q A p) (ha : p.Active True) (hl : p.Linked) :
    ∃ s ∈ p.pending, s.due < A ∧ (p.HasChild ∨ ∀ parent,
      p.psessions.second = some parent → s.due + updateTime parent.depth < A) := by
  cases ha with
  | creating hst _ hsch =>
    obtain ⟨s, hs⟩ := Option.isSome_iff_exists.mp hsch.crespto
    exact ⟨s, mem_pending_timer hs, h.budget.resp s hs,
      .inr fun parent hp => h.budget.window hst s parent hs hp⟩
  | collecting _ _ hc =>
    obtain ⟨c, hmem, hne⟩ := hc
    obtain ⟨s, hs⟩ := Option.isSome_iff_exists.mp (AList.lookup_isSome.mpr hmem)
    obtain ⟨u, hu, -⟩ := hl.child c s hne hs
    exact ⟨u.1, mem_pending_upto hu, h.budget.upto u hu, .inl ⟨c, hmem, hne⟩⟩
  | done hs => exact absurd (h.budget.reported (.inl hs)) h.unsent
  | ghost _ hs hn =>
    exact absurd (h.budget.reported (hs.imp_right fun hs => ⟨hs, hn.children⟩)) h.unsent
  | checking _ _ hsch =>
    obtain ⟨s, hs⟩ := Option.isSome_iff_exists.mp hsch.mktree
    cases hs.symm.trans h.mktree
  | ready _ _ hsch =>
    obtain ⟨s, hs⟩ := Option.isSome_iff_exists.mp hsch.mktree
    cases hs.symm.trans h.mktree
  | attesting _ _ hsch =>
    obtain ⟨s, hs⟩ := Option.isSome_iff_exists.mp hsch.mktree
    cases hs.symm.trans h.mktree
  | attestingCreating _ _ hsch =>
    obtain ⟨s, hs⟩ := Option.isSome_iff_exists.mp hsch.cackto
    cases hs.symm.trans h.cackto

theorem Serves.go (h : Serves q A p) (hs : Stays p p') (hb : p'.InBudget 0 A) (hg : Goes q p p') :
    Serves q A p' ∨ Reported q p' := by
  rcases hg with ⟨hp, hl⟩ | hr
  · refine .inl ⟨⟨?_, ?_, ?_, ?_⟩, ?_, fun hsent => h.unsent (hl hsent), ?_, hb⟩
    · rcases hs.status with he | ⟨-, hd⟩
      · rw [Decided, he]
        exact h.decided
      · exact hd
    · rw [hp]
      exact h.first
    · exact hs.mktree.trans h.mktree
    · refine Option.eq_none_iff_forall_ne_some.mpr fun s hk => ?_
      cases (hs.cackto s hk).symm.trans h.cackto
    · rw [hp]
      exact h.parent
    · rw [hp]
      exact h.depth
  · exact .inr hr

/-! ## The report -/

theorem reported_sendUpReq (tid : TreeId) (hq : p.psessions.first = q) (hne : q ≠ NOID)
    (hs : p.psessions.second.isSome) : Reported q (p.sendUpReq tid) := by
  obtain ⟨parent, hp⟩ := Option.isSome_iff_exists.mp hs
  have hfirst : p.psessions.first ≠ NOID := by
    rw [hq]
    exact hne
  have hmsg : (Msg.updateReq (p.reportMsg tid parent)).reportsTo p.cfg.UId q = true := by
    unfold reportMsg
    rw [if_pos hfirst]
    show ((UpKind.UPRQ == .UPRQ) && (p.cfg.UId == p.cfg.UId) && (p.psessions.first == q)) = true
    simp [hq]
  rw [sendUpReq_of_some tid hp]
  exact ⟨sentIn_sendUpReq, _, List.mem_append_right _ (List.mem_singleton_self _), hmsg⟩

/-! ## The handlers -/

theorem goes_of_log (marks : List Mark) (hp : p'.psessions = p.psessions)
    (hl : p'.log = marks ++ p.log) (hm : ∀ y ∈ marks, y ≠ .start ∧ y ≠ .sendUpReq) :
    Goes q p p' := by
  refine .inl ⟨hp, fun hs => ?_⟩
  rw [hl] at hs
  exact (sentIn_append hm).mp hs

theorem goes_respTimeOut (ha : p.Active True) (hq : p.psessions.first = q) (hne : q ≠ NOID) :
    Goes q p (p.cancelEvent .cresptomsg).handleCommitRespTimeOut := by
  by_cases hlen : p.csessions.keys.length = 1
  · rw [handleCommitRespTimeOut_last (p := p.cancelEvent .cresptomsg) hlen]
    obtain ⟨k, hk⟩ := List.length_eq_one_iff.mp hlen
    have hmem : k ∈ p.csessions := AList.mem_keys.mpr (by rw [hk]; exact List.mem_singleton_self _)
    exact .inr (reported_sendUpReq _ hq hne (ha.opened hmem).1.second)
  · rw [handleCommitRespTimeOut_open (p := p.cancelEvent .cresptomsg) hlen]
    exact goes_of_log [.respClosed] rfl rfl (by simp)

theorem goes_updateTimeOut (ha : p.Active True) (hl : p.Linked) {u : Stamp × CommitTimeOut}
    {k : Nat} (hu : p.uptos.find? (·.1.seq = k) = some u) (hq : p.psessions.first = q) (hne : q ≠ NOID) :
    Goes q p ((p.popUpto k).handleUpdateTimeOut u.2) := by
  obtain ⟨-, s, hsess, -⟩ := hl.upto u (List.mem_of_find?_eq_some hu)
  have hin : u.2.device ∈ p.csessions := AList.lookup_isSome.mp (Option.isSome_of_eq_some hsess)
  by_cases hlen : (p.csessions.erase u.2.device).keys.length = 1
  · rw [handleUpdateTimeOut_last (p := p.popUpto k) hlen]
    exact .inr (reported_sendUpReq _ hq hne (ha.opened hin).1.second)
  · rw [handleUpdateTimeOut_more (p := p.popUpto k) hlen]
    exact goes_of_log [.upTimeOut u.2.device] rfl rfl (by simp)

theorem goes_commitResp (m : CommitResp) (hf : p.fault = none)
    (hok : (p.handleCommitResp m).fault = none) : Goes q p (p.handleCommitResp m) := by
  have hcase := handleCommitResp_cases hf m
  generalize p.handleCommitResp m = p' at hok hcase ⊢
  cases hcase with
  | ignored => exact goes_of_log [] rfl rfl (by simp)
  | unverified => exact goes_of_log [] rfl rfl (by simp)
  | null _ _ hnull => cases hnull.symm.trans hok
  | @more parent _ hp _ he =>
    rw [he, sendCommitAck_of_some (p := p.admitChild m) m.treeID m.source _ hp]
    exact goes_of_log [.ack m.source, .depthSub parent.depth] rfl rfl (by simp)
  | @full parent _ hp _ he =>
    rw [he, sendCommitAck_of_some (p := p.admitChild m) m.treeID m.source _ hp]
    exact goes_of_log [.respClosed, .ack m.source, .depthSub parent.depth] rfl rfl (by simp)

theorem goes_upReq (m : UpdateReq) (hok : (p.handleUpReq m).fault = none)
    (hq : p.psessions.first = q) (hne : q ≠ NOID) : Goes q p (p.handleUpReq m) := by
  have hcase := handleUpReq_cases (p := p) m
  generalize p.handleUpReq m = p' at hok hcase ⊢
  cases hcase with
  | forward => exact goes_of_log [.redirect m.source, .upReq m.source] rfl rfl (by simp)
  | redirect => exact goes_of_log [.redirect m.source, .upReq m.source] rfl rfl (by simp)
  | ignored => exact goes_of_log [.upReq m.source] rfl rfl (by simp)
  | unverified => exact goes_of_log [.upReq m.source] rfl rfl (by simp)
  | null => cases hok
  | array => cases hok
  | @last child _ hm =>
    exact .inr (reported_sendUpReq (p := p.merged m child) _ hq hne
      (Option.isSome_of_eq_some hm.second))
  | more => exact goes_of_log [.merge m.source, .upReq m.source] rfl rfl (by simp)

theorem serves_broadcast (depth : Nat) (tid : TreeId)
    (he : Entered q (p.broadcastCommitReq depth tid))
    (hb : (p.broadcastCommitReq depth tid).InBudget 0 A)
    (hq : p.psessions.first = q) (hunsent : ¬ SentIn p.log)
    (hd : ∀ s, p.psessions.second = some s → 1 ≤ s.depth) (hf : p.fault = none)
    (hok : (p.broadcastCommitReq depth tid).fault = none) :
    Serves q A (p.broadcastCommitReq depth tid) := by
  cases hc : p.timers .creqmsg with
  | some s =>
    rw [(broadcast_of_some tid depth hc).1] at hok
    cases hok
  | none =>
    rw [broadcast_of_none tid depth hf hc] at he hb ⊢
    exact ⟨he, hq, fun hs => hunsent ((sentIn_cons (by simp) (by simp)).mp hs), hd, hb⟩

/-! ## Events -/

/-- **The ack that makes the prover a child.** -/
theorem serves_ack {m : CommitAck} {parent : Session} (c : Choice) (ho : p.Once True)
    (hacked : p.Acked m parent) (hd : ¬ p.Decided) (hunsent : ¬ SentIn p.log) (hf : p.fault = none)
    (hsrc : m.source ≠ NOID) (hpos : 1 ≤ parent.depth)
    (hok : (p.handleCommitAck c m).fault = none) :
    Serves m.source (p.now + treeTime parent.depth + 1) (p.handleCommitAck c m) ∨
      Reported m.source (p.handleCommitAck c m) := by
  let A := p.now + treeTime parent.depth + 1
  obtain ⟨-, -, hent⟩ := child_commitAck c hacked hf hsrc
  have hent := hent hok
  have hfirst : p.psessions.first ≠ NOID := by
    rw [hacked.source]
    exact hsrc
  rw [handleCommitAck_of_acked c hacked] at hok hent ⊢
  by_cases hl : p.Leaf parent
  · rw [if_pos hl]
    exact .inr (reported_sendUpReq _ hacked.source hsrc rfl)
  · rw [if_neg hl] at hok hent ⊢
    rw [Leaf, not_or] at hl
    -- nothing is scheduled but what the broadcast puts in
    have hresp : p.timers .cresptomsg = none := by
      refine Option.eq_none_iff_forall_ne_some.mpr fun s hs => ?_
      obtain ⟨-, ha⟩ := ho.active (by decide) hs
      cases ha with
      | creating hst => exact hd (.inl hst)
      | ghost _ hst => exact hd (hst.elim (fun h => .inr (.inr h)) fun h => .inr (.inl h))
      | checking _ _ hsch => exact absurd_off hs hsch.crespto
      | ready _ _ hsch => exact absurd_off hs hsch.crespto
      | attesting _ _ hsch => exact absurd_off hs hsch.crespto
      | attestingCreating _ _ hsch => exact absurd_off hs hsch.crespto
      | collecting _ _ _ hsch => exact absurd_off hs hsch.crespto
      | done _ _ hsch => exact absurd_off hs hsch.crespto
    have hupto : p.uptos = [] := List.eq_nil_iff_forall_not_mem.mpr fun u hu => hd (ho.decided hu)
    have hnone : Deadlines 0 A ({ (p.queueMacDelay (.commitAck m)).validateParent parent with
        status := .CREATING }.record (.depthSub parent.depth)) := by
      refine ⟨fun s hs => ?_, fun s hs => ?_, fun s hs => ?_, fun u hu => ?_⟩
      · simp [record, validateParent, cancelEvent] at hs
      · simp [record, validateParent, cancelEvent] at hs
      · simp [record, validateParent, cancelEvent, queueMacDelay, hresp] at hs
      · change u ∈ p.uptos at hu
        rw [hupto] at hu
        cases hu
    rw [sendCommitReq_inner (p := { (p.queueMacDelay (.commitAck m)).validateParent parent with
      status := .CREATING }) m.treeID c (by simp) hl.2 hfirst rfl] at hok hent ⊢
    have hb := inBudget_broadcast hnone (subUnsigned parent.depth 1) m.treeID hf rfl
      (Nat.lt_succ_self _) hok
    refine .inl (serves_broadcast _ _ hent hb hacked.source (fun hs => hunsent ?_)
      (fun s hs => ?_) hf hok)
    · exact (sentIn_cons (y := .depthSub parent.depth) (by simp) (by simp)).mp hs
    · obtain rfl := Option.some.inj hs
      exact hpos

/-- **Each event** goes on or sends the report. -/
theorem Serves.live {e : Event} (h : Serves q A p) (hne : q ≠ NOID) (ho : p.Once True)
    (hst : .start ∈ p.log) (hok : OnceOk e p) (hno : p.accepted e = []) (hc : p.crashed = false)
    (hf : p.fault = none) (hl : p.Live e p') (hok' : p'.fault = none) :
    Serves q A p' ∨ Reported q p' := by
  have hnow : Serves q A (p.atTime e.time) :=
    ⟨⟨h.decided, h.first, h.mktree, h.cackto⟩, h.parent, h.unsent, h.depth,
      h.budget.congr rfl rfl rfl (fun _ _ h => h) (fun _ h => h) id⟩
  have hlink : (p.atTime e.time).Linked := ho.linked.congr rfl (Nat.le_refl _) fun _ _ => rfl
  have hact : (p.atTime e.time).Active True := by
    have ha := (ho.phase.resolve_left fun hi => hi.log _ hst).2
    exact ha.congr rfl rfl rfl (fun _ _ => rfl) rfl rfl
  have hb := hnow.budget
  have hq := hnow.parent
  cases hl with
  | @timer t c s he ht =>
    have hstart : ¬ StartsAttestation (.timer t c) := fun hs => hok.1 (he ▸ hs) hst
    cases t with
    | startmsg => exact absurd trivial hstart
    | attesttimer => exact absurd trivial hstart
    | checkdelaymsg =>
      have hs := ho.of_check ht
      have hd := h.decided
      rw [Decided, hs] at hd
      simp at hd
    | mktreetimer => cases ht.symm.trans h.mktree
    | cacktomsg => cases ht.symm.trans h.cackto
    | creqmsg =>
      have hpop : Stays (p.atTime e.time) ((p.atTime e.time).cancelEvent .creqmsg) :=
        stays_cancelEvent (by decide)
      refine hnow.go (hpop.trans (stays_same rfl rfl rfl rfl rfl)) (hb.creqmsg c) ?_
      exact goes_of_log [] rfl rfl (by simp)
    | cresptomsg =>
      have hpop : Stays (p.atTime e.time) ((p.atTime e.time).cancelEvent .cresptomsg) :=
        stays_cancelEvent (by decide)
      exact hnow.go (hpop.trans (stays_respTimeOut h.decided)) (hb.respTimeOut hact ht)
        (goes_respTimeOut hact hq hne)
  | @upto k u he hu =>
    have hpop : Stays (p.atTime e.time) ((p.atTime e.time).popUpto k) :=
      stays_same rfl rfl rfl rfl rfl
    exact hnow.go (hpop.trans (stays_updateTimeOut u.2 h.decided)) (hb.updateTimeOut hact hlink hu)
      (goes_updateTimeOut hact hlink hu hq hne)
  | @self k c o he =>
    obtain ⟨out, hout⟩ := onSelf_eq (p := (p.atTime e.time).popOutbox k) o.2 c
    rw [hout]
    refine hnow.go (stays_same rfl rfl rfl rfl rfl) ?_ (goes_of_log [] rfl rfl (by simp))
    exact hb.congr rfl rfl rfl (fun _ _ h => h) (fun _ h => h) id
  | @recv m c he hnone =>
    have hsrc : m.source ≠ NOID := by
      have := hok.2
      rwa [he] at this
    cases m with
    | commitReq m =>
      rcases handleCommitReq_cases (p := p.atTime e.time) m with hsame | ⟨sess, ⟨hs, -⟩, -⟩
      · change Serves q A ((p.atTime e.time).handleCommitReq m) ∨ Reported q _
        rw [hsame]
        exact .inl hnow
      · have hd := hnow.decided
        rw [Decided, hs] at hd
        simp at hd
    | commitResp m =>
      exact hnow.go (stays_commitResp m hf) (hb.commitResp hact hf hnone h.depth hok')
        (goes_commitResp m hf hok')
    | commitAck m =>
      have hnack : ∀ parent, ¬ (p.atTime e.time).Acked m parent := fun parent hacked => by
        have hp : p.Acked m parent := { hacked with }
        rw [accepted, he, hp.second] at hno
        simp [hc, hp] at hno
      have hcase := handleCommitAck_cases (p := p.atTime e.time) c m
      change Serves q A ((p.atTime e.time).handleCommitAck c m) ∨
        Reported q ((p.atTime e.time).handleCommitAck c m)
      change ((p.atTime e.time).handleCommitAck c m).fault = none at hok'
      generalize (p.atTime e.time).handleCommitAck c m = p' at hok' hcase ⊢
      cases hcase with
      | ignored => exact .inl hnow
      | unverified =>
        refine hnow.go (stays_same rfl rfl rfl rfl rfl) ?_ (goes_of_log [] rfl rfl (by simp))
        exact hb.congr rfl rfl rfl (fun _ _ h => h) (fun _ h => h) id
      | null => cases hok'
      | leaf hacked => exact absurd hacked (hnack _)
      | inner hacked => exact absurd hacked (hnack _)
    | updateReq m =>
      exact hnow.go (stays_upReq m) (hb.upReq hact hsrc hok') (goes_upReq m hok' hq hne)

/-! ## Acks -/

/-- No ack is prepared and no update timer is added. -/
structure NoAck (p p' : Prover) : Prop where
  uptos : p'.uptos.Sublist p.uptos
  acks : ∀ m, .commitAck m ∈ p'.mail → .commitAck m ∈ p.mail

theorem NoAck.trans {x : Prover} (h : NoAck p x) (h' : NoAck x p') : NoAck p p' :=
  ⟨h'.uptos.trans h.uptos, fun m hm => h.acks m (h'.acks m hm)⟩

theorem noAck_of (ho : p'.outbox = p.outbox) (hout : p'.out = p.out)
    (hu : p'.uptos.Sublist p.uptos) : NoAck p p' :=
  ⟨hu, fun m hm => by rwa [mail, ho, hout] at hm⟩

/-- Another message is prepared. -/
theorem noAck_prepare {o : Stamp × Msg} (ho : p'.outbox = p.outbox ++ [o]) (hout : p'.out = p.out)
    (hu : p'.uptos = p.uptos) (hno : ∀ m, o.2 ≠ .commitAck m) : NoAck p p' := by
  refine ⟨by rw [hu], fun m hm => ?_⟩
  rw [mail, ho, hout, List.map_append, List.append_assoc] at hm
  rw [mail]
  rcases List.mem_append.mp hm with hm | hm
  · exact List.mem_append_left _ hm
  · rcases List.mem_append.mp hm with hm | hm
    · exact absurd (List.mem_singleton.mp hm).symm (hno m)
    · exact List.mem_append_right _ hm

/-- A packet that is no ack is handed over. -/
theorem noAck_out (pkt : Packet) (ho : p'.outbox = p.outbox) (hout : p'.out = p.out ++ [pkt])
    (hu : p'.uptos = p.uptos) (hno : ∀ m, pkt ≠ .prover m) : NoAck p p' := by
  refine ⟨by rw [hu], fun m hm => ?_⟩
  have hnone : pkt.msg? = none := by
    cases pkt with
    | prover m => exact absurd rfl (hno m)
    | _ => rfl
  rw [mail, ho, hout, List.filterMap_append, List.filterMap_cons_none hnone] at hm
  simpa [mail] using hm

theorem noAck_sendUpReq (tid : TreeId) : NoAck p (p.sendUpReq tid) := by
  cases hs : p.psessions.second with
  | none =>
    refine noAck_of ?_ ?_ ?_
    all_goals simp [sendUpReq, hs, fail]
  | some parent =>
    rw [sendUpReq_of_some tid hs]
    exact noAck_prepare rfl rfl rfl (by simp)

theorem noAck_broadcast (depth : Nat) (tid : TreeId) (hf : p.fault = none) :
    NoAck p (p.broadcastCommitReq depth tid) := by
  cases hc : p.timers .creqmsg with
  | some s =>
    refine noAck_of ?_ ?_ ?_
    all_goals simp [broadcastCommitReq, scheduleAt, hc, andThen, fail]
  | none =>
    rw [broadcast_of_none tid depth hf hc]
    exact noAck_of rfl rfl (List.Sublist.refl _)

theorem noAck_sendCommitReq (c : Choice) (tid : TreeId) (hf : p.fault = none) :
    NoAck p (p.sendCommitReq c tid) := by
  have hroot : NoAck p (p.startTree c.treeID) := noAck_of rfl rfl (List.Sublist.refl _)
  by_cases hs : p.status = .ATTESTING
  · rw [sendCommitReq_attesting tid c hs]
    exact noAck_of rfl rfl (List.Sublist.refl _)
  by_cases hm : p.maxchildren = 0
  · rw [sendCommitReq_leaf tid c hs hm]
    exact hroot.trans (noAck_sendUpReq _)
  by_cases hfirst : p.psessions.first = NOID
  · rw [sendCommitReq_root tid c hs hm hfirst]
    exact hroot.trans (noAck_broadcast _ _ hf)
  cases hp : p.psessions.second with
  | none =>
    rw [sendCommitReq_null tid c hs hm hfirst hp]
    exact noAck_of rfl rfl (List.Sublist.refl _)
  | some parent =>
    rw [sendCommitReq_inner tid c hs hm hfirst hp]
    have hrec : NoAck p (p.record (.depthSub parent.depth)) :=
      noAck_of rfl rfl (List.Sublist.refl _)
    exact hrec.trans (noAck_broadcast _ _ hf)

theorem noAck_onTimer (t : Timer) (c : Choice) (hf : p.fault = none) :
    NoAck p (p.onTimer t c) := by
  have hstart : NoAck p (p.startAttestation c) := by
    obtain ⟨timers, seq, fault, he⟩ := startAttestation_shape (p := p) c
    rw [he]
    exact noAck_of rfl rfl (List.Sublist.refl _)
  cases t with
  | startmsg => exact hstart
  | attesttimer => exact hstart
  | checkdelaymsg => exact noAck_of rfl rfl (List.Sublist.refl _)
  | mktreetimer => exact noAck_sendCommitReq c NOID hf
  | creqmsg => exact noAck_out .creqmsg rfl rfl rfl (by simp)
  | cacktomsg =>
    change NoAck p (p.handleCommitAckTimeOut c)
    by_cases hd : p.cackto.device = p.psessions.first
    · by_cases hs : p.status = .ATTESTING_CREATING
      · rw [handleCommitAckTimeOut_creating c hd hs]
        have hleft : NoAck p { p with psessions := {}, status := .CREATING } :=
          noAck_of rfl rfl (List.Sublist.refl _)
        exact hleft.trans (noAck_sendCommitReq c NOID hf)
      · rw [handleCommitAckTimeOut_ready c hd hs]
        exact noAck_of rfl rfl (List.Sublist.refl _)
    · rw [handleCommitAckTimeOut_stale c hd]
      exact noAck_of rfl rfl (List.Sublist.refl _)
  | cresptomsg =>
    have hclosed : NoAck p p.closeWindow := noAck_of rfl rfl (List.Sublist.refl _)
    change NoAck p p.handleCommitRespTimeOut
    by_cases hl : p.csessions.keys.length = 1
    · rw [handleCommitRespTimeOut_last hl]
      exact hclosed.trans (noAck_sendUpReq _)
    · rw [handleCommitRespTimeOut_open hl]
      exact hclosed

theorem noAck_updateTimeOut (u : CommitTimeOut) : NoAck p (p.handleUpdateTimeOut u) := by
  have hout : ∀ st, NoAck p { p.timedOut u with status := st } := fun _ =>
    noAck_of rfl rfl (List.Sublist.refl _)
  by_cases hlen : (p.csessions.erase u.device).keys.length = 1
  · rw [handleUpdateTimeOut_last hlen]
    exact (hout .FINISHED).trans (noAck_sendUpReq _)
  · rw [handleUpdateTimeOut_more hlen]
    exact hout p.status

theorem noAck_commitReq (m : CommitReq) : NoAck p (p.handleCommitReq m) := by
  rcases handleCommitReq_cases (p := p) m with he | ⟨sess, -, he⟩
  · rw [he]
    exact noAck_of rfl rfl (List.Sublist.refl _)
  · have hprep : NoAck p ({ p with psessions := ⟨m.source, some sess⟩ }.prepare
        (.commitResp (p.respMsg m.source m.treeID sess))) :=
      noAck_prepare rfl rfl rfl (by simp)
    rw [he]
    refine hprep.trans ?_
    unfold sendCommitResp scheduleAt
    dsimp only
    split
    · exact noAck_of rfl rfl (List.Sublist.refl _)
    · exact noAck_of rfl rfl (List.Sublist.refl _)

theorem noAck_commitAck (c : Choice) (m : CommitAck) (hf : p.fault = none) :
    NoAck p (p.handleCommitAck c m) := by
  have hvalid : ∀ parent st, NoAck p
      { (p.queueMacDelay (.commitAck m)).validateParent parent with status := st } := fun _ _ =>
    noAck_of rfl rfl (List.Sublist.refl _)
  have hcase := handleCommitAck_cases (p := p) c m
  generalize p.handleCommitAck c m = p' at hcase ⊢
  cases hcase with
  | ignored => exact noAck_of rfl rfl (List.Sublist.refl _)
  | unverified => exact noAck_of rfl rfl (List.Sublist.refl _)
  | null => exact noAck_of rfl rfl (List.Sublist.refl _)
  | @leaf parent => exact (hvalid parent .FINISHED).trans (noAck_sendUpReq _)
  | @inner parent => exact (hvalid parent .CREATING).trans (noAck_sendCommitReq c m.treeID hf)

theorem noAck_upReq (m : UpdateReq) : NoAck p (p.handleUpReq m) := by
  have hmerged : ∀ child, NoAck p (p.merged m child) := fun _ =>
    noAck_of rfl rfl List.filter_sublist
  have hpass : ∀ m' : UpdateReq, NoAck p ((p.record (.upReq m.source)).sendCollector m') :=
    fun m' => noAck_out (.collector m') rfl rfl rfl (by simp)
  have hcase := handleUpReq_cases (p := p) m
  generalize p.handleUpReq m = p' at hcase ⊢
  cases hcase with
  | forward => exact hpass _
  | redirect => exact hpass _
  | ignored => exact noAck_of rfl rfl (List.Sublist.refl _)
  | unverified => exact noAck_of rfl rfl (List.Sublist.refl _)
  | null => exact noAck_of rfl rfl (List.Sublist.refl _)
  | array => exact noAck_of rfl rfl (List.Sublist.refl _)
  | last => exact (hmerged _).trans (noAck_sendUpReq _)
  | more => exact hmerged _

theorem noAck_onSelf {k : Nat} {o : Stamp × Msg} (c : Choice)
    (ho : p.outbox.find? (·.1.seq = k) = some o) : NoAck p ((p.popOutbox k).onSelf o.2 c) := by
  obtain ⟨pkt, he, -, -, hmsg⟩ := onSelf_out (p := p.popOutbox k) o.2 c
  have hmem : o.2 ∈ p.outbox.map Prod.snd := List.mem_map_of_mem (List.mem_of_find?_eq_some ho)
  rw [he]
  refine ⟨List.Sublist.refl _, fun m hm => ?_⟩
  rw [mail] at hm ⊢
  rcases List.mem_append.mp hm with hm | hm
  · exact List.mem_append_left _ ((List.filter_sublist.map Prod.snd).mem hm)
  · rw [List.filterMap_append] at hm
    rcases List.mem_append.mp hm with hm | hm
    · exact List.mem_append_right _ hm
    · obtain ⟨x, hx, hxm⟩ := List.mem_filterMap.mp hm
      cases List.mem_singleton.mp hx
      rw [hmsg _ hxm]
      exact List.mem_append_left _ hmem

/-- An ack is prepared for `c`, and its update timer is due at `due`. -/
structure Acks (c : Uid) (due : Nat) (p p' : Prover) : Prop where
  uptos : ∃ u, p'.uptos = p.uptos ++ [u] ∧ u.2.device = c ∧ u.1.due = due
  acks : ∀ m, .commitAck m ∈ p'.mail → .commitAck m ∈ p.mail ∨ m.destination = c

theorem acks_sendCommitAck {parent : Session} (target : Uid) (tid : TreeId) (child : Session)
    (hp : p.psessions.second = some parent) :
    Acks target (p.now + upTimeOutDelay parent) p (p.sendCommitAck target tid child) := by
  rw [sendCommitAck_of_some tid target child hp]
  refine ⟨⟨_, rfl, rfl, rfl⟩, fun m hm => ?_⟩
  rw [mail] at hm ⊢
  rcases List.mem_append.mp hm with hm | hm
  · rw [prepare, List.map_append] at hm
    rcases List.mem_append.mp hm with hm | hm
    · exact .inl (List.mem_append_left _ hm)
    · cases List.mem_singleton.mp hm
      exact .inr rfl
  · exact .inl (List.mem_append_right _ hm)

theorem acks_commitResp (m : CommitResp) (hf : p.fault = none)
    (hok : (p.handleCommitResp m).fault = none) :
    NoAck p (p.handleCommitResp m) ∨ ∃ parent, p.status = .CREATING ∧
      p.psessions.second = some parent ∧
        Acks m.source (p.now + upTimeOutDelay parent) p (p.handleCommitResp m) := by
  have hcase := handleCommitResp_cases hf m
  generalize p.handleCommitResp m = p' at hok hcase ⊢
  cases hcase with
  | ignored => exact .inl (noAck_of rfl rfl (List.Sublist.refl _))
  | unverified => exact .inl (noAck_of rfl rfl (List.Sublist.refl _))
  | null _ _ hnull => cases hnull.symm.trans hok
  | @more parent hans hp _ he =>
    have h := acks_sendCommitAck (p := p.admitChild m) m.source m.treeID (childSession m) hp
    rw [he]
    exact .inr ⟨parent, hans.status, hp, h.uptos, h.acks⟩
  | @full parent hans hp _ he =>
    have h := acks_sendCommitAck (p := p.admitChild m) m.source m.treeID (childSession m) hp
    rw [he]
    exact .inr ⟨parent, hans.status, hp, h.uptos, h.acks⟩

/-- **An ack comes with its update timer**, in every event. -/
theorem acks_live {e : Event} (hf : p.fault = none) (hl : p.Live e p') (hok : p'.fault = none) :
    NoAck p p' ∨ ∃ c parent, p.status = .CREATING ∧ p.psessions.second = some parent ∧
      Acks c (e.time + upTimeOutDelay parent) p p' := by
  have hnow : NoAck p (p.atTime e.time) := noAck_of rfl rfl (List.Sublist.refl _)
  cases hl with
  | @timer t c =>
    have hpop : NoAck p ((p.atTime e.time).cancelEvent t) := noAck_of rfl rfl (List.Sublist.refl _)
    exact .inl (hpop.trans (noAck_onTimer t c hf))
  | @upto k u =>
    have hpop : NoAck p ((p.atTime e.time).popUpto k) := noAck_of rfl rfl List.filter_sublist
    exact .inl (hpop.trans (noAck_updateTimeOut u.2))
  | @self k c o _ ho => exact .inl (hnow.trans (noAck_onSelf c ho))
  | @recv m c =>
    cases m with
    | commitReq m => exact .inl (hnow.trans (noAck_commitReq m))
    | commitResp m =>
      rcases acks_commitResp (p := p.atTime e.time) m hf hok with h | ⟨parent, hst, hp, h⟩
      · exact .inl (hnow.trans h)
      · exact .inr ⟨m.source, parent, hst, hp, h.uptos, h.acks⟩
    | commitAck m => exact .inl (hnow.trans (noAck_commitAck c m hf))
    | updateReq m => exact .inl (hnow.trans (noAck_upReq m))

/-! ## Until the report is on the air -/

/-- A report to `q` is prepared or handed over. -/
def Posted (q : Uid) (p : Prover) : Prop :=
  (∃ o ∈ p.outbox, o.2.reportsTo p.cfg.UId q = true) ∨
    ∃ pkt ∈ p.out, pkt.reportsTo p.cfg.UId q = true

instance (q : Uid) (p : Prover) : Decidable (Posted q p) := inferInstanceAs (Decidable (_ ∨ _))

/-- The report leaves a prover that finds its parent out of range. -/
def strays (e : Event) (p : Prover) : Bool :=
  match e.act with
  | .self k c => !c.inRange && (p.outbox.find? (·.1.seq = k)).any fun o => o.2.isReport
  | _ => false

theorem Stores.posted {heard : Option UpdateReq} (h : Stores heard p p') (hp : Posted q p) :
    Posted q p' := by
  rcases hp with ⟨o, ho, hr⟩ | ⟨pkt, hmem, hr⟩
  · exact .inl ⟨o, h.outbox.subset ho, h.cfg ▸ hr⟩
  · exact .inr ⟨pkt, h.out.subset hmem, h.cfg ▸ hr⟩

theorem posted_sendUpReq (tid : TreeId) {parent : Session} (hs : p.psessions.second = some parent)
    (hp : Posted q p) : Posted q (p.sendUpReq tid) := by
  rw [sendUpReq_of_some tid hs]
  rcases hp with ⟨o, ho, hr⟩ | hp
  · exact .inl ⟨o, List.mem_append_left _ ho, hr⟩
  · exact .inr hp

/-- **What is posted stays posted** unless the parent is out of range. -/
theorem posted_live {e : Event} (hord : Schedule.Ordered p.schedule) (hf : p.fault = none)
    (hl : p.Live e p') (hok : p'.fault = none) (hp : Posted q p) :
    Posted q p' ∨ strays e p = true := by
  rcases posts_live hf hl with hposts | ⟨k, c, o, hact, ho, rfl⟩
  · cases hposts with
    | stays h => exact .inl (h.posted hp)
    | sends h hs he =>
      rw [he]
      exact .inl (posted_sendUpReq _ hs (h.posted hp))
    | fails hfail => exact absurd hok hfail
  · obtain ⟨pkt, he, -⟩ := onSelf_out (p := (p.atTime e.time).popOutbox k) o.2 c
    have hcfg : (((p.atTime e.time).popOutbox k).onSelf o.2 c).cfg = p.cfg := by rw [he]; rfl
    rcases hp with ⟨o', hmem, hr⟩ | ⟨pkt', hmem, hr⟩
    · by_cases hk : o'.1.seq = k
      · -- the report is handed over now
        have hnodup : (p.outbox.map (·.1.seq)).Nodup :=
          List.pairwise_map.mpr (hord.out.imp fun h => h.ne)
        have hseq : o.1.seq = k := by simpa using List.find?_some ho
        obtain rfl : o' = o :=
          List.inj_on_of_nodup_map hnodup hmem (List.mem_of_find?_eq_some ho) (hk.trans hseq.symm)
        obtain ⟨st, msg⟩ := o'
        cases msg with
        | updateReq m =>
          have hkind : m.kind = .UPRQ := by
            simp only [Msg.reportsTo, Bool.and_eq_true, beq_iff_eq] at hr
            exact hr.1.1
          cases hin : c.inRange with
          | true =>
            refine .inl (.inr ⟨.prover (.updateReq m), ?_, ?_⟩)
            · simp [onSelf, hkind, hin]
            · rw [hcfg]
              exact hr
          | false =>
            refine .inr ?_
            unfold strays
            rw [hact]
            simp [hin, ho, Msg.isReport, hkind]
        | commitReq m => cases hr
        | commitResp m => cases hr
        | commitAck m => cases hr
      · refine .inl (.inl ⟨o', ?_, ?_⟩)
        · rw [he]
          exact List.mem_filter.mpr ⟨hmem, by simpa using hk⟩
        · rw [hcfg]
          exact hr
    · refine .inl (.inr ⟨pkt', ?_, ?_⟩)
      · rw [he]
        exact List.mem_append_left _ hmem
      · rw [hcfg]
        exact hr

/-- A report that was sent stays sent until a round begins. -/
theorem sentIn_live {e : Event} (hf : p.fault = none) (hl : p.Live e p')
    (hno : ¬ StartsAttestation e.act) (hs : SentIn p.log) : SentIn p'.log := by
  cases flow_of_live hf hl with
  | quiet h => exact h.log.sentIn.mpr hs
  | restart hst => exact absurd hst hno
  | send h => exact h.sentIn
  | passOn _ h => exact h.log.sentIn.mpr hs
  | merge _ h => exact h.log.sentIn.mpr hs
  | mergeSend _ _ h => exact h.sentIn

end

end Prover

end Fadia
