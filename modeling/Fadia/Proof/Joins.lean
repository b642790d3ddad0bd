import Fadia.Proof.TreeSessions
import Fadia.Lib.Counting
import Mathlib

/-!
# What is spent on joining

A broadcast of a prover is answered by the others, acked and accepted; each of these uses
up the one before it.  `joins` lists the pairs of parent and child whose `CommitResp` or
`CommitAck` is prepared or handed over, `asks` counts the broadcasts that are still to go on
the air, and `Spends` says that an event adds no more to them than it receives and broadcasts
(`spends_of_step`).  A prover broadcasts only where it becomes root or accepts an ack.
-/

namespace Fadia

/-- The pair of parent and child that a message on its way to `v` is about. -/
def Msg.join (v : Uid) : Msg → List (Uid × Uid)
  | .commitReq m => [(m.source, v)]
  | .commitResp m => [(m.destination, m.source)]
  | .commitAck m => [(m.source, m.destination)]
  | .updateReq _ => []

def Packet.join : Packet → List (Uid × Uid)
  | .prover m => m.join m.destination
  | _ => []

namespace Prover

/-- The pairs whose messages are prepared or handed over. -/
def joins (p : Prover) : List (Uid × Uid) :=
  p.outbox.flatMap (fun o => o.2.join o.2.destination) ++ p.out.flatMap Packet.join

/-- The broadcasts that are still to go on the air. -/
def asks (p : Prover) : Nat :=
  (if (p.timers .creqmsg).isSome then 1 else 0) + p.out.count .creqmsg

instance (m : CommitAck) (parent : Session) (p : Prover) : Decidable (p.Acked m parent) :=
  decidable_of_iff (p.psessions.first = m.source ∧ m.destination = p.cfg.UId ∧
      p.psessions.second = some parent ∧ parent.keyID ∈ p.cfg.KeyRing ∧
        p.cfg.checkMAC (.commitAck m) parent.keyID = true)
    ⟨fun ⟨h1, h2, h3, h4, h5⟩ => ⟨h1, h2, h3, h4, h5⟩, fun h => ⟨h.1, h.2, h.3, h.4, h.5⟩⟩

/-- The pairs that a message to the prover is about. -/
def heard (e : Event) (p : Prover) : List (Uid × Uid) :=
  match e.act with
  | .recv m _ => m.join p.cfg.UId
  | _ => []

/-- The pair whose ack passes the checks of `handleCommitAck` in an event. -/
def accepted (e : Event) (p : Prover) : List (Uid × Uid) :=
  match e.act, p.psessions.second with
  | .recv (.commitAck m) _, some parent =>
    if p.crashed = false ∧ p.Acked m parent then [(m.source, p.cfg.UId)] else []
  | _, _ => []

/-- An event that receives at most `n` messages about the pair `x` and accepts `r` acks. -/
structure Spends (x : Uid × Uid) (n r : Nat) (p p' : Prover) : Prop where
  joins : p'.joins.count x ≤ p.joins.count x + n
  asks : p'.asks + p.log.count .broadcast ≤ p.asks + p'.log.count .broadcast
  casts : p'.log.count .broadcast + p.log.count .root ≤
    p.log.count .broadcast + p'.log.count .root + r

section
variable {p p' q : Prover} {x : Uid × Uid} {n r : Nat}

theorem Spends.trans (h : Spends x 0 0 p q) (h' : Spends x n r q p') : Spends x n r p p' := by
  obtain ⟨h1, h2, h3⟩ := h
  obtain ⟨h1', h2', h3'⟩ := h'
  refine ⟨by omega, by omega, by omega⟩

theorem Spends.close (h : Spends x n r p q) (h' : Spends x 0 0 q p') : Spends x n r p p' := by
  obtain ⟨h1, h2, h3⟩ := h
  obtain ⟨h1', h2', h3'⟩ := h'
  refine ⟨by omega, by omega, by omega⟩

/-- No broadcast, and no message about a join. -/
theorem spends_of_log (marks : List Mark) (hj : p'.joins.count x ≤ p.joins.count x)
    (ha : p'.asks ≤ p.asks) (hl : p'.log = marks ++ p.log) (hb : .broadcast ∉ marks) :
    Spends x 0 0 p p' := by
  have h1 : p'.log.count .broadcast = p.log.count .broadcast := by
    rw [hl, List.count_append, List.count_eq_zero.mpr hb, Nat.zero_add]
  have h2 : p.log.count .root ≤ p'.log.count .root := by
    rw [hl, List.count_append]
    exact Nat.le_add_left _ _
  refine ⟨hj, ?_, ?_⟩
  · rw [h1]
    exact Nat.add_le_add_right ha _
  · rw [h1]
    omega

theorem spends_of_eq (marks : List Mark) (ho : p'.outbox = p.outbox) (hout : p'.out = p.out)
    (ht : p'.timers .creqmsg = p.timers .creqmsg) (hl : p'.log = marks ++ p.log)
    (hb : .broadcast ∉ marks) : Spends x 0 0 p p' :=
  spends_of_log marks (by rw [joins, joins, ho, hout]) (by rw [asks, asks, ht, hout]) hl hb

theorem count_joins_prepare (m : Msg) : (p.prepare m).joins.count x =
    p.joins.count x + (m.join m.destination).count x := by
  simp only [joins, prepare, List.flatMap_append, List.flatMap_cons, List.flatMap_nil,
    List.append_nil, List.count_append]
  omega

/-! ## The handlers -/

theorem spends_sendUpReq (tid : TreeId) : Spends x 0 0 p (p.sendUpReq tid) := by
  cases hs : p.psessions.second with
  | none =>
    refine spends_of_eq [.sendUpReq] ?_ ?_ ?_ (sendUpReq_log tid) (by simp)
    all_goals simp [sendUpReq, hs, fail]
  | some parent =>
    have hlog : (p.sendUpReq tid).log = [.sendUpReq] ++ p.log := sendUpReq_log tid
    rw [sendUpReq_of_some tid hs] at hlog ⊢
    refine spends_of_log _ ?_ (Nat.le_refl _) hlog (by simp)
    have hcount := count_joins_prepare (p := p) (x := x) (.updateReq (p.reportMsg tid parent))
    exact hcount.le

theorem spends_broadcast (depth : Nat) (tid : TreeId) (hf : p.fault = none) :
    Spends x 0 1 p (p.broadcastCommitReq depth tid) := by
  cases hc : p.timers .creqmsg with
  | some s =>
    have he : p.broadcastCommitReq depth tid = { p with
        status := .CREATING
        creqDepth := depth
        creqTreeID := tid
        fault := some .alreadyScheduled } := by
      simp [broadcastCommitReq, scheduleAt, hc, andThen, fail]
    rw [he]
    refine ⟨Nat.le_refl _, Nat.le_refl _, ?_⟩
    show p.log.count .broadcast + p.log.count .root ≤ p.log.count .broadcast + p.log.count .root + 1
    omega
  | none =>
    rw [broadcast_of_none tid depth hf hc]
    refine ⟨Nat.le_refl _, ?_, ?_⟩
    · simp only [asks, List.count_cons_self]
      simp [hc]
      omega
    · simp only [List.count_cons_self]
      rw [List.count_cons_of_ne (by decide)]
      omega

/-- A prover that broadcasts becomes root, or has a parent. -/
theorem spends_sendCommitReq (c : Choice) (tid : TreeId) (hf : p.fault = none)
    (hr : p.status ≠ .ATTESTING → p.psessions.first ≠ NOID → 1 ≤ r) :
    Spends x 0 r p (p.sendCommitReq c tid) := by
  have hmore : ∀ {p' : Prover} {r : Nat}, Spends x 0 0 p p' → Spends x 0 r p p' := fun h =>
    ⟨h.joins, h.asks, Nat.le_add_right_of_le h.casts⟩
  -- starting a tree pays for the broadcast
  have hroot : ∀ {q : Prover}, Spends x 0 1 (p.startTree c.treeID) q → Spends x 0 0 p q := by
    intro q h
    have hcount : (p.startTree c.treeID).log.count .root = p.log.count .root + 1 :=
      List.count_cons_self
    have hcast : (p.startTree c.treeID).log.count .broadcast = p.log.count .broadcast :=
      List.count_cons_of_ne (by decide)
    obtain ⟨h1, h2, h3⟩ := h
    rw [hcast] at h2 h3
    rw [hcount] at h3
    exact ⟨h1, h2, by omega⟩
  by_cases hs : p.status = .ATTESTING
  · rw [sendCommitReq_attesting tid c hs]
    exact hmore (spends_of_eq [] rfl rfl rfl rfl (by simp))
  by_cases hm : p.maxchildren = 0
  · rw [sendCommitReq_leaf tid c hs hm]
    have h := spends_sendUpReq (x := x) (p := p.startTree c.treeID) c.treeID
    exact hmore (hroot ⟨h.joins, h.asks, Nat.le_add_right_of_le h.casts⟩)
  by_cases hfirst : p.psessions.first = NOID
  · rw [sendCommitReq_root tid c hs hm hfirst]
    exact hmore (hroot (spends_broadcast _ _ hf))
  cases hp : p.psessions.second with
  | none =>
    rw [sendCommitReq_null tid c hs hm hfirst hp]
    exact hmore (spends_of_eq [] rfl rfl rfl rfl (by simp))
  | some parent =>
    rw [sendCommitReq_inner tid c hs hm hfirst hp]
    have hrec : Spends x 0 0 p (p.record (.depthSub parent.depth)) :=
      spends_of_eq [.depthSub parent.depth] rfl rfl rfl rfl (by simp)
    have h := hrec.trans (spends_broadcast (subUnsigned parent.depth 1) tid hf)
    exact ⟨h.joins, h.asks, h.casts.trans (Nat.add_le_add_left (hr hs hfirst) _)⟩

theorem spends_ackTimeOut (c : Choice) (hf : p.fault = none) :
    Spends x 0 0 p (p.handleCommitAckTimeOut c) := by
  by_cases hd : p.cackto.device = p.psessions.first
  · have hforget : ∀ st, Spends x 0 0 p { p with psessions := {}, status := st } := fun _ =>
      spends_of_eq [] rfl rfl rfl rfl (by simp)
    by_cases hs : p.status = .ATTESTING_CREATING
    · rw [handleCommitAckTimeOut_creating c hd hs]
      exact (hforget .CREATING).trans (spends_sendCommitReq
        (p := { p with psessions := {}, status := .CREATING }) c NOID hf fun _ hno => absurd rfl hno)
    · rw [handleCommitAckTimeOut_ready c hd hs]
      exact hforget .READY
  · rw [handleCommitAckTimeOut_stale c hd]
    exact spends_of_eq [] rfl rfl rfl rfl (by simp)

theorem spends_respTimeOut : Spends x 0 0 p p.handleCommitRespTimeOut := by
  have hclosed : Spends x 0 0 p p.closeWindow :=
    spends_of_eq [.respClosed] rfl rfl rfl rfl (by simp)
  by_cases hl : p.csessions.keys.length = 1
  · rw [handleCommitRespTimeOut_last hl]
    exact hclosed.trans (spends_sendUpReq _)
  · rw [handleCommitRespTimeOut_open hl]
    exact hclosed

theorem spends_updateTimeOut (u : CommitTimeOut) : Spends x 0 0 p (p.handleUpdateTimeOut u) := by
  have hout : ∀ st, Spends x 0 0 p { p.timedOut u with status := st } := fun _ =>
    spends_of_eq [.upTimeOut u.device] rfl rfl rfl rfl (by simp)
  by_cases hlen : (p.csessions.erase u.device).keys.length = 1
  · rw [handleUpdateTimeOut_last hlen]
    exact (hout .FINISHED).trans (spends_sendUpReq _)
  · rw [handleUpdateTimeOut_more hlen]
    exact hout p.status

/-- The answer to a request is about the same pair. -/
theorem spends_commitReq (m : CommitReq) :
    Spends x (((Msg.commitReq m).join p.cfg.UId).count x) 0 p (p.handleCommitReq m) := by
  rcases handleCommitReq_cases (p := p) m with he | ⟨sess, -, he⟩
  · rw [he]
    exact ⟨Nat.le_add_right _ _, Nat.le_refl _, Nat.le_refl _⟩
  · have hprep := count_joins_prepare (x := x) (p := { p with psessions := ⟨m.source, some sess⟩ })
      (.commitResp (p.respMsg m.source m.treeID sess))
    rw [he]
    cases hk : p.timers .cacktomsg with
    | some s =>
      have hresp : ({ p with psessions := ⟨m.source, some sess⟩ }.sendCommitResp m.source m.treeID
          sess) = { { p with psessions := ⟨m.source, some sess⟩ }.prepare
            (.commitResp (p.respMsg m.source m.treeID sess)) with
              status := .ATTESTING
              cackto := ⟨m.source, m.treeID⟩
              fault := some .alreadyScheduled } := by
        simp [sendCommitResp, prepare, scheduleAt, hk, fail, respMsg]
      rw [hresp]
      exact ⟨hprep.le, Nat.le_refl _, Nat.le_refl _⟩
    | none =>
      rw [sendCommitResp_of_none (p := { p with psessions := ⟨m.source, some sess⟩ }) _ _ _ hk]
      exact ⟨hprep.le, Nat.le_refl _, Nat.le_refl _⟩

/-- The ack to an answer is about the same pair. -/
theorem spends_commitResp (m : CommitResp) (hf : p.fault = none) :
    Spends x (((Msg.commitResp m).join p.cfg.UId).count x) 0 p (p.handleCommitResp m) := by
  have hack : p.Answers m → Spends x (((Msg.commitResp m).join p.cfg.UId).count x) 0 p
      ((p.admitChild m).sendCommitAck m.source m.treeID (childSession m)) := by
    intro hans
    have hprep := count_joins_prepare (x := x) (p := p.admitChild m)
      (.commitAck (p.ackMsg m.source m.treeID (childSession m)))
    have hpair : (Msg.commitAck (p.ackMsg m.source m.treeID (childSession m))).join m.source =
        (Msg.commitResp m).join p.cfg.UId := by
      show [(p.cfg.UId, m.source)] = [(m.destination, m.source)]
      rw [hans.destination]
    change _ = p.joins.count x + (Msg.join m.source _).count x at hprep
    rw [hpair] at hprep
    have hprepared : Spends x (((Msg.commitResp m).join p.cfg.UId).count x) 0 p ((p.admitChild m).prepare
        (.commitAck (p.ackMsg m.source m.treeID (childSession m)))) :=
      ⟨hprep.le, Nat.le_refl _, Nat.le_refl _⟩
    cases hp : p.psessions.second with
    | none =>
      have hstop : (p.admitChild m).sendCommitAck m.source m.treeID (childSession m) =
          ((p.admitChild m).prepare (.commitAck (p.ackMsg m.source m.treeID
            (childSession m)))).fail .nullSession := by
        unfold sendCommitAck
        simp [prepare, admitChild, queueMacDelay, hp, ackMsg]
      rw [hstop]
      exact hprepared.close (spends_of_eq [] rfl rfl rfl rfl (by simp))
    | some parent =>
      rw [sendCommitAck_of_some (p := p.admitChild m) m.treeID m.source _ hp]
      have hacked : ∀ {q : Prover}, q.outbox = ((p.admitChild m).prepare (.commitAck
            (p.ackMsg m.source m.treeID (childSession m)))).outbox → q.out = p.out →
          q.timers = p.timers → q.log = [.ack m.source, .depthSub parent.depth] ++ p.log →
            Spends x (((Msg.commitResp m).join p.cfg.UId).count x) 0 p q := fun ho hout ht hl =>
        hprepared.close (spends_of_eq _ ho hout (by rw [ht]; rfl) hl (by simp))
      exact hacked rfl rfl rfl rfl
  have hcase := handleCommitResp_cases hf m
  generalize p.handleCommitResp m = p' at hcase ⊢
  cases hcase with
  | ignored => exact ⟨Nat.le_add_right _ _, Nat.le_refl _, Nat.le_refl _⟩
  | unverified => exact ⟨Nat.le_add_right _ _, Nat.le_refl _, Nat.le_refl _⟩
  | null hans _ _ _ he =>
    rw [he]
    exact hack hans
  | more hans _ he =>
    rw [he]
    exact hack hans
  | @full parent hans _ q he =>
    have hclosed : Spends x 0 0 q (q.closeWindow.cancelEvent .cresptomsg) :=
      spends_of_eq [.respClosed] rfl rfl (by simp [cancelEvent, closeWindow, record])
        rfl (by simp)
    exact (he ▸ hack hans).close hclosed

theorem spends_commitAck (c : Choice) (m : CommitAck) (hf : p.fault = none)
    (hr : ∀ parent, p.Acked m parent → 1 ≤ r) : Spends x 0 r p (p.handleCommitAck c m) := by
  have hmore : ∀ {q : Prover}, Spends x 0 0 p q → Spends x 0 r p q := fun h =>
    ⟨h.joins, h.asks, Nat.le_add_right_of_le h.casts⟩
  have hvalid : ∀ parent st, Spends x 0 0 p
      { (p.queueMacDelay (.commitAck m)).validateParent parent with status := st } := fun _ _ =>
    spends_of_eq [] rfl rfl (by simp [validateParent, cancelEvent, queueMacDelay]) rfl
      (by simp)
  have hcase := handleCommitAck_cases (p := p) c m
  generalize p.handleCommitAck c m = p' at hcase ⊢
  cases hcase with
  | ignored => exact hmore (spends_of_eq [] rfl rfl rfl rfl (by simp))
  | unverified => exact hmore (spends_of_eq [] rfl rfl rfl rfl (by simp))
  | null => exact hmore (spends_of_eq [] rfl rfl rfl rfl (by simp))
  | @leaf parent => exact hmore ((hvalid parent .FINISHED).trans (spends_sendUpReq _))
  | @inner parent hacked =>
    exact (hvalid parent .CREATING).trans (spends_sendCommitReq c m.treeID hf fun _ _ =>
      hr parent hacked)

theorem spends_upReq (m : UpdateReq) : Spends x 0 0 p (p.handleUpReq m) := by
  have hpass : ∀ (m' : UpdateReq) (marks : List Mark), .broadcast ∉ marks → ∀ {q : Prover},
      q.outbox = p.outbox → q.out = p.out ++ [.collector m'] →
      q.timers .creqmsg = p.timers .creqmsg → q.log = marks ++ p.log → Spends x 0 0 p q := by
    intro m' marks hb q ho hout ht hl
    refine spends_of_log _ ?_ ?_ hl hb
    · simp [joins, ho, hout, Packet.join]
    · simp [asks, ht, hout]
  have hmerged : ∀ child, Spends x 0 0 p (p.merged m child) := fun _ =>
    spends_of_eq [.merge m.source, .upReq m.source] rfl rfl rfl rfl (by simp)
  have hcase := handleUpReq_cases (p := p) m
  generalize p.handleUpReq m = p' at hcase ⊢
  cases hcase with
  | forward => exact hpass _ [.redirect m.source, .upReq m.source] (by simp) rfl rfl rfl rfl
  | redirect => exact hpass _ [.redirect m.source, .upReq m.source] (by simp) rfl rfl rfl rfl
  | ignored => exact spends_of_eq [.upReq m.source] rfl rfl rfl rfl (by simp)
  | unverified => exact spends_of_eq [.upReq m.source] rfl rfl rfl rfl (by simp)
  | null => exact spends_of_eq [.upReq m.source] rfl rfl rfl rfl (by simp)
  | array => exact spends_of_eq [.upReq m.source] rfl rfl rfl rfl (by simp)
  | last => exact (hmerged _).trans (spends_sendUpReq _)
  | more => exact hmerged _

/-! ## Steps -/

theorem creqmsg_startAttestation (c : Choice) :
    (p.startAttestation c).timers .creqmsg = p.timers .creqmsg := by
  have hsched : ∀ (q : Prover) (t : Timer) (d : Nat), t ≠ .creqmsg →
      (q.scheduleAt t d).timers .creqmsg = q.timers .creqmsg := by
    intro q t d hne
    unfold scheduleAt
    split
    · rfl
    · exact Function.update_of_ne hne.symm _ _
  have hthen : ∀ (q : Prover) (t : Timer) (d : Nat), t ≠ .creqmsg →
      (q.andThen (·.scheduleAt t d)).timers .creqmsg = q.timers .creqmsg := by
    intro q t d hne
    unfold andThen
    split
    · rfl
    · exact hsched q t d hne
  unfold startAttestation
  dsimp only
  rw [hthen _ _ _ (by decide), hthen _ _ _ (by decide), hsched _ _ _ (by decide)]

theorem spends_timer {g : Prop} (h : p.Once g) {t : Timer} (c : Choice) (hf : p.fault = none)
    {s : Stamp} (ht : p.timers t = some s) : Spends x 0 0 p ((p.cancelEvent t).onTimer t c) := by
  have hpop : t ≠ .creqmsg → Spends x 0 0 p (p.cancelEvent t) := fun hne =>
    spends_of_eq [] rfl rfl (Function.update_of_ne hne.symm _ _) rfl (by simp)
  have hstart : t ≠ .creqmsg → Spends x 0 0 p ((p.cancelEvent t).startAttestation c) := by
    intro hne
    have hcreq := creqmsg_startAttestation (p := p.cancelEvent t) c
    obtain ⟨timers, seq, fault, he⟩ := startAttestation_shape (p := p.cancelEvent t) c
    rw [he] at hcreq ⊢
    exact (hpop hne).trans (spends_of_eq [.start] rfl rfl hcreq rfl (by simp))
  cases t with
  | startmsg => exact hstart (by decide)
  | attesttimer => exact hstart (by decide)
  | checkdelaymsg =>
    have hpop' := hpop (by decide)
    exact ⟨hpop'.joins, hpop'.asks, hpop'.casts⟩
  | mktreetimer =>
    refine (hpop (by decide)).trans (spends_sendCommitReq (p := p.cancelEvent .mktreetimer) c NOID
      hf fun hs hfirst => ?_)
    rcases h.of_mktree ht with ⟨-, hn⟩ | ⟨hat, -⟩
    · refine absurd ?_ hfirst
      show p.psessions.first = NOID
      rw [hn.parent]
    · exact absurd hat hs
  | creqmsg =>
    refine spends_of_log [] ?_ ?_ rfl (by simp)
    · simp [joins, onTimer, cancelEvent, Packet.join]
    · simp [asks, onTimer, cancelEvent, ht]
  | cacktomsg =>
    exact (hpop (by decide)).trans (spends_ackTimeOut (p := p.cancelEvent .cacktomsg) c hf)
  | cresptomsg =>
    exact (hpop (by decide)).trans (spends_respTimeOut (p := p.cancelEvent .cresptomsg))

/-- What was prepared is handed over. -/
theorem spends_self {k : Nat} {o : Stamp × Msg} (c : Choice)
    (ho : p.outbox.find? (·.1.seq = k) = some o) : Spends x 0 0 p ((p.popOutbox k).onSelf o.2 c) := by
  have hpop := Counting.count_flatMap_find? (fun o : Stamp × Msg => o.2.join o.2.destination) x ho
  have hout : ∃ pkt : Packet, pkt ≠ .creqmsg ∧
      pkt.join.count x ≤ (o.2.join o.2.destination).count x ∧
        (p.popOutbox k).onSelf o.2 c = { p.popOutbox k with out := p.out ++ [pkt] } := by
    unfold onSelf
    split
    · split
      · split
        · exact ⟨_, by simp, Nat.zero_le _, rfl⟩
        · exact ⟨_, by simp, Nat.zero_le _, rfl⟩
      · exact ⟨_, by simp, Nat.zero_le _, rfl⟩
      · exact ⟨_, by simp, Nat.zero_le _, rfl⟩
    · exact ⟨.prover o.2, by simp, Nat.le_refl _, rfl⟩
  obtain ⟨pkt, hne, hle, he⟩ := hout
  rw [he]
  refine spends_of_log [] ?_ ?_ rfl (by simp)
  · simp only [joins, popOutbox, List.flatMap_append, List.flatMap_cons, List.flatMap_nil,
      List.append_nil, List.count_append]
    simp only [← decide_not] at hpop
    change _ + ((p.outbox.filter fun b => decide (b.1.seq ≠ k)).flatMap _).count x ≤ _ at hpop
    omega
  · simp [asks, popOutbox, List.count_append, hne]

theorem spends_live {g : Prop} {e : Event} (h : p.Once g) (hf : p.fault = none)
    (hc : p.crashed = false) (hl : p.Live e p') :
    Spends x ((p.heard e).count x - (p.accepted e).count x) (p.accepted e).length p p' := by
  have hnow : Spends x 0 0 p (p.atTime e.time) :=
    spends_of_eq [] rfl rfl rfl rfl (by simp)
  have hmore : ∀ {q : Prover} {n r : Nat}, Spends x 0 0 p q → Spends x n r p q := fun h =>
    ⟨Nat.le_add_right_of_le h.joins, h.asks, Nat.le_add_right_of_le h.casts⟩
  have honce : (p.atTime e.time).Once g := h.congr rfl rfl rfl rfl rfl rfl rfl (Nat.le_refl _) rfl
  cases hl with
  | @timer t c s hact ht =>
    exact hmore (hnow.trans (spends_timer honce c hf ht))
  | @upto k u =>
    have hpop : Spends x 0 0 p ((p.atTime e.time).popUpto k) :=
      spends_of_eq [] rfl rfl rfl rfl (by simp)
    exact hmore (hpop.trans (spends_updateTimeOut u.2))
  | @self k c o hact ho =>
    exact hmore (hnow.trans (spends_self (p := p.atTime e.time) c ho))
  | @recv m c hact =>
    cases m with
    | commitReq m =>
      have hrec : p.heard e = (Msg.commitReq m).join p.cfg.UId := by rw [heard, hact]
      have hno : p.accepted e = [] := by rw [accepted, hact]
      rw [hrec, hno]
      exact hnow.trans (spends_commitReq (p := p.atTime e.time) m)
    | commitResp m =>
      have hrec : p.heard e = (Msg.commitResp m).join p.cfg.UId := by rw [heard, hact]
      have hno : p.accepted e = [] := by rw [accepted, hact]
      rw [hrec, hno]
      exact hnow.trans (spends_commitResp (p := p.atTime e.time) m hf)
    | commitAck m =>
      have h := hnow.trans (spends_commitAck (x := x) (p := p.atTime e.time) c m hf
        (r := (p.accepted e).length) fun parent hacked => ?_)
      · exact ⟨Nat.le_add_right_of_le h.joins, h.asks, h.casts⟩
      · have hp : p.Acked m parent := { hacked with }
        rw [accepted, hact, hp.second]
        simp [hc, hp]
    | updateReq m =>
      exact hmore (hnow.trans (spends_upReq (p := p.atTime e.time) m))

/-- An ack that is accepted is received. -/
theorem accepted_le_heard (e : Event) (p : Prover) (x : Uid × Uid) :
    (p.accepted e).count x ≤ (p.heard e).count x := by
  unfold accepted
  split
  · next m c parent hact _ =>
    split
    · next hok =>
      rw [heard, hact]
      show [(m.source, p.cfg.UId)].count x ≤ [(m.source, m.destination)].count x
      rw [hok.2.destination]
    · exact Nat.zero_le _
  · exact Nat.zero_le _

/-- A crashed prover accepts no ack. -/
theorem accepted_of_crashed {e : Event} (h : p.crashed = true ∨ e.act = .crash) :
    p.accepted e = [] := by
  unfold accepted
  split
  · next hact _ =>
    have hcr : p.crashed = true := h.resolve_right fun hact' => by cases hact.symm.trans hact'
    rw [if_neg]
    simp [hcr]
  · rfl

/-- **One event**: what is received pays for what is prepared and accepted, and a broadcast for
what goes on the air. -/
theorem spends_of_step {g : Prop} {e : Event} (h : Alive (Once g) p) (hs : step e p = some p') :
    p'.joins.count x + (p.accepted e).count x ≤ p.joins.count x + (p.heard e).count x ∧
      p'.asks + p.log.count .broadcast ≤ p.asks + p'.log.count .broadcast ∧
        p'.log.count .broadcast + p.log.count .root ≤
          p.log.count .broadcast + p'.log.count .root + (p.accepted e).length := by
  have hpaid := accepted_le_heard e p x
  obtain ⟨hf, -, ⟨hcr, now, timers, uptos, outbox, ⟨ht, -, hout⟩, rfl⟩ | ⟨hc, hl⟩⟩ := step_cases hs
  · have hno : p.accepted e = [] := accepted_of_crashed hcr
    have hjoins := Counting.count_flatMap_le (fun o : Stamp × Msg => o.2.join o.2.destination) x hout
    have hcreq : (if (timers .creqmsg).isSome then 1 else 0) ≤
        if (p.timers .creqmsg).isSome then 1 else 0 := by
      rcases ht .creqmsg with he | he
      · simp [he]
      · rw [he]
    refine ⟨?_, ?_, ?_⟩
    · rw [hno]
      simp only [joins, List.count_append, List.count_nil]
      omega
    · show (if (timers .creqmsg).isSome then 1 else 0) + p.out.count .creqmsg +
        p.log.count .broadcast ≤ p.asks + p.log.count .broadcast
      unfold asks
      omega
    · rw [hno]
      exact Nat.le_refl _
  · obtain ⟨h1, h2, h3⟩ := spends_live (x := x) (h hf hc) hf hc hl
    refine ⟨by omega, h2, h3⟩

end

end Prover

end Fadia
