import Fadia.Devices.Prover
import Fadia.Lib.Runs

/-!
# What one event does to a prover

`step_cases` says once for all proofs what an event can do: a crashed prover drops
it, and one that lives runs the handler of the event (`Live`).  What the handlers
can do is listed in the same way (`handleUpReq_cases` and its like), and the state
behind each sending function is given where it ends the simulation and where it
does not.
-/

namespace Fadia

namespace Prover

variable {p p' : Prover}

/-! ## Scheduling -/

@[simp] theorem andThen_of_none {f : Prover → Prover} (h : p.fault = none) :
    p.andThen f = f p := by
  simp [andThen, h]

theorem andThen_of_fault {f : Prover → Prover} (h : p.fault ≠ none) : p.andThen f = p := by
  unfold andThen
  split
  · rfl
  · next h' => exact absurd h' h

theorem scheduleAt_of_none {t : Timer} (d : Nat) (h : p.timers t = none) :
    p.scheduleAt t d =
      { p with
        timers := Function.update p.timers t (some ⟨p.now + d, p.seq⟩)
        seq := p.seq + 1 } := by
  simp [scheduleAt, h]

theorem scheduleAt_of_some {t : Timer} {s : Stamp} (d : Nat) (h : p.timers t = some s) :
    p.scheduleAt t d = p.fail .alreadyScheduled := by
  simp [scheduleAt, h]

theorem mem_pending_timer {t : Timer} {s : Stamp} (h : p.timers t = some s) : s ∈ p.pending :=
  List.mem_append_left _ (List.mem_filterMap.mpr ⟨t, Timer.mem_all t, h⟩)

theorem mem_pending_upto {u : Stamp × CommitTimeOut} (h : u ∈ p.uptos) : u.1 ∈ p.pending :=
  List.mem_append_right _ (List.mem_append_left _ (List.mem_map_of_mem h))

theorem mem_pending_outbox {o : Stamp × Msg} (h : o ∈ p.outbox) : o.1 ∈ p.pending :=
  List.mem_append_right _ (List.mem_append_right _ (List.mem_map_of_mem h))

/-! ## The session map -/

section Map
variable {m : SessionMap}

theorem only_window (h : NOID ∈ m) (hl : m.keys.length = 1) : ∀ c ∈ m, c = NOID := by
  obtain ⟨k, hk⟩ := List.length_eq_one_iff.mp hl
  intro c hc
  rw [AList.mem_keys, hk, List.mem_singleton] at h hc
  rw [hc, h]

theorem exists_child (h : NOID ∈ m) (hl : m.keys.length ≠ 1) : ∃ c ∈ m, c ≠ NOID := by
  by_contra hno
  push Not at hno
  apply hl
  have hsub : m.keys ⊆ [NOID] := fun c hc => by simpa using hno c (AList.mem_keys.mpr hc)
  have hle := (List.subperm_of_subset m.keys_nodup hsub).length_le
  have hpos : 0 < m.keys.length := List.length_pos_of_mem (AList.mem_keys.mp h)
  simp only [List.length_singleton] at hle
  omega

theorem keys_erase_window (h : ∀ c ∈ m, c = NOID) : (m.erase NOID).keys = [] := by
  apply List.eq_nil_iff_forall_not_mem.mpr
  intro c hc
  obtain ⟨hne, hm⟩ := AList.mem_erase.mp (AList.mem_keys.mpr hc)
  exact hne (h c hm)

theorem not_mem_of_keys_nil (h : m.keys = []) (c : Uid) : c ∉ m := by
  rw [AList.mem_keys, h]
  exact List.not_mem_nil

end Map

/-! ## The state behind the sending functions -/

section
variable (tid : TreeId)

/-- `sendUpReq` without a parent session. -/
theorem sendUpReq_of_none (h : p.psessions.second = none) :
    (p.sendUpReq tid).fault = some .nullSession ∧ (p.sendUpReq tid).log = .sendUpReq :: p.log := by
  simp [sendUpReq, h, fail]

variable {parent : Session}

/-- The message that `sendUpReq` sends. -/
def reportMsg (tid : TreeId) (parent : Session) (p : Prover) : UpdateReq :=
  let report := addOwnReport p.cfg.aggsize p.cfg.recordMac p.cfg.UId (p.attestcount + 1)
    { p.aggreport with tid := tid }
  if p.psessions.first ≠ NOID then
    report.toUpdateReq .UPRQ p.cfg.UId p.psessions.first tid parent.keyID
  else report.toUpdateReq .UPRQC p.cfg.UId baseID tid parent.keyID

theorem sendUpReq_of_some (h : p.psessions.second = some parent) :
    p.sendUpReq tid =
      { p with
        attestcount := p.attestcount + 1
        aggreport := addOwnReport p.cfg.aggsize p.cfg.recordMac p.cfg.UId (p.attestcount + 1)
          { p.aggreport with tid := tid }
        outbox := (p.prepare (.updateReq (p.reportMsg tid parent))).outbox
        macdelays := []
        seq := p.seq + 1
        csessions := p.csessions.erase NOID
        psessions := {}
        status := .FINISHED
        log := .sendUpReq :: p.log } := by
  simp only [sendUpReq, h, reportMsg]
  rfl

theorem exists_parent_of_sendUpReq (h : (p.sendUpReq tid).fault = none) :
    ∃ parent, p.psessions.second = some parent := by
  cases hs : p.psessions.second with
  | none => rw [(sendUpReq_of_none tid hs).1] at h; cases h
  | some parent => exact ⟨parent, rfl⟩

@[simp] theorem sendUpReq_log : (p.sendUpReq tid).log = .sendUpReq :: p.log := by
  cases hs : p.psessions.second with
  | none => exact (sendUpReq_of_none tid hs).2
  | some parent => rw [sendUpReq_of_some tid hs]

variable (depth : Nat)

/-- `broadcastCommitReq` while `creqmsg` is scheduled. -/
theorem broadcast_of_some {s : Stamp} (h : p.timers .creqmsg = some s) :
    (p.broadcastCommitReq depth tid).fault = some .alreadyScheduled ∧
      (p.broadcastCommitReq depth tid).log = p.log := by
  simp [broadcastCommitReq, scheduleAt, h, andThen, fail]

theorem broadcast_of_none (hf : p.fault = none) (h : p.timers .creqmsg = none) :
    p.broadcastCommitReq depth tid =
      { p with
        status := .CREATING
        creqDepth := depth
        creqTreeID := tid
        crespTreeID := tid
        csessions := p.csessions.insert NOID { treeID := tid }
        timers := Function.update (Function.update p.timers .creqmsg (some ⟨p.now, p.seq⟩))
          .cresptomsg (some ⟨p.now + timeoutresp, p.seq + 1⟩)
        seq := p.seq + 2
        log := .broadcast :: p.log } := by
  simp [broadcastCommitReq, scheduleAt, h, andThen, hf, record, cancelEvent]

/-! The branches of `sendCommitReq`. -/

section
variable (c : Choice)

theorem sendCommitReq_attesting (hs : p.status = .ATTESTING) :
    p.sendCommitReq c tid = { p with status := .ATTESTING_CREATING } := by
  rw [sendCommitReq, if_pos hs]

theorem sendCommitReq_leaf (hs : p.status ≠ .ATTESTING) (hm : p.maxchildren = 0) :
    p.sendCommitReq c tid = (p.startTree c.treeID).sendUpReq c.treeID := by
  rw [sendCommitReq, if_neg hs, if_pos hm]

theorem sendCommitReq_root (hs : p.status ≠ .ATTESTING) (hm : p.maxchildren ≠ 0)
    (hfirst : p.psessions.first = NOID) :
    p.sendCommitReq c tid = (p.startTree c.treeID).broadcastCommitReq p.cfg.maxdepth c.treeID := by
  rw [sendCommitReq, if_neg hs, if_neg hm, if_pos hfirst]

theorem sendCommitReq_null (hs : p.status ≠ .ATTESTING) (hm : p.maxchildren ≠ 0)
    (hfirst : p.psessions.first ≠ NOID) (hp : p.psessions.second = none) :
    p.sendCommitReq c tid = p.fail .nullSession := by
  rw [sendCommitReq, if_neg hs, if_neg hm, if_neg hfirst, hp]

theorem sendCommitReq_inner (hs : p.status ≠ .ATTESTING) (hm : p.maxchildren ≠ 0)
    (hfirst : p.psessions.first ≠ NOID) (hp : p.psessions.second = some parent) :
    p.sendCommitReq c tid = (p.record (.depthSub parent.depth)).broadcastCommitReq
      (subUnsigned parent.depth 1) tid := by
  rw [sendCommitReq, if_neg hs, if_neg hm, if_neg hfirst, hp]

end

variable (target : Uid) (parent)

theorem sendCommitResp_of_some {s : Stamp} (h : p.timers .cacktomsg = some s) :
    (p.sendCommitResp target tid parent).fault = some .alreadyScheduled ∧
      (p.sendCommitResp target tid parent).log = p.log := by
  simp [sendCommitResp, prepare, scheduleAt, h, fail]

/-- The message that `sendCommitResp` sends. -/
def respMsg (target : Uid) (tid : TreeId) (parent : Session) (p : Prover) : CommitResp :=
  ⟨p.cfg.UId, target, parent.keyID, tid, generateMAC parent.keyID, parent.keyID⟩

theorem sendCommitResp_of_none (h : p.timers .cacktomsg = none) :
    p.sendCommitResp target tid parent =
      { p with
        status := .ATTESTING
        outbox := (p.prepare (.commitResp (p.respMsg target tid parent))).outbox
        macdelays := []
        cackto := ⟨target, tid⟩
        timers := Function.update p.timers .cacktomsg (some ⟨p.now + timeoutack, p.seq + 1⟩)
        seq := p.seq + 2 } := by
  simp [sendCommitResp, prepare, scheduleAt, h, respMsg]

variable {parent} (child : Session)

theorem sendCommitAck_of_none (h : p.psessions.second = none) :
    (p.sendCommitAck target tid child).fault = some .nullSession ∧
      (p.sendCommitAck target tid child).log = p.log := by
  simp [sendCommitAck, prepare, h, fail]

/-- The message that `sendCommitAck` sends. -/
def ackMsg (target : Uid) (tid : TreeId) (child : Session) (p : Prover) : CommitAck :=
  ⟨p.cfg.UId, target, tid, generateMAC child.keyID, child.keyID⟩

/-- When `sendCommitAck` lets the update timer of a child run out. -/
def upTimeOutDelay (parent : Session) : Nat :=
  (timeoutack + timeoutresp) * subUnsigned parent.depth 1 + timeoutup

theorem sendCommitAck_of_some (h : p.psessions.second = some parent) :
    p.sendCommitAck target tid child =
      { p with
        outbox := (p.prepare (.commitAck (p.ackMsg target tid child))).outbox
        macdelays := []
        uptos := p.uptos ++ [(⟨p.now + upTimeOutDelay parent, p.seq + 1⟩, ⟨target, tid⟩)]
        csessions := p.csessions.insert target { child with tomsg := some (p.seq + 1) }
        seq := p.seq + 2
        log := .ack target :: .depthSub parent.depth :: p.log } := by
  simp [sendCommitAck, prepare, h, ackMsg, upTimeOutDelay]

end

/-! ## The branches of `handleCommitAckTimeOut` -/

section
variable (c : Choice)

theorem handleCommitAckTimeOut_stale (hd : p.cackto.device ≠ p.psessions.first) :
    p.handleCommitAckTimeOut c = p := by
  rw [handleCommitAckTimeOut, if_pos hd]

theorem handleCommitAckTimeOut_creating (hd : p.cackto.device = p.psessions.first)
    (hs : p.status = .ATTESTING_CREATING) :
    p.handleCommitAckTimeOut c =
      { p with psessions := {}, status := .CREATING }.sendCommitReq c NOID := by
  rw [handleCommitAckTimeOut, if_neg (not_not.mpr hd)]
  exact if_pos hs

theorem handleCommitAckTimeOut_ready (hd : p.cackto.device = p.psessions.first)
    (hs : p.status ≠ .ATTESTING_CREATING) :
    p.handleCommitAckTimeOut c = { p with psessions := {}, status := .READY } := by
  rw [handleCommitAckTimeOut, if_neg (not_not.mpr hd)]
  exact if_neg hs

end

/-! ## The branches of the other handlers -/

section
variable (c : Choice)

theorem handleCommitRespTimeOut_last (h : p.csessions.keys.length = 1) :
    p.handleCommitRespTimeOut = p.closeWindow.sendUpReq p.crespTreeID :=
  if_pos h

theorem handleCommitRespTimeOut_open (h : p.csessions.keys.length ≠ 1) :
    p.handleCommitRespTimeOut = p.closeWindow :=
  if_neg h

/-- The state behind the removal of a child that did not report in time. -/
def timedOut (u : CommitTimeOut) (p : Prover) : Prover :=
  (p.record (.upTimeOut u.device)).dropSession u.device

theorem handleUpdateTimeOut_last {u : CommitTimeOut}
    (h : (p.csessions.erase u.device).keys.length = 1) :
    p.handleUpdateTimeOut u = { p.timedOut u with status := .FINISHED }.sendUpReq u.treeID :=
  if_pos h

theorem handleUpdateTimeOut_more {u : CommitTimeOut}
    (h : (p.csessions.erase u.device).keys.length ≠ 1) :
    p.handleUpdateTimeOut u = p.timedOut u :=
  if_neg h

/-- The checks of `handleCommitReq`: the session it opens. -/
def Joins (m : CommitReq) (sess : Session) (p : Prover) : Prop :=
  p.status = .READY ∧ ∃ kid, m.kid.find? (· ∈ p.cfg.KeyRing) = some kid ∧
    sess = ⟨m.treeID, m.source, kid, m.depth, false, none⟩

theorem handleCommitReq_cases (m : CommitReq) :
    p.handleCommitReq m = p ∨ ∃ sess, p.Joins m sess ∧
      p.handleCommitReq m =
        { p with psessions := ⟨m.source, some sess⟩ }.sendCommitResp m.source m.treeID sess := by
  unfold handleCommitReq
  split
  · exact .inl rfl
  · next hs =>
    split
    · exact .inl rfl
    · next kid hk => exact .inr ⟨_, ⟨not_not.mp hs, kid, hk, rfl⟩, rfl⟩

/-- The checks of `handleCommitAck`; `parent` is `psessions.second`. -/
structure Acked (m : CommitAck) (parent : Session) (p : Prover) : Prop where
  source : p.psessions.first = m.source
  destination : m.destination = p.cfg.UId
  second : p.psessions.second = some parent
  key : parent.keyID ∈ p.cfg.KeyRing
  mac : p.cfg.checkMAC (.commitAck m) parent.keyID = true

/-- The test of `handleCommitAck` for a leaf. -/
def Leaf (parent : Session) (p : Prover) : Prop := parent.depth = 1 ∨ p.maxchildren = 0

instance (parent : Session) (p : Prover) : Decidable (p.Leaf parent) :=
  inferInstanceAs (Decidable (_ ∨ _))

inductive AckCase (m : CommitAck) (p : Prover) : Prover → Prop
  | ignored : AckCase m p p
  | unverified : AckCase m p (p.queueMacDelay (.commitAck m))
  | null (hsrc : p.psessions.first = m.source) (h : p.psessions.second = none) :
      AckCase m p (p.fail .nullSession)
  | leaf {parent : Session} (h : p.Acked m parent) (hl : p.Leaf parent) :
      AckCase m p ({ (p.queueMacDelay (.commitAck m)).validateParent parent with
        status := .FINISHED }.sendUpReq m.treeID)
  | inner {parent : Session} (h : p.Acked m parent) (hl : ¬ p.Leaf parent) :
      AckCase m p ({ (p.queueMacDelay (.commitAck m)).validateParent parent with
        status := .CREATING }.sendCommitReq c m.treeID)

theorem handleCommitAck_cases (m : CommitAck) : AckCase c m p (p.handleCommitAck c m) := by
  unfold handleCommitAck
  split
  · exact .ignored
  next hsrc =>
  split
  · exact .ignored
  next hdest =>
  split
  · next hnone => exact .null (not_not.mp hsrc) hnone
  next parent hsome =>
  split
  · exact .ignored
  next hkey =>
  dsimp only
  split
  · exact .unverified
  next hmac =>
  have h : p.Acked m parent :=
    ⟨not_not.mp hsrc, not_not.mp hdest, hsome, not_not.mp hkey, not_not.mp hmac⟩
  split
  · next hl => exact .leaf h hl
  · next hl => exact .inner h hl

/-- The checks of `handleCommitResp`. -/
structure Answers (m : CommitResp) (p : Prover) : Prop where
  status : p.status = .CREATING
  free : subSize p.csessions.keys.length 1 < p.maxchildren
  destination : m.destination = p.cfg.UId
  new : m.source ∉ p.csessions
  key : m.kid ∈ p.cfg.KeyRing
  mac : p.cfg.checkMAC (.commitResp m) m.kid = true

/-- The session that `handleCommitResp` opens, before `sendCommitAck` sets its timer. -/
def childSession (m : CommitResp) : Session := ⟨m.treeID, m.source, m.kid, 0, true, none⟩

/-- The state in which `handleCommitResp` calls `sendCommitAck`. -/
def admitChild (m : CommitResp) (p : Prover) : Prover :=
  let p := p.queueMacDelay (.commitResp m)
  { p with csessions := p.csessions.insert m.source (childSession m) }

inductive RespCase (m : CommitResp) (p : Prover) : Prover → Prop
  | ignored : RespCase m p p
  | unverified : RespCase m p (p.queueMacDelay (.commitResp m))
  | null (h : p.Answers m) (hp : p.psessions.second = none) {p' : Prover}
      (hf : p'.fault = some .nullSession) (hl : p'.log = p.log)
      (he : p' = (p.admitChild m).sendCommitAck m.source m.treeID (childSession m)) :
      RespCase m p p'
  | more {parent : Session} (h : p.Answers m) (hp : p.psessions.second = some parent)
      {p' : Prover} (he : p' = (p.admitChild m).sendCommitAck m.source m.treeID (childSession m))
      (hlen : p'.csessions.keys.length ≠ p.maxchildren + 1) : RespCase m p p'
  | full {parent : Session} (h : p.Answers m) (hp : p.psessions.second = some parent)
      {p' : Prover} (he : p' = (p.admitChild m).sendCommitAck m.source m.treeID (childSession m))
      (hlen : p'.csessions.keys.length = p.maxchildren + 1) :
      RespCase m p (p'.closeWindow.cancelEvent .cresptomsg)

theorem handleCommitResp_cases (hf : p.fault = none) (m : CommitResp) :
    RespCase m p (p.handleCommitResp m) := by
  unfold handleCommitResp
  split
  · exact .ignored
  next hs =>
  split
  · exact .ignored
  next hfree =>
  split
  · exact .ignored
  next hdest =>
  split
  · exact .ignored
  next hnew =>
  split
  · exact .ignored
  next hkey =>
  dsimp only
  split
  · exact .unverified
  next hmac =>
  have h : p.Answers m :=
    ⟨not_not.mp hs, Nat.not_le.mp hfree, not_not.mp hdest, hnew, not_not.mp hkey, not_not.mp hmac⟩
  cases hp : p.psessions.second with
  | none =>
    have hfail := sendCommitAck_of_none (p := p.admitChild m) m.treeID m.source
      (childSession m) hp
    have hstop := andThen_of_fault (p := (p.admitChild m).sendCommitAck m.source m.treeID
      (childSession m)) (f := fun p =>
        if p.csessions.keys.length = p.maxchildren + 1 then p.closeWindow.cancelEvent .cresptomsg
        else p) (by rw [hfail.1]; exact Option.some_ne_none _)
    rw [← hstop] at hfail
    exact .null h hp hfail.1 hfail.2 hstop
  | some parent =>
    have hack : ((p.admitChild m).sendCommitAck m.source m.treeID (childSession m)).fault = none := by
      rw [sendCommitAck_of_some (p := p.admitChild m) m.treeID m.source _ hp]
      exact hf
    have hmax : ((p.admitChild m).sendCommitAck m.source m.treeID (childSession m)).maxchildren =
        p.maxchildren := by
      rw [sendCommitAck_of_some (p := p.admitChild m) m.treeID m.source _ hp]
      rfl
    have hthen := andThen_of_none (p := (p.admitChild m).sendCommitAck m.source m.treeID
      (childSession m)) (f := fun p =>
        if p.csessions.keys.length = p.maxchildren + 1 then p.closeWindow.cancelEvent .cresptomsg
        else p) hack
    have hcase : RespCase m p (((p.admitChild m).sendCommitAck m.source m.treeID
        (childSession m)).andThen fun p =>
          if p.csessions.keys.length = p.maxchildren + 1 then p.closeWindow.cancelEvent .cresptomsg
          else p) := by
      rw [hthen, hmax]
      split
      · next hlen => exact .full h hp rfl hlen
      · next hlen => exact .more h hp rfl hlen
    exact hcase

/-- The checks of `handleUpReq`; `child` is the session of the sender. -/
structure Merges (m : UpdateReq) (child parent : Session) (p : Prover) : Prop where
  kind : m.kind ≠ .UPRQF
  destination : m.destination = p.cfg.UId
  status : p.status = .COLLECTING ∨ p.status = .CREATING
  sender : p.csessions.lookup m.source = some child
  second : p.psessions.second = some parent
  treeID : m.treeID = parent.treeID
  mac : p.cfg.checkMAC (.updateReq m) child.keyID = true
  arrays : m.report1.length ≤ m.report2.length

/-- The state behind the merge of a child's report. -/
def merged (m : UpdateReq) (child : Session) (p : Prover) : Prover :=
  ((p.record (.upReq m.source)).queueMacDelay (.updateReq m)).mergeChild m child

inductive UpCase (m : UpdateReq) (p : Prover) : Prover → Prop
  | forward (h : m.kind = .UPRQF) : UpCase m p ((p.record (.upReq m.source)).sendCollector m)
  | redirect (h : m.kind ≠ .UPRQF) (hd : m.destination = p.cfg.UId) (hs : p.status = .FINISHED) :
      UpCase m p ((p.record (.upReq m.source)).sendCollector
        { m with kind := .UPRQF, destination := baseID })
  | ignored (hk : m.kind ≠ .UPRQF) (hs : m.destination = p.cfg.UId → p.status ≠ .FINISHED)
      (hno : ∀ child parent, ¬ p.Merges m child parent) :
      UpCase m p (p.record (.upReq m.source))
  | unverified (hk : m.kind ≠ .UPRQF) (hs : p.status = .COLLECTING ∨ p.status = .CREATING)
      (hno : ∀ child parent, ¬ p.Merges m child parent) :
      UpCase m p ((p.record (.upReq m.source)).queueMacDelay (.updateReq m))
  | null (hk : m.kind ≠ .UPRQF) (hs : p.status = .COLLECTING ∨ p.status = .CREATING)
      (hc : m.source ∈ p.csessions) (hp : p.psessions.second = none) :
      UpCase m p ((p.record (.upReq m.source)).fail .nullSession)
  | array (hs : p.status = .COLLECTING ∨ p.status = .CREATING)
      (hlen : m.report2.length < m.report1.length) (hk : m.kind ≠ .UPRQF) :
      UpCase m p (((p.record (.upReq m.source)).queueMacDelay (.updateReq m)).fail .arrayIndex)
  | last {child parent : Session} (h : p.Merges m child parent)
      (hlen : (p.csessions.erase m.source).keys.length = 1) :
      UpCase m p ((p.merged m child).sendUpReq m.treeID)
  | more {child parent : Session} (h : p.Merges m child parent)
      (hlen : (p.csessions.erase m.source).keys.length ≠ 1) : UpCase m p (p.merged m child)

theorem handleUpReq_cases (m : UpdateReq) : UpCase m p (p.handleUpReq m) := by
  unfold handleUpReq
  dsimp only
  split
  · next hk => exact .forward hk
  next hk =>
  split
  · next hd => exact .ignored hk (fun h => absurd h hd) fun _ _ h => hd h.destination
  next hd =>
  split
  · next hs => exact .redirect hk (not_not.mp hd) hs
  next hs =>
  split
  · next hno =>
    exact .ignored hk (fun _ => hs) fun _ _ h => h.status.elim hno.1 hno.2
  next hst =>
  have hstatus : p.status = .COLLECTING ∨ p.status = .CREATING := by
    by_contra hno
    exact hst ⟨fun h => hno (.inl h), fun h => hno (.inr h)⟩
  split
  · next hl =>
    refine .ignored hk (fun _ => hs) fun _ _ h => ?_
    have := h.sender.symm.trans hl
    cases this
  next child hchild =>
  split
  · next hp => exact .null hk hstatus (AList.lookup_isSome.mp (Option.isSome_of_eq_some hchild)) hp
  next parent hparent =>
  split
  · next htid =>
    refine .ignored hk (fun _ => hs) fun _ _ h => htid ?_
    cases h.second.symm.trans hparent
    exact h.treeID
  next htid =>
  split
  · next hmac =>
    refine .unverified hk hstatus fun _ _ h => hmac ?_
    cases h.sender.symm.trans hchild
    exact h.mac
  next hmac =>
  split
  · next hlen => exact .array hstatus hlen hk
  next hlen =>
  have h : p.Merges m child parent :=
    ⟨hk, not_not.mp hd, hstatus, hchild, hparent, not_not.mp htid, not_not.mp hmac,
      Nat.not_lt.mp hlen⟩
  split
  · next hlast => exact .last h hlast
  · next hmore => exact .more h hmore

theorem handleUpReq_of_merges {m : UpdateReq} {child parent : Session}
    (h : p.Merges m child parent) :
    p.handleUpReq m =
      if (p.csessions.erase m.source).keys.length = 1 then (p.merged m child).sendUpReq m.treeID
      else p.merged m child := by
  have hcase := handleUpReq_cases (p := p) m
  generalize p.handleUpReq m = p' at hcase ⊢
  cases hcase with
  | forward hk => exact absurd hk h.kind
  | redirect _ _ hs => rcases h.status with hst | hst <;> cases hst.symm.trans hs
  | ignored _ _ hno => exact absurd h (hno _ _)
  | unverified _ _ hno => exact absurd h (hno _ _)
  | null _ _ _ hp => cases h.second.symm.trans hp
  | array _ hlen => exact absurd h.arrays (Nat.not_le.mpr hlen)
  | last h' hlen =>
    cases h.sender.symm.trans h'.sender
    rw [if_pos hlen]
  | more h' hlen =>
    cases h.sender.symm.trans h'.sender
    rw [if_neg hlen]

end

/-- A message whose MAC delay is over is handed over. -/
theorem onSelf_eq (m : Msg) (c : Choice) : ∃ out, p.onSelf m c = { p with out := out } := by
  unfold onSelf
  split
  · split
    · split <;> exact ⟨_, rfl⟩
    · exact ⟨_, rfl⟩
    · exact ⟨_, rfl⟩
  · exact ⟨_, rfl⟩

/-! ## The state behind `startAttestation` -/

section
variable (c : Choice)

/-- `startAttestation`, whether or not a timer is still scheduled. -/
theorem startAttestation_shape : ∃ timers seq fault, p.startAttestation c =
    { p with
      status := .CHECKING
      csessions := ∅
      psessions := {}
      aggreport := { p.aggreport with uids := [], counters := [], proofs := [] }
      maxchildren := c.maxchildren
      timers := timers
      seq := seq
      fault := fault
      log := .start :: p.log } := by
  have hsched : ∀ (q : Prover) (t : Timer) (d : Nat), ∃ timers seq fault,
      q.andThen (·.scheduleAt t d) = { q with timers := timers, seq := seq, fault := fault } := by
    intro q t d
    unfold andThen
    split
    · exact ⟨_, _, _, rfl⟩
    · dsimp only [scheduleAt]
      split <;> exact ⟨_, _, _, rfl⟩
  have hattest : ∀ q : Prover, ∃ timers seq fault,
      q.scheduleAt .attesttimer p.cfg.deltah =
        { q with timers := timers, seq := seq, fault := fault } := by
    intro q
    unfold scheduleAt
    split <;> exact ⟨_, _, _, rfl⟩
  unfold startAttestation
  dsimp only
  obtain ⟨_, _, _, h1⟩ := hattest { p with
    status := .CHECKING
    csessions := ∅
    psessions := {}
    aggreport := { p.aggreport with uids := [], counters := [], proofs := [] }
    maxchildren := c.maxchildren
    log := .start :: p.log }
  rw [h1]
  obtain ⟨_, _, _, h2⟩ := hsched _ .checkdelaymsg (checkFirmwareDelay p.cfg.device)
  rw [h2]
  obtain ⟨_, _, _, h3⟩ := hsched _ .mktreetimer (checkFirmwareDelay p.cfg.device + c.delay)
  rw [h3]
  exact ⟨_, _, _, rfl⟩

@[simp] theorem startAttestation_log : (p.startAttestation c).log = .start :: p.log := by
  obtain ⟨_, _, _, h⟩ := startAttestation_shape (p := p) c
  rw [h]

theorem startAttestation_of_none (hf : p.fault = none) (ha : p.timers .attesttimer = none)
    (hc : p.timers .checkdelaymsg = none) (hm : p.timers .mktreetimer = none) :
    p.startAttestation c =
      { p with
        status := .CHECKING
        csessions := ∅
        psessions := {}
        aggreport := { p.aggreport with uids := [], counters := [], proofs := [] }
        maxchildren := c.maxchildren
        timers := Function.update (Function.update (Function.update p.timers
          .attesttimer (some ⟨p.now + p.cfg.deltah, p.seq⟩))
          .checkdelaymsg (some ⟨p.now + checkFirmwareDelay p.cfg.device, p.seq + 1⟩))
          .mktreetimer (some ⟨p.now + (checkFirmwareDelay p.cfg.device + c.delay), p.seq + 2⟩)
        seq := p.seq + 3
        log := .start :: p.log } := by
  simp [startAttestation, scheduleAt, andThen, ha, hc, hm, hf]

/-- Where a timer is still scheduled, `startAttestation` ends the simulation. -/
theorem timers_of_startAttestation (hf : p.fault = none)
    (h : (p.startAttestation c).fault = none) :
    p.timers .attesttimer = none ∧ p.timers .checkdelaymsg = none ∧
      p.timers .mktreetimer = none := by
  cases ha : p.timers .attesttimer <;> cases hc : p.timers .checkdelaymsg <;>
    cases hm : p.timers .mktreetimer <;>
    simp [startAttestation, scheduleAt, andThen, fail, ha, hc, hm, hf] at h ⊢

end

/-! ## The log only grows -/

section
variable (c : Choice) (tid : TreeId)

theorem suffix_of_log {q : Prover} (h : q.log = p.log) : p.log <:+ q.log := h ▸ List.suffix_refl _

theorem suffix_of_eq {q r : Prover} (h : q = r) (hl : r.log = p.log) : p.log <:+ q.log :=
  suffix_of_log (h ▸ hl)

theorem log_broadcast (depth : Nat) (hf : p.fault = none) :
    p.log <:+ (p.broadcastCommitReq depth tid).log := by
  cases h : p.timers .creqmsg with
  | some s =>
    exact suffix_of_log (broadcast_of_some tid depth h).2
  | none =>
    rw [broadcast_of_none tid depth hf h]
    exact List.suffix_cons _ _

theorem log_sendCommitReq (hf : p.fault = none) : p.log <:+ (p.sendCommitReq c tid).log := by
  by_cases hs : p.status = .ATTESTING
  · exact suffix_of_eq (sendCommitReq_attesting tid c hs) rfl
  have hroot : p.log <:+ (p.startTree c.treeID).log := List.suffix_cons _ _
  by_cases hm : p.maxchildren = 0
  · rw [sendCommitReq_leaf tid c hs hm, sendUpReq_log]
    exact hroot.trans (List.suffix_cons _ _)
  by_cases hfirst : p.psessions.first = NOID
  · rw [sendCommitReq_root tid c hs hm hfirst]
    exact hroot.trans (log_broadcast _ _ hf)
  cases hp : p.psessions.second with
  | none => exact suffix_of_eq (sendCommitReq_null tid c hs hm hfirst hp) rfl
  | some parent =>
    rw [sendCommitReq_inner tid c hs hm hfirst hp]
    have hsub : p.log <:+ (p.record (.depthSub parent.depth)).log := List.suffix_cons _ _
    exact hsub.trans (log_broadcast _ _ hf)

theorem log_onTimer (t : Timer) (hf : p.fault = none) : p.log <:+ (p.onTimer t c).log := by
  cases t with
  | startmsg => exact startAttestation_log (p := p) c ▸ List.suffix_cons _ _
  | attesttimer => exact startAttestation_log (p := p) c ▸ List.suffix_cons _ _
  | checkdelaymsg => exact List.suffix_refl _
  | mktreetimer => exact log_sendCommitReq c _ hf
  | creqmsg => exact List.suffix_refl _
  | cacktomsg =>
    change p.log <:+ (p.handleCommitAckTimeOut c).log
    by_cases hd : p.cackto.device = p.psessions.first
    · by_cases hs : p.status = .ATTESTING_CREATING
      · rw [handleCommitAckTimeOut_creating c hd hs]
        exact log_sendCommitReq (p := { p with psessions := {}, status := .CREATING }) c _ hf
      · exact suffix_of_eq (handleCommitAckTimeOut_ready c hd hs) rfl
    · exact suffix_of_eq (handleCommitAckTimeOut_stale c hd) rfl
  | cresptomsg =>
    change p.log <:+ p.handleCommitRespTimeOut.log
    by_cases hl : p.csessions.keys.length = 1
    · rw [handleCommitRespTimeOut_last hl, sendUpReq_log]
      exact (List.suffix_cons Mark.respClosed p.log).trans (List.suffix_cons _ _)
    · rw [handleCommitRespTimeOut_open hl]
      exact List.suffix_cons _ _

theorem log_handleUpdateTimeOut (u : CommitTimeOut) : p.log <:+ (p.handleUpdateTimeOut u).log := by
  unfold handleUpdateTimeOut
  dsimp only
  split
  · rw [sendUpReq_log]
    exact (List.suffix_cons (Mark.upTimeOut u.device) p.log).trans (List.suffix_cons _ _)
  · exact List.suffix_cons _ _

theorem log_onRecv (m : Msg) (hf : p.fault = none) : p.log <:+ (p.onRecv m c).log := by
  cases m with
  | commitReq m =>
    change p.log <:+ (p.handleCommitReq m).log
    rcases handleCommitReq_cases (p := p) m with he | ⟨sess, -, he⟩
    · exact suffix_of_eq he rfl
    · rw [he]
      cases h : p.timers .cacktomsg with
      | some s =>
        exact suffix_of_log
          (sendCommitResp_of_some (p := { p with psessions := ⟨m.source, some sess⟩ }) _ _ _ h).2
      | none =>
        exact suffix_of_eq
          (sendCommitResp_of_none (p := { p with psessions := ⟨m.source, some sess⟩ }) _ _ _ h) rfl
  | commitResp m =>
    change p.log <:+ (p.handleCommitResp m).log
    have hack : ∀ {parent}, p.psessions.second = some parent →
        p.log <:+ ((p.admitChild m).sendCommitAck m.source m.treeID (childSession m)).log := by
      intro parent hp
      rw [sendCommitAck_of_some (p := p.admitChild m) m.treeID m.source _ hp]
      exact (List.suffix_cons _ _).trans (List.suffix_cons _ _)
    have hcase := handleCommitResp_cases hf m
    generalize p.handleCommitResp m = p' at hcase ⊢
    cases hcase with
    | ignored => exact List.suffix_refl _
    | unverified => exact List.suffix_refl _
    | null _ _ _ hl => exact suffix_of_log hl
    | more _ hp he => rw [he]; exact hack hp
    | full _ hp he => rw [he]; exact (hack hp).trans (List.suffix_cons Mark.respClosed _)
  | commitAck m =>
    change p.log <:+ (p.handleCommitAck c m).log
    have hcase := handleCommitAck_cases (p := p) c m
    generalize p.handleCommitAck c m = p' at hcase ⊢
    cases hcase with
    | ignored => exact List.suffix_refl _
    | unverified => exact List.suffix_refl _
    | null => exact List.suffix_refl _
    | leaf => rw [sendUpReq_log]; exact List.suffix_cons _ _
    | @inner parent =>
      exact log_sendCommitReq (p := { (p.queueMacDelay (.commitAck m)).validateParent parent with
        status := .CREATING }) c _ hf
  | updateReq m =>
    change p.log <:+ (p.handleUpReq m).log
    have hrec : p.log <:+ (p.record (.upReq m.source)).log := List.suffix_cons _ _
    have hcase := handleUpReq_cases (p := p) m
    generalize p.handleUpReq m = p' at hcase ⊢
    cases hcase with
    | forward => exact hrec.trans (List.suffix_cons _ _)
    | redirect => exact hrec.trans (List.suffix_cons _ _)
    | ignored => exact hrec
    | unverified => exact hrec
    | null => exact hrec
    | array => exact hrec
    | last =>
      rw [sendUpReq_log]
      exact (hrec.trans (List.suffix_cons _ _)).trans (List.suffix_cons _ _)
    | more => exact hrec.trans (List.suffix_cons _ _)

end

/-! ## Kinds of events -/

def StartsAttestation : Act → Prop
  | .timer .startmsg _ => True
  | .timer .attesttimer _ => True
  | _ => False

instance : DecidablePred StartsAttestation
  | .timer .startmsg _ => .isTrue trivial
  | .timer .attesttimer _ => .isTrue trivial
  | .timer .checkdelaymsg _ => .isFalse id
  | .timer .mktreetimer _ => .isFalse id
  | .timer .creqmsg _ => .isFalse id
  | .timer .cacktomsg _ => .isFalse id
  | .timer .cresptomsg _ => .isFalse id
  | .upto _ => .isFalse id
  | .self _ _ => .isFalse id
  | .recv _ _ => .isFalse id
  | .crash => .isFalse id

/-- Messages come from provers. -/
def RealSource : Act → Prop
  | .recv m _ => m.source ≠ NOID
  | _ => True

instance : DecidablePred RealSource
  | .recv m _ => inferInstanceAs (Decidable (m.source ≠ NOID))
  | .timer _ _ => .isTrue trivial
  | .upto _ => .isTrue trivial
  | .self _ _ => .isTrue trivial
  | .crash => .isTrue trivial

/-! ## Inversion of a step -/

/-- At most some of what is scheduled is taken from the event queue. -/
def Pops (p : Prover) (timers : Timer → Option Stamp) (uptos : List (Stamp × CommitTimeOut))
    (outbox : List (Stamp × Msg)) : Prop :=
  (∀ t, timers t = none ∨ timers t = p.timers t) ∧ uptos.Sublist p.uptos ∧ outbox.Sublist p.outbox

/-- A crashed prover only loses what it had scheduled. -/
def Dropped (p p' : Prover) : Prop :=
  ∃ now timers uptos outbox, p.Pops timers uptos outbox ∧
    p' = { p with now := now, timers := timers, uptos := uptos, outbox := outbox, crashed := true }

/-- How an event `e` leads a prover that lives from `p` to the last argument. -/
inductive Live (p : Prover) (e : Event) : Prover → Prop
  | timer {t : Timer} {c : Choice} {s : Stamp} (hact : e.act = .timer t c)
      (htimer : p.timers t = some s) (hnext : p.Next s e.time) (hdelay : c.delay ≤ p.cfg.deltag) :
      Live p e (((p.atTime e.time).cancelEvent t).onTimer t c)
  | upto {k : Nat} {u : Stamp × CommitTimeOut} (hact : e.act = .upto k)
      (hupto : p.uptos.find? (·.1.seq = k) = some u) (hnext : p.Next u.1 e.time) :
      Live p e (((p.atTime e.time).popUpto k).handleUpdateTimeOut u.2)
  | self {k : Nat} {c : Choice} {o : Stamp × Msg} (hact : e.act = .self k c)
      (hout : p.outbox.find? (·.1.seq = k) = some o) (hnext : p.Next o.1 e.time) :
      Live p e (((p.atTime e.time).popOutbox k).onSelf o.2 c)
  | recv {m : Msg} {c : Choice} (hact : e.act = .recv m c) (hnone : p.NoneBefore e.time) :
      Live p e ((p.atTime e.time).onRecv m c)

theorem handleMessage_of_alive {f : Prover → Prover} (h : p.crashed = false) :
    p.handleMessage f = f p := by
  simp [handleMessage, h]

theorem handleMessage_of_crashed {f : Prover → Prover} (h : p.crashed = true) :
    p.handleMessage f = p := by
  simp [handleMessage, h]

/-- **What an event does.** -/
theorem step_cases {e : Event} (h : step e p = some p') :
    p.fault = none ∧ p.now ≤ e.time ∧
      ((p.crashed = true ∨ e.act = .crash) ∧ p.Dropped p' ∨ p.crashed = false ∧ p.Live e p') := by
  rw [step] at h
  split at h
  · cases h
  next hguard =>
  rw [not_or, Option.not_isSome_iff_eq_none, Nat.not_lt] at hguard
  refine ⟨hguard.1, hguard.2, ?_⟩
  -- `q` is the state in which the handler `f` of the event is called
  have hmsg : ∀ (q : Prover) (f : Prover → Prover), q.crashed = p.crashed →
      (∃ now timers uptos outbox, p.Pops timers uptos outbox ∧
        q = { p with now := now, timers := timers, uptos := uptos, outbox := outbox }) →
      (p.crashed = false → p.Live e (f q)) →
      (p.crashed = true ∨ e.act = .crash) ∧ p.Dropped (q.handleMessage f) ∨
        p.crashed = false ∧ p.Live e (q.handleMessage f) := by
    intro q f hq hpop hlive
    cases hc : p.crashed with
    | false => exact .inr ⟨rfl, by rw [handleMessage_of_alive (hq.trans hc)]; exact hlive hc⟩
    | true =>
      rw [handleMessage_of_crashed (hq.trans hc)]
      obtain ⟨now, timers, uptos, outbox, hpop, rfl⟩ := hpop
      exact .inl ⟨.inl rfl, now, timers, uptos, outbox, hpop, by rw [← hc]⟩
  have hall : p.Pops p.timers p.uptos p.outbox :=
    ⟨fun _ => .inr rfl, List.Sublist.refl _, List.Sublist.refl _⟩
  obtain ⟨time, act⟩ := e
  dsimp only at h
  cases act with
  | timer t c =>
    dsimp only at h
    split at h
    next s hs =>
      split at h
      next hn =>
        cases h
        refine hmsg _ _ rfl ⟨_, _, _, _, ⟨fun t' => ?_, hall.2⟩, rfl⟩ fun _ =>
          .timer rfl hs hn.1 hn.2
        rw [Function.update_apply]
        split
        · exact .inl rfl
        · exact .inr rfl
      · cases h
    · cases h
  | upto k =>
    dsimp only at h
    split at h
    next u hu =>
      split at h
      next hn =>
        cases h
        exact hmsg _ _ rfl ⟨_, _, _, _, ⟨hall.1, List.filter_sublist, hall.2.2⟩, rfl⟩ fun _ =>
          .upto rfl hu hn
      · cases h
    · cases h
  | self k c =>
    dsimp only at h
    split at h
    next o ho =>
      split at h
      next hn =>
        cases h
        exact hmsg _ _ rfl ⟨_, _, _, _, ⟨hall.1, hall.2.1, List.filter_sublist⟩, rfl⟩ fun _ =>
          .self rfl ho hn
      · cases h
    · cases h
  | recv m c =>
    dsimp only at h
    split at h
    next hn => cases h; exact hmsg _ _ rfl ⟨_, _, _, _, hall, rfl⟩ fun _ => .recv rfl hn
    · cases h
  | crash =>
    dsimp only at h
    split at h
    · cases h; exact .inl ⟨.inr rfl, time, p.timers, p.uptos, p.outbox, hall, rfl⟩
    · cases h

/-- The invariant of a prover that lives. -/
def Alive (P : Prover → Prop) (p : Prover) : Prop := p.fault = none → p.crashed = false → P p

theorem step_alive {e : Event} {p p' : Prover} (hs : step e p = some p')
    (hc : p'.crashed = false) : p.fault = none ∧ p.crashed = false := by
  obtain ⟨hf, -, ⟨-, _, _, _, _, -, rfl⟩ | ⟨hcr, -⟩⟩ := step_cases hs
  · cases hc
  · exact ⟨hf, hcr⟩

theorem Next.not_before {s s' : Stamp} {time : Nat} {t : Timer} (h : p.Next s time)
    (ht : p.timers t = some s') : ¬ s'.Before s :=
  h.2 s' (mem_pending_timer ht)

end Prover

end Fadia
