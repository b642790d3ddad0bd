import Fadia.Proof.ReportFlow

/-!
# The children of a prover and what its log says about them

A child is a session of `csessions` that is not the window's own entry.  An event
leaves the children and the marks about them alone, starts a new round, opens one
session, or closes one (`children_of_live`).
-/

namespace Fadia

open Traces

/-- The marks that start a round, open the session of a child or close it with a report. -/
def childMark : Mark → Bool
  | .start | .ack _ | .merge _ => true
  | _ => false

namespace Prover

/-- A session that is not the window's entry. -/
def Child (p : Prover) (c : Uid) : Prop := c ≠ NOID ∧ c ∈ p.csessions

def childLog (p : Prover) : List Mark := p.log.filter childMark

/-- The children and the marks about them are left alone. -/
structure SameChildren (p q : Prover) : Prop where
  log : q.childLog = p.childLog
  child : ∀ c, q.Child c ↔ p.Child c

/-- What an event does to the children. -/
inductive ChildStep (e : Event) (p q : Prover) : Prop
  | same (h : SameChildren p q)
  | halt (hf : q.fault ≠ none) (hl : q.childLog = p.childLog)
  | restart (hs : StartsAttestation e.act) (hl : q.childLog = .start :: p.childLog)
      (hc : ∀ c, ¬ q.Child c)
  | accept {m : CommitResp} {c : Choice} (he : e.act = .recv (.commitResp m) c) (hm : p.Answers m)
      (hl : q.childLog = .ack m.source :: p.childLog)
      (hc : ∀ k, q.Child k ↔ k ≠ NOID ∧ (k = m.source ∨ p.Child k))
  | merge {m : UpdateReq} {c : Choice} {child parent : Session} (he : e.act = .recv (.updateReq m) c)
      (hm : p.Merges m child parent) (hl : q.childLog = .merge m.source :: p.childLog)
      (hlog : .upReq m.source ∈ q.log) (hc : ∀ k, q.Child k ↔ k ≠ m.source ∧ p.Child k)
  | timeOut {k : Nat} {u : Stamp × CommitTimeOut} (hu : p.uptos.find? (·.1.seq = k) = some u)
      (hl : q.childLog = p.childLog) (hlog : .upTimeOut u.2.device ∈ q.log)
      (hc : ∀ k, q.Child k ↔ k ≠ u.2.device ∧ p.Child k)

section
variable {p q r : Prover}

theorem SameChildren.refl (p : Prover) : SameChildren p p := ⟨rfl, fun _ => Iff.rfl⟩

theorem SameChildren.trans (h : SameChildren p q) (h' : SameChildren q r) : SameChildren p r :=
  ⟨h'.log.trans h.log, fun c => (h'.child c).trans (h.child c)⟩

/-- A log that grew by `marks`, the sessions unchanged. -/
theorem sameChildren_of (marks : List Mark) (hl : q.log = marks ++ p.log)
    (hm : ∀ y ∈ marks, childMark y = false) (hc : q.csessions = p.csessions) :
    SameChildren p q := by
  refine ⟨?_, fun c => by rw [Child, Child, hc]⟩
  rw [childLog, hl, List.filter_append, List.filter_eq_nil_iff.mpr fun y hy => by simp [hm y hy]]
  rfl

theorem child_of_erase {c : Uid} (hc : q.csessions = p.csessions.erase c) (k : Uid) :
    q.Child k ↔ k ≠ c ∧ p.Child k := by
  rw [Child, Child, hc, AList.mem_erase]
  exact and_left_comm

theorem sameChildren_sendUpReq (tid : TreeId) : SameChildren p (p.sendUpReq tid) := by
  cases hs : p.psessions.second with
  | none =>
    refine sameChildren_of [.sendUpReq] (sendUpReq_log tid) (by simp [childMark]) ?_
    simp [sendUpReq, hs, fail]
  | some parent =>
    rw [sendUpReq_of_some tid hs]
    refine ⟨by simp [childLog, childMark], fun c => (child_of_erase rfl c).trans ?_⟩
    exact and_iff_right_of_imp And.left

theorem sameChildren_broadcast (depth : Nat) (tid : TreeId) (hf : p.fault = none) :
    SameChildren p (p.broadcastCommitReq depth tid) := by
  cases h : p.timers .creqmsg with
  | some s =>
    refine sameChildren_of [] (broadcast_of_some tid depth h).2 (by simp) ?_
    simp [broadcastCommitReq, scheduleAt, h, andThen, fail]
  | none =>
    rw [broadcast_of_none tid depth hf h]
    refine ⟨by simp [childLog, childMark], fun c => ?_⟩
    have hne : c ≠ NOID → (c = NOID ∨ c ∈ p.csessions ↔ c ∈ p.csessions) := fun hne =>
      or_iff_right hne
    exact and_congr_right fun hc => (AList.mem_insert _).trans (hne hc)

theorem sameChildren_sendCommitReq (c : Choice) (tid : TreeId) (hf : p.fault = none) :
    SameChildren p (p.sendCommitReq c tid) := by
  have hroot : SameChildren p (p.startTree c.treeID) :=
    sameChildren_of [.root] rfl (by simp [childMark]) rfl
  by_cases hs : p.status = .ATTESTING
  · rw [sendCommitReq_attesting tid c hs]
    exact sameChildren_of [] rfl (by simp) rfl
  by_cases hm : p.maxchildren = 0
  · rw [sendCommitReq_leaf tid c hs hm]
    exact hroot.trans (sameChildren_sendUpReq _)
  by_cases hfirst : p.psessions.first = NOID
  · rw [sendCommitReq_root tid c hs hm hfirst]
    exact hroot.trans (sameChildren_broadcast _ _ hf)
  cases hp : p.psessions.second with
  | none =>
    rw [sendCommitReq_null tid c hs hm hfirst hp]
    exact sameChildren_of [] rfl (by simp) rfl
  | some parent =>
    rw [sendCommitReq_inner tid c hs hm hfirst hp]
    have hsub : SameChildren p (p.record (.depthSub parent.depth)) :=
      sameChildren_of [.depthSub parent.depth] rfl (by simp [childMark]) rfl
    exact hsub.trans (sameChildren_broadcast _ _ hf)

theorem sameChildren_ackTimeOut (c : Choice) (hf : p.fault = none) :
    SameChildren p (p.handleCommitAckTimeOut c) := by
  by_cases hd : p.cackto.device = p.psessions.first
  · by_cases hs : p.status = .ATTESTING_CREATING
    · rw [handleCommitAckTimeOut_creating c hd hs]
      have hq : SameChildren p { p with psessions := {}, status := .CREATING } :=
        sameChildren_of [] rfl (by simp) rfl
      exact hq.trans (sameChildren_sendCommitReq c NOID hf)
    · rw [handleCommitAckTimeOut_ready c hd hs]
      exact sameChildren_of [] rfl (by simp) rfl
  · rw [handleCommitAckTimeOut_stale c hd]
    exact .refl p

theorem sameChildren_respTimeOut : SameChildren p p.handleCommitRespTimeOut := by
  have hq : SameChildren p p.closeWindow :=
    sameChildren_of [.respClosed] rfl (by simp [childMark]) rfl
  by_cases hl : p.csessions.keys.length = 1
  · rw [handleCommitRespTimeOut_last hl]
    exact hq.trans (sameChildren_sendUpReq _)
  · rw [handleCommitRespTimeOut_open hl]
    exact hq

theorem sameChildren_commitReq (m : CommitReq) : SameChildren p (p.handleCommitReq m) := by
  rcases handleCommitReq_cases (p := p) m with he | ⟨sess, -, he⟩
  · rw [he]
    exact .refl p
  · rw [he]
    unfold sendCommitResp scheduleAt
    dsimp only
    split <;> exact sameChildren_of [] rfl (by simp) rfl

theorem sameChildren_commitAck (c : Choice) (m : CommitAck) (hf : p.fault = none) :
    SameChildren p (p.handleCommitAck c m) := by
  have hcase := handleCommitAck_cases (p := p) c m
  generalize p.handleCommitAck c m = p' at hcase ⊢
  cases hcase with
  | ignored => exact .refl p
  | unverified => exact sameChildren_of [] rfl (by simp) rfl
  | null => exact sameChildren_of [] rfl (by simp) rfl
  | @leaf parent =>
    have hq : SameChildren p { (p.queueMacDelay (.commitAck m)).validateParent parent with
      status := .FINISHED } := sameChildren_of [] rfl (by simp) rfl
    exact hq.trans (sameChildren_sendUpReq _)
  | @inner parent =>
    have hq : SameChildren p { (p.queueMacDelay (.commitAck m)).validateParent parent with
      status := .CREATING } := sameChildren_of [] rfl (by simp) rfl
    exact hq.trans (sameChildren_sendCommitReq c m.treeID hf)

/-- `sendUpReq` behind the removal of a child. -/
theorem child_sendUpReq {c : Uid} (tid : TreeId) (hc : q.csessions = p.csessions.erase c) (k : Uid) :
    (q.sendUpReq tid).Child k ↔ k ≠ c ∧ p.Child k :=
  ((sameChildren_sendUpReq tid).child k).trans (child_of_erase hc k)

variable {e : Event}

theorem childStep_commitResp {m : CommitResp} {c : Choice} (he : e.act = .recv (.commitResp m) c)
    (hf : p.fault = none) : ChildStep e p (p.handleCommitResp m) := by
  have hack : ∀ {parent : Session} {p' : Prover}, p.Answers m →
      p.psessions.second = some parent →
      p' = (p.admitChild m).sendCommitAck m.source m.treeID (childSession m) →
      p'.childLog = .ack m.source :: p.childLog ∧
        ∀ k, p'.Child k ↔ k ≠ NOID ∧ (k = m.source ∨ p.Child k) := by
    intro parent p' h hp he
    rw [he, sendCommitAck_of_some (p := p.admitChild m) m.treeID m.source _ hp]
    refine ⟨rfl, fun k => ?_⟩
    rw [Child, Child]
    refine and_congr_right fun hne => (AList.mem_insert _).trans ?_
    rw [show (p.admitChild m).csessions = p.csessions.insert m.source (childSession m) from rfl,
      AList.mem_insert, ← or_assoc, or_self, and_iff_right hne]
  have hcase := handleCommitResp_cases hf m
  generalize p.handleCommitResp m = p' at hcase ⊢
  cases hcase with
  | ignored => exact .same (.refl p)
  | unverified => exact .same (sameChildren_of [] rfl (by simp) rfl)
  | null _ _ hfault hl =>
    exact .halt (by rw [hfault]; nofun) (congrArg (List.filter childMark) hl)
  | more h hp hp' =>
    obtain ⟨hl, hc⟩ := hack h hp hp'
    exact .accept he h hl hc
  | @full _ h hp p' hp' =>
    obtain ⟨hl, hc⟩ := hack h hp hp'
    have hclose : SameChildren p' (p'.closeWindow.cancelEvent .cresptomsg) :=
      sameChildren_of [.respClosed] rfl (by simp [childMark]) rfl
    exact .accept he h (hclose.log.trans hl) fun k => (hclose.child k).trans (hc k)

theorem childStep_upReq {m : UpdateReq} {c : Choice} (he : e.act = .recv (.updateReq m) c) :
    ChildStep e p (p.handleUpReq m) := by
  have hcase := handleUpReq_cases (p := p) m
  generalize p.handleUpReq m = p' at hcase ⊢
  cases hcase with
  | forward => exact .same (sameChildren_of [.redirect m.source, .upReq m.source] rfl
      (by simp [childMark]) rfl)
  | redirect => exact .same (sameChildren_of [.redirect m.source, .upReq m.source] rfl
      (by simp [childMark]) rfl)
  | ignored => exact .same (sameChildren_of [.upReq m.source] rfl (by simp [childMark]) rfl)
  | unverified => exact .same (sameChildren_of [.upReq m.source] rfl (by simp [childMark]) rfl)
  | null => exact .same (sameChildren_of [.upReq m.source] rfl (by simp [childMark]) rfl)
  | array => exact .same (sameChildren_of [.upReq m.source] rfl (by simp [childMark]) rfl)
  | last h =>
    refine .merge he h ?_ ?_ (child_sendUpReq m.treeID rfl)
    · exact (sameChildren_sendUpReq m.treeID).log
    · rw [sendUpReq_log]
      exact List.mem_cons_of_mem _ (List.mem_cons_of_mem _ List.mem_cons_self)
  | more h =>
    exact .merge he h rfl (List.mem_cons_of_mem _ List.mem_cons_self) (child_of_erase rfl)

/-- `handleMessage` of a timer. -/
theorem childStep_onTimer {t : Timer} {c : Choice} (he : e.act = .timer t c)
    (hf : p.fault = none) : ChildStep e p (p.onTimer t c) := by
  have hstart : StartsAttestation e.act → ChildStep e p (p.startAttestation c) := by
    intro hs
    refine .restart hs ?_ fun k => ?_
    · rw [childLog, startAttestation_log]
      rfl
    · obtain ⟨_, _, _, h⟩ := startAttestation_shape (p := p) c
      rw [h]
      exact fun hk => AList.notMem_empty k hk.2
  cases t with
  | startmsg => exact hstart (by rw [he]; trivial)
  | attesttimer => exact hstart (by rw [he]; trivial)
  | checkdelaymsg => exact .same (sameChildren_of [] rfl (by simp) rfl)
  | mktreetimer => exact .same (sameChildren_sendCommitReq c NOID hf)
  | creqmsg => exact .same (sameChildren_of [] rfl (by simp) rfl)
  | cacktomsg => exact .same (sameChildren_ackTimeOut c hf)
  | cresptomsg => exact .same sameChildren_respTimeOut

theorem childStep_onRecv {m : Msg} {c : Choice} (he : e.act = .recv m c) (hf : p.fault = none) :
    ChildStep e p (p.onRecv m c) := by
  cases m with
  | commitReq m => exact .same (sameChildren_commitReq m)
  | commitResp m => exact childStep_commitResp he hf
  | commitAck m => exact .same (sameChildren_commitAck c m hf)
  | updateReq m => exact childStep_upReq he

/-- **What an event does to the children** of a prover that lives. -/
theorem children_of_live (hf : p.fault = none) (h : p.Live e q) : ChildStep e p q := by
  cases h with
  | @timer t c s he =>
    have h := childStep_onTimer (p := (p.atTime e.time).cancelEvent t) he hf
    cases h with
    | same h => exact .same ⟨h.log, h.child⟩
    | halt hf hl => exact .halt hf hl
    | restart hs hl hc => exact .restart hs hl hc
    | accept he hm hl hc => exact .accept he { hm with } hl hc
    | merge he hm hl hlog hc => exact .merge he { hm with } hl hlog hc
    | timeOut hu hl hlog hc => exact .timeOut hu hl hlog hc
  | @upto k u _ hu =>
    by_cases hl : (p.csessions.erase u.2.device).keys.length = 1
    · rw [handleUpdateTimeOut_last (p := (p.atTime e.time).popUpto k) hl]
      refine .timeOut hu (sameChildren_sendUpReq _).log ?_ (child_sendUpReq _ rfl)
      rw [sendUpReq_log]
      exact List.mem_cons_of_mem _ List.mem_cons_self
    · rw [handleUpdateTimeOut_more (p := (p.atTime e.time).popUpto k) hl]
      exact .timeOut hu rfl List.mem_cons_self (child_of_erase rfl)
  | self =>
    obtain ⟨out, he⟩ := onSelf_eq (p := (p.atTime e.time).popOutbox _) _ _
    rw [he]
    exact .same (sameChildren_of [] rfl (by simp) rfl)
  | @recv m c he =>
    have h := childStep_onRecv (p := p.atTime e.time) he hf
    cases h with
    | same h => exact .same ⟨h.log, h.child⟩
    | halt hf hl => exact .halt hf hl
    | restart hs hl hc => exact .restart hs hl hc
    | accept he hm hl hc => exact .accept he { hm with } hl hc
    | merge he hm hl hlog hc => exact .merge he { hm with } hl hlog hc
    | timeOut hu hl hlog hc => exact .timeOut hu hl hlog hc

end

end Prover

end Fadia
