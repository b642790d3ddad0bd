import Fadia.Proof.Joins
import Fadia.Proof.NetworkTrees
import Mathlib

/-!
# Every prover takes one role

A prover becomes root where it starts a tree, and child where it accepts an ack.  `Chosen`
says what its status, its timers and its parent tell about the roles it has taken in a run
with one attestation, and `chosen_live` that an event keeps this and gives no second role, if
no ack reaches a prover that has broadcast already.
-/

namespace Fadia

/-- What a prover becomes in a round. -/
inductive Role
  | root
  | child (parent : Uid)
deriving DecidableEq, Repr

namespace Prover

/-- The roles that a prover takes in an event. -/
def takes (e : Event) (p p' : Prover) : List Role :=
  List.replicate (p'.log.count .root - p.log.count .root) .root ++
    (p.accepted e).map fun x => .child x.1

/-- The time at which the gather timer goes off or is cancelled. -/
def gathers (e : Event) (p p' : Prover) (g : Option Nat) : Option Nat :=
  if (p.timers .mktreetimer).isSome ∧ p'.timers .mktreetimer = none then some e.time else g

/-- In a tree, or done with it. -/
def Decided (p : Prover) : Prop :=
  p.status = .CREATING ∨ p.status = .COLLECTING ∨ p.status = .FINISHED

/-- The roles taken in the round and the time at which gathering ended, as far as the state
tells. -/
structure Chosen (roles : List Role) (g : Option Nat) (p : Prover) : Prop where
  fresh : .start ∉ p.log → roles = [] ∧ g = none
  undecided : ¬ p.Decided → roles = []
  decided : .start ∈ p.log → p.Decided → roles.length = 1
  child : .start ∈ p.log → p.Decided → p.psessions.first ≠ NOID → roles = [.child p.psessions.first]
  gather : (p.timers .mktreetimer).isSome → g = none
  wait : ∀ s, p.timers .cacktomsg = some s → s.due ≤ p.now + timeoutack
  late : p.status = .ATTESTING_CREATING → ∃ T, g = some T ∧
    ∀ s, p.timers .cacktomsg = some s → s.due ≤ T + timeoutack

/-- A handler that takes no role. -/
structure Stays (p p' : Prover) : Prop where
  root : p'.log.count .root = p.log.count .root
  start : .start ∈ p'.log ↔ .start ∈ p.log
  status : p'.status = p.status ∨ p.Decided ∧ p'.Decided
  first : p'.psessions.first = p.psessions.first ∨ p'.psessions.first = NOID
  mktree : p'.timers .mktreetimer = p.timers .mktreetimer
  cackto : ∀ s, p'.timers .cacktomsg = some s → p.timers .cacktomsg = some s
  now : p.now ≤ p'.now

section
variable {p p' q : Prover} {roles : List Role} {g : Option Nat}

theorem Stays.trans (h : Stays p q) (h' : Stays q p') : Stays p p' := by
  refine ⟨h'.root.trans h.root, h'.start.trans h.start, ?_, ?_, h'.mktree.trans h.mktree,
    fun s hs => h.cackto s (h'.cackto s hs), h.now.trans h'.now⟩
  · rcases h.status with he | ⟨hd, hd'⟩
    · rcases h'.status with he' | ⟨hq, hp'⟩
      · exact .inl (he'.trans he)
      · refine .inr ⟨?_, hp'⟩
        rwa [Decided, he] at hq
    · rcases h'.status with he' | ⟨-, hp'⟩
      · refine .inr ⟨hd, ?_⟩
        rwa [Decided, he']
      · exact .inr ⟨hd, hp'⟩
  · rcases h'.first with he | he
    · rw [he]
      exact h.first
    · exact .inr he

theorem Chosen.stays (h : Chosen roles g p) (hs : Stays p p') : Chosen roles g p' := by
  have hdec : p'.Decided ↔ p.Decided := by
    rcases hs.status with he | ⟨hd, hd'⟩
    · rw [Decided, he, Decided]
    · exact iff_of_true hd' hd
  refine ⟨fun hno => ?_, fun hno => ?_, fun hst hd => ?_, fun hst hd hfirst => ?_, fun hm => ?_,
    fun s hk => ?_, fun hat => ?_⟩
  · exact h.fresh fun hst => hno (hs.start.mpr hst)
  · exact h.undecided fun hd => hno (hdec.mpr hd)
  · exact h.decided (hs.start.mp hst) (hdec.mp hd)
  · have he := hs.first.resolve_right hfirst
    rw [he] at hfirst ⊢
    exact h.child (hs.start.mp hst) (hdec.mp hd) hfirst
  · rw [hs.mktree] at hm
    exact h.gather hm
  · exact (h.wait s (hs.cackto s hk)).trans (Nat.add_le_add_right hs.now _)
  · have hundec : ¬ p'.Decided := by
      rw [Decided, hat]
      simp
    obtain ⟨T, hT, hdue⟩ := h.late ((hs.status.resolve_right fun h => hundec h.2) ▸ hat)
    exact ⟨T, hT, fun s hk => hdue s (hs.cackto s hk)⟩

/-! ## Handlers that take no role -/

theorem stays_of_log (marks : List Mark) (hl : p'.log = marks ++ p.log)
    (hm : ∀ y ∈ marks, y ≠ .root ∧ y ≠ .start) (hs : p'.status = p.status ∨ p.Decided ∧ p'.Decided)
    (hfirst : p'.psessions.first = p.psessions.first ∨ p'.psessions.first = NOID)
    (ht : p'.timers = p.timers) (hn : p'.now = p.now) : Stays p p' := by
  refine ⟨?_, ?_, hs, hfirst, by rw [ht], fun s hk => ht ▸ hk, hn.ge⟩
  · rw [hl, List.count_append, List.count_eq_zero.mpr fun hy => (hm _ hy).1 rfl, Nat.zero_add]
  · rw [hl, List.mem_append, or_iff_right fun hy => (hm _ hy).2 rfl]

theorem stays_same (hl : p'.log = p.log) (hs : p'.status = p.status)
    (hp : p'.psessions = p.psessions) (ht : p'.timers = p.timers) (hn : p'.now = p.now) :
    Stays p p' :=
  stays_of_log [] hl (by simp) (.inl hs) (.inl (by rw [hp])) ht hn

theorem stays_cancelEvent {t : Timer} (h1 : t ≠ .mktreetimer) : Stays p (p.cancelEvent t) := by
  refine ⟨rfl, Iff.rfl, .inl rfl, .inl rfl, Function.update_of_ne h1.symm _ _, fun s hk => ?_,
    Nat.le_refl _⟩
  simp only [cancelEvent, Function.update_apply] at hk
  split at hk
  · cases hk
  · exact hk

theorem stays_sendUpReq (tid : TreeId) (hd : p.Decided) : Stays p (p.sendUpReq tid) := by
  have hlog : (p.sendUpReq tid).log = [.sendUpReq] ++ p.log := sendUpReq_log tid
  cases hs : p.psessions.second with
  | none =>
    refine stays_of_log _ hlog (by simp) (.inl ?_) (.inl ?_) ?_ ?_
    all_goals simp [sendUpReq, hs, fail]
  | some parent =>
    rw [sendUpReq_of_some tid hs] at hlog ⊢
    exact stays_of_log _ hlog (by simp) (.inr ⟨hd, .inr (.inr rfl)⟩) (.inr rfl) rfl rfl

theorem stays_respTimeOut (hd : p.Decided) : Stays p p.handleCommitRespTimeOut := by
  have hclosed : Stays p p.closeWindow :=
    stays_of_log [.respClosed] rfl (by simp) (.inr ⟨hd, .inr (.inl rfl)⟩) (.inl rfl) rfl
      rfl
  by_cases hl : p.csessions.keys.length = 1
  · rw [handleCommitRespTimeOut_last hl]
    exact hclosed.trans (stays_sendUpReq _ (.inr (.inl rfl)))
  · rw [handleCommitRespTimeOut_open hl]
    exact hclosed

theorem stays_updateTimeOut (u : CommitTimeOut) (hd : p.Decided) :
    Stays p (p.handleUpdateTimeOut u) := by
  by_cases hlen : (p.csessions.erase u.device).keys.length = 1
  · rw [handleUpdateTimeOut_last hlen]
    have hdone : Stays p { p.timedOut u with status := .FINISHED } :=
      stays_of_log [.upTimeOut u.device] rfl (by simp) (.inr ⟨hd, .inr (.inr rfl)⟩)
        (.inl rfl) rfl rfl
    exact hdone.trans (stays_sendUpReq _ (.inr (.inr rfl)))
  · rw [handleUpdateTimeOut_more hlen]
    exact stays_of_log [.upTimeOut u.device] rfl (by simp) (.inl rfl) (.inl rfl) rfl rfl

theorem stays_commitResp (m : CommitResp) (hf : p.fault = none) : Stays p (p.handleCommitResp m) := by
  have hack : ∀ {parent}, p.psessions.second = some parent →
      Stays p ((p.admitChild m).sendCommitAck m.source m.treeID (childSession m)) := by
    intro parent hp
    rw [sendCommitAck_of_some (p := p.admitChild m) m.treeID m.source _ hp]
    exact stays_of_log [.ack m.source, .depthSub parent.depth] rfl (by simp) (.inl rfl)
      (.inl rfl) rfl rfl
  have hcase := handleCommitResp_cases hf m
  generalize p.handleCommitResp m = p' at hcase ⊢
  cases hcase with
  | ignored => exact stays_same rfl rfl rfl rfl rfl
  | unverified => exact stays_same rfl rfl rfl rfl rfl
  | null _ hp _ _ he =>
    have hstop : (p.admitChild m).sendCommitAck m.source m.treeID (childSession m) =
        ((p.admitChild m).prepare (.commitAck (p.ackMsg m.source m.treeID
          (childSession m)))).fail .nullSession := by
      unfold sendCommitAck
      simp [prepare, admitChild, queueMacDelay, hp, ackMsg]
    rw [he, hstop]
    exact stays_same rfl rfl rfl rfl rfl
  | more _ hp he =>
    rw [he]
    exact hack hp
  | @full parent hans hp q he =>
    have hq := hack hp
    rw [← he] at hq
    have hdec : q.Decided := by
      rcases hq.status with hst | ⟨-, hd⟩
      · rw [Decided, hst, hans.status]
        exact .inl rfl
      · exact hd
    have hclosed : Stays q q.closeWindow :=
      stays_of_log [.respClosed] rfl (by simp) (.inr ⟨hdec, .inr (.inl rfl)⟩) (.inl rfl)
        rfl rfl
    exact (hq.trans hclosed).trans (stays_cancelEvent (by decide))

theorem stays_upReq (m : UpdateReq) : Stays p (p.handleUpReq m) := by
  have hquiet : ∀ {q : Prover} (marks : List Mark), (∀ y ∈ marks, y ≠ .root ∧ y ≠ .start) →
      q.log = marks ++ p.log → q.status = p.status → q.psessions = p.psessions →
      q.timers = p.timers → q.now = p.now → Stays p q := fun marks hm hl hs hp ht hn =>
    stays_of_log _ hl hm (.inl hs) (.inl (by rw [hp])) ht hn
  have hmerged : ∀ child, Stays p (p.merged m child) := fun _ =>
    hquiet [.merge m.source, .upReq m.source] (by simp) rfl rfl rfl rfl rfl
  have hcase := handleUpReq_cases (p := p) m
  generalize p.handleUpReq m = p' at hcase ⊢
  cases hcase with
  | forward => exact hquiet [.redirect m.source, .upReq m.source] (by simp) rfl rfl rfl rfl rfl
  | redirect => exact hquiet [.redirect m.source, .upReq m.source] (by simp) rfl rfl rfl rfl rfl
  | ignored => exact hquiet [.upReq m.source] (by simp) rfl rfl rfl rfl rfl
  | unverified => exact hquiet [.upReq m.source] (by simp) rfl rfl rfl rfl rfl
  | null => exact hquiet [.upReq m.source] (by simp) rfl rfl rfl rfl rfl
  | array => exact hquiet [.upReq m.source] (by simp) rfl rfl rfl rfl rfl
  | @last child _ hm =>
    refine (hmerged child).trans (stays_sendUpReq _ ?_)
    rcases hm.status with hst | hst
    · exact .inr (.inl hst)
    · exact .inl hst
  | more => exact hmerged _

/-! ## Handlers that take a role -/

/-- In a tree with the gather timer and the ack timeout off. -/
structure Entered (parent : Uid) (p : Prover) : Prop where
  decided : p.Decided
  first : p.psessions.first ≠ NOID → p.psessions.first = parent
  mktree : p.timers .mktreetimer = none
  cackto : p.timers .cacktomsg = none

theorem Entered.chosen {parent : Uid} (h : Entered parent p) {role : Role}
    (hrole : parent ≠ NOID → role = .child parent) (hst : .start ∈ p.log) : Chosen [role] g p := by
  refine ⟨fun hno => absurd hst hno, fun hno => absurd h.decided hno, fun _ _ => rfl,
    fun _ _ hfirst => ?_, fun hm => ?_, fun s hk => ?_, fun hat => ?_⟩
  · have he := h.first hfirst
    rw [he, hrole (he ▸ hfirst)]
  · rw [h.mktree] at hm
    cases hm
  · cases h.cackto.symm.trans hk
  · have hd := h.decided
    rw [Decided, hat] at hd
    simp at hd

theorem entered_sendUpReq {parent : Uid} (tid : TreeId) (h : Entered parent p) :
    Entered parent (p.sendUpReq tid) := by
  cases hs : p.psessions.second with
  | none =>
    have hsame : (p.sendUpReq tid).status = p.status ∧ (p.sendUpReq tid).psessions = p.psessions ∧
        (p.sendUpReq tid).timers = p.timers := by
      simp [sendUpReq, hs, fail]
    obtain ⟨h1, h2, h3⟩ := hsame
    refine ⟨?_, by rw [h2]; exact h.first, by rw [h3]; exact h.mktree, by rw [h3]; exact h.cackto⟩
    rw [Decided, h1]
    exact h.decided
  | some s =>
    rw [sendUpReq_of_some tid hs]
    exact ⟨.inr (.inr rfl), fun hno => absurd rfl hno, h.mktree, h.cackto⟩

theorem entered_broadcast {parent : Uid} (depth : Nat) (tid : TreeId) (hf : p.fault = none)
    (hfirst : p.psessions.first ≠ NOID → p.psessions.first = parent)
    (hm : p.timers .mktreetimer = none) (hk : p.timers .cacktomsg = none)
    (hok : (p.broadcastCommitReq depth tid).fault = none) :
    Entered parent (p.broadcastCommitReq depth tid) := by
  cases hc : p.timers .creqmsg with
  | some s =>
    rw [(broadcast_of_some tid depth hc).1] at hok
    cases hok
  | none =>
    rw [broadcast_of_none tid depth hf hc]
    exact ⟨.inl rfl, hfirst, by simpa using hm, by simpa using hk⟩

theorem count_root_broadcast (depth : Nat) (tid : TreeId) (hf : p.fault = none) :
    (p.broadcastCommitReq depth tid).log.count .root = p.log.count .root := by
  cases hc : p.timers .creqmsg with
  | some s => rw [(broadcast_of_some tid depth hc).2]
  | none =>
    rw [broadcast_of_none tid depth hf hc]
    exact List.count_cons_of_ne (by decide)

/-- A prover without a parent becomes root. -/
theorem root_sendCommitReq (c : Choice) (tid : TreeId) (hf : p.fault = none)
    (hs : p.status ≠ .ATTESTING) (hfirst : p.psessions.first = NOID)
    (hm : p.timers .mktreetimer = none) (hk : p.timers .cacktomsg = none) :
    (p.sendCommitReq c tid).log.count .root = p.log.count .root + 1 ∧
      ((p.sendCommitReq c tid).fault = none → Entered NOID (p.sendCommitReq c tid)) := by
  have hcount : (p.startTree c.treeID).log.count .root = p.log.count .root + 1 :=
    List.count_cons_self
  by_cases hmax : p.maxchildren = 0
  · rw [sendCommitReq_leaf tid c hs hmax, sendUpReq_of_some c.treeID (p := p.startTree c.treeID) rfl]
    refine ⟨?_, fun _ => ⟨.inr (.inr rfl), fun hno => absurd rfl hno, hm, hk⟩⟩
    exact (List.count_cons_of_ne (by decide)).trans hcount
  · rw [sendCommitReq_root tid c hs hmax hfirst]
    refine ⟨?_, fun hok => ?_⟩
    · exact (count_root_broadcast (p := p.startTree c.treeID) _ _ hf).trans hcount
    · exact entered_broadcast (p := p.startTree c.treeID) _ _ hf (fun hno => absurd hfirst hno) hm hk
        hok

theorem handleCommitAck_of_acked {m : CommitAck} {parent : Session} (c : Choice)
    (h : p.Acked m parent) :
    p.handleCommitAck c m =
      if p.Leaf parent then { (p.queueMacDelay (.commitAck m)).validateParent parent with
        status := .FINISHED }.sendUpReq m.treeID
      else { (p.queueMacDelay (.commitAck m)).validateParent parent with
        status := .CREATING }.sendCommitReq c m.treeID := by
  unfold handleCommitAck
  rw [if_neg (not_not.mpr h.source), if_neg (not_not.mpr h.destination)]
  simp only [h.second]
  rw [if_neg (not_not.mpr h.key)]
  exact if_neg (not_not.mpr h.mac)

/-- An ack that is accepted makes the prover a child. -/
theorem child_commitAck {m : CommitAck} {parent : Session} (c : Choice) (h : p.Acked m parent)
    (hf : p.fault = none) (hsrc : m.source ≠ NOID) :
    (p.handleCommitAck c m).log.count .root = p.log.count .root ∧
      (.start ∈ p.log → .start ∈ (p.handleCommitAck c m).log) ∧
        ((p.handleCommitAck c m).fault = none → Entered m.source (p.handleCommitAck c m)) := by
  have hvalid : ∀ st, st = .FINISHED ∨ st = .CREATING → Entered m.source
      { (p.queueMacDelay (.commitAck m)).validateParent parent with status := st } := by
    intro st hst
    refine ⟨?_, fun _ => h.source, ?_, ?_⟩
    · rcases hst with rfl | rfl
      · exact .inr (.inr rfl)
      · exact .inl rfl
    · simp [validateParent, cancelEvent]
    · simp [validateParent, cancelEvent]
  have hlog : .start ∈ p.log → .start ∈ (p.handleCommitAck c m).log := fun hst =>
    (log_onRecv (p := p) c (.commitAck m) hf).mem hst
  refine ⟨?_, hlog, ?_⟩
  all_goals rw [handleCommitAck_of_acked c h]
  · split
    · rw [sendUpReq_log]
      exact List.count_cons_of_ne (by decide)
    · next hl =>
      rw [Leaf, not_or] at hl
      rw [sendCommitReq_inner (p := { (p.queueMacDelay (.commitAck m)).validateParent parent with
        status := .CREATING }) m.treeID c (by simp) hl.2 (h.source ▸ hsrc) rfl]
      refine (count_root_broadcast (p := ({ (p.queueMacDelay (.commitAck m)).validateParent parent with
        status := .CREATING } : Prover).record (.depthSub parent.depth)) _ _ hf).trans ?_
      exact List.count_cons_of_ne (by simp)
  · split
    · exact fun _ => entered_sendUpReq _ (hvalid .FINISHED (.inl rfl))
    · next hl =>
      rw [Leaf, not_or] at hl
      rw [sendCommitReq_inner (p := { (p.queueMacDelay (.commitAck m)).validateParent parent with
        status := .CREATING }) m.treeID c (by simp) hl.2 (h.source ▸ hsrc) rfl]
      have he := hvalid .CREATING (.inr rfl)
      exact entered_broadcast (p := ({ (p.queueMacDelay (.commitAck m)).validateParent parent with
        status := .CREATING } : Prover).record (.depthSub parent.depth)) _ _ hf he.first he.mktree
          he.cackto

/-! ## One event -/

theorem takes_none {e : Event} (hroot : p'.log.count .root = p.log.count .root)
    (hno : p.accepted e = []) : takes e p p' = [] := by
  rw [takes, hroot, hno, Nat.sub_self]
  rfl

theorem takes_root {e : Event} (hroot : p'.log.count .root = p.log.count .root + 1)
    (hno : p.accepted e = []) : takes e p p' = [.root] := by
  rw [takes, hroot, hno, Nat.add_sub_cancel_left]
  rfl

theorem gathers_of_eq {e : Event} (h : p'.timers .mktreetimer = p.timers .mktreetimer) :
    gathers e p p' g = g := by
  unfold gathers
  rw [if_neg]
  rintro ⟨hsome, hnone⟩
  rw [← h, hnone] at hsome
  cases hsome

theorem accepted_of_recv {e : Event} (hno : ∀ m c, e.act ≠ .recv (.commitAck m) c) :
    p.accepted e = [] := by
  unfold accepted
  split
  · next m c _ hact _ => exact absurd hact (hno m c)
  · rfl

/-- What one event does to the roles: no second one, and the state tells them. -/
def Chooses (e : Event) (roles : List Role) (g : Option Nat) (p p' : Prover) : Prop :=
  (takes e p p' ++ roles).length ≤ 1 ∧
    (p'.fault = none → Chosen (takes e p p' ++ roles) (gathers e p p' g) p')

theorem Chosen.chooses {e : Event} (h : Chosen roles g p) (hone : roles.length ≤ 1)
    (hno : p.accepted e = []) (hs : Stays p p') : Chooses e roles g p p' := by
  unfold Chooses
  rw [takes_none hs.root hno, gathers_of_eq hs.mktree]
  exact ⟨hone, fun _ => h.stays hs⟩

/-- A prover that has not taken a role takes one. -/
theorem chooses_of_entered {e : Event} {parent : Uid} {role : Role} (htakes : takes e p p' = [role])
    (hroles : roles = []) (hrole : parent ≠ NOID → role = .child parent)
    (hst : .start ∈ p'.log) (he : p'.fault = none → Entered parent p') :
    Chooses e roles g p p' := by
  unfold Chooses
  rw [htakes, hroles]
  exact ⟨Nat.le_refl _, fun hok => (he hok).chosen hrole hst⟩

/-- A prover that has not taken a role takes none. -/
theorem chooses_of_undecided {e : Event} (hroot : p'.log.count .root = p.log.count .root)
    (hno : p.accepted e = []) (hroles : roles = []) (hst : .start ∈ p'.log)
    (hd : p'.fault = none → ¬ p'.Decided)
    (hgather : (p'.timers .mktreetimer).isSome → gathers e p p' g = none)
    (hwait : p'.fault = none → ∀ s, p'.timers .cacktomsg = some s → s.due ≤ p'.now + timeoutack)
    (hlate : p'.status = .ATTESTING_CREATING → ∃ T, gathers e p p' g = some T ∧
      ∀ s, p'.timers .cacktomsg = some s → s.due ≤ T + timeoutack) :
    Chooses e roles g p p' := by
  unfold Chooses
  rw [takes_none hroot hno, hroles]
  refine ⟨Nat.zero_le _, fun hok => ⟨fun hno => absurd hst hno, fun _ => rfl, fun _ hdec => ?_,
    fun _ hdec => ?_, hgather, hwait hok, hlate⟩⟩
  · exact absurd hdec (hd hok)
  · exact absurd hdec (hd hok)

/-- A round starts. -/
theorem chooses_start {e : Event} {t : Timer} {c : Choice} (h : Chosen roles g p) (ho : p.Once True)
    (hf : p.fault = none) (hno : p.accepted e = []) (hst : .start ∉ p.log) :
    Chooses e roles g p ((p.cancelEvent t).startAttestation c) := by
  have hi : p.Idle := ho.phase.resolve_right fun h => hst h.1
  obtain ⟨hroles, hg⟩ := h.fresh hst
  have hmk : p.timers .mktreetimer = none := hi.timers _ (by decide)
  have hcack : p.timers .cacktomsg = none := hi.timers _ (by decide)
  have hroot : ((p.cancelEvent t).startAttestation c).log.count .root = p.log.count .root := by
    rw [startAttestation_log]
    exact List.count_cons_of_ne (by decide)
  have hg' : gathers e p ((p.cancelEvent t).startAttestation c) g = none := by
    simp [gathers, hmk, hg]
  have hstatus : ((p.cancelEvent t).startAttestation c).status = .CHECKING := by
    obtain ⟨_, _, _, he⟩ := startAttestation_shape (p := p.cancelEvent t) c
    rw [he]
  refine chooses_of_undecided hroot hno hroles ?_ (fun _ => ?_) (fun _ => hg') (fun hok s hk => ?_)
    fun hat => ?_
  · rw [startAttestation_log]
    exact List.mem_cons_self
  · rw [Decided, hstatus]
    simp
  · obtain ⟨ha, hch, hm⟩ := timers_of_startAttestation (p := p.cancelEvent t) c hf hok
    rw [startAttestation_of_none (p := p.cancelEvent t) c hf ha hch hm] at hk
    have hoff : (p.cancelEvent t).timers .cacktomsg = none := by
      simp only [cancelEvent, Function.update_apply, hcack]
      split <;> rfl
    cases hoff.symm.trans (by simpa using hk)
  · cases hstatus.symm.trans hat

theorem chooses_timer {e : Event} {t : Timer} {c : Choice} {s : Stamp} (h : Chosen roles g p)
    (ho : p.Once True) (hok : StartsAttestation (.timer t c) → .start ∉ p.log) (hf : p.fault = none)
    (hone : roles.length ≤ 1) (hact : e.act = .timer t c) (htime : p.now = e.time)
    (ht : p.timers t = some s) : Chooses e roles g p ((p.cancelEvent t).onTimer t c) := by
  have hno : p.accepted e = [] := accepted_of_recv fun m c hact' => by cases hact.symm.trans hact'
  have hlog : .start ∈ p.log → .start ∈ ((p.cancelEvent t).onTimer t c).log := fun hst =>
    (log_onTimer (p := p.cancelEvent t) c t hf).mem hst
  have hundecided : ∀ {st}, p.status = st → st ≠ .CREATING → st ≠ .COLLECTING → st ≠ .FINISHED →
      roles = [] := by
    rintro st rfl h1 h2 h3
    exact h.undecided (not_or.mpr ⟨h1, not_or.mpr ⟨h2, h3⟩⟩)
  cases t with
  | startmsg => exact chooses_start h ho hf hno (hok trivial)
  | attesttimer => exact chooses_start h ho hf hno (hok trivial)
  | checkdelaymsg =>
    have hpop : Stays p (p.cancelEvent .checkdelaymsg) := stays_cancelEvent (by decide)
    have hq := h.stays hpop
    obtain ⟨hst, -⟩ := ho.active (by decide) ht
    have hroles := hundecided (ho.of_check ht) (by decide) (by decide) (by decide)
    have hg : gathers e p ((p.cancelEvent .checkdelaymsg).onTimer .checkdelaymsg c) g = g :=
      gathers_of_eq hpop.mktree
    refine chooses_of_undecided rfl hno hroles (hlog hst) (fun _ => ?_) (fun hm => ?_)
      (fun _ => hq.wait) fun hat => ?_
    · simp [Decided, onTimer, checkSoftConfig]
    · rw [hg]
      exact hq.gather hm
    · simp [onTimer, checkSoftConfig] at hat
  | mktreetimer =>
    obtain ⟨hst, -⟩ := ho.active (by decide) ht
    rcases ho.of_mktree ht with ⟨hs, hn⟩ | ⟨hs, hans⟩
    · have hroles : roles = [] := by
        rcases hs with hs | hs
        · exact hundecided hs (by decide) (by decide) (by decide)
        · exact hundecided hs (by decide) (by decide) (by decide)
      have hk : p.timers .cacktomsg = none := by
        refine Option.eq_none_iff_forall_ne_some.mpr fun a hk => ?_
        rcases (ho.of_cackto hk).1 with hs' | hs' <;> rcases hs with hs | hs <;>
          cases hs.symm.trans hs'
      obtain ⟨hcount, he⟩ := root_sendCommitReq (p := p.cancelEvent .mktreetimer) c NOID hf
        (fun hat => by rcases hs with hs | hs <;> cases hs.symm.trans hat)
        (show p.psessions.first = NOID by rw [hn.parent]) (by simp [cancelEvent])
        (by simpa [cancelEvent] using hk)
      exact chooses_of_entered (takes_root hcount hno) hroles (fun hne => absurd rfl hne)
        (hlog hst) he
    · have he : (p.cancelEvent .mktreetimer).onTimer .mktreetimer c =
          { p.cancelEvent .mktreetimer with status := .ATTESTING_CREATING } :=
        sendCommitReq_attesting (p := p.cancelEvent .mktreetimer) NOID c hs
      have hroles := hundecided hs (by decide) (by decide) (by decide)
      have hwait : ∀ a, p.timers .cacktomsg = some a → a.due ≤ e.time + timeoutack := by
        rw [← htime]
        exact h.wait
      rw [he]
      refine chooses_of_undecided rfl hno hroles hst (fun _ => ?_) (fun hm => ?_) (fun _ a hk => ?_)
        fun _ => ⟨e.time, ?_, fun a hk => ?_⟩
      · simp [Decided]
      · simp [cancelEvent] at hm
      · exact h.wait a (by simpa [cancelEvent] using hk)
      · simp [gathers, ht, cancelEvent]
      · exact hwait a (by simpa [cancelEvent] using hk)
  | creqmsg =>
    have hpop : Stays p (p.cancelEvent .creqmsg) := stays_cancelEvent (by decide)
    exact h.chooses hone hno (hpop.trans (stays_same rfl rfl rfl rfl rfl))
  | cacktomsg =>
    obtain ⟨hst, -⟩ := ho.active (by decide) ht
    obtain ⟨hs, hans⟩ := ho.of_cackto ht
    by_cases hac : p.status = .ATTESTING_CREATING
    · have hroles := hundecided hac (by decide) (by decide) (by decide)
      have he : (p.cancelEvent .cacktomsg).onTimer .cacktomsg c =
          { p.cancelEvent .cacktomsg with psessions := {}, status := .CREATING }.sendCommitReq c NOID :=
        handleCommitAckTimeOut_creating (p := p.cancelEvent .cacktomsg) c hans.device hac
      have hm : p.timers .mktreetimer = none := by
        refine Option.eq_none_iff_forall_ne_some.mpr fun a hm => ?_
        rcases ho.of_mktree hm with ⟨hs', -⟩ | ⟨hs', -⟩
        · rcases hs' with hs' | hs' <;> cases hac.symm.trans hs'
        · cases hac.symm.trans hs'
      obtain ⟨hcount, hent⟩ := root_sendCommitReq
        (p := { p.cancelEvent .cacktomsg with psessions := {}, status := .CREATING }) c NOID hf
        (by simp) rfl (by simpa [cancelEvent] using hm) (by simp [cancelEvent])
      rw [← he] at hcount hent
      exact chooses_of_entered (takes_root hcount hno) hroles (fun hne => absurd rfl hne)
        (hlog hst) hent
    · have hroles := hundecided (hs.resolve_right hac) (by decide) (by decide) (by decide)
      have he : (p.cancelEvent .cacktomsg).onTimer .cacktomsg c =
          { p.cancelEvent .cacktomsg with psessions := {}, status := .READY } :=
        handleCommitAckTimeOut_ready (p := p.cancelEvent .cacktomsg) c hans.device hac
      have hpop : Stays p (p.cancelEvent .cacktomsg) := stays_cancelEvent (by decide)
      have hq := h.stays hpop
      have hg : gathers e p { p.cancelEvent .cacktomsg with psessions := {}, status := .READY } g =
          g := gathers_of_eq hpop.mktree
      rw [he]
      refine chooses_of_undecided rfl hno hroles hst (fun _ => ?_) (fun hm => ?_) (fun _ => hq.wait)
        fun hat => ?_
      · simp [Decided]
      · rw [hg]
        exact hq.gather hm
      · cases hat
  | cresptomsg =>
    obtain ⟨-, ha⟩ := ho.active (by decide) ht
    have hpop : Stays p (p.cancelEvent .cresptomsg) := stays_cancelEvent (by decide)
    have hdec : (p.cancelEvent .cresptomsg).Decided := by
      cases ha with
      | creating hs => exact .inl hs
      | ghost _ hs => exact hs.elim (fun hs => .inr (.inr hs)) fun hs => .inr (.inl hs)
      | checking _ _ hsch => exact (absurd_off ht hsch.crespto).elim
      | ready _ _ hsch => exact (absurd_off ht hsch.crespto).elim
      | attesting _ _ hsch => exact (absurd_off ht hsch.crespto).elim
      | attestingCreating _ _ hsch => exact (absurd_off ht hsch.crespto).elim
      | collecting _ _ _ hsch => exact (absurd_off ht hsch.crespto).elim
      | done _ _ hsch => exact (absurd_off ht hsch.crespto).elim
    exact h.chooses hone hno (hpop.trans (stays_respTimeOut hdec))

/-- A prover with a child is in a tree. -/
theorem Once.decided {g : Prop} (h : p.Once g) {u : Stamp × CommitTimeOut} (hu : u ∈ p.uptos) :
    p.Decided := by
  obtain ⟨-, s, hl, -⟩ := h.linked.upto u hu
  have hc : u.2.device ∈ p.csessions := AList.lookup_isSome.mp (Option.isSome_of_eq_some hl)
  have hno : p.csessions.keys ≠ [] := fun he => not_mem_of_keys_nil he _ hc
  rcases h.phase with hi | ⟨-, ha⟩
  · exact absurd hi.sessions.children hno
  cases ha with
  | creating hs => exact .inl hs
  | collecting hs => exact .inr (.inl hs)
  | checking _ hn => exact absurd hn.children hno
  | ready _ hn => exact absurd hn.children hno
  | attesting _ hans => exact absurd hans.children hno
  | attestingCreating _ hans => exact absurd hans.children hno
  | done _ hn => exact absurd hn.children hno
  | ghost _ _ hn => exact absurd hn.children hno

/-- A prover that answers a request waits for the ack, and takes no role. -/
theorem chooses_commitReq {e : Event} (h : Chosen roles g p) (ho : p.Once True)
    (hone : roles.length ≤ 1) (hno : p.accepted e = []) (m : CommitReq) :
    Chooses e roles g p (p.handleCommitReq m) := by
  rcases handleCommitReq_cases (p := p) m with he | ⟨sess, ⟨hs, -⟩, he⟩
  · rw [he]
    exact h.chooses hone hno (stays_same rfl rfl rfl rfl rfl)
  have hroles : roles = [] := h.undecided (by rw [Decided, hs]; simp)
  obtain ⟨hst, hk⟩ : .start ∈ p.log ∧ p.timers .cacktomsg = none := by
    rcases ho.phase with hi | ⟨hst, ha⟩
    · cases hs.symm.trans hi.status
    refine ⟨hst, ?_⟩
    cases ha with
    | ready _ _ hsch => simpa using hsch.cackto
    | checking hs' => cases hs.symm.trans hs'
    | attesting hs' => cases hs.symm.trans hs'
    | attestingCreating hs' => cases hs.symm.trans hs'
    | creating hs' => cases hs.symm.trans hs'
    | collecting hs' => cases hs.symm.trans hs'
    | done hs' => cases hs.symm.trans hs'
    | ghost _ hs' => rcases hs' with hs' | hs' <;> cases hs.symm.trans hs'
  rw [he, sendCommitResp_of_none (p := { p with psessions := ⟨m.source, some sess⟩ }) _ _ _ hk]
  refine chooses_of_undecided rfl hno hroles hst (fun _ => ?_) (fun hm => ?_) (fun _ a ha => ?_)
    fun hat => ?_
  · simp [Decided]
  · rw [gathers_of_eq (by simp)]
    exact h.gather (by simpa [Function.update_apply] using hm)
  · have hdue : (⟨p.now + timeoutack, p.seq + 1⟩ : Stamp) = a := by
      simpa [Function.update_apply] using ha
    rw [← hdue]
  · cases hat

/-- The prover accepts an ack, and becomes a child, or takes no role. -/
theorem chooses_commitAck {e : Event} {m : CommitAck} {c : Choice} (h : Chosen roles g p)
    (ho : p.Once True) (hf : p.fault = none) (hc : p.crashed = false) (hone : roles.length ≤ 1)
    (hact : e.act = .recv (.commitAck m) c) (hsrc : m.source ≠ NOID)
    (hfree : p.accepted e ≠ [] → ¬ p.Decided) : Chooses e roles g p (p.handleCommitAck c m) := by
  by_cases hacked : ∃ parent, p.Acked m parent
  · obtain ⟨parent, hacked⟩ := hacked
    have hacc : p.accepted e = [(m.source, p.cfg.UId)] := by
      rw [accepted, hact, hacked.second]
      simp [hc, hacked]
    obtain ⟨hcount, hlog, hent⟩ := child_commitAck c hacked hf hsrc
    have hroles : roles = [] := h.undecided (hfree (by rw [hacc]; simp))
    have htakes : takes e p (p.handleCommitAck c m) = [.child m.source] := by
      rw [takes, hcount, hacc, Nat.sub_self]
      rfl
    have hst : .start ∈ p.log := by
      rcases ho.phase with hi | ⟨hst, -⟩
      · refine absurd ?_ hsrc
        rw [← hacked.source, hi.sessions.parent]
      · exact hst
    exact chooses_of_entered htakes hroles (fun _ => rfl) (hlog hst) hent
  · have hno : p.accepted e = [] := by
      unfold accepted
      split
      · next m' c' parent hact' _ =>
        cases hact.symm.trans hact'
        exact if_neg fun hok => hacked ⟨parent, hok.2⟩
      · rfl
    refine h.chooses hone hno ?_
    have hcase := handleCommitAck_cases (p := p) c m
    generalize p.handleCommitAck c m = p' at hcase ⊢
    cases hcase with
    | ignored => exact stays_same rfl rfl rfl rfl rfl
    | unverified => exact stays_same rfl rfl rfl rfl rfl
    | null => exact stays_same rfl rfl rfl rfl rfl
    | leaf hok => exact absurd ⟨_, hok⟩ hacked
    | inner hok => exact absurd ⟨_, hok⟩ hacked

theorem accepted_atTime (e : Event) (t : Nat) : (p.atTime t).accepted e = p.accepted e := by
  have hiff : ∀ (m : CommitAck) (parent : Session),
      (p.atTime t).Acked m parent ↔ p.Acked m parent := fun m parent =>
    ⟨fun h => { h with }, fun h => { h with }⟩
  unfold accepted
  simp only [hiff]
  rfl

/-- **What an event does to the roles of a prover that lives.** -/
theorem chooses_live {e : Event} (h : Chosen roles g p) (ho : p.Once True) (hok : OnceOk e p)
    (hf : p.fault = none) (hc : p.crashed = false) (hone : roles.length ≤ 1) (htime : p.now ≤ e.time)
    (hfree : p.accepted e ≠ [] → ¬ p.Decided) (hl : p.Live e p') : Chooses e roles g p p' := by
  have hat : Stays p (p.atTime e.time) :=
    ⟨rfl, Iff.rfl, .inl rfl, .inl rfl, rfl, fun _ => id, htime⟩
  have hq := h.stays hat
  have honce : (p.atTime e.time).Once True :=
    ho.congr rfl rfl rfl rfl rfl rfl rfl (Nat.le_refl _) rfl
  -- the clock matters to no role
  suffices hnow : Chooses e roles g (p.atTime e.time) p' by
    unfold Chooses at hnow ⊢
    unfold takes at hnow ⊢
    rw [accepted_atTime] at hnow
    exact hnow
  have hno : (∀ m c, e.act ≠ .recv (.commitAck m) c) → (p.atTime e.time).accepted e = [] :=
    accepted_of_recv
  cases hl with
  | @timer t c s hact ht =>
    refine chooses_timer hq honce ?_ hf hone hact rfl ht
    exact hact ▸ hok.1
  | @upto k u hact hu =>
    have hpop : Stays (p.atTime e.time) ((p.atTime e.time).popUpto k) :=
      stays_same rfl rfl rfl rfl rfl
    refine hq.chooses hone (hno fun m c he => by cases hact.symm.trans he) (hpop.trans ?_)
    exact stays_updateTimeOut u.2 (ho.decided (List.mem_of_find?_eq_some hu))
  | @self k c o hact =>
    obtain ⟨out, he⟩ := onSelf_eq (p := (p.atTime e.time).popOutbox k) o.2 c
    rw [he]
    refine hq.chooses hone (hno fun m c he => by cases hact.symm.trans he) ?_
    exact stays_same rfl rfl rfl rfl rfl
  | @recv m c hact =>
    cases m with
    | commitReq m =>
      exact chooses_commitReq hq honce hone (hno fun m c he => by cases hact.symm.trans he) m
    | commitResp m =>
      exact hq.chooses hone (hno fun m c he => by cases hact.symm.trans he)
        (stays_commitResp (p := p.atTime e.time) m hf)
    | commitAck m =>
      have hsrc : m.source ≠ NOID := by
        have := hok.2
        rw [hact] at this
        exact this
      rw [← accepted_atTime e e.time] at hfree
      exact chooses_commitAck hq honce hf hc hone hact hsrc hfree
    | updateReq m =>
      exact hq.chooses hone (hno fun m c he => by cases hact.symm.trans he)
        (stays_upReq (p := p.atTime e.time) m)

/-- **One event of a prover.** -/
theorem chooses_of_step {e : Event} (h : Alive (Chosen roles g) p) (ho : Alive (Once True) p)
    (hok : OnceOk e p) (hone : roles.length ≤ 1) (hfree : p.accepted e ≠ [] → ¬ p.Decided)
    (hs : step e p = some p') :
    (takes e p p' ++ roles).length ≤ 1 ∧
      Alive (Chosen (takes e p p' ++ roles) (gathers e p p' g)) p' := by
  obtain ⟨hf, htime, ⟨hcr, now, timers, uptos, outbox, -, he⟩ | ⟨hc, hl⟩⟩ := step_cases hs
  · have htakes : takes e p p' = [] := takes_none (by rw [he]) (accepted_of_crashed hcr)
    rw [htakes]
    exact ⟨hone, fun _ hc => by rw [he] at hc; cases hc⟩
  · obtain ⟨hlen, hch⟩ := chooses_live (h hf hc) (ho hf hc) hok hf hc hone htime hfree hl
    exact ⟨hlen, fun hok' _ => hch hok'⟩

theorem chosen_init (cfg : Config) (start : Nat) : Chosen [] none (Prover.init cfg start) := by
  refine ⟨fun _ => ⟨rfl, rfl⟩, fun _ => rfl, fun hst => ?_, fun hst => ?_, fun _ => rfl,
    fun s hk => ?_, fun hat => ?_⟩
  · exact absurd hst List.not_mem_nil
  · exact absurd hst List.not_mem_nil
  · cases hk
  · cases hat

/-- Past the response time a role has been taken. -/
theorem Chosen.taken {T t : Nat} (h : Chosen roles g p) (ho : p.Once True) (hg : g = some T)
    (ht : T + timeoutack < t) (hdue : p.NoneBefore t) : roles.length = 1 := by
  have hst : .start ∈ p.log := by
    by_contra hno
    cases hg.symm.trans (h.fresh hno).2
  have hmk : ∀ {s}, p.timers .mktreetimer ≠ some s := fun hm => by
    cases hg.symm.trans (h.gather (by rw [hm]; rfl))
  refine h.decided hst ?_
  rcases ho.phase with hi | ⟨-, ha⟩
  · exact .inr (.inr hi.status)
  cases ha with
  | creating hs => exact .inl hs
  | collecting hs => exact .inr (.inl hs)
  | done hs => exact .inr (.inr hs)
  | ghost _ hs => exact hs.elim (fun hs => .inr (.inr hs)) fun hs => .inr (.inl hs)
  | checking _ _ hsch =>
    obtain ⟨s, hm⟩ := Option.isSome_iff_exists.mp hsch.mktree
    exact absurd hm hmk
  | ready _ _ hsch =>
    obtain ⟨s, hm⟩ := Option.isSome_iff_exists.mp hsch.mktree
    exact absurd hm hmk
  | attesting _ _ hsch =>
    obtain ⟨s, hm⟩ := Option.isSome_iff_exists.mp hsch.mktree
    exact absurd hm hmk
  | attestingCreating hs _ hsch =>
    -- the ack timeout is due by now
    obtain ⟨s, hk⟩ := Option.isSome_iff_exists.mp hsch.cackto
    obtain ⟨T', hT', hlate⟩ := h.late hs
    have hle := hlate s hk
    have hge := hdue s (mem_pending_timer hk)
    cases hg.symm.trans hT'
    omega

theorem count_takes {e : Event} {u q : Uid} (h : p.cfg.UId = u) :
    (takes e p p').count (.child q) = (p.accepted e).count (q, u) := by
  have hroot : (List.replicate (p'.log.count .root - p.log.count .root) Role.root).count (.child q) =
      0 := List.count_eq_zero.mpr fun hm => by cases List.eq_of_mem_replicate hm
  rw [takes, List.count_append, hroot, Nat.zero_add]
  unfold accepted
  split
  · next m c parent _ _ =>
    split
    · rw [h]
      by_cases hq : m.source = q
      · simp [hq]
      · simp [hq]
    · rfl
  · rfl

end

end Prover

end Fadia
