import Fadia.Proof.StaleTimers
import Fadia.Proof.RecordCount
import Fadia.Proof.SessionRules

/-!
# The gathering budget

`InBudget G A` says that what a prover waits for ends before `A`, when the next round
starts, and that its gather timer goes off by `G`.  `deltag` leaves `treeTime maxdepth`
and the ack timeout behind the last gather time, but the firmware check comes before it.
So a prover that broadcasts once its gather timer has gone off reports in time
(`InBudget.timer`); one whose join was still pending then may be too late (`lateRoot`).
Where each such broadcast leaves `treeTime`, every round ends with a report
(`reported_in_time`).
-/

namespace Fadia

open Traces

/-- The update timer of a child, where the session of its parent has depth `depth`. -/
def updateTime (depth : Nat) : Nat := (timeoutack + timeoutresp) * (depth - 1) + timeoutup

/-- The longest that a prover gathers from its broadcast on. -/
def treeTime (depth : Nat) : Nat := timeoutresp + updateTime depth

theorem updateTime_mono {a b : Nat} (h : a ≤ b) : updateTime a ≤ updateTime b := by
  unfold updateTime timeoutack timeoutresp timeoutup second
  omega

theorem treeTime_mono {a b : Nat} (h : a ≤ b) : treeTime a ≤ treeTime b :=
  Nat.add_le_add_left (updateTime_mono h) _

/-- `deltag` leaves the time for a tree and for an ack timeout. -/
theorem gather_before_end {cfg : Config} (hd : 1 ≤ cfg.maxdepth)
    (hh : (timeoutresp + timeoutack) * cfg.maxdepth + timeoutup ≤ cfg.deltah) (S : Nat) :
    S + checkFirmwareDelay cfg.device + cfg.deltag + treeTime cfg.maxdepth < S + cfg.deltah := by
  have hcheck : checkFirmwareDelay cfg.device < timeoutack := by
    cases cfg.device <;> decide
  unfold Config.deltag treeTime updateTime at *
  unfold timeoutack timeoutresp timeoutup second at *
  omega

namespace Prover

/-- What is scheduled goes off before `A`, the gather timer by `G`. -/
structure Deadlines (G A : Nat) (p : Prover) : Prop where
  mktree : ∀ s, p.timers .mktreetimer = some s → s.due ≤ G
  ack : ∀ s, p.timers .cacktomsg = some s → s.due ≤ G + timeoutack
  resp : ∀ s, p.timers .cresptomsg = some s → s.due < A
  upto : ∀ u ∈ p.uptos, u.1.due < A

/-- An open window leaves time for the children, and a prover that waits for nothing
has reported. -/
structure InBudget (G A : Nat) (p : Prover) : Prop extends Deadlines G A p where
  window : p.status = .CREATING → ∀ s parent, p.timers .cresptomsg = some s →
    p.psessions.second = some parent → s.due + updateTime parent.depth < A
  reported : p.status = .FINISHED ∨ p.status = .COLLECTING ∧ p.csessions.keys = [] →
    SentIn p.log

section
variable {p p' : Prover} {G A : Nat}

theorem Deadlines.of_pops (h : Deadlines G A p)
    (ht : ∀ t s, p'.timers t = some s → p.timers t = some s)
    (hu : ∀ u ∈ p'.uptos, u ∈ p.uptos) : p'.Deadlines G A :=
  ⟨fun s hs => h.mktree s (ht _ s hs), fun s hs => h.ack s (ht _ s hs),
    fun s hs => h.resp s (ht _ s hs), fun u hmem => h.upto u (hu u hmem)⟩

theorem Deadlines.cancelEvent (h : Deadlines G A p) (t : Timer) :
    (p.cancelEvent t).Deadlines G A := by
  refine h.of_pops (fun t' s hs => ?_) fun _ hu => hu
  simp only [Prover.cancelEvent, Function.update_apply] at hs
  split at hs
  · cases hs
  · exact hs

theorem inBudget_of_waiting (h : Deadlines G A p) (h1 : p.status ≠ .CREATING)
    (h2 : p.status ≠ .FINISHED) (h3 : p.status ≠ .COLLECTING) : p.InBudget G A :=
  ⟨h, fun hs => absurd hs h1, fun hs => absurd hs (not_or.mpr ⟨h2, fun hc => h3 hc.1⟩)⟩

theorem InBudget.congr (h : p.InBudget G A) (hs : p'.status = p.status)
    (hp : p'.psessions.second = p.psessions.second) (hc : p'.csessions = p.csessions)
    (ht : ∀ t s, p'.timers t = some s → p.timers t = some s)
    (hu : ∀ u ∈ p'.uptos, u ∈ p.uptos)
    (hl : SentIn p.log → SentIn p'.log) :
    p'.InBudget G A := by
  refine ⟨h.toDeadlines.of_pops ht hu, fun hst s parent hr hsec => ?_, fun hst => ?_⟩
  · exact h.window (hs ▸ hst) s parent (ht _ s hr) (hp ▸ hsec)
  · rw [hs, hc] at hst
    exact hl (h.reported hst)

/-! ## The handlers -/

theorem inBudget_sendUpReq (h : Deadlines G A p) (tid : TreeId)
    (hs : p.psessions.second.isSome) : (p.sendUpReq tid).InBudget G A := by
  obtain ⟨parent, hp⟩ := Option.isSome_iff_exists.mp hs
  rw [sendUpReq_of_some tid hp]
  refine ⟨⟨h.mktree, h.ack, h.resp, h.upto⟩, fun hst => ?_, fun _ => ?_⟩
  · cases hst
  · exact sentIn_sendUpReq

theorem inBudget_broadcast (h : Deadlines G A p) (depth : Nat) (tid : TreeId)
    (hf : p.fault = none) {parent : Session} (hp : p.psessions.second = some parent)
    (htime : p.now + treeTime parent.depth < A)
    (hok : (p.broadcastCommitReq depth tid).fault = none) :
    (p.broadcastCommitReq depth tid).InBudget G A := by
  cases hc : p.timers .creqmsg with
  | some s =>
    rw [(broadcast_of_some tid depth hc).1] at hok
    cases hok
  | none =>
    rw [broadcast_of_none tid depth hf hc]
    unfold treeTime at htime
    refine ⟨⟨fun s hs => h.mktree s (by simpa using hs), fun s hs => h.ack s (by simpa using hs),
      fun s hs => ?_, h.upto⟩, fun _ s parent' hs hp' => ?_, fun hst => ?_⟩
    · obtain rfl : (⟨p.now + timeoutresp, p.seq + 1⟩ : Stamp) = s := by simpa using hs
      show p.now + timeoutresp < A
      omega
    · obtain rfl : (⟨p.now + timeoutresp, p.seq + 1⟩ : Stamp) = s := by simpa using hs
      obtain rfl := Option.some.inj (hp.symm.trans hp')
      show p.now + timeoutresp + updateTime parent.depth < A
      omega
    · rcases hst with hst | ⟨hst, -⟩ <;> cases hst

/-- A prover without a parent becomes root. -/
theorem inBudget_root (h : Deadlines G A p) (c : Choice) (tid : TreeId) (hf : p.fault = none)
    (hs : p.status ≠ .ATTESTING) (hfirst : p.psessions.first = NOID)
    (htime : p.maxchildren ≠ 0 → p.now + treeTime p.cfg.maxdepth < A)
    (hok : (p.sendCommitReq c tid).fault = none) : (p.sendCommitReq c tid).InBudget G A := by
  have hroot : (p.startTree c.treeID).Deadlines G A := h.of_pops (fun _ _ h => h) fun _ h => h
  by_cases hm : p.maxchildren = 0
  · rw [sendCommitReq_leaf tid c hs hm]
    exact inBudget_sendUpReq hroot _ rfl
  · rw [sendCommitReq_root tid c hs hm hfirst] at hok ⊢
    exact inBudget_broadcast hroot _ _ hf rfl (htime hm) hok

theorem keys_ne_nil {c : Uid} (h : c ∈ p.csessions) : p.csessions.keys ≠ [] := fun he =>
  not_mem_of_keys_nil he c h

theorem InBudget.creqmsg (h : p.InBudget G A) (c : Choice) :
    ((p.cancelEvent .creqmsg).onTimer .creqmsg c).InBudget G A := by
  refine h.congr rfl rfl rfl (fun t s hs => ?_) (fun _ hu => hu) id
  simp only [onTimer, Prover.cancelEvent, Function.update_apply] at hs
  split at hs
  · cases hs
  · exact hs

/-- The window closes. -/
theorem InBudget.respTimeOut (h : p.InBudget G A) (ha : p.Active True) {s : Stamp}
    (ht : p.timers .cresptomsg = some s) :
    (p.cancelEvent .cresptomsg).handleCommitRespTimeOut.InBudget G A := by
  have hd := h.toDeadlines.cancelEvent .cresptomsg
  have hclosed : (p.cancelEvent .cresptomsg).closeWindow.Deadlines G A :=
    hd.of_pops (fun _ _ h => h) fun _ h => h
  cases ha with
  | creating _ ho =>
    by_cases hlen : p.csessions.keys.length = 1
    · rw [handleCommitRespTimeOut_last (p := p.cancelEvent .cresptomsg) hlen]
      exact inBudget_sendUpReq hclosed _ ho.second
    · rw [handleCommitRespTimeOut_open (p := p.cancelEvent .cresptomsg) hlen]
      refine ⟨hclosed, fun hst => ?_, fun hst => ?_⟩
      · cases hst
      · rcases hst with hst | ⟨-, hkeys⟩
        · cases hst
        · exact absurd hkeys (keys_ne_nil ho.window)
  | ghost _ hs hns =>
    have hlen : p.csessions.keys.length ≠ 1 := by
      rw [hns.children]
      decide
    have hrep : SentIn p.log :=
      h.reported (hs.imp_right fun hst => ⟨hst, hns.children⟩)
    rw [handleCommitRespTimeOut_open (p := p.cancelEvent .cresptomsg) hlen]
    refine ⟨hclosed, fun hst => ?_, fun _ => ?_⟩
    · cases hst
    · exact (sentIn_cons (by simp) (by simp)).mpr hrep
  | checking _ _ hsch => exact (absurd_off ht hsch.crespto).elim
  | ready _ _ hsch => exact (absurd_off ht hsch.crespto).elim
  | attesting _ _ hsch => exact (absurd_off ht hsch.crespto).elim
  | attestingCreating _ _ hsch => exact (absurd_off ht hsch.crespto).elim
  | collecting _ _ _ hsch => exact (absurd_off ht hsch.crespto).elim
  | done _ _ hsch => exact (absurd_off ht hsch.crespto).elim

/-- A timer goes off; one that makes the prover root after a failed join must leave time. -/
theorem InBudget.timer (h : p.InBudget G A) (ha : p.Active True)
    (hGA : G + treeTime p.cfg.maxdepth < A) {t : Timer} {s : Stamp} (c : Choice)
    (hf : p.fault = none) (ht : p.timers t = some s) (hn : p.Next s p.now) (hno : ¬ t.Outer)
    (hlate : t = .cacktomsg → p.status = .ATTESTING_CREATING → p.maxchildren ≠ 0 →
      p.now + treeTime p.cfg.maxdepth < A)
    (hok : ((p.cancelEvent t).onTimer t c).fault = none) :
    ((p.cancelEvent t).onTimer t c).InBudget G A := by
  have hd := h.toDeadlines.cancelEvent t
  cases t with
  | startmsg => exact absurd (.inl rfl) hno
  | attesttimer => exact absurd (.inr rfl) hno
  | checkdelaymsg =>
    change (p.cancelEvent .checkdelaymsg).checkSoftConfig.InBudget G A
    have hready : (p.cancelEvent .checkdelaymsg).checkSoftConfig.Deadlines G A :=
      hd.of_pops (fun _ _ h => h) fun _ h => h
    exact inBudget_of_waiting hready (by simp [checkSoftConfig]) (by simp [checkSoftConfig])
      (by simp [checkSoftConfig])
  | mktreetimer =>
    change ((p.cancelEvent .mktreetimer).sendCommitReq c NOID).fault = none at hok
    change ((p.cancelEvent .mktreetimer).sendCommitReq c NOID).InBudget G A
    cases ha with
    | checking _ _ hsch hb =>
      obtain ⟨a, ha⟩ := Option.isSome_iff_exists.mp hsch.check
      exact absurd (hb a s ha ht) (hn.not_before ha)
    | ready hs hns =>
      have hdue := h.mktree s ht
      have hnow := hn.1
      refine inBudget_root hd c NOID hf (fun he => ?_) ?_ (fun _ => ?_) hok
      · cases he.symm.trans hs
      · show p.psessions.first = NOID
        rw [hns.parent]
      · show p.now + treeTime p.cfg.maxdepth < A
        omega
    | attesting hs =>
      rw [sendCommitReq_attesting (p := p.cancelEvent .mktreetimer) NOID c hs]
      exact inBudget_of_waiting (hd.of_pops (fun _ _ h => h) fun _ h => h) (by simp) (by simp)
        (by simp)
    | attestingCreating _ _ hsch => exact (absurd_off ht hsch.mktree).elim
    | creating _ _ hsch => exact (absurd_off ht hsch.mktree).elim
    | collecting _ _ _ hsch => exact (absurd_off ht hsch.mktree).elim
    | done _ _ hsch => exact (absurd_off ht hsch.mktree).elim
    | ghost _ _ _ hsch => exact (absurd_off ht hsch.mktree).elim
  | creqmsg => exact h.creqmsg c
  | cacktomsg =>
    change ((p.cancelEvent .cacktomsg).handleCommitAckTimeOut c).fault = none at hok
    change ((p.cancelEvent .cacktomsg).handleCommitAckTimeOut c).InBudget G A
    cases ha with
    | attesting hs hans =>
      have hne : (p.cancelEvent .cacktomsg).status ≠ .ATTESTING_CREATING := fun he => by
        cases he.symm.trans hs
      rw [handleCommitAckTimeOut_ready (p := p.cancelEvent .cacktomsg) c hans.device hne]
      exact inBudget_of_waiting (hd.of_pops (fun _ _ h => h) fun _ h => h) (by simp) (by simp)
        (by simp)
    | attestingCreating hs hans =>
      rw [handleCommitAckTimeOut_creating (p := p.cancelEvent .cacktomsg) c hans.device hs]
        at hok ⊢
      exact inBudget_root (p := { p.cancelEvent .cacktomsg with psessions := {}, status := .CREATING })
        (hd.of_pops (fun _ _ h => h) fun _ h => h) c NOID hf (by simp) rfl (hlate rfl hs) hok
    | checking _ _ hsch => exact (absurd_off ht hsch.cackto).elim
    | ready _ _ hsch => exact (absurd_off ht hsch.cackto).elim
    | creating _ _ hsch => exact (absurd_off ht hsch.cackto).elim
    | collecting _ _ _ hsch => exact (absurd_off ht hsch.cackto).elim
    | done _ _ hsch => exact (absurd_off ht hsch.cackto).elim
    | ghost _ _ _ hsch => exact (absurd_off ht hsch.cackto).elim
  | cresptomsg => exact h.respTimeOut ha ht

/-- While a timer is scheduled the time it is due has not passed. -/
theorem NoneBefore.le {time : Nat} (h : p.NoneBefore time) {t : Timer} {s : Stamp}
    (ht : p.timers t = some s) : time ≤ s.due :=
  h s (mem_pending_timer ht)

theorem InBudget.commitReq (h : p.InBudget G A) (ha : p.Active True)
    (hnone : p.NoneBefore p.now) {m : CommitReq} (hok : (p.handleCommitReq m).fault = none) :
    (p.handleCommitReq m).InBudget G A := by
  rcases handleCommitReq_cases (p := p) m with he | ⟨sess, ⟨hs, -⟩, he⟩
  · rw [he]
    exact h
  · rw [he] at hok ⊢
    cases hk : p.timers .cacktomsg with
    | some s =>
      rw [(sendCommitResp_of_some (p := { p with psessions := ⟨m.source, some sess⟩ })
        m.treeID sess m.source hk).1] at hok
      cases hok
    | none =>
      -- a prover that is `READY` has its gather timer scheduled
      have hmk : ∃ s, p.timers .mktreetimer = some s := by
        cases ha with
        | ready _ _ hsch => exact Option.isSome_iff_exists.mp hsch.mktree
        | checking hs' => cases hs.symm.trans hs'
        | attesting hs' => cases hs.symm.trans hs'
        | attestingCreating hs' => cases hs.symm.trans hs'
        | creating hs' => cases hs.symm.trans hs'
        | collecting hs' => cases hs.symm.trans hs'
        | done hs' => cases hs.symm.trans hs'
        | ghost _ hs' => rcases hs' with hs' | hs' <;> cases hs.symm.trans hs'
      obtain ⟨g, hg⟩ := hmk
      have hle := hnone.le hg
      have hG := h.mktree g hg
      rw [sendCommitResp_of_none (p := { p with psessions := ⟨m.source, some sess⟩ }) _ _ _ hk]
      refine inBudget_of_waiting ⟨fun s hs => h.mktree s (by simpa using hs), fun s hs => ?_,
        fun s hs => h.resp s (by simpa using hs), h.upto⟩ (by simp) (by simp) (by simp)
      obtain rfl : (⟨p.now + timeoutack, p.seq + 1⟩ : Stamp) = s := by simpa using hs
      show p.now + timeoutack ≤ G + timeoutack
      omega

/-- The update timer of a new child goes off before the next round starts. -/
theorem InBudget.accept (h : p.InBudget G A) (ha : p.Active True)
    (hnone : p.NoneBefore p.now) {m : CommitResp} {parent : Session} (hans : p.Answers m)
    (hp : p.psessions.second = some parent) (hd : 1 ≤ parent.depth) :
    ((p.admitChild m).sendCommitAck m.source m.treeID (childSession m)).Deadlines G A ∧
      ((p.admitChild m).sendCommitAck m.source m.treeID (childSession m)).InBudget G A := by
  obtain ⟨ho, hsch⟩ := ha.of_creating hans.status
  obtain ⟨r, hr⟩ := Option.isSome_iff_exists.mp hsch.crespto
  have hle := hnone.le hr
  have hwin := h.window hans.status r parent hr hp
  have hdelay : upTimeOutDelay parent = updateTime parent.depth := by
    unfold upTimeOutDelay updateTime subUnsigned
    rw [if_pos hd]
  rw [sendCommitAck_of_some (p := p.admitChild m) m.treeID m.source _ hp]
  have hdl : Deadlines G A { p.admitChild m with
      outbox := ((p.admitChild m).prepare (.commitAck
        ((p.admitChild m).ackMsg m.source m.treeID (childSession m)))).outbox
      macdelays := []
      uptos := (p.admitChild m).uptos ++
        [(⟨(p.admitChild m).now + upTimeOutDelay parent, (p.admitChild m).seq + 1⟩,
          ⟨m.source, m.treeID⟩)]
      csessions := (p.admitChild m).csessions.insert m.source
        { childSession m with tomsg := some ((p.admitChild m).seq + 1) }
      seq := (p.admitChild m).seq + 2
      log := .ack m.source :: .depthSub parent.depth :: (p.admitChild m).log } := by
    refine ⟨h.mktree, h.ack, h.resp, fun u hu => ?_⟩
    rcases List.mem_append.mp hu with hu | hu
    · exact h.upto u hu
    · rw [List.mem_singleton.mp hu]
      show p.now + upTimeOutDelay parent < A
      omega
  refine ⟨hdl, hdl, fun _ => h.window hans.status, fun hst => ?_⟩
  rcases hst with hst | ⟨hst, -⟩
  · cases hst.symm.trans hans.status
  · cases hst.symm.trans hans.status

theorem InBudget.commitResp (h : p.InBudget G A) (ha : p.Active True) (hf : p.fault = none)
    (hnone : p.NoneBefore p.now)
    (hd : ∀ s, p.psessions.second = some s → 1 ≤ s.depth) {m : CommitResp}
    (hok : (p.handleCommitResp m).fault = none) : (p.handleCommitResp m).InBudget G A := by
  have hcase := handleCommitResp_cases hf m
  generalize p.handleCommitResp m = p' at hok hcase ⊢
  cases hcase with
  | ignored => exact h
  | unverified => exact h.congr rfl rfl rfl (fun _ _ h => h) (fun _ h => h) id
  | null _ _ hnull =>
    rw [hnull] at hok
    cases hok
  | more hans hp he =>
    rw [he]
    exact (h.accept ha hnone hans hp (hd _ hp)).2
  | full hans hp he =>
    have hdl := (h.accept ha hnone hans hp (hd _ hp)).1
    have hin : m.source ∈ ((p.admitChild m).sendCommitAck m.source m.treeID
        (childSession m)).csessions := by
      rw [sendCommitAck_of_some (p := p.admitChild m) m.treeID m.source _ hp]
      exact (AList.mem_insert _).mpr (.inl rfl)
    have hclosed : ((p.admitChild m).sendCommitAck m.source m.treeID
        (childSession m)).closeWindow.Deadlines G A := hdl.of_pops (fun _ _ h => h) fun _ h => h
    rw [he]
    refine ⟨hclosed.cancelEvent _, fun hst => ?_, fun hst => ?_⟩
    · cases hst
    · rcases hst with hst | ⟨-, hkeys⟩
      · cases hst
      · exact absurd hkeys (keys_ne_nil hin)

/-- An ack that makes the prover broadcast must leave time, unless its gather timer is still
scheduled. -/
theorem InBudget.commitAck (h : p.InBudget G A) (ha : p.Active True)
    (hGA : G + treeTime p.cfg.maxdepth < A) (c : Choice) (hf : p.fault = none)
    (hnone : p.NoneBefore p.now)
    (hd : ∀ s, p.psessions.second = some s → s.depth ≤ p.cfg.maxdepth) {m : CommitAck}
    (hsrc : m.source ≠ NOID)
    (hlate : ∀ parent, p.Acked m parent → ¬ p.Leaf parent → p.status ≠ .ATTESTING →
      p.now + treeTime parent.depth < A)
    (hok : (p.handleCommitAck c m).fault = none) : (p.handleCommitAck c m).InBudget G A := by
  have hvalid : ∀ parent, ((p.queueMacDelay (.commitAck m)).validateParent parent).Deadlines G A :=
    fun parent => ((h.toDeadlines.cancelEvent .mktreetimer).cancelEvent .cacktomsg).of_pops
      (fun _ _ h => h) fun _ h => h
  have hcase := handleCommitAck_cases (p := p) c m
  generalize p.handleCommitAck c m = p' at hok hcase ⊢
  cases hcase with
  | ignored => exact h
  | unverified => exact h.congr rfl rfl rfl (fun _ _ h => h) (fun _ h => h) id
  | null => cases hok
  | @leaf parent =>
    exact inBudget_sendUpReq (p := { (p.queueMacDelay (.commitAck m)).validateParent parent with
      status := .FINISHED }) ((hvalid parent).of_pops (fun _ _ h => h) fun _ h => h) _ rfl
  | @inner parent hacked hl =>
    have hfirst : p.psessions.first ≠ NOID := by
      rw [hacked.source]
      exact hsrc
    have hm : p.maxchildren ≠ 0 := fun h0 => hl (.inr h0)
    have htime : p.now + treeTime parent.depth < A := by
      by_cases hs : p.status = .ATTESTING
      · obtain ⟨g, hg⟩ : ∃ s, p.timers .mktreetimer = some s := by
          cases ha with
          | attesting _ _ hsch => exact Option.isSome_iff_exists.mp hsch.mktree
          | ready hs' => cases hs.symm.trans hs'
          | checking hs' => cases hs.symm.trans hs'
          | attestingCreating hs' => cases hs.symm.trans hs'
          | creating hs' => cases hs.symm.trans hs'
          | collecting hs' => cases hs.symm.trans hs'
          | done hs' => cases hs.symm.trans hs'
          | ghost _ hs' => rcases hs' with hs' | hs' <;> cases hs.symm.trans hs'
        have hle := hnone.le hg
        have hG := h.mktree g hg
        have hmono := treeTime_mono (hd parent hacked.second)
        omega
      · exact hlate parent hacked hl hs
    rw [sendCommitReq_inner (p := { (p.queueMacDelay (.commitAck m)).validateParent parent with
      status := .CREATING }) m.treeID c (fun h => by cases h) hm hfirst rfl] at hok ⊢
    have hq : Deadlines G A ({ (p.queueMacDelay (.commitAck m)).validateParent parent with
        status := .CREATING }.record (.depthSub parent.depth)) :=
      (hvalid parent).of_pops (fun _ _ h => h) fun _ h => h
    exact inBudget_broadcast hq _ _ hf rfl htime hok

/-- The session of a child is closed, and it is not the last. -/
theorem InBudget.close (h : p.InBudget G A) (ha : p.Active True) {c : Uid}
    (hc : c ∈ p.csessions) (hne : c ≠ NOID) (hs : p'.status = p.status)
    (hp : p'.psessions = p.psessions) (hcs : p'.csessions = p.csessions.erase c)
    (ht : p'.timers = p.timers) (hu : ∀ u ∈ p'.uptos, u ∈ p.uptos) : p'.InBudget G A := by
  obtain ⟨ho, hphase⟩ := ha.opened hc
  have hwin : NOID ∈ p'.csessions := by
    rw [hcs]
    exact AList.mem_erase.mpr ⟨hne.symm, ho.window⟩
  refine ⟨h.toDeadlines.of_pops (fun t s hs => ht ▸ hs) hu, fun hst s parent hr hsec => ?_,
    fun hst => ?_⟩
  · exact h.window (hs ▸ hst) s parent (ht ▸ hr) (hp ▸ hsec)
  · rw [hs] at hst
    rcases hst with hst | ⟨-, hkeys⟩
    · rcases hphase with ⟨hst', -⟩ | ⟨hst', -⟩ <;> cases hst.symm.trans hst'
    · exact absurd hkeys (keys_ne_nil hwin)

theorem InBudget.upReq (h : p.InBudget G A) (ha : p.Active True) {m : UpdateReq}
    (hsrc : m.source ≠ NOID) (hok : (p.handleUpReq m).fault = none) :
    (p.handleUpReq m).InBudget G A := by
  have hsub : ∀ child, ∀ u ∈ (p.merged m child).uptos, u ∈ p.uptos := fun _ _ hu =>
    (List.mem_filter.mp hu).1
  have hcase := handleUpReq_cases (p := p) m
  generalize p.handleUpReq m = p' at hok hcase ⊢
  cases hcase with
  | forward =>
    exact h.congr rfl rfl rfl (fun _ _ h => h) (fun _ h => h) fun hl =>
      (sentIn_cons (by simp) (by simp)).mpr ((sentIn_cons (by simp) (by simp)).mpr hl)
  | redirect =>
    exact h.congr rfl rfl rfl (fun _ _ h => h) (fun _ h => h) fun hl =>
      (sentIn_cons (by simp) (by simp)).mpr ((sentIn_cons (by simp) (by simp)).mpr hl)
  | ignored =>
    exact h.congr rfl rfl rfl (fun _ _ h => h) (fun _ h => h) (sentIn_cons (by simp) (by simp)).mpr
  | unverified =>
    exact h.congr rfl rfl rfl (fun _ _ h => h) (fun _ h => h) (sentIn_cons (by simp) (by simp)).mpr
  | null => cases hok
  | array => cases hok
  | @last child _ hm =>
    have hmerged : (p.merged m child).Deadlines G A :=
      h.toDeadlines.of_pops (fun _ _ h => h) (hsub child)
    exact inBudget_sendUpReq hmerged _ (Option.isSome_of_eq_some hm.second)
  | @more child _ hm =>
    have hin : m.source ∈ p.csessions :=
      AList.lookup_isSome.mp (Option.isSome_of_eq_some hm.sender)
    exact h.close ha hin hsrc rfl rfl rfl rfl (hsub child)

theorem InBudget.updateTimeOut (h : p.InBudget G A) (ha : p.Active True) (hl : p.Linked)
    {u : Stamp × CommitTimeOut} {k : Nat} (hu : p.uptos.find? (·.1.seq = k) = some u) :
    ((p.popUpto k).handleUpdateTimeOut u.2).InBudget G A := by
  obtain ⟨hne, s, hsess, -⟩ := hl.upto u (List.mem_of_find?_eq_some hu)
  have hin : u.2.device ∈ p.csessions := AList.lookup_isSome.mp (Option.isSome_of_eq_some hsess)
  have hsub : ∀ v ∈ (p.popUpto k).uptos, v ∈ p.uptos := fun _ hv => (List.mem_filter.mp hv).1
  by_cases hlen : (p.csessions.erase u.2.device).keys.length = 1
  · rw [handleUpdateTimeOut_last (p := p.popUpto k) hlen]
    have hfin : Deadlines G A { (p.popUpto k).timedOut u.2 with status := .FINISHED } :=
      h.toDeadlines.of_pops (fun _ _ h => h) hsub
    exact inBudget_sendUpReq hfin _ (ha.opened hin).1.second
  · rw [handleUpdateTimeOut_more (p := p.popUpto k) hlen]
    exact h.close ha hin hne rfl rfl rfl rfl hsub

/-! ## Rounds -/

/-- A request carries a depth that provers send. -/
def SentDepth (maxdepth : Nat) : Act → Prop
  | .recv (.commitReq m) _ => 1 ≤ m.depth ∧ m.depth ≤ maxdepth
  | _ => True

/-- The next round starts later than `treeTime depth` after the event. -/
def Leaves (depth : Nat) (e : Event) (p : Prover) : Prop :=
  ∀ a, p.timers .attesttimer = some a → e.time + treeTime depth < a.due

/-- Where the prover broadcasts and its gather timer has gone off before, there is time for
the tree: after an ack timeout in `ATTESTING_CREATING`, and for an ack that is not awaited
in `ATTESTING`. -/
structure Punctual (e : Event) (p : Prover) : Prop where
  source : RealSource e.act
  depth : SentDepth p.cfg.maxdepth e.act
  timeout : ∀ c, e.act = .timer .cacktomsg c → p.status = .ATTESTING_CREATING →
    p.maxchildren ≠ 0 → p.Leaves p.cfg.maxdepth e
  ack : ∀ m c parent, e.act = .recv (.commitAck m) c → p.Acked m parent → ¬ p.Leaf parent →
    p.status ≠ .ATTESTING → p.Leaves parent.depth e

/-- A round is in its budget. -/
structure Timely (p : Prover) : Prop where
  once : p.Once True
  depths : ∀ s, p.psessions.second = some s → 1 ≤ s.depth ∧ s.depth ≤ p.cfg.maxdepth
  startmsg : .start ∈ p.log → p.timers .startmsg = none
  budget : .start ∈ p.log → ∃ G a, p.timers .attesttimer = some a ∧
    G + treeTime p.cfg.maxdepth < a.due ∧ p.InBudget G a.due

/-- The event leaves the budget of the round as it is. -/
theorem InBudget.live {e : Event} {a : Stamp} (h : p.InBudget G a.due) (ho : p.Once True)
    (hst : .start ∈ p.log) (hdepth : ∀ s, p.psessions.second = some s →
      1 ≤ s.depth ∧ s.depth ≤ p.cfg.maxdepth)
    (ha : p.timers .attesttimer = some a) (hGA : G + treeTime p.cfg.maxdepth < a.due)
    (hpun : p.Punctual e) (hno : ¬ StartsAttestation e.act) (hf : p.fault = none)
    (hl : p.Live e p') (hok : p'.fault = none) : p'.InBudget G a.due := by
  have hnow : (p.atTime e.time).InBudget G a.due :=
    h.congr rfl rfl rfl (fun _ _ h => h) (fun _ h => h) id
  have hact : (p.atTime e.time).Active True :=
    (ho.phase.resolve_left fun hi => hi.log _ hst).2.congr rfl rfl rfl (fun _ _ => rfl) rfl rfl
  cases hl with
  | @timer t c s he ht hn =>
    have houter : ¬ t.Outer := by
      rintro (rfl | rfl)
      · exact hno (he ▸ trivial)
      · exact hno (he ▸ trivial)
    refine hnow.timer hact hGA c hf ht hn houter (fun htc hs hm => ?_) hok
    subst htc
    exact hpun.timeout c he hs hm a ha
  | @upto k u he hu =>
    have hlink : (p.atTime e.time).Linked := ho.linked.congr rfl (Nat.le_refl _) fun _ _ => rfl
    exact hnow.updateTimeOut hact hlink hu
  | @self k c o =>
    obtain ⟨out, he⟩ := onSelf_eq (p := (p.atTime e.time).popOutbox k) o.2 c
    rw [he]
    exact h.congr rfl rfl rfl (fun _ _ h => h) (fun _ h => h) id
  | @recv m c he hnone =>
    have hsrc : m.source ≠ NOID := by
      have := hpun.source
      rwa [he] at this
    cases m with
    | commitReq m => exact hnow.commitReq hact hnone hok
    | commitResp m => exact hnow.commitResp hact hf hnone (fun s hs => (hdepth s hs).1) hok
    | commitAck m =>
      refine hnow.commitAck hact hGA c hf hnone (fun s hs => (hdepth s hs).2) hsrc
        (fun parent hacked hleaf hs => ?_) hok
      exact hpun.ack m c parent he { hacked with } hleaf hs a ha
    | updateReq m => exact hnow.upReq hact hsrc hok

/-- **The end of a round**: when the next one starts nothing of it is still going on, and
the prover has reported. -/
theorem InBudget.finished {a : Stamp} {time : Nat} (h : p.InBudget G a.due) (ha : p.Active True)
    (hl : p.Linked) (hGA : G + treeTime p.cfg.maxdepth < a.due) (hn : p.Next a time) :
    SentIn p.log ∧ p.uptos = [] ∧ p.timers .cacktomsg = none ∧ p.timers .cresptomsg = none := by
  have hpast : ∀ s ∈ p.pending, ¬ s.due < a.due := fun s hs hlt => hn.2 s hs (.inl hlt)
  have hG : G < a.due := Nat.lt_of_le_of_lt (Nat.le_add_right _ _) hGA
  have hack : G + timeoutack < a.due := by
    have hpos : timeoutack ≤ treeTime p.cfg.maxdepth :=
      Nat.le_trans (by decide : timeoutack ≤ timeoutresp) (Nat.le_add_right _ _)
    omega
  have hmktree : ∀ s, p.timers .mktreetimer = some s → False := fun s hs =>
    hpast s (mem_pending_timer hs) (Nat.lt_of_le_of_lt (h.mktree s hs) hG)
  have hcackto : ∀ s, p.timers .cacktomsg = some s → False := fun s hs =>
    hpast s (mem_pending_timer hs) (Nat.lt_of_le_of_lt (h.ack s hs) hack)
  have hcrespto : ∀ s, p.timers .cresptomsg = some s → False := fun s hs =>
    hpast s (mem_pending_timer hs) (h.resp s hs)
  have hupto : p.uptos = [] := List.eq_nil_iff_forall_not_mem.mpr fun u hu =>
    hpast u.1 (mem_pending_upto hu) (h.upto u hu)
  have hoff : ∀ {t : Timer}, (∀ s, p.timers t = some s → False) → p.timers t = none := fun hno =>
    Option.eq_none_iff_forall_not_mem.mpr hno
  refine ⟨?_, hupto, hoff hcackto, hoff hcrespto⟩
  have hon : ∀ {t : Timer}, (p.timers t).isSome = true → (∀ s, p.timers t = some s → False) →
      SentIn p.log := fun hs hno => by
    obtain ⟨s, hs⟩ := Option.isSome_iff_exists.mp hs
    exact (hno s hs).elim
  cases ha with
  | checking _ _ hsch => exact hon hsch.mktree hmktree
  | ready _ _ hsch => exact hon hsch.mktree hmktree
  | attesting _ _ hsch => exact hon hsch.mktree hmktree
  | attestingCreating _ _ hsch => exact hon hsch.cackto hcackto
  | creating _ _ hsch => exact hon hsch.crespto hcrespto
  | collecting _ _ hc =>
    obtain ⟨c, hc, hne⟩ := hc
    obtain ⟨s, hs⟩ := Option.isSome_iff_exists.mp (AList.lookup_isSome.mpr hc)
    obtain ⟨u, hu, -⟩ := hl.child c s hne hs
    rw [hupto] at hu
    cases hu
  | done hs => exact h.reported (.inl hs)
  | ghost _ hs hn => exact h.reported (hs.imp_right fun hs => ⟨hs, hn.children⟩)

/-- `startmsg` has gone off and `attesttimer` is scheduled, or the other way round. -/
theorem Timely.starts (h : p.Timely) {t : Timer} {a : Stamp} (ht : p.timers t = some a)
    (hout : t.Outer) :
    t = .startmsg ∧ p.Idle ∨ t = .attesttimer ∧ .start ∈ p.log ∧ p.Active True := by
  rcases h.once.phase with hi | ⟨hst, ha⟩
  · refine .inl ⟨hout.resolve_right fun he => ?_, hi⟩
    rw [he, hi.timers .attesttimer (by decide)] at ht
    cases ht
  · refine .inr ⟨hout.resolve_left fun he => ?_, hst, ha⟩
    rw [he, h.startmsg hst] at ht
    cases ht

/-- A round starts in its budget. -/
theorem timely_startAttestation (hd : 1 ≤ p.cfg.maxdepth)
    (hh : (timeoutresp + timeoutack) * p.cfg.maxdepth + timeoutup ≤ p.cfg.deltah)
    (hu : p.uptos = []) (hk : p.timers .cacktomsg = none) (hr : p.timers .cresptomsg = none)
    (hstart : p.timers .startmsg = none) (c : Choice) (hc : c.delay ≤ p.cfg.deltag)
    (hf : p.fault = none) (hok : (p.startAttestation c).fault = none) :
    (p.startAttestation c).Timely := by
  have honce : (p.startAttestation c).Once True := once_startAttestation hu hk hr c hf hok
  obtain ⟨h1, h2, h3⟩ := timers_of_startAttestation c hf hok
  rw [startAttestation_of_none c hf h1 h2 h3] at honce ⊢
  refine ⟨honce, fun s hs => (by cases hs), fun _ => ?_, fun _ => ?_⟩
  · simpa using hstart
  · refine ⟨p.now + checkFirmwareDelay p.cfg.device + p.cfg.deltag,
      ⟨p.now + p.cfg.deltah, p.seq⟩, by simp, gather_before_end hd hh p.now, ?_⟩
    refine inBudget_of_waiting ⟨fun s hs => ?_, fun s hs => ?_, fun s hs => ?_, fun u hmem => ?_⟩
      (by simp) (by simp) (by simp)
    · obtain rfl : (⟨p.now + (checkFirmwareDelay p.cfg.device + c.delay), p.seq + 2⟩ : Stamp) = s :=
        by simpa using hs
      show p.now + (checkFirmwareDelay p.cfg.device + c.delay) ≤ _
      omega
    · simp [hk] at hs
    · simp [hr] at hs
    · rw [show _ = p.uptos from rfl, hu] at hmem
      cases hmem

/-- The prover has what it takes for its round. -/
def Roomy (cfg : Config) : Prop :=
  1 ≤ cfg.maxdepth ∧ (timeoutresp + timeoutack) * cfg.maxdepth + timeoutup ≤ cfg.deltah

/-- **One event** keeps the round in its budget. -/
theorem timely_step {e : Event} (hroom : Roomy p.cfg) (h : Alive Timely p) (hpun : p.Punctual e)
    (hs : step e p = some p') : Alive Timely p' := by
  intro hf' hc'
  obtain ⟨hf, hc⟩ := step_alive hs hc'
  have ht := h hf hc
  obtain ⟨-, -, ⟨-, _, _, _, _, -, rfl⟩ | ⟨-, hl⟩⟩ := step_cases hs
  · cases hc'
  by_cases hstart : StartsAttestation e.act
  · cases hl with
    | @timer t c a he hta hn hdelay =>
      have hout : t.Outer := by
        rw [he] at hstart
        cases t with
        | startmsg => exact .inl rfl
        | attesttimer => exact .inr rfl
        | checkdelaymsg => exact hstart.elim
        | mktreetimer => exact hstart.elim
        | creqmsg => exact hstart.elim
        | cacktomsg => exact hstart.elim
        | cresptomsg => exact hstart.elim
      let q := (p.atTime e.time).cancelEvent t
      have hpop : ∀ t' : Timer, p.timers t' = none → q.timers t' = none := fun t' hno => by
        simp [q, cancelEvent, atTime, Function.update_apply, hno]
      have hgo : p.uptos = [] → p.timers .cacktomsg = none → p.timers .cresptomsg = none →
          q.timers .startmsg = none → (q.startAttestation c).fault = none →
            (q.startAttestation c).Timely := fun hu hk hr hq hok =>
        timely_startAttestation (p := q) hroom.1 hroom.2 hu (hpop _ hk) (hpop _ hr) hq c hdelay hf
          hok
      rcases ht.starts hta hout with ⟨rfl, hi⟩ | ⟨rfl, hst, ha⟩
      · exact hgo hi.uptos (hi.timers _ (by decide)) (hi.timers _ (by decide))
          (by simp [q, cancelEvent]) hf'
      · obtain ⟨G, a', ha', hGA, hb⟩ := ht.budget hst
        obtain rfl := Option.some.inj (hta.symm.trans ha')
        obtain ⟨-, hu, hk, hr⟩ := hb.finished ha ht.once.linked hGA hn
        exact hgo hu hk hr (hpop _ (ht.startmsg hst)) hf'
    | upto he => exact (he ▸ hstart : StartsAttestation (.upto _)).elim
    | self he => exact (he ▸ hstart : StartsAttestation (.self _ _)).elim
    | recv he => exact (he ▸ hstart : StartsAttestation (.recv _ _)).elim
  · have houter := fun t hout => hl.outer_eq hf hf' hstart t hout
    have hcfg := step_cfg hs
    have hdepths : ∀ s, p'.psessions.second = some s → 1 ≤ s.depth ∧ s.depth ≤ p.cfg.maxdepth := by
      let P : ParentSession → Prop := fun ps =>
        ∀ s, ps.second = some s → 1 ≤ s.depth ∧ s.depth ≤ p.cfg.maxdepth
      have hrule : ParentRule p.cfg.maxdepth P := by
        refine ⟨fun s hs => (by cases hs), fun ps tid _ s hs => ?_, fun ps s hps hsec s' hs' => ?_⟩
        · obtain rfl := Option.some.inj hs
          exact ⟨hroom.1, Nat.le_refl _⟩
        · obtain rfl := Option.some.inj hs'
          exact hps s hsec
      refine ParentRule.live (P := P) hrule hf (fun m c sess he hj s hs => ?_) ht.depths hl
      obtain ⟨-, kid, -, rfl⟩ := hj
      obtain rfl := Option.some.inj hs
      have hdepth := hpun.depth
      rwa [he] at hdepth
    have hlog : .start ∈ p'.log → .start ∈ p.log := fun hst => by
      rcases ht.once.phase with hi | ⟨hst, -⟩
      · rcases hi.live hf hpun.source hl with hi' | ⟨hact, -⟩
        · exact (hi'.log _ hst).elim
        · exact absurd hact hstart
      · exact hst
    refine ⟨ht.once.step ⟨fun hact => absurd hact hstart, hpun.source⟩ (fun _ => trivial) hs hf' hc',
      by rw [hcfg]; exact hdepths, fun hst => ?_, fun hst => ?_⟩
    · rw [houter .startmsg (.inl rfl)]
      exact ht.startmsg (hlog hst)
    · obtain ⟨G, a, ha, hGA, hb⟩ := ht.budget (hlog hst)
      rw [hcfg, houter .attesttimer (.inr rfl)]
      exact ⟨G, a, ha, hGA, hb.live ht.once (hlog hst) ht.depths ha hGA hpun hstart hf hl hf'⟩

theorem timely_of_reaches {cfg : Config} {start : Nat} (hroom : Roomy cfg)
    (h : Runs.Reaches step (fun e p => p.Punctual e) (init cfg start) p) : Alive Timely p := by
  have hinv : Alive Timely p ∧ p.cfg = cfg := by
    refine h.invariant (I := fun p => Alive Timely p ∧ p.cfg = cfg) ⟨fun _ _ => ?_, rfl⟩ ?_
    · have hno : .start ∈ (init cfg start).log → False := fun hst => by
        cases hst
      exact ⟨once_init True cfg start, fun s hs => (by cases hs), fun hst => (hno hst).elim,
        fun hst => (hno hst).elim⟩
    · rintro e p p' ⟨ih, hcfg⟩ hpun hs
      exact ⟨timely_step (hcfg ▸ hroom) ih hpun hs, (step_cfg hs).trans hcfg⟩
  exact hinv.1

/-- **A prover reports in every round**: when `attesttimer` goes off at a prover that lives it
has executed `sendUpReq` since the last `startAttestation`, in every run whose steps are
`Punctual`. -/
theorem reported_in_time {cfg : Config} {start : Nat} (hd : 1 ≤ cfg.maxdepth)
    (hh : (timeoutresp + timeoutack) * cfg.maxdepth + timeoutup ≤ cfg.deltah)
    (h : Runs.Reaches step (fun e p => p.Punctual e) (init cfg start) p) {t : Nat} {c : Choice}
    (hs : step ⟨t, .timer .attesttimer c⟩ p = some p') (hc : p.crashed = false) :
    .sendUpReq ∈ since .start p.log := by
  obtain ⟨hf, -, ⟨hcr, -⟩ | ⟨-, hl⟩⟩ := step_cases hs
  · rcases hcr with hcr | hcr
    · cases hc.symm.trans hcr
    · cases hcr
  have ht := timely_of_reaches ⟨hd, hh⟩ h hf hc
  cases hl with
  | timer he hta hn =>
    obtain ⟨rfl, rfl⟩ : Timer.attesttimer = _ ∧ c = _ := by simpa using he
    rcases ht.starts hta (.inr rfl) with ⟨hno, -⟩ | ⟨-, hst, ha⟩
    · cases hno
    · obtain ⟨G, a, ha', hGA, hb⟩ := ht.budget hst
      obtain rfl := Option.some.inj (hta.symm.trans ha')
      exact (hb.finished ha ht.once.linked hGA hn).1
  | upto he => cases he
  | self he => cases he
  | recv he => cases he

end

/-! ## A late root -/

instance (maxdepth : Nat) : DecidablePred (SentDepth maxdepth)
  | .recv (.commitReq m) _ => inferInstanceAs (Decidable (1 ≤ m.depth ∧ m.depth ≤ maxdepth))
  | .recv (.commitResp _) _ => .isTrue trivial
  | .recv (.commitAck _) _ => .isTrue trivial
  | .recv (.updateReq _) _ => .isTrue trivial
  | .timer _ _ => .isTrue trivial
  | .upto _ => .isTrue trivial
  | .self _ _ => .isTrue trivial
  | .crash => .isTrue trivial

instance (depth : Nat) (e : Event) (p : Prover) : Decidable (p.Leaves depth e) :=
  decidable_of_iff ((p.timers .attesttimer).all fun a => e.time + treeTime depth < a.due) (by
    simp [Leaves, Option.all_eq_true])

/-- The prover joins at 3.9 s, its gather timer goes off at 3.96 s, no ack arrives, and it is
root from 7.9 s on; a child answers at the end of its window. -/
def lateRoot : List Event :=
  [⟨0, .timer .startmsg { delay := 2 * second }⟩,
   ⟨1960 * 10 ^ 9, .timer .checkdelaymsg {}⟩,
   ⟨3900 * 10 ^ 9, .recv (.commitReq ⟨3, 1, [5], 9⟩) {}⟩,
   ⟨3960 * 10 ^ 9, .timer .mktreetimer {}⟩,
   ⟨3967073604000, .self 4 {}⟩,
   ⟨7900 * 10 ^ 9, .timer .cacktomsg { treeID := 7 }⟩,
   ⟨7900 * 10 ^ 9, .timer .creqmsg {}⟩,
   ⟨19800 * 10 ^ 9, .recv (.commitResp ⟨2, 1, 5, 7, 0, 5⟩) {}⟩,
   ⟨19900 * 10 ^ 9, .timer .cresptomsg {}⟩,
   ⟨19933198816000, .self 8 {}⟩]

/-- After `lateRoot` the second round starts at 30 s; the child may report until 31.8 s. -/
theorem lateRoot_not_reported :
    ¬ ∀ (cfg : Config) (start : Nat) (p p' : Prover) (t : Nat) (c : Choice), 1 ≤ cfg.maxdepth →
      (timeoutresp + timeoutack) * cfg.maxdepth + timeoutup ≤ cfg.deltah →
      Runs.Reaches step (fun e p => RealSource e.act ∧ SentDepth p.cfg.maxdepth e.act)
        (init cfg start) p →
      step ⟨t, .timer .attesttimer c⟩ p = some p' → p.crashed = false →
        .sendUpReq ∈ since .start p.log := by
  intro h
  obtain ⟨p, hp, ht⟩ := Runs.exists_of_run step
    (fun e p => RealSource e.act ∧ SentDepth p.cfg.maxdepth e.act) lateRoot (init tightRound 0)
    (fun p => p.crashed = false ∧ .sendUpReq ∉ since .start p.log ∧
      (step ⟨30 * second, .timer .attesttimer { delay := 2 * second }⟩ p).isSome)
    (by decide +kernel)
  obtain ⟨hc, hno, hstep⟩ := of_decide_eq_true ht
  obtain ⟨p', hp'⟩ := Option.isSome_iff_exists.mp hstep
  exact hno (h tightRound 0 p p' _ _ (by decide) (by decide) hp hp' hc)

/-- A prover whose request is not acknowledged is root from 5.97 s on, so that the session of a
child that answers at the end of its window times out at 29.9 s. -/
theorem reported_in_time_root : ∃ p p' : Prover,
    step ⟨30 * second, .timer .attesttimer { delay := 2 * second }⟩ p = some p' ∧
      .sendUpReq ∈ since .start p.log := by
  let events : List Event :=
    [⟨0, .timer .startmsg { delay := 2 * second }⟩,
     ⟨1960 * 10 ^ 9, .timer .checkdelaymsg {}⟩,
     ⟨1970 * 10 ^ 9, .recv (.commitReq ⟨3, 1, [5], 9⟩) {}⟩,
     ⟨2037073604000, .self 4 {}⟩,
     ⟨3960 * 10 ^ 9, .timer .mktreetimer {}⟩,
     ⟨5970 * 10 ^ 9, .timer .cacktomsg { treeID := 7 }⟩,
     ⟨5970 * 10 ^ 9, .timer .creqmsg {}⟩,
     ⟨17900 * 10 ^ 9, .recv (.commitResp ⟨2, 1, 5, 7, 0, 5⟩) {}⟩,
     ⟨17970 * 10 ^ 9, .timer .cresptomsg {}⟩,
     ⟨18033198816000, .self 8 {}⟩,
     ⟨29900 * 10 ^ 9, .upto 9⟩,
     ⟨29973712348000, .self 10 {}⟩]
  have hack : ∀ e ∈ events, ∀ m c, e.act ≠ .recv (.commitAck m) c := by
    simp [events]
  obtain ⟨p, hp, ht⟩ := Runs.exists_of_run step (fun e p => e ∈ events ∧ RealSource e.act ∧
      SentDepth p.cfg.maxdepth e.act ∧
        (p.status ≠ .ATTESTING_CREATING ∨ p.Leaves p.cfg.maxdepth e)) events (init tightRound 0)
    (fun p => p.crashed = false ∧
      (step ⟨30 * second, .timer .attesttimer { delay := 2 * second }⟩ p).isSome)
    (by decide +kernel)
  obtain ⟨hc, hstep⟩ := of_decide_eq_true ht
  obtain ⟨p', hp'⟩ := Option.isSome_iff_exists.mp hstep
  have hpun : Runs.Reaches step (fun e p => p.Punctual e) (init tightRound 0) p :=
    hp.weaken fun e p hok => ⟨hok.2.1, hok.2.2.1,
      fun _ _ hst _ => hok.2.2.2.resolve_left fun hne => hne hst,
      fun m c _ he => absurd he (hack e hok.1 m c)⟩
  exact ⟨p, p', hp', reported_in_time (by decide) (by decide) hpun hp' hc⟩

end Prover

end Fadia
