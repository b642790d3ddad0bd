import Fadia.Proof.Charge
import Fadia.Proof.Budget

/-!
# No timer is scheduled twice

`scheduleAt` of a message that is scheduled ends the simulation.  `attesttimer`,
`checkdelaymsg` and `mktreetimer` are scheduled one behind the other and go off before the
next round (`Staggered`, `staggered_startAttestation`); every other handler but that of a
`CommitReq` spares them and `cacktomsg` (`Spares`, `spares_live`).  A `CommitReq` is answered
where the status is `READY`, and the firmware check ends there whatever `cacktomsg` is: while
no ack timeout is scheduled then, nothing is scheduled twice (`never_rescheduled`), and where
one is, the next request that is answered schedules it again (`lateJoin`).
-/

namespace Fadia

namespace Prover

/-- `scheduleAt` has found none but `creqmsg` scheduled: `sendCommitReq` sets `CREATING` before
it schedules `creqmsg`, and cancels `cresptomsg` right before that is scheduled; where the other
timers are scheduled, the status is another. -/
def OnlyRequest (p : Prover) : Prop :=
  p.fault = some .alreadyScheduled → p.status = .CREATING ∧ (p.timers .creqmsg).isSome

/-- The timers of a round go off before the next one. -/
structure Staggered (p : Prover) : Prop where
  ready : p.status = .READY → p.timers .cacktomsg = none
  check : ∀ a s, p.timers .attesttimer = some a → p.timers .checkdelaymsg = some s → s.due < a.due
  mktree : ∀ a s, p.timers .attesttimer = some a → p.timers .mktreetimer = some s → s.due < a.due
  start : ∀ s, p.timers .startmsg = some s → p.timers .attesttimer = none ∧
    p.timers .checkdelaymsg = none ∧ p.timers .mktreetimer = none

/-- A handler that schedules `creqmsg` and `cresptomsg` at most. -/
structure Spares (p p' : Prover) : Prop where
  timers : ∀ t : Timer, t ≠ .creqmsg → t ≠ .cresptomsg →
    ∀ s, p'.timers t = some s → p.timers t = some s
  ready : p'.status = .READY → p.status = .READY ∨ p'.timers .cacktomsg = none
  fault : p'.OnlyRequest

section
variable {p p' q : Prover}

theorem onlyRequest_of_none (h : p.fault = none) : p.OnlyRequest := fun hf => by
  cases h.symm.trans hf

theorem Spares.off (h : Spares p p') {t : Timer} (h1 : t ≠ .creqmsg) (h2 : t ≠ .cresptomsg)
    (hno : p.timers t = none) : p'.timers t = none := by
  refine Option.eq_none_iff_forall_ne_some.mpr fun s hs => ?_
  cases hno.symm.trans (h.timers t h1 h2 s hs)

theorem Spares.trans (h : Spares p q) (h' : Spares q p') : Spares p p' := by
  refine ⟨fun t h1 h2 s hs => h.timers t h1 h2 s (h'.timers t h1 h2 s hs), fun hst => ?_, h'.fault⟩
  rcases h'.ready hst with hq | hoff
  · exact (h.ready hq).imp_right (h'.off (by decide) (by decide))
  · exact .inr hoff

theorem Staggered.spared (h : p.Staggered) (hs : Spares p p') : p'.Staggered := by
  have hoff : ∀ {t : Timer}, t ≠ .creqmsg → t ≠ .cresptomsg → p.timers t = none →
      p'.timers t = none := fun h1 h2 hno => hs.off h1 h2 hno
  refine ⟨fun hst => ?_, fun a s ha hc => ?_, fun a s ha hm => ?_, fun s hstart => ?_⟩
  · rcases hs.ready hst with hst | hno
    · exact hoff (by decide) (by decide) (h.ready hst)
    · exact hno
  · exact h.check a s (hs.timers _ (by decide) (by decide) a ha)
      (hs.timers _ (by decide) (by decide) s hc)
  · exact h.mktree a s (hs.timers _ (by decide) (by decide) a ha)
      (hs.timers _ (by decide) (by decide) s hm)
  · obtain ⟨ha, hc, hm⟩ := h.start s (hs.timers _ (by decide) (by decide) s hstart)
    exact ⟨hoff (by decide) (by decide) ha, hoff (by decide) (by decide) hc,
      hoff (by decide) (by decide) hm⟩

/-! ## The handlers -/

theorem spares_of_eq (hs : p'.status = p.status) (ht : p'.timers = p.timers)
    (hf : p'.fault ≠ some .alreadyScheduled) : Spares p p' :=
  ⟨fun _ _ _ _ h => ht ▸ h, fun h => .inl (hs ▸ h), fun h => absurd h hf⟩

/-- Setting the status to another than `READY`. -/
theorem spares_status {st : Status} (hst : st ≠ .READY) (hf : p.fault = none) :
    Spares p { p with status := st } :=
  ⟨fun _ _ _ _ h => h, fun h => absurd h hst, onlyRequest_of_none hf⟩

theorem spares_cancelEvent (t : Timer) (hf : p.fault = none) : Spares p (p.cancelEvent t) := by
  refine ⟨fun t' _ _ s hs => ?_, fun h => .inl h, onlyRequest_of_none hf⟩
  simp only [cancelEvent, Function.update_apply] at hs
  split at hs
  · cases hs
  · exact hs

theorem spares_sendUpReq (tid : TreeId) (hf : p.fault = none) : Spares p (p.sendUpReq tid) := by
  cases hs : p.psessions.second with
  | none =>
    have hfields : (p.sendUpReq tid).status = p.status ∧ (p.sendUpReq tid).timers = p.timers := by
      simp [sendUpReq, hs, fail]
    refine spares_of_eq hfields.1 hfields.2 ?_
    rw [(sendUpReq_of_none tid hs).1]
    decide
  | some parent =>
    rw [sendUpReq_of_some tid hs]
    exact ⟨fun _ _ _ _ h => h, fun h => (by cases h), onlyRequest_of_none hf⟩

theorem spares_broadcast (depth : Nat) (tid : TreeId) (hf : p.fault = none) :
    Spares p (p.broadcastCommitReq depth tid) := by
  cases hc : p.timers .creqmsg with
  | some =>
    have he : p.broadcastCommitReq depth tid = { p with
        status := .CREATING
        creqDepth := depth
        creqTreeID := tid
        fault := some .alreadyScheduled } := by
      simp [broadcastCommitReq, scheduleAt, hc, andThen, fail]
    rw [he]
    exact ⟨fun _ _ _ _ h => h, fun h => (by cases h), fun _ => ⟨rfl, by simp [hc]⟩⟩
  | none =>
    rw [broadcast_of_none tid depth hf hc]
    refine ⟨fun t h1 h2 s hs => ?_, fun h => (by cases h), onlyRequest_of_none hf⟩
    simpa [h1, h2] using hs

theorem spares_sendCommitReq (c : Choice) (tid : TreeId) (hf : p.fault = none) :
    Spares p (p.sendCommitReq c tid) := by
  have hroot : Spares p (p.startTree c.treeID) :=
    spares_of_eq rfl rfl (by rw [show (p.startTree c.treeID).fault = p.fault from rfl, hf]; simp)
  by_cases hs : p.status = .ATTESTING
  · rw [sendCommitReq_attesting tid c hs]
    exact spares_status (by decide) hf
  by_cases hm : p.maxchildren = 0
  · rw [sendCommitReq_leaf tid c hs hm]
    exact hroot.trans (spares_sendUpReq _ hf)
  by_cases hfirst : p.psessions.first = NOID
  · rw [sendCommitReq_root tid c hs hm hfirst]
    exact hroot.trans (spares_broadcast _ _ hf)
  cases hp : p.psessions.second with
  | none =>
    rw [sendCommitReq_null tid c hs hm hfirst hp]
    exact spares_of_eq rfl rfl (by simp [fail])
  | some parent =>
    rw [sendCommitReq_inner tid c hs hm hfirst hp]
    have hrec : Spares p (p.record (.depthSub parent.depth)) :=
      spares_of_eq rfl rfl (by simp [record, hf])
    exact hrec.trans (spares_broadcast _ _ hf)

theorem spares_ackTimeOut (c : Choice) (hf : p.fault = none) (hoff : p.timers .cacktomsg = none) :
    Spares p (p.handleCommitAckTimeOut c) := by
  by_cases hd : p.cackto.device = p.psessions.first
  · by_cases hs : p.status = .ATTESTING_CREATING
    · rw [handleCommitAckTimeOut_creating c hd hs]
      have hforget : Spares p { p with psessions := {}, status := .CREATING } :=
        ⟨fun _ _ _ _ h => h, fun h => (by cases h), onlyRequest_of_none hf⟩
      exact hforget.trans (spares_sendCommitReq
        (p := { p with psessions := {}, status := .CREATING }) c NOID hf)
    · rw [handleCommitAckTimeOut_ready c hd hs]
      exact ⟨fun _ _ _ _ h => h, fun _ => .inr hoff, onlyRequest_of_none hf⟩
  · rw [handleCommitAckTimeOut_stale c hd]
    exact spares_of_eq rfl rfl (by simp [hf])

theorem spares_respTimeOut (hf : p.fault = none) : Spares p p.handleCommitRespTimeOut := by
  have hclosed : Spares p p.closeWindow :=
    ⟨fun _ _ _ _ h => h, fun h => (by cases h), onlyRequest_of_none hf⟩
  by_cases hl : p.csessions.keys.length = 1
  · rw [handleCommitRespTimeOut_last hl]
    exact hclosed.trans (spares_sendUpReq _ hf)
  · rw [handleCommitRespTimeOut_open hl]
    exact hclosed

theorem spares_updateTimeOut (u : CommitTimeOut) (hf : p.fault = none) :
    Spares p (p.handleUpdateTimeOut u) := by
  by_cases hlen : (p.csessions.erase u.device).keys.length = 1
  · rw [handleUpdateTimeOut_last hlen]
    have hdone : Spares p { p.timedOut u with status := .FINISHED } :=
      ⟨fun _ _ _ _ h => h, fun h => (by cases h), onlyRequest_of_none hf⟩
    exact hdone.trans (spares_sendUpReq (p := { p.timedOut u with status := .FINISHED }) _ hf)
  · rw [handleUpdateTimeOut_more hlen]
    exact spares_of_eq rfl rfl (by simp [timedOut, record, dropSession, hf])

theorem spares_commitAck (c : Choice) (m : CommitAck) (hf : p.fault = none) :
    Spares p (p.handleCommitAck c m) := by
  have hvalid : ∀ parent, Spares p ((p.queueMacDelay (.commitAck m)).validateParent parent) := by
    intro parent
    have hoff := (spares_cancelEvent .mktreetimer hf).trans
      (spares_cancelEvent (p := p.cancelEvent .mktreetimer) .cacktomsg hf)
    exact ⟨hoff.timers, hoff.ready, onlyRequest_of_none hf⟩
  have hcase := handleCommitAck_cases (p := p) c m
  generalize p.handleCommitAck c m = p' at hcase ⊢
  cases hcase with
  | ignored => exact spares_of_eq rfl rfl (by simp [hf])
  | unverified => exact spares_of_eq rfl rfl (by simp [queueMacDelay, hf])
  | null => exact spares_of_eq rfl rfl (by simp [fail])
  | @leaf parent =>
    exact ((hvalid parent).trans (spares_status (by decide) hf)).trans (spares_sendUpReq _ hf)
  | @inner parent =>
    exact ((hvalid parent).trans (spares_status (by decide) hf)).trans
      (spares_sendCommitReq c m.treeID hf)

theorem spares_commitResp (m : CommitResp) (hf : p.fault = none) :
    Spares p (p.handleCommitResp m) := by
  have hack : ∀ {parent}, p.psessions.second = some parent → Spares p
      ((p.admitChild m).sendCommitAck m.source m.treeID (childSession m)) ∧
        ((p.admitChild m).sendCommitAck m.source m.treeID (childSession m)).fault = none := by
    intro parent hp
    rw [sendCommitAck_of_some (p := p.admitChild m) m.treeID m.source _ hp]
    exact ⟨⟨fun _ _ _ _ h => h, fun h => .inl h, onlyRequest_of_none hf⟩, hf⟩
  have hcase := handleCommitResp_cases hf m
  generalize p.handleCommitResp m = p' at hcase ⊢
  cases hcase with
  | ignored => exact spares_of_eq rfl rfl (by simp [hf])
  | unverified => exact spares_of_eq rfl rfl (by simp [queueMacDelay, hf])
  | null _ hp _ _ he =>
    have hfields : p'.status = p.status ∧ p'.timers = p.timers := by
      rw [he]
      have hno : (p.admitChild m).psessions.second = none := hp
      unfold sendCommitAck
      simp [prepare, admitChild, queueMacDelay, hp, fail]
    refine spares_of_eq hfields.1 hfields.2 ?_
    rw [‹p'.fault = _›]
    decide
  | more _ hp he =>
    rw [he]
    exact (hack hp).1
  | full _ hp he =>
    rw [he]
    obtain ⟨hs, hf'⟩ := hack hp
    have hclosed : Spares p
        ((p.admitChild m).sendCommitAck m.source m.treeID (childSession m)).closeWindow :=
      hs.trans ⟨fun _ _ _ _ h => h, fun h => (by cases h), onlyRequest_of_none hf'⟩
    exact hclosed.trans (spares_cancelEvent .cresptomsg hf')

theorem spares_upReq (m : UpdateReq) (hf : p.fault = none) : Spares p (p.handleUpReq m) := by
  have hcase := handleUpReq_cases (p := p) m
  generalize p.handleUpReq m = p' at hcase ⊢
  have hmerged : ∀ child, Spares p (p.merged m child) := fun child =>
    ⟨fun _ _ _ _ h => h, fun h => .inl h, onlyRequest_of_none hf⟩
  have hquiet : ∀ {x : Prover}, x.status = p.status → x.timers = p.timers → x.fault = none →
      Spares p x := fun hs ht hx => spares_of_eq hs ht (by rw [hx]; simp)
  cases hcase with
  | forward => exact hquiet rfl rfl hf
  | redirect => exact hquiet rfl rfl hf
  | ignored => exact hquiet rfl rfl hf
  | unverified => exact hquiet rfl rfl hf
  | null => exact spares_of_eq rfl rfl (by simp [fail])
  | array => exact spares_of_eq rfl rfl (by simp [fail])
  | @last child => exact (hmerged child).trans (spares_sendUpReq _ hf)
  | @more child => exact hmerged child

/-- A request is answered where no ack timeout is scheduled. -/
theorem Staggered.commitReq (h : p.Staggered) (hf : p.fault = none) (m : CommitReq) :
    (p.handleCommitReq m).Staggered ∧ (p.handleCommitReq m).fault = none := by
  rcases handleCommitReq_cases (p := p) m with he | ⟨sess, ⟨hready, -⟩, he⟩
  · rw [he]
    exact ⟨h, hf⟩
  · have hoff := h.ready hready
    rw [he, sendCommitResp_of_none (p := { p with psessions := ⟨m.source, some sess⟩ }) _ _ _ hoff]
    refine ⟨⟨fun hst => ?_, fun a s ha hc => ?_, fun a s ha hm => ?_, fun s hs => ?_⟩, hf⟩
    · cases hst
    · exact h.check a s (by simpa using ha) (by simpa using hc)
    · exact h.mktree a s (by simpa using ha) (by simpa using hm)
    · simpa using h.start s (by simpa using hs)

/-- A round's timers go off before the next round. -/
theorem staggered_startAttestation (hroom : Roomy p.cfg) (hf : p.fault = none)
    (hs : p.timers .startmsg = none) (ha : p.timers .attesttimer = none)
    (hk : p.timers .checkdelaymsg = none) (hm : p.timers .mktreetimer = none) (c : Choice)
    (hc : c.delay ≤ p.cfg.deltag) :
    (p.startAttestation c).Staggered ∧ (p.startAttestation c).fault = none := by
  have hend := gather_before_end hroom.1 hroom.2 p.now
  rw [startAttestation_of_none c hf ha hk hm]
  refine ⟨⟨fun hst => ?_, fun a s ha hs => ?_, fun a s ha hs => ?_, fun s hstart => ?_⟩, hf⟩
  · cases hst
  · obtain rfl : (⟨p.now + p.cfg.deltah, p.seq⟩ : Stamp) = a := by simpa using ha
    obtain rfl : (⟨p.now + checkFirmwareDelay p.cfg.device, p.seq + 1⟩ : Stamp) = s := by
      simpa using hs
    show p.now + checkFirmwareDelay p.cfg.device < p.now + p.cfg.deltah
    omega
  · obtain rfl : (⟨p.now + p.cfg.deltah, p.seq⟩ : Stamp) = a := by simpa using ha
    obtain rfl : (⟨p.now + (checkFirmwareDelay p.cfg.device + c.delay), p.seq + 2⟩ : Stamp) = s := by
      simpa using hs
    show p.now + (checkFirmwareDelay p.cfg.device + c.delay) < p.now + p.cfg.deltah
    omega
  · have hno : p.timers .startmsg = some s := by simpa using hstart
    cases hs.symm.trans hno

/-! ## Steps -/

/-- No ack timeout is scheduled when the firmware check of a round ends. -/
def JoinOver (e : Event) (p : Prover) : Prop :=
  match e.act with
  | .timer .checkdelaymsg _ => p.crashed = false → p.timers .cacktomsg = none
  | _ => True

instance (e : Event) (p : Prover) : Decidable (p.JoinOver e) := by
  unfold JoinOver
  split
  · exact inferInstanceAs (Decidable (_ → _))
  · exact inferInstanceAs (Decidable True)

theorem JoinOver.off {e : Event} {c : Choice} (h : p.JoinOver e) (hc : p.crashed = false)
    (hact : e.act = .timer .checkdelaymsg c) : p.timers .cacktomsg = none := by
  unfold JoinOver at h
  rw [hact] at h
  exact h hc

/-- Every event but the start of a round and a request. -/
theorem spares_live {e : Event} (hf : p.fault = none) (hl : p.Live e p')
    (hno : ¬ StartsAttestation e.act) (hreq : ∀ m c, e.act ≠ .recv (.commitReq m) c)
    (hover : ∀ c, e.act = .timer .checkdelaymsg c → p.timers .cacktomsg = none) :
    Spares p p' := by
  have hnow : Spares p (p.atTime e.time) := spares_of_eq rfl rfl (by simp [atTime, hf])
  cases hl with
  | @timer t c s hact =>
    have hpop : Spares p ((p.atTime e.time).cancelEvent t) :=
      hnow.trans (spares_cancelEvent (p := p.atTime e.time) t hf)
    cases t with
    | startmsg => exact absurd (hact ▸ trivial) hno
    | attesttimer => exact absurd (hact ▸ trivial) hno
    | checkdelaymsg =>
      have hoff := hpop.off (t := .cacktomsg) (by decide) (by decide) (hover c hact)
      exact ⟨hpop.timers, fun _ => .inr hoff, onlyRequest_of_none hf⟩
    | mktreetimer =>
      exact hpop.trans (spares_sendCommitReq (p := (p.atTime e.time).cancelEvent .mktreetimer) c
        NOID hf)
    | creqmsg => exact ⟨hpop.timers, hpop.ready, onlyRequest_of_none hf⟩
    | cacktomsg =>
      exact hpop.trans (spares_ackTimeOut (p := (p.atTime e.time).cancelEvent .cacktomsg) c hf
        (by simp [cancelEvent]))
    | cresptomsg =>
      exact hpop.trans (spares_respTimeOut (p := (p.atTime e.time).cancelEvent .cresptomsg) hf)
  | @upto k u =>
    have hpop : Spares p ((p.atTime e.time).popUpto k) :=
      spares_of_eq rfl rfl (by simp [popUpto, atTime, hf])
    exact hpop.trans (spares_updateTimeOut (p := (p.atTime e.time).popUpto k) u.2 hf)
  | @self k c o =>
    obtain ⟨out, he⟩ := onSelf_eq (p := (p.atTime e.time).popOutbox k) o.2 c
    rw [he]
    exact spares_of_eq rfl rfl (by simp [popOutbox, atTime, hf])
  | @recv m c hact =>
    cases m with
    | commitReq m => exact absurd hact (hreq m c)
    | commitResp m => exact hnow.trans (spares_commitResp (p := p.atTime e.time) m hf)
    | commitAck m => exact hnow.trans (spares_commitAck (p := p.atTime e.time) c m hf)
    | updateReq m => exact hnow.trans (spares_upReq (p := p.atTime e.time) m hf)

/-- When a round starts, no timer of the one before is scheduled. -/
theorem Staggered.free_of_starts (h : p.Staggered) {t : Timer} {s : Stamp} (hout : t.Outer)
    (ht : p.timers t = some s) {time : Nat} (hn : p.Next s time) :
    (p.cancelEvent t).timers .startmsg = none ∧ (p.cancelEvent t).timers .attesttimer = none ∧
      (p.cancelEvent t).timers .checkdelaymsg = none ∧
        (p.cancelEvent t).timers .mktreetimer = none := by
  rcases hout with rfl | rfl
  · simpa [cancelEvent] using h.start s ht
  · have hstart : p.timers .startmsg = none := by
      refine Option.eq_none_iff_forall_ne_some.mpr fun a ha => ?_
      cases (h.start a ha).1.symm.trans ht
    have hcheck : p.timers .checkdelaymsg = none := by
      refine Option.eq_none_iff_forall_ne_some.mpr fun a ha => ?_
      exact hn.not_before ha (.inl (h.check s a ht ha))
    have hmktree : p.timers .mktreetimer = none := by
      refine Option.eq_none_iff_forall_ne_some.mpr fun a ha => ?_
      exact hn.not_before ha (.inl (h.mktree s a ht ha))
    simp [cancelEvent, hstart, hcheck, hmktree]

/-- **One event** schedules no timer twice. -/
theorem staggered_step {e : Event} (hroom : Roomy p.cfg) (h : p.crashed = false → p.Staggered)
    (hover : p.JoinOver e) (hact : e.act ≠ .crash) (hs : step e p = some p') :
    (p.crashed = false → p'.Staggered) ∧ p'.OnlyRequest := by
  obtain ⟨hf, -, ⟨hcr, _, _, _, _, -, rfl⟩ | ⟨hc, hl⟩⟩ := step_cases hs
  · refine ⟨fun hc => ?_, onlyRequest_of_none hf⟩
    cases hc.symm.trans (hcr.resolve_right hact)
  have hstag := h hc
  have hdone : ∀ {x : Prover}, x.Staggered ∧ x.fault = none →
      (p.crashed = false → x.Staggered) ∧ x.OnlyRequest :=
    fun hx => ⟨fun _ => hx.1, onlyRequest_of_none hx.2⟩
  by_cases hstart : StartsAttestation e.act
  · cases hl with
    | @timer t c s hact ht hn hdelay =>
      have hgo : t.Outer →
          (p.crashed = false → (((p.atTime e.time).cancelEvent t).startAttestation c).Staggered) ∧
            (((p.atTime e.time).cancelEvent t).startAttestation c).OnlyRequest := by
        intro hout
        obtain ⟨h1, h2, h3, h4⟩ := hstag.free_of_starts hout ht hn
        exact hdone (staggered_startAttestation (p := (p.atTime e.time).cancelEvent t) hroom hf
          h1 h2 h3 h4 c hdelay)
      rw [hact] at hstart
      cases t with
      | startmsg => exact hgo (.inl rfl)
      | attesttimer => exact hgo (.inr rfl)
      | checkdelaymsg => exact hstart.elim
      | mktreetimer => exact hstart.elim
      | creqmsg => exact hstart.elim
      | cacktomsg => exact hstart.elim
      | cresptomsg => exact hstart.elim
    | upto hact => exact (hact ▸ hstart : StartsAttestation (.upto _)).elim
    | self hact => exact (hact ▸ hstart : StartsAttestation (.self _ _)).elim
    | recv hact => exact (hact ▸ hstart : StartsAttestation (.recv _ _)).elim
  by_cases hreq : ∃ m c, e.act = .recv (.commitReq m) c
  · obtain ⟨m, c, hact⟩ := hreq
    have hnow : (p.atTime e.time).Staggered :=
      hstag.spared (spares_of_eq rfl rfl (by simp [atTime, hf]))
    cases hl with
    | timer hact' => cases hact'.symm.trans hact
    | upto hact' => cases hact'.symm.trans hact
    | self hact' => cases hact'.symm.trans hact
    | recv hact' =>
      obtain ⟨rfl, rfl⟩ : _ = Msg.commitReq m ∧ _ = c := by simpa using hact'.symm.trans hact
      exact hdone (hnow.commitReq hf m)
  · have hspares := spares_live hf hl hstart (fun m c hact => hreq ⟨m, c, hact⟩)
      fun c hact => hover.off hc hact
    exact ⟨fun _ => hstag.spared hspares, hspares.fault⟩

/-- A request that is answered while an ack timeout is scheduled schedules it again. -/
theorem rescheduled_commitReq {e : Event} {m : CommitReq} {c : Choice} {s : Stamp}
    (hs : step e p = some p') (hact : e.act = .recv (.commitReq m) c) (hc : p.crashed = false)
    (hst : p.status = .READY) (hk : p.timers .cacktomsg = some s)
    (hkey : (m.kid.find? (· ∈ p.cfg.KeyRing)).isSome) : ¬ p'.OnlyRequest := by
  obtain ⟨-, -, ⟨hcr, -⟩ | ⟨-, hl⟩⟩ := step_cases hs
  · rcases hcr with hcr | hcr
    · cases hc.symm.trans hcr
    · cases hact.symm.trans hcr
  obtain ⟨kid, hkid⟩ := Option.isSome_iff_exists.mp hkey
  cases hl with
  | timer hact' => cases hact'.symm.trans hact
  | upto hact' => cases hact'.symm.trans hact
  | self hact' => cases hact'.symm.trans hact
  | recv hact' =>
    obtain ⟨rfl, rfl⟩ : _ = Msg.commitReq m ∧ _ = c := by simpa using hact'.symm.trans hact
    intro hreq
    have he : (p.atTime e.time).handleCommitReq m =
        { p.atTime e.time with psessions := ⟨m.source, some ⟨m.treeID, m.source, kid, m.depth,
          false, none⟩⟩ }.sendCommitResp m.source m.treeID
            ⟨m.treeID, m.source, kid, m.depth, false, none⟩ := by
      simp [handleCommitReq, atTime, hst, hkid]
    have hfault : ((p.atTime e.time).handleCommitReq m).fault = some .alreadyScheduled := by
      rw [he]
      exact (sendCommitResp_of_some (p := { p.atTime e.time with psessions := _ }) _ _ _ hk).1
    have hstatus : ((p.atTime e.time).handleCommitReq m).status = .ATTESTING := by
      rw [he]
      simp [sendCommitResp, prepare, scheduleAt, atTime, hk, fail]
    cases hstatus.symm.trans (hreq hfault).1

end

end Prover

namespace Node

/-- No ack timeout is scheduled when the firmware check of a round ends at a node that has not
crashed. -/
def JoinOver (i : Surroundings × NodeEvent) (n : Node) : Prop :=
  match i.2 with
  | .prover e => n.handler.JoinOver e
  | _ => True

instance (i : Surroundings × NodeEvent) (n : Node) : Decidable (JoinOver i n) :=
  match i with
  | (_, .prover e) => inferInstanceAs (Decidable (n.handler.JoinOver e))
  | (_, .selfMsg _ _) => .isTrue trivial
  | (_, .energyDone _) => .isTrue trivial

/-- No `scheduleAt` has found its message scheduled, that of `creqmsg` apart. -/
def NoneRescheduled (n : Node) : Prop := n.device.fault = false ∧ n.prover.OnlyRequest

section
variable {w : Surroundings} {i : Surroundings × NodeEvent} {n n' : Node}

/-- Sending changes neither the prover nor whether the device has crashed. -/
theorem sendAll_keeps (pkts : List Packet) : (n.sendAll w pkts).prover = n.prover ∧
    (n.sendAll w pkts).device.crashed = n.device.crashed := by
  induction pkts generalizing n with
  | nil => exact ⟨rfl, rfl⟩
  | cons pkt pkts ih =>
    obtain ⟨hp, hc⟩ := ih (n := n.send w pkt)
    have hcrashed : (n.send w pkt).device.crashed = n.device.crashed :=
      Device.crashed_dispatch (d := { n.device with handed := n.device.handed + 1 })
    exact ⟨hp, hc.trans hcrashed⟩

/-- What holds of a node in every run. -/
structure Steady (cfg : Config) (n : Node) : Prop where
  intact : n.Intact
  fault : n.device.fault = false
  request : n.prover.OnlyRequest
  cfg : n.prover.cfg = cfg
  timers : n.device.crashed = false → n.prover.Staggered

theorem fault_step {e : DeviceEvent} {d d' : Device} (hi : d.crashed = false → d.Sound)
    (hf : d.fault = false) (hs : d.step w e = some d') : d'.fault = false := by
  obtain ⟨-, ht⟩ := Device.step_cases hs
  cases ht with
  | dropped => exact hf
  | popped => exact hf
  | handOver halive =>
    exact (Device.sound_step (hi halive) (fun hcr => by cases hcr.symm.trans halive) hs).fault
  | selfMsg halive =>
    exact (Device.sound_step (hi halive) (fun hcr => by cases hcr.symm.trans halive) hs).fault
  | energyDone => exact hf

/-- A prover that has crashed hands nothing over. -/
theorem out_of_crashed {e : Prover.Event} {p p' : Prover} (hc : p.crashed = true)
    (hs : Prover.step e p = some p') : p'.out = p.out := by
  obtain ⟨-, -, ⟨-, _, _, _, _, -, rfl⟩ | ⟨halive, -⟩⟩ := Prover.step_cases hs
  · rfl
  · cases hc.symm.trans halive

theorem steady_step {cfg : Config} (hroom : Prover.Roomy cfg) (h : n.Steady cfg)
    (hover : JoinOver i n) (hs : n.stepIn i = some n') : n'.Steady cfg := by
  have hintact := intact_step h.intact hs
  have hsound : n.device.crashed = false → n.device.Sound := fun hc => (h.intact hc).1
  obtain ⟨w, e⟩ := i
  obtain ⟨-, ht⟩ := step_cases hs
  cases ht with
  | @prover e p' hact hstep =>
    have hcfg : n.handler.cfg = cfg := h.cfg
    have hstag : n.handler.crashed = false → n.handler.Staggered := fun hc =>
      ⟨(h.timers hc).ready, (h.timers hc).check, (h.timers hc).mktree, (h.timers hc).start⟩
    obtain ⟨hstag', hreq⟩ :=
      Prover.staggered_step (hcfg ▸ hroom) hstag hover hact hstep
    obtain ⟨hp, hcrashed⟩ : (n.onProver w e p').prover = p' ∧
        (n.onProver w e p').device.crashed = n.device.crashed := sendAll_keeps _
    refine ⟨hintact, ?_, by rw [hp]; exact hreq, ?_, fun hc => ?_⟩
    · cases hc : n.device.crashed with
      | false => exact (hintact (hcrashed.trans hc)).1.fault
      | true =>
        have hout : p'.out = n.prover.out := out_of_crashed (p := n.handler) hc hstep
        unfold onProver
        rw [hout, List.drop_length]
        exact h.fault
    · rw [hp]
      exact (Prover.step_cfg hstep).trans hcfg
    · rw [hp]
      exact hstag' (hcrashed.symm.trans hc)
  | selfMsg hd =>
    exact ⟨hintact, fault_step hsound h.fault hd, h.request, h.cfg, fun hc =>
      h.timers (Device.alive_of_step hd hc)⟩
  | energyDone _ hd =>
    exact ⟨hintact, fault_step hsound h.fault hd, h.request, h.cfg, fun hc =>
      h.timers (Device.alive_of_step hd hc)⟩

theorem steady_init (cfg : Config) (start : Nat) : (init cfg start).Steady cfg := by
  have hoff : ∀ t : Timer, t ≠ .startmsg → (init cfg start).prover.timers t = none := fun t ht =>
    if_neg ht
  refine ⟨intact_init cfg start, rfl, Prover.onlyRequest_of_none rfl, rfl, fun _ =>
    ⟨fun hst => (by cases hst), fun a s ha => ?_, fun a s ha => ?_, fun s hs => ?_⟩⟩
  · cases (hoff .attesttimer (by decide)).symm.trans ha
  · cases (hoff .attesttimer (by decide)).symm.trans ha
  · exact ⟨hoff _ (by decide), hoff _ (by decide), hoff _ (by decide)⟩

/-- The end of a firmware check that finds an ack timeout scheduled. -/
theorem ready_of_not_joinOver (hs : n.stepIn i = some n') (hno : ¬ JoinOver i n) :
    n'.device.crashed = false ∧ n'.prover.status = .READY ∧
      (∃ s, n'.prover.timers .cacktomsg = some s) ∧ n'.prover.cfg = n.prover.cfg := by
  obtain ⟨w, e⟩ := i
  obtain ⟨-, ht⟩ := step_cases hs
  cases ht with
  | selfMsg => exact absurd trivial hno
  | energyDone => exact absurd trivial hno
  | @prover e p' _ hstep =>
    change ¬ n.handler.JoinOver e at hno
    unfold Prover.JoinOver at hno
    split at hno
    case h_2 => exact absurd trivial hno
    next c hact =>
    rw [Classical.not_imp] at hno
    obtain ⟨hc, hk⟩ := hno
    obtain ⟨s, hk⟩ := Option.ne_none_iff_exists'.mp hk
    obtain ⟨hp, hcrashed⟩ : (n.onProver w e p').prover = p' ∧
        (n.onProver w e p').device.crashed = n.device.crashed := sendAll_keeps _
    rw [hp]
    refine ⟨hcrashed.trans hc, ?_⟩
    obtain ⟨-, -, ⟨hcr, -⟩ | ⟨-, hl⟩⟩ := Prover.step_cases hstep
    · rcases hcr with hcr | hcr
      · cases hc.symm.trans hcr
      · cases hact.symm.trans hcr
    cases hl with
    | timer hact' =>
      obtain ⟨rfl, rfl⟩ : _ = Timer.checkdelaymsg ∧ _ = c := by simpa using hact'.symm.trans hact
      refine ⟨rfl, ⟨s, ?_⟩, rfl⟩
      simpa [Prover.onTimer, Prover.checkSoftConfig, Prover.cancelEvent, Prover.atTime] using hk
    | upto hact' => cases hact'.symm.trans hact
    | self hact' => cases hact'.symm.trans hact
    | recv hact' => cases hact'.symm.trans hact

/-- **No timer is scheduled twice** in every run in which no firmware check ends while an ack
timeout is scheduled; where one does, the next request that is answered schedules it again. -/
theorem never_rescheduled {cfg : Config} {start : Nat} (hd : 1 ≤ cfg.maxdepth)
    (hh : (timeoutresp + timeoutack) * cfg.maxdepth + timeoutup ≤ cfg.deltah)
    (h : Runs.Reaches stepIn JoinOver (init cfg start) n) :
    n.NoneRescheduled ∧ ∀ i n', n.stepIn i = some n' → ¬ JoinOver i n →
      ∀ w t m c n'', n'.stepIn (w, .prover ⟨t, .recv (.commitReq m) c⟩) = some n'' →
        (m.kid.find? (· ∈ cfg.KeyRing)).isSome → ¬ n''.NoneRescheduled := by
  have hsteady : n.Steady cfg := h.invariant (I := Steady cfg) (steady_init cfg start)
    fun i n n' ih hover hs => steady_step ⟨hd, hh⟩ ih hover hs
  refine ⟨⟨hsteady.fault, hsteady.request⟩, fun i n' hs hno w t m c n'' hs' hkey hok => ?_⟩
  obtain ⟨hc, hst, ⟨s, hk⟩, hcfg⟩ := ready_of_not_joinOver hs hno
  obtain ⟨-, ht⟩ := step_cases hs'
  cases ht with
  | @prover e p'' _ hstep =>
    have hp : (n'.onProver w ⟨t, .recv (.commitReq m) c⟩ p'').prover = p'' := (sendAll_keeps _).1
    refine Prover.rescheduled_commitReq (p := n'.handler) hstep rfl hc hst hk ?_ (hp ▸ hok.2)
    rw [show n'.handler.cfg = cfg from hcfg.trans hsteady.cfg]
    exact hkey

end

/-! ## A late join -/

/-- Messages come from provers. -/
def RealSource : NodeEvent → Prop
  | .prover e => Prover.RealSource e.act
  | _ => True

instance : DecidablePred RealSource
  | .prover e => inferInstanceAs (Decidable (Prover.RealSource e.act))
  | .selfMsg _ _ => .isTrue trivial
  | .energyDone _ => .isTrue trivial

/-- Rounds of 45 s; `deltag` is 1 s. -/
def twoLevels : Config := { Prover.rootConfig with maxdepth := 2, deltah := 45 * second }

/-- A repeated ack opens a window that reaches into the second round, where it ends the wait for
an ack as `COLLECTING`: the timeout makes the prover `READY` once more.  It joins again at
89 s, the third round begins at 90 s, and its firmware check ends before 93 s. -/
def lateJoin : List Prover.Event :=
  [⟨0, .timer .startmsg { delay := second }⟩,
    ⟨1960 * 10 ^ 9, .timer .checkdelaymsg {}⟩,
    ⟨2000 * 10 ^ 9, .recv (.commitReq ⟨3, 2, [5], 9⟩) {}⟩,
    ⟨2067073604000, .self 4 {}⟩,
    ⟨2500 * 10 ^ 9, .recv (.commitAck ⟨3, 1, 9, 0, 5⟩) {}⟩,
    ⟨2500 * 10 ^ 9, .timer .creqmsg {}⟩,
    ⟨14000 * 10 ^ 9, .recv (.commitResp ⟨2, 1, 5, 9, 0, 5⟩) {}⟩,
    ⟨14199324028000, .self 8 {}⟩,
    ⟨14500 * 10 ^ 9, .timer .cresptomsg {}⟩,
    ⟨36500 * 10 ^ 9, .recv (.commitAck ⟨3, 1, 9, 0, 5⟩) {}⟩,
    ⟨36500 * 10 ^ 9, .timer .creqmsg {}⟩,
    ⟨42000 * 10 ^ 9, .upto 9⟩,
    ⟨42139837560000, .self 12 {}⟩,
    ⟨45000 * 10 ^ 9, .timer .attesttimer { delay := second }⟩,
    ⟨46960 * 10 ^ 9, .timer .checkdelaymsg {}⟩,
    ⟨47000 * 10 ^ 9, .recv (.commitReq ⟨3, 2, [5], 9⟩) {}⟩,
    ⟨47067073604000, .self 16 {}⟩,
    ⟨47960 * 10 ^ 9, .timer .mktreetimer {}⟩,
    ⟨48500 * 10 ^ 9, .timer .cresptomsg {}⟩,
    ⟨51000 * 10 ^ 9, .timer .cacktomsg {}⟩,
    ⟨89000 * 10 ^ 9, .recv (.commitReq ⟨3, 2, [5], 9⟩) {}⟩,
    ⟨89067073604000, .self 18 {}⟩,
    ⟨90000 * 10 ^ 9, .timer .attesttimer { delay := second }⟩,
    ⟨91960 * 10 ^ 9, .timer .checkdelaymsg {}⟩,
    ⟨92000 * 10 ^ 9, .recv (.commitReq ⟨3, 2, [5], 9⟩) {}⟩]

/-- Each transmission ends before the next event. -/
def onIdleChannel (e : Prover.Event) : List (Surroundings × NodeEvent) :=
  let w := Device.idleChannel false
  let sends :=
    match e.act with
    | .self _ _ | .timer .creqmsg _ => true
    | _ => false
  (w, .prover e) :: if sends then [(w, .selfMsg .entxmsg false), (w, .selfMsg .txmsg false)] else []

/-- In `lateJoin` the request at 92 s finds `cacktomsg` scheduled. -/
theorem lateJoin_rescheduled : ¬ ∀ (cfg : Config) (start : Nat) (n : Node), 1 ≤ cfg.maxdepth →
    (timeoutresp + timeoutack) * cfg.maxdepth + timeoutup ≤ cfg.deltah →
    Runs.Reaches stepIn (fun i _ => i.1.build = .wireless ∧ RealSource i.2) (init cfg start) n →
      n.NoneRescheduled := by
  intro h
  obtain ⟨n, hr, ht⟩ := Runs.exists_of_run stepIn
    (fun i _ => i.1.build = .wireless ∧ RealSource i.2) (lateJoin.flatMap onIdleChannel)
    (init twoLevels 0)
    (fun n => n.prover.fault = some .alreadyScheduled ∧ n.prover.status = .ATTESTING)
    (by decide +kernel)
  obtain ⟨hf, hst⟩ := of_decide_eq_true ht
  cases hst.symm.trans ((h twoLevels 0 n (by decide) (by decide) hr).2 hf).1

/-- Until the third round begins, nothing is scheduled twice. -/
theorem never_rescheduled_twoLevels :
    ∃ n : Node, n.prover.now = 90 * second ∧ n.NoneRescheduled := by
  obtain ⟨n, hr, ht⟩ := Runs.exists_of_run stepIn JoinOver
    ((lateJoin.take 23).flatMap onIdleChannel) (init twoLevels 0)
    (fun n => n.prover.now = 90 * second) (by decide +kernel)
  exact ⟨n, of_decide_eq_true ht, (never_rescheduled (by decide) (by decide) hr).1⟩

end Node

end Fadia
