import Fadia.Proof.Revocation
import Fadia.Proof.Schedule

/-!
# Going offline is not final

`sendRevReq` sets the status and leaves the schedule as it is.  A prover that lives
always has the start of a round scheduled (`Awaits`), so some event is next, and each
one ends the `OFFLINE` status or hands a message over, but for an ack timeout of an
abandoned attempt and the timeout of one child of several (`leaves_offline`): these
become fewer.  So no take-off is final (`revoke_not_final`).
-/

namespace Fadia

open Runs Schedule

namespace Prover

/-- What a prover that lives has scheduled, and its parent's session. -/
structure Awaits (p : Prover) : Prop where
  ordered : Ordered p.schedule
  outer : ∃ t : Timer, t.Outer ∧ (p.timers t).isSome
  parent : p.psessions.first ≠ NOID → p.psessions.second.isSome

section
variable {p p' : Prover}

theorem parentRule_isSome (d : Nat) :
    ParentRule d fun ps => ps.first ≠ NOID → ps.second.isSome :=
  ⟨fun h => absurd rfl h, fun _ _ _ _ => rfl, fun _ _ _ _ _ => rfl⟩

theorem outer_startAttestation (c : Choice) (hf : p.fault = none)
    (hok : (p.startAttestation c).fault = none) :
    ((p.startAttestation c).timers .attesttimer).isSome := by
  obtain ⟨h1, h2, h3⟩ := timers_of_startAttestation c hf hok
  rw [startAttestation_of_none c hf h1 h2 h3]
  rfl

theorem Live.outer {e : Event} (hf : p.fault = none) (hl : p.Live e p') (hok : p'.fault = none)
    (h : ∃ t : Timer, t.Outer ∧ (p.timers t).isSome) :
    ∃ t : Timer, t.Outer ∧ (p'.timers t).isSome := by
  by_cases hst : StartsAttestation e.act
  · cases hl with
    | @timer t c s hact =>
      have hstart : ((p.atTime e.time).cancelEvent t).onTimer t c =
          ((p.atTime e.time).cancelEvent t).startAttestation c := by
        rw [hact] at hst
        cases t <;> first | rfl | exact hst.elim
      rw [hstart] at hok ⊢
      exact ⟨.attesttimer, .inr rfl, outer_startAttestation c hf hok⟩
    | upto hact => rw [hact] at hst; exact hst.elim
    | self hact => rw [hact] at hst; exact hst.elim
    | recv hact => rw [hact] at hst; exact hst.elim
  · obtain ⟨t, hout, ht⟩ := h
    obtain ⟨-, timers, _, _, -, hsame, hadds⟩ := hl.adds hf
    have hno : ∀ c, e.act ≠ .timer t c := by
      intro c he
      rw [he] at hst
      rcases hout with rfl | rfl <;> exact hst trivial
    obtain ⟨s, hs⟩ := Option.isSome_iff_exists.mp ht
    exact ⟨t, hout, Option.isSome_of_eq_some (hadds.keep t s hout ((hsame t hno).trans hs))⟩

theorem awaits_step {e : Event} (hs : step e p = some p') (h : Alive Awaits p) :
    Alive Awaits p' := by
  have hord := ordered_step hs fun hf hc => (h hf hc).ordered
  intro hf' hc'
  obtain ⟨hf, -, ⟨-, _, _, _, _, -, rfl⟩ | ⟨hc, hlive⟩⟩ := step_cases hs
  · cases hc'
  have ha := h hf hc
  refine ⟨hord hf' hc', hlive.outer hf hf' ha.outer, ?_⟩
  exact ParentRule.live (parentRule_isSome _) hf (fun _ _ _ _ _ _ => rfl) ha.parent hlive

/-! ## The handlers leave the status -/

theorem status_sendUpReq (tid : TreeId) (p : Prover) :
    (p.sendUpReq tid).status = .FINISHED ∨ (p.sendUpReq tid).status = p.status := by
  cases hs : p.psessions.second with
  | none => exact .inr (by simp [sendUpReq, hs, fail])
  | some parent =>
    rw [sendUpReq_of_some tid hs]
    exact .inl rfl

theorem status_scheduleAt (t : Timer) (d : Nat) (p : Prover) :
    (p.scheduleAt t d).status = p.status := by
  unfold scheduleAt
  split <;> rfl

theorem status_broadcast (depth : Nat) (tid : TreeId) (p : Prover) :
    (p.broadcastCommitReq depth tid).status = .CREATING := by
  unfold broadcastCommitReq
  dsimp only
  rw [andThen]
  split
  · exact status_scheduleAt _ _ _
  · exact (status_scheduleAt _ _ _).trans (status_scheduleAt _ _ _)

theorem status_sendCommitReq (c : Choice) (tid : TreeId) (hs : p.status ≠ .ATTESTING)
    (hp : p.psessions.first ≠ NOID → p.psessions.second.isSome) :
    (p.sendCommitReq c tid).status ≠ .OFFLINE := by
  by_cases hm : p.maxchildren = 0
  · rw [sendCommitReq_leaf tid c hs hm, sendUpReq_of_some c.treeID (p := p.startTree c.treeID) rfl]
    simp
  by_cases hfirst : p.psessions.first = NOID
  · rw [sendCommitReq_root tid c hs hm hfirst, status_broadcast]
    simp
  · obtain ⟨parent, hparent⟩ := Option.isSome_iff_exists.mp (hp hfirst)
    rw [sendCommitReq_inner tid c hs hm hfirst hparent, status_broadcast]
    simp

theorem out_onSelf (m : Msg) (c : Choice) (p : Prover) :
    ∃ pkt, (p.onSelf m c).out = p.out ++ [pkt] := by
  unfold onSelf
  split
  · split
    · split <;> exact ⟨_, rfl⟩
    · exact ⟨_, rfl⟩
    · exact ⟨_, rfl⟩
  · exact ⟨_, rfl⟩

/-- The prover has come back from `OFFLINE` or handed something over. -/
def ComesBack (p p' : Prover) : Prop := p'.status ≠ .OFFLINE ∨ p'.out ≠ p.out

theorem comesBack_of_append {pkt : Packet} (h : p'.out = p.out ++ [pkt]) : ComesBack p p' := by
  refine .inr fun he => ?_
  have := congrArg List.length (h.symm.trans he)
  simp at this

/-- The events that may pass without effect. -/
def idleEvents (p : Prover) : Nat :=
  p.uptos.length + if (p.timers .cacktomsg).isSome then 1 else 0

theorem timer_comesBack (ha : p.Awaits) (hs : p.status = .OFFLINE) {t : Timer} {s : Stamp}
    (ht : p.timers t = some s) :
    ComesBack p ((p.cancelEvent t).onTimer t {}) ∨
      (p.cancelEvent t).onTimer t {} = p.cancelEvent t ∧ t = .cacktomsg := by
  cases t with
  | startmsg =>
    obtain ⟨_, _, _, he⟩ := startAttestation_shape (p := p.cancelEvent .startmsg) {}
    exact .inl (.inl (by rw [onTimer, he]; simp))
  | attesttimer =>
    obtain ⟨_, _, _, he⟩ := startAttestation_shape (p := p.cancelEvent .attesttimer) {}
    exact .inl (.inl (by rw [onTimer, he]; simp))
  | checkdelaymsg => exact .inl (.inl (by simp [onTimer, checkSoftConfig]))
  | mktreetimer =>
    have hs' : (p.cancelEvent .mktreetimer).status ≠ .ATTESTING := by
      rw [cancelEvent, hs]
      decide
    exact .inl (.inl (status_sendCommitReq (p := p.cancelEvent .mktreetimer) {} NOID hs' ha.parent))
  | creqmsg => exact .inl (comesBack_of_append rfl)
  | cacktomsg =>
    by_cases hd : p.cackto.device = p.psessions.first
    · have hs' : (p.cancelEvent .cacktomsg).status ≠ .ATTESTING_CREATING := by
        rw [cancelEvent, hs]
        decide
      refine .inl (.inl ?_)
      rw [onTimer, handleCommitAckTimeOut_ready (p := p.cancelEvent .cacktomsg) {} hd hs']
      simp
    · exact .inr ⟨handleCommitAckTimeOut_stale (p := p.cancelEvent .cacktomsg) {} hd, rfl⟩
  | cresptomsg =>
    refine .inl (.inl ?_)
    change (p.cancelEvent .cresptomsg).handleCommitRespTimeOut.status ≠ .OFFLINE
    unfold handleCommitRespTimeOut
    dsimp only
    split
    · rcases status_sendUpReq (p.cancelEvent .cresptomsg).crespTreeID
        (p.cancelEvent .cresptomsg).closeWindow with h | h
      · exact fun he => by cases h.symm.trans he
      · exact fun he => by cases h.symm.trans he
    · simp [closeWindow]

theorem upto_comesBack (u : CommitTimeOut) (p : Prover) :
    (p.handleUpdateTimeOut u).status ≠ .OFFLINE ∨ p.handleUpdateTimeOut u = p.timedOut u := by
  by_cases hl : (p.csessions.erase u.device).keys.length = 1
  · rw [handleUpdateTimeOut_last hl]
    left
    rcases status_sendUpReq u.treeID { p.timedOut u with status := .FINISHED } with h | h
    · exact fun he => by cases h.symm.trans he
    · exact fun he => by cases h.symm.trans he
  · exact .inr (handleUpdateTimeOut_more hl)

/-- The next event of a prover that is `OFFLINE`: it comes back, or has fewer events
that pass without effect. -/
theorem offline_step (ha : p.Awaits) (hf : p.fault = none) (hc : p.crashed = false)
    (hs : p.status = .OFFLINE) : ∃ e p', step e p = some p' ∧ (ComesBack p p' ∨
      (p'.fault = none ∧ p'.crashed = false ∧ p'.status = .OFFLINE ∧ p'.out = p.out) ∧
        p'.idleEvents < p.idleEvents) := by
  have hne : p.pending ≠ [] := by
    obtain ⟨t, -, ht⟩ := ha.outer
    obtain ⟨s, hs⟩ := Option.isSome_iff_exists.mp ht
    exact List.ne_nil_of_mem (mem_pending_timer hs)
  obtain ⟨s, hmem, hnext⟩ := exists_next hne
  rcases mem_pending.mp hmem with ⟨t, ht⟩ | ⟨u, hu, rfl⟩ | ⟨o, ho, rfl⟩
  · have hnow := (ha.ordered.timer t s ht).1
    refine ⟨_, _, step_timer hf hc {} ht hnext hnow (Nat.zero_le _), ?_⟩
    have ha' : (p.atTime s.due).Awaits := ⟨⟨fun t' s' hs' => ?_, fun u hu => ?_, fun o ho => ?_,
      ha.ordered.uptos, ha.ordered.out⟩, ha.outer, ha.parent⟩
    · rcases timer_comesBack ha' hs ht with h | ⟨h, rfl⟩
      · exact .inl h
      · rw [h]
        refine .inr ⟨⟨hf, hc, hs, rfl⟩, ?_⟩
        simp [idleEvents, cancelEvent, atTime, ht]
    · exact ⟨hnext.noneBefore s' (mem_pending_timer hs'), (ha.ordered.timer t' s' hs').2⟩
    · exact ⟨hnext.noneBefore _ (mem_pending_upto hu), (ha.ordered.upto u hu).2⟩
    · exact ⟨hnext.noneBefore _ (mem_pending_outbox ho), (ha.ordered.outbox o ho).2⟩
  · refine ⟨_, _, step_upto hf hc ha.ordered hu hnext, ?_⟩
    rcases upto_comesBack u.2 ((p.atTime u.1.due).popUpto u.1.seq) with h | h
    · exact .inl (.inl h)
    · rw [h]
      refine .inr ⟨⟨hf, hc, hs, rfl⟩, ?_⟩
      have hlt : (p.uptos.filter fun v => decide (v.1.seq ≠ u.1.seq)).length < p.uptos.length :=
        List.length_filter_lt_length_iff_exists.mpr ⟨u, hu, by simp⟩
      exact Nat.add_lt_add_right hlt _
  · refine ⟨_, _, step_self hf hc {} ha.ordered ho hnext, .inl ?_⟩
    obtain ⟨pkt, hout⟩ := out_onSelf o.2 {} ((p.atTime o.1.due).popOutbox o.1.seq)
    exact comesBack_of_append (p := p) hout

/-- **From `OFFLINE` some run of events comes back.** -/
theorem leaves_offline (n : Nat) : ∀ p : Prover, Alive Awaits p → p.fault = none →
    p.crashed = false → p.status = .OFFLINE → p.idleEvents ≤ n →
    ∃ p', Reaches step (fun _ _ => True) p p' ∧ ComesBack p p' := by
  induction n with
  | zero =>
    intro p ha hf hc hs hn
    obtain ⟨e, p', hstep, hback | ⟨-, hlt⟩⟩ := offline_step (ha hf hc) hf hc hs
    · exact ⟨p', .tail .refl trivial hstep, hback⟩
    · omega
  | succ n ih =>
    intro p ha hf hc hs hn
    obtain ⟨e, p', hstep, hback | ⟨⟨hf', hc', hs', hout⟩, hlt⟩⟩ := offline_step (ha hf hc) hf hc hs
    · exact ⟨p', .tail .refl trivial hstep, hback⟩
    · obtain ⟨p'', hr, hback⟩ := ih p' (awaits_step hstep ha) hf' hc' hs' (by omega)
      have hone : Reaches step (fun _ _ => True) p p' := .tail .refl trivial hstep
      refine ⟨p'', hone.trans hr, hback.imp_right fun hne => ?_⟩
      rwa [← hout]

end

end Prover

namespace RevocableProver

open Prover

variable {s s' : RevocableProver}

/-- From now on the prover stays `OFFLINE` and hands over no message, whatever happens. -/
def StaysOffline (s : RevocableProver) : Prop :=
  ∀ s', Reaches step (fun _ _ => True) s s' →
    s'.prover.status = .OFFLINE ∧ s'.prover.out = s.prover.out

/-- A prover's own events are events of the revocable prover. -/
theorem reaches_prover {p p' : Prover} (s : RevocableProver)
    (h : Reaches Prover.step (fun _ _ => True) p p') :
    Reaches step (fun _ _ => True) { s with prover := p } { s with prover := p' } := by
  induction h with
  | refl => exact .refl
  | @tail p₁ p₂ e _ _ hs ih =>
    refine ih.tail (i := .prover e) trivial ?_
    simp [step, hs]

theorem awaits_revStep {e : RevEvent} (h : Alive Awaits s.prover) (hs : s.step e = some s') :
    Alive Awaits s'.prover := by
  have hexternal : ∀ (time : Nat) (q : Prover), s.prover.NoneBefore time →
      (q.schedule = (s.prover.atTime time).schedule ∧ q.psessions = s.prover.psessions ∧
        q.fault = s.prover.fault ∧ q.crashed = s.prover.crashed) → Alive Awaits q := by
    rintro time q hnone ⟨hsch, hps, hf, hc⟩ hf' hc'
    have ha := h (hf ▸ hf') (hc ▸ hc')
    have hord : Ordered (s.prover.atTime time).schedule := Ordered.pop ha.ordered hnone
      ⟨fun _ => .inr rfl, List.Sublist.refl _, List.Sublist.refl _⟩
    refine ⟨hsch ▸ hord, ?_, hps ▸ ha.parent⟩
    have ht : q.timers = s.prover.timers := congrArg Schedule.timers hsch
    rw [ht]
    exact ha.outer
  cases e with
  | prover e =>
    obtain ⟨p', hp, rfl⟩ := Option.map_eq_some_iff.mp hs
    exact awaits_step hp h
  | revokeReq m time =>
    obtain ⟨-, -, hnone, rfl⟩ := external_cases hs
    refine hexternal time _ hnone ?_
    unfold handleRevReq
    dsimp only
    split
    · exact ⟨rfl, rfl, rfl, rfl⟩
    · split
      · exact ⟨rfl, rfl, rfl, rfl⟩
      · split <;> exact ⟨rfl, rfl, rfl, rfl⟩
  | revoke time =>
    obtain ⟨-, -, hnone, rfl⟩ := external_cases hs
    refine hexternal time _ hnone ?_
    split <;> exact ⟨rfl, rfl, rfl, rfl⟩

/-- **No take-off is final**: in every run, behind each `REVOKE` that a prover handles,
some events take it out of `OFFLINE` or make it hand a message over. -/
theorem revoke_not_final {cfg : Config} {start time : Nat}
    (h : Reaches step (fun _ _ => True) (init cfg start) s) (hc : s.prover.crashed = false)
    (hs : s.step (.revoke time) = some s') : ¬ s'.StaysOffline := by
  have hinit : Alive Awaits (init cfg start).prover := fun _ _ =>
    ⟨ordered_init cfg start, ⟨.startmsg, .inl rfl, rfl⟩, fun hne => absurd rfl hne⟩
  have ha := h.invariant (I := fun s => Alive Awaits s.prover) hinit
    fun _ _ _ ih _ hs => awaits_revStep ih hs
  have ha' := awaits_revStep ha hs
  obtain ⟨hf, -, -, rfl⟩ := external_cases hs
  rw [if_neg (by rw [hc]; decide)] at ha' ⊢
  intro hstays
  obtain ⟨p', hr, hback⟩ := leaves_offline _ _ ha' hf hc rfl (Nat.le_refl _)
  obtain ⟨hoff, hout⟩ := hstays _ (reaches_prover
    ({ s with prover := s.prover.atTime time } : RevocableProver).sendRevReq hr)
  rcases hback with hne | hne
  · exact hne hoff
  · exact hne hout

theorem revoke_not_final_first :
    ∃ s', (init rootConfig 0).step (.revoke 0) = some s' ∧ ¬ s'.StaysOffline := by
  have hsome : ((init rootConfig 0).step (.revoke 0)).isSome := by decide +kernel
  obtain ⟨s', hs⟩ := Option.isSome_iff_exists.mp hsome
  exact ⟨s', hs, revoke_not_final .refl rfl hs⟩

/-- One second after the start of its first attestation the prover is taken off. -/
def takenOff : List RevEvent := [.prover ⟨0, .timer .startmsg {}⟩, .revoke second]

/-- Behind `takenOff` the firmware check ends and the prover is `READY` again. -/
theorem takenOff_ready :
    ¬ ∀ (cfg : Config) (start time : Nat) (s s' : RevocableProver),
      Reaches step (fun _ _ => True) (init cfg start) s → s.prover.crashed = false →
        s.step (.revoke time) = some s' → s'.StaysOffline := by
  intro h
  obtain ⟨s, hr, ht⟩ := exists_of_run step (fun _ _ => True) (takenOff.take 1) (init rootConfig 0)
    (fun s => s.prover.crashed = false ∧ (s.step (.revoke second)).any fun s' =>
      (s'.step (.prover ⟨1960 * 10 ^ 9, .timer .checkdelaymsg {}⟩)).any fun s'' =>
        s''.prover.status = .READY) (by decide +kernel)
  obtain ⟨hc, hany⟩ := of_decide_eq_true ht
  obtain ⟨s', hs, hany⟩ := exists_of_any hany
  obtain ⟨s'', hs', hready⟩ := exists_of_any hany
  have hone : Reaches step (fun _ _ => True) s' s'' := .tail .refl trivial hs'
  cases (of_decide_eq_true hready).symm.trans (h rootConfig 0 second s s' hr hc hs s'' hone).1

end RevocableProver

end Fadia
