import Fadia.Proof.ProverSteps

/-!
# Invariants of the session tables

`psessions` changes in four ways: it is emptied, a request is answered, a tree is
started, and a parent becomes valid.  A property of `psessions` that these keep
(`ParentRule`) is kept by every event (`ParentRule.live`).  A session in
`csessions` other than the window's entry stems from an accepted response
(`ChildRule`).
-/

namespace Fadia

namespace Prover

/-- The property holds of no parent and is kept where `psessions` is changed by `startTree`
and by an accepted ack. -/
structure ParentRule (maxdepth : Nat) (P : ParentSession → Prop) : Prop where
  empty : P {}
  root : ∀ ps tid, P ps → P { ps with second := some ⟨tid, NOID, ckey, maxdepth, true, none⟩ }
  valid : ∀ ps s, P ps → ps.second = some s → P { ps with second := some { s with valid := true } }

section
variable {P : ParentSession → Prop} {p p' : Prover}

theorem ParentRule.sendUpReq {d : Nat} (hP : ParentRule d P) (tid : TreeId) (h : P p.psessions) :
    P (p.sendUpReq tid).psessions := by
  cases hs : p.psessions.second with
  | none =>
    have : (p.sendUpReq tid).psessions = p.psessions := by simp [Prover.sendUpReq, hs, fail]
    rw [this]
    exact h
  | some parent =>
    rw [sendUpReq_of_some tid hs]
    exact hP.empty

theorem psessions_scheduleAt (t : Timer) (d : Nat) (p : Prover) :
    (p.scheduleAt t d).psessions = p.psessions ∧ (p.scheduleAt t d).csessions = p.csessions := by
  unfold scheduleAt
  split <;> exact ⟨rfl, rfl⟩

theorem psessions_broadcast (depth : Nat) (tid : TreeId) (p : Prover) :
    (p.broadcastCommitReq depth tid).psessions = p.psessions := by
  unfold broadcastCommitReq
  dsimp only
  rw [andThen]
  split
  · exact (psessions_scheduleAt _ _ _).1
  · exact (psessions_scheduleAt _ _ _).1.trans (psessions_scheduleAt _ _ _).1

theorem ParentRule.sendCommitReq (hP : ParentRule p.cfg.maxdepth P) (c : Choice) (tid : TreeId)
    (h : P p.psessions) : P (p.sendCommitReq c tid).psessions := by
  have hroot : P (p.startTree c.treeID).psessions := hP.root _ _ h
  unfold Prover.sendCommitReq
  split
  · exact h
  · split
    · exact hP.sendUpReq _ hroot
    · split
      · rw [psessions_broadcast]
        exact hroot
      · split
        · exact h
        · rw [psessions_broadcast]
          exact h

theorem psessions_sendCommitResp (target : Uid) (tid : TreeId) (parent : Session) (p : Prover) :
    (p.sendCommitResp target tid parent).psessions = p.psessions ∧
      (p.sendCommitResp target tid parent).csessions = p.csessions :=
  psessions_scheduleAt _ _ _

theorem psessions_sendCommitAck (target : Uid) (tid : TreeId) (child : Session) (p : Prover) :
    (p.sendCommitAck target tid child).psessions = p.psessions := by
  unfold sendCommitAck
  dsimp only
  split <;> rfl

theorem ParentRule.timer (hP : ParentRule p.cfg.maxdepth P) (t : Timer) (c : Choice)
    (h : P p.psessions) : P (p.onTimer t c).psessions := by
  have hstart : P (p.startAttestation c).psessions := by
    obtain ⟨_, _, _, he⟩ := startAttestation_shape (p := p) c
    rw [he]
    exact hP.empty
  cases t with
  | startmsg => exact hstart
  | attesttimer => exact hstart
  | checkdelaymsg => exact h
  | mktreetimer => exact hP.sendCommitReq c NOID h
  | creqmsg => exact h
  | cacktomsg =>
    change P (p.handleCommitAckTimeOut c).psessions
    unfold handleCommitAckTimeOut
    split
    · exact h
    · dsimp only
      split
      · exact ParentRule.sendCommitReq (p := { p with psessions := {}, status := .CREATING })
          hP c NOID hP.empty
      · exact hP.empty
  | cresptomsg =>
    change P p.handleCommitRespTimeOut.psessions
    unfold handleCommitRespTimeOut
    dsimp only
    split
    · exact ParentRule.sendUpReq (p := p.closeWindow) hP _ h
    · exact h

theorem ParentRule.recv (hP : ParentRule p.cfg.maxdepth P) (c : Choice) {m : Msg}
    (hf : p.fault = none)
    (hjoin : ∀ r sess, m = .commitReq r → p.Joins r sess → P ⟨r.source, some sess⟩)
    (h : P p.psessions) : P (p.onRecv m c).psessions := by
  cases m with
  | commitReq m =>
    change P (p.handleCommitReq m).psessions
    rcases handleCommitReq_cases (p := p) m with he | ⟨sess, hj, he⟩
    · rw [he]
      exact h
    · rw [he, (psessions_sendCommitResp _ _ _ _).1]
      exact hjoin m sess rfl hj
  | commitResp m =>
    have hack : P ((p.admitChild m).sendCommitAck m.source m.treeID (childSession m)).psessions := by
      rw [psessions_sendCommitAck]
      exact h
    change P (p.handleCommitResp m).psessions
    have hcase := handleCommitResp_cases hf m
    generalize p.handleCommitResp m = p' at hcase ⊢
    cases hcase with
    | ignored => exact h
    | unverified => exact h
    | null _ _ _ _ he => rw [he]; exact hack
    | more _ _ he => rw [he]; exact hack
    | full _ _ he => rw [he]; exact hack
  | commitAck m =>
    change P (p.handleCommitAck c m).psessions
    have hcase := handleCommitAck_cases (p := p) c m
    generalize p.handleCommitAck c m = p' at hcase ⊢
    cases hcase with
    | ignored => exact h
    | unverified => exact h
    | null => exact h
    | leaf ha =>
      refine ParentRule.sendUpReq hP m.treeID ?_
      exact hP.valid _ _ h ha.second
    | inner ha =>
      exact ParentRule.sendCommitReq (p := { (p.queueMacDelay (.commitAck m)).validateParent _ with
        status := .CREATING }) hP c m.treeID (hP.valid _ _ h ha.second)
  | updateReq m =>
    change P (p.handleUpReq m).psessions
    have hcase := handleUpReq_cases (p := p) m
    generalize p.handleUpReq m = p' at hcase ⊢
    cases hcase with
    | forward => exact h
    | redirect => exact h
    | ignored => exact h
    | unverified => exact h
    | null => exact h
    | array => exact h
    | last => exact ParentRule.sendUpReq (p := p.merged m _) hP _ h
    | more => exact h

/-- **One event** keeps a property of `psessions`, given it of the requests answered. -/
theorem ParentRule.live {e : Event} (hP : ParentRule p.cfg.maxdepth P) (hf : p.fault = none)
    (hjoin : ∀ m c sess, e.act = .recv (.commitReq m) c → p.Joins m sess →
      P ⟨m.source, some sess⟩)
    (h : P p.psessions) (hl : p.Live e p') : P p'.psessions := by
  cases hl with
  | @timer t c => exact ParentRule.timer (p := (p.atTime e.time).cancelEvent t) hP t c h
  | @upto k u =>
    unfold handleUpdateTimeOut
    dsimp only
    split
    · exact ParentRule.sendUpReq (p := { ((p.atTime e.time).popUpto k).timedOut u.2 with
        status := .FINISHED }) hP _ h
    · exact h
  | @self k c o =>
    obtain ⟨out, he⟩ := onSelf_eq (p := (p.atTime e.time).popOutbox k) o.2 c
    rw [he]
    exact h
  | @recv m c hact =>
    refine ParentRule.recv (p := p.atTime e.time) hP c hf (fun r sess hm hj => ?_) h
    exact hjoin r c sess (hm ▸ hact) hj

end

/-! ## Child sessions -/

/-- All sessions in `csessions` but the window's entry have the property. -/
def EachChild (Q : Uid → Session → Prop) (p : Prover) : Prop :=
  ∀ c s, c ≠ NOID → p.csessions.lookup c = some s → Q c s

section
variable {Q : Uid → Session → Prop} {p p' : Prover}

theorem EachChild.of_lookup (h : p.EachChild Q)
    (hc : ∀ c s, c ≠ NOID → p'.csessions.lookup c = some s → p.csessions.lookup c = some s) :
    p'.EachChild Q :=
  fun c s hne hl => h c s hne (hc c s hne hl)

theorem EachChild.erase (h : p.EachChild Q) {c : Uid} (hc : p'.csessions = p.csessions.erase c) :
    p'.EachChild Q := by
  refine h.of_lookup fun k s _ hl => ?_
  rw [hc] at hl
  by_cases hk : k = c
  · rw [hk, AList.lookup_erase] at hl
    cases hl
  · rwa [AList.lookup_erase_ne hk] at hl

theorem EachChild.sendUpReq (h : p.EachChild Q) (tid : TreeId) : (p.sendUpReq tid).EachChild Q := by
  cases hs : p.psessions.second with
  | none =>
    have hc : (p.sendUpReq tid).csessions = p.csessions := by simp [Prover.sendUpReq, hs, fail]
    exact h.of_lookup fun c s _ hl => hc ▸ hl
  | some parent =>
    rw [sendUpReq_of_some tid hs]
    exact h.erase rfl

theorem EachChild.broadcast (h : p.EachChild Q) (depth : Nat) (tid : TreeId) :
    (p.broadcastCommitReq depth tid).EachChild Q := by
  unfold broadcastCommitReq
  dsimp only
  rw [andThen]
  split
  · refine h.of_lookup fun c s _ hl => ?_
    rwa [(psessions_scheduleAt _ _ _).2] at hl
  · refine h.of_lookup fun c s hne hl => ?_
    rw [(psessions_scheduleAt _ _ _).2] at hl
    dsimp only [cancelEvent, record] at hl
    rwa [AList.lookup_insert_ne hne, (psessions_scheduleAt _ _ _).2] at hl

theorem EachChild.sendCommitReq (h : p.EachChild Q) (c : Choice) (tid : TreeId) :
    (p.sendCommitReq c tid).EachChild Q := by
  have hroot : (p.startTree c.treeID).EachChild Q := h
  unfold Prover.sendCommitReq
  split
  · exact h
  · split
    · exact hroot.sendUpReq _
    · split
      · exact hroot.broadcast _ _
      · split
        · exact h
        · exact EachChild.broadcast (p := p.record _) h _ _

theorem EachChild.timer (h : p.EachChild Q) (t : Timer) (c : Choice) :
    (p.onTimer t c).EachChild Q := by
  have hstart : (p.startAttestation c).EachChild Q := by
    obtain ⟨_, _, _, he⟩ := startAttestation_shape (p := p) c
    rw [he]
    intro _ _ _ hl
    cases hl
  cases t with
  | startmsg => exact hstart
  | attesttimer => exact hstart
  | checkdelaymsg => exact h
  | mktreetimer => exact h.sendCommitReq c NOID
  | creqmsg => exact h
  | cacktomsg =>
    change (p.handleCommitAckTimeOut c).EachChild Q
    unfold handleCommitAckTimeOut
    split
    · exact h
    · dsimp only
      split
      · exact EachChild.sendCommitReq (p := { p with psessions := {}, status := .CREATING }) h c NOID
      · exact h
  | cresptomsg =>
    change p.handleCommitRespTimeOut.EachChild Q
    unfold handleCommitRespTimeOut
    dsimp only
    split
    · exact EachChild.sendUpReq (p := p.closeWindow) h _
    · exact h

theorem EachChild.accept (h : p.EachChild Q) {m : CommitResp}
    (hnew : ∀ tomsg, Q m.source { childSession m with tomsg := tomsg }) :
    ((p.admitChild m).sendCommitAck m.source m.treeID (childSession m)).EachChild Q := by
  have htakes : ∀ c s, c ≠ m.source → (p.admitChild m).csessions.lookup c = some s →
      p.csessions.lookup c = some s := by
    intro c s hne hl
    rwa [admitChild, AList.lookup_insert_ne hne] at hl
  intro c s hne hl
  cases hp : (p.admitChild m).psessions.second with
  | none =>
    have hc : ((p.admitChild m).sendCommitAck m.source m.treeID (childSession m)).csessions =
        (p.admitChild m).csessions := by simp [sendCommitAck, prepare, hp, fail]
    rw [hc] at hl
    by_cases hk : c = m.source
    · rw [hk, admitChild, AList.lookup_insert] at hl
      cases hl
      rw [hk]
      exact hnew none
    · exact h c s hne (htakes c s hk hl)
  | some parent =>
    rw [sendCommitAck_of_some m.treeID m.source (childSession m) hp] at hl
    dsimp only at hl
    by_cases hk : c = m.source
    · rw [hk, AList.lookup_insert] at hl
      cases hl
      rw [hk]
      exact hnew _
    · rw [AList.lookup_insert_ne hk] at hl
      exact h c s hne (htakes c s hk hl)

theorem EachChild.recv (h : p.EachChild Q) (c : Choice) {m : Msg} (hf : p.fault = none)
    (hnew : ∀ r tomsg, m = .commitResp r → p.Answers r →
      Q r.source { childSession r with tomsg := tomsg }) : (p.onRecv m c).EachChild Q := by
  cases m with
  | commitReq m =>
    change (p.handleCommitReq m).EachChild Q
    rcases handleCommitReq_cases (p := p) m with he | ⟨sess, -, he⟩
    · rw [he]
      exact h
    · rw [he]
      refine h.of_lookup fun c s _ hl => ?_
      rwa [(psessions_sendCommitResp _ _ _ _).2] at hl
  | commitResp m =>
    have hack := fun ha => h.accept (m := m) fun tomsg => hnew m tomsg rfl ha
    change (p.handleCommitResp m).EachChild Q
    have hcase := handleCommitResp_cases hf m
    generalize p.handleCommitResp m = p' at hcase ⊢
    cases hcase with
    | ignored => exact h
    | unverified => exact h
    | null ha _ _ _ he => rw [he]; exact hack ha
    | more ha _ he => rw [he]; exact hack ha
    | full ha _ he => rw [he]; exact hack ha
  | commitAck m =>
    change (p.handleCommitAck c m).EachChild Q
    have hcase := handleCommitAck_cases (p := p) c m
    generalize p.handleCommitAck c m = p' at hcase ⊢
    cases hcase with
    | ignored => exact h
    | unverified => exact h
    | null => exact h
    | leaf => exact EachChild.sendUpReq (p := { (p.queueMacDelay (.commitAck m)).validateParent _ with
        status := .FINISHED }) h _
    | inner => exact EachChild.sendCommitReq (p := { (p.queueMacDelay
        (.commitAck m)).validateParent _ with status := .CREATING }) h c _
  | updateReq m =>
    change (p.handleUpReq m).EachChild Q
    have hmerged : ∀ child, (p.merged m child).EachChild Q := fun _ => h.erase rfl
    have hcase := handleUpReq_cases (p := p) m
    generalize p.handleUpReq m = p' at hcase ⊢
    cases hcase with
    | forward => exact h
    | redirect => exact h
    | ignored => exact h
    | unverified => exact h
    | null => exact h
    | array => exact h
    | last => exact (hmerged _).sendUpReq _
    | more => exact hmerged _

/-- **One event** keeps a property of the child sessions, given it of the responses accepted. -/
theorem EachChild.live {e : Event} (h : p.EachChild Q) (hf : p.fault = none)
    (hnew : ∀ m c tomsg, e.act = .recv (.commitResp m) c → p.Answers m →
      Q m.source { childSession m with tomsg := tomsg })
    (hl : p.Live e p') : p'.EachChild Q := by
  cases hl with
  | @timer t c => exact EachChild.timer (p := (p.atTime e.time).cancelEvent t) h t c
  | @upto k u =>
    have hdrop : (((p.atTime e.time).popUpto k).timedOut u.2).EachChild Q := h.erase rfl
    unfold handleUpdateTimeOut
    dsimp only
    split
    · exact EachChild.sendUpReq (p := { ((p.atTime e.time).popUpto k).timedOut u.2 with
        status := .FINISHED }) hdrop _
    · exact hdrop
  | @self k c o =>
    obtain ⟨out, he⟩ := onSelf_eq (p := (p.atTime e.time).popOutbox k) o.2 c
    rw [he]
    exact h
  | @recv m c hact =>
    refine EachChild.recv (p := p.atTime e.time) h c hf fun r tomsg hm ha => ?_
    exact hnew r c tomsg (hm ▸ hact) ⟨ha.status, ha.free, ha.destination, ha.new, ha.key, ha.mac⟩

end

end Prover

end Fadia
