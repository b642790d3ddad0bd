import Fadia.Proof.ProverSteps

/-!
# No handler reads what was handed over

`behind l b p` is the prover `p` with the packets `l` handed over before all others, and crashed
or not as `b` says.  Every handler commutes with it: handlers only append to `out` and leave
`crashed` alone.  So a step of `p` is a step of the prover that handed over more before
(`step_behind`).
-/

namespace Fadia

namespace Prover

/-- The prover with more packets handed over before. -/
def behind (l : List Packet) (b : Bool) (p : Prover) : Prover :=
  { p with out := l ++ p.out, crashed := b }

section
variable {l : List Packet} {b : Bool} {p : Prover}

theorem ite_behind {c : Prop} [Decidable c] {q r q' r' : Prover} (hq : q' = behind l b q)
    (hr : r' = behind l b r) : (if c then q' else r') = behind l b (if c then q else r) := by
  split
  · exact hq
  · exact hr

/-- Handlers that commute with `behind` do so one after the other. -/
theorem andThen_behind {f : Prover → Prover} (hf : ∀ p, f (behind l b p) = behind l b (f p)) :
    (behind l b p).andThen f = behind l b (p.andThen f) := by
  unfold andThen
  rw [show (behind l b p).fault = p.fault from rfl]
  cases p.fault with
  | none => exact hf p
  | some x => rfl

@[simp] theorem scheduleAt_behind (t : Timer) (d : Nat) :
    (behind l b p).scheduleAt t d = behind l b (p.scheduleAt t d) := by
  unfold scheduleAt
  change (if (p.timers t).isSome then _ else _) = _
  split <;> rfl

theorem sendUpReq_behind (tid : TreeId) :
    (behind l b p).sendUpReq tid = behind l b (p.sendUpReq tid) := by
  unfold sendUpReq
  dsimp only
  rw [show (behind l b p).psessions = p.psessions from rfl]
  cases p.psessions.second <;> rfl

theorem broadcastCommitReq_behind (depth : Nat) (tid : TreeId) :
    (behind l b p).broadcastCommitReq depth tid = behind l b (p.broadcastCommitReq depth tid) := by
  let q : Prover := { p with status := .CREATING, creqDepth := depth, creqTreeID := tid }
  unfold broadcastCommitReq
  dsimp only
  change ((behind l b q).scheduleAt .creqmsg 0).andThen _ = behind l b ((q.scheduleAt .creqmsg 0).andThen _)
  rw [scheduleAt_behind]
  refine andThen_behind fun q => ?_
  exact scheduleAt_behind (p := ({ q.record .broadcast with
    csessions := (q.record .broadcast).csessions.insert NOID { treeID := tid }
    crespTreeID := tid } : Prover).cancelEvent .cresptomsg) .cresptomsg timeoutresp

theorem sendCommitReq_behind (c : Choice) (tid : TreeId) :
    (behind l b p).sendCommitReq c tid = behind l b (p.sendCommitReq c tid) := by
  unfold sendCommitReq
  refine ite_behind rfl (ite_behind (sendUpReq_behind (p := p.startTree c.treeID) _)
    (ite_behind (broadcastCommitReq_behind (p := p.startTree c.treeID) _ _) ?_))
  rw [show (behind l b p).psessions = p.psessions from rfl]
  cases p.psessions.second with
  | none => rfl
  | some parent => exact broadcastCommitReq_behind (p := p.record (.depthSub parent.depth)) _ _

theorem sendCommitResp_behind (target : Uid) (tid : TreeId) (parent : Session) :
    (behind l b p).sendCommitResp target tid parent =
      behind l b (p.sendCommitResp target tid parent) := by
  unfold sendCommitResp
  exact scheduleAt_behind (p := { ({ p with status := .ATTESTING } : Prover).prepare
    (.commitResp ⟨p.cfg.UId, target, parent.keyID, tid, generateMAC parent.keyID, parent.keyID⟩) with
    cackto := ⟨target, tid⟩ }) .cacktomsg timeoutack

theorem sendCommitAck_behind (target : Uid) (tid : TreeId) (child : Session) :
    (behind l b p).sendCommitAck target tid child =
      behind l b (p.sendCommitAck target tid child) := by
  unfold sendCommitAck
  dsimp only
  cases hp : p.psessions.second with
  | none => simp [prepare, hp, behind, fail]
  | some parent => simp [prepare, hp, behind]

/-! ## The handlers -/

theorem startAttestation_behind (c : Choice) :
    (behind l b p).startAttestation c = behind l b (p.startAttestation c) := by
  unfold startAttestation
  dsimp only
  let q : Prover := { p with
    status := .CHECKING
    csessions := ∅
    psessions := {}
    aggreport := { p.aggreport with uids := [], counters := [], proofs := [] }
    maxchildren := c.maxchildren
    log := .start :: p.log }
  change (((behind l b q).scheduleAt .attesttimer p.cfg.deltah).andThen _).andThen _ = _
  rw [scheduleAt_behind, andThen_behind fun q => scheduleAt_behind .checkdelaymsg _]
  exact andThen_behind fun q => scheduleAt_behind .mktreetimer _

theorem handleCommitReq_behind (m : CommitReq) :
    (behind l b p).handleCommitReq m = behind l b (p.handleCommitReq m) := by
  unfold handleCommitReq
  refine ite_behind rfl ?_
  rw [show (behind l b p).cfg = p.cfg from rfl]
  cases m.kid.find? (· ∈ p.cfg.KeyRing) with
  | none => rfl
  | some kid =>
    exact sendCommitResp_behind (p := { p with
      psessions := ⟨m.source, some ⟨m.treeID, m.source, kid, m.depth, false, none⟩⟩ }) _ _ _

theorem handleCommitAck_behind (c : Choice) (m : CommitAck) :
    (behind l b p).handleCommitAck c m = behind l b (p.handleCommitAck c m) := by
  unfold handleCommitAck
  refine ite_behind rfl (ite_behind rfl ?_)
  rw [show (behind l b p).psessions = p.psessions from rfl]
  cases p.psessions.second with
  | none => rfl
  | some parent =>
    refine ite_behind rfl (ite_behind rfl (ite_behind ?_ ?_))
    · exact sendUpReq_behind
        (p := { (p.queueMacDelay (.commitAck m)).validateParent parent with status := .FINISHED }) _
    · exact sendCommitReq_behind
        (p := { (p.queueMacDelay (.commitAck m)).validateParent parent with status := .CREATING }) c _

theorem handleCommitAckTimeOut_behind (c : Choice) :
    (behind l b p).handleCommitAckTimeOut c = behind l b (p.handleCommitAckTimeOut c) := by
  unfold handleCommitAckTimeOut
  refine ite_behind rfl (ite_behind ?_ rfl)
  exact sendCommitReq_behind (p := { p with psessions := {}, status := .CREATING }) c NOID

theorem handleCommitRespTimeOut_behind :
    (behind l b p).handleCommitRespTimeOut = behind l b p.handleCommitRespTimeOut := by
  unfold handleCommitRespTimeOut
  exact ite_behind (sendUpReq_behind (p := p.closeWindow) p.crespTreeID) rfl

theorem handleCommitResp_behind (m : CommitResp) :
    (behind l b p).handleCommitResp m = behind l b (p.handleCommitResp m) := by
  unfold handleCommitResp
  refine ite_behind rfl (ite_behind rfl (ite_behind rfl (ite_behind rfl (ite_behind rfl
    (ite_behind rfl ?_)))))
  let q : Prover := { p.queueMacDelay (.commitResp m) with
    csessions := p.csessions.insert m.source ⟨m.treeID, m.source, m.kid, 0, true, none⟩ }
  change ((behind l b q).sendCommitAck _ _ _).andThen _ = behind l b ((q.sendCommitAck _ _ _).andThen _)
  rw [sendCommitAck_behind]
  exact andThen_behind fun q => ite_behind rfl rfl

theorem handleUpdateTimeOut_behind (u : CommitTimeOut) :
    (behind l b p).handleUpdateTimeOut u = behind l b (p.handleUpdateTimeOut u) := by
  unfold handleUpdateTimeOut
  exact ite_behind (sendUpReq_behind
    (p := { (p.record (.upTimeOut u.device)).dropSession u.device with status := .FINISHED }) _) rfl

theorem sendCollector_behind (m : UpdateReq) :
    (behind l b p).sendCollector m = behind l b (p.sendCollector m) := by
  simp [sendCollector, behind]

theorem handleUpReq_behind (m : UpdateReq) :
    (behind l b p).handleUpReq m = behind l b (p.handleUpReq m) := by
  unfold handleUpReq
  refine ite_behind (sendCollector_behind (p := p.record (.upReq m.source)) m) (ite_behind rfl
    (ite_behind (sendCollector_behind (p := p.record (.upReq m.source)) _) (ite_behind rfl ?_)))
  rw [show ((behind l b p).record (.upReq m.source)).csessions = p.csessions from rfl,
    show (p.record (.upReq m.source)).csessions = p.csessions from rfl]
  cases p.csessions.lookup m.source with
  | none => rfl
  | some child =>
    dsimp only
    rw [show ((behind l b p).record (.upReq m.source)).psessions = p.psessions from rfl,
      show (p.record (.upReq m.source)).psessions = p.psessions from rfl]
    cases p.psessions.second with
    | none => rfl
    | some parent =>
      exact ite_behind rfl (ite_behind rfl (ite_behind rfl
        (ite_behind (sendUpReq_behind (p := p.merged m child) _) rfl)))

theorem onTimer_behind (t : Timer) (c : Choice) :
    (behind l b p).onTimer t c = behind l b (p.onTimer t c) := by
  cases t with
  | startmsg => exact startAttestation_behind c
  | attesttimer => exact startAttestation_behind c
  | checkdelaymsg => rfl
  | mktreetimer => exact sendCommitReq_behind c NOID
  | creqmsg => simp [onTimer, behind]
  | cacktomsg => exact handleCommitAckTimeOut_behind c
  | cresptomsg => exact handleCommitRespTimeOut_behind

theorem onSelf_behind (m : Msg) (c : Choice) :
    (behind l b p).onSelf m c = behind l b (p.onSelf m c) := by
  unfold onSelf
  split
  · split
    · split <;> simp [behind]
    · simp [behind]
    · simp [behind]
  · simp [behind]

theorem onRecv_behind (m : Msg) (c : Choice) :
    (behind l b p).onRecv m c = behind l b (p.onRecv m c) := by
  cases m with
  | commitReq m => exact handleCommitReq_behind m
  | commitResp m => exact handleCommitResp_behind m
  | commitAck m => exact handleCommitAck_behind c m
  | updateReq m => exact handleUpReq_behind m

/-! ## Events -/

/-- A handler that commutes with `behind` leaves `crashed` alone. -/
theorem crashed_of_behind {f : Prover → Prover}
    (hf : ∀ l b p, f (behind l b p) = behind l b (f p)) : (f p).crashed = p.crashed := by
  have h : f p = behind [] p.crashed (f p) := hf [] p.crashed p
  rw [h]
  rfl

theorem onTimer_frame (t : Timer) (c : Choice) (l : List Packet) (b : Bool) (p : Prover) :
    (behind l b p).onTimer t c = behind l b (p.onTimer t c) := onTimer_behind t c

theorem onUpto_frame (u : CommitTimeOut) (l : List Packet) (b : Bool) (p : Prover) :
    (behind l b p).handleUpdateTimeOut u = behind l b (p.handleUpdateTimeOut u) :=
  handleUpdateTimeOut_behind u

theorem onSelf_frame (m : Msg) (c : Choice) (l : List Packet) (b : Bool) (p : Prover) :
    (behind l b p).onSelf m c = behind l b (p.onSelf m c) := onSelf_behind m c

theorem onRecv_frame (m : Msg) (c : Choice) (l : List Packet) (b : Bool) (p : Prover) :
    (behind l b p).onRecv m c = behind l b (p.onRecv m c) := onRecv_behind m c

/-- No handler makes a prover crash. -/
theorem crashed_of_step {e : Event} {p' : Prover} (hs : step e p = some p') (hact : e.act ≠ .crash) :
    p'.crashed = p.crashed := by
  obtain ⟨-, -, ⟨hc, _, _, _, _, -, rfl⟩ | ⟨hc, hl⟩⟩ := step_cases hs
  · exact (hc.resolve_right hact).symm
  · cases hl with
    | @timer t c => exact crashed_of_behind (p := (p.atTime e.time).cancelEvent t) (onTimer_frame t c)
    | @upto k u => exact crashed_of_behind (p := (p.atTime e.time).popUpto k) (onUpto_frame u.2)
    | @self k c o => exact crashed_of_behind (p := (p.atTime e.time).popOutbox k) (onSelf_frame o.2 c)
    | @recv m c => exact crashed_of_behind (p := p.atTime e.time) (onRecv_frame m c)

theorem handleMessage_behind {f : Prover → Prover}
    (hf : ∀ l b p, f (behind l b p) = behind l b (f p)) :
    (behind l p.crashed p).handleMessage f =
      behind l (p.handleMessage f).crashed (p.handleMessage f) := by
  cases hc : p.crashed with
  | true => rw [handleMessage_of_crashed hc, handleMessage_of_crashed (by rfl), hc]
  | false => rw [handleMessage_of_alive hc, handleMessage_of_alive (by rfl), hf, crashed_of_behind hf, hc]

/-- **A step of a prover does not depend on what was handed over before.** -/
theorem step_behind (e : Event) :
    step e (behind l p.crashed p) = (step e p).map fun q => behind l q.crashed q := by
  obtain ⟨time, act⟩ := e
  rw [step, step]
  change (if p.fault.isSome ∨ time < p.now then none else _) = _
  split
  · rfl
  cases act with
  | timer t c =>
    dsimp only
    rw [show ((behind l p.crashed p).atTime time).timers = p.timers from rfl,
      show (p.atTime time).timers = p.timers from rfl]
    cases p.timers t with
    | none => rfl
    | some s =>
      dsimp only
      change (if (p.atTime time).Next s time ∧ c.delay ≤ p.cfg.deltag then _ else none) =
        Option.map _ (if (p.atTime time).Next s time ∧ c.delay ≤ p.cfg.deltag then _ else none)
      split
      · exact congrArg some (handleMessage_behind (p := (p.atTime time).cancelEvent t)
          (onTimer_frame t c))
      · rfl
  | upto k =>
    dsimp only
    rw [show ((behind l p.crashed p).atTime time).uptos = p.uptos from rfl,
      show (p.atTime time).uptos = p.uptos from rfl]
    cases p.uptos.find? (·.1.seq = k) with
    | none => rfl
    | some u =>
      dsimp only
      change (if (p.atTime time).Next u.1 time then _ else none) =
        Option.map _ (if (p.atTime time).Next u.1 time then _ else none)
      split
      · exact congrArg some (handleMessage_behind (p := (p.atTime time).popUpto k)
          (onUpto_frame u.2))
      · rfl
  | self k c =>
    dsimp only
    rw [show ((behind l p.crashed p).atTime time).outbox = p.outbox from rfl,
      show (p.atTime time).outbox = p.outbox from rfl]
    cases p.outbox.find? (·.1.seq = k) with
    | none => rfl
    | some o =>
      dsimp only
      change (if (p.atTime time).Next o.1 time then _ else none) =
        Option.map _ (if (p.atTime time).Next o.1 time then _ else none)
      split
      · exact congrArg some (handleMessage_behind (p := (p.atTime time).popOutbox k)
          (onSelf_frame o.2 c))
      · rfl
  | recv m c =>
    dsimp only
    change (if (p.atTime time).NoneBefore time then _ else none) =
      Option.map _ (if (p.atTime time).NoneBefore time then _ else none)
    split
    · exact congrArg some (handleMessage_behind (p := p.atTime time) (onRecv_frame m c))
    · rfl
  | crash =>
    dsimp only
    change (if (p.atTime time).NoneBefore time then _ else none) =
      Option.map _ (if (p.atTime time).NoneBefore time then _ else none)
    split <;> rfl

end

end Prover

end Fadia
