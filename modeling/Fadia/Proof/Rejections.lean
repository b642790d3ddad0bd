import Fadia.Devices.Joining
import Fadia.Proof.ProverSteps

/-!
# A rejected message leaves the prover as it was

`Rejected` lists the tests by which the six handlers reject a message.  Nothing but `log` and
the queue of MAC delays changes behind any of them, except in `handleJoinResp`, which takes
over the configuration before it checks the MAC (`rejected_kept_iff`).
-/

namespace Fadia

/-! ## Messages for a `Prover` -/

namespace Prover

/-- Only the queue of MAC delays and the log differ. -/
def Kept (p p' : Prover) : Prop :=
  ∃ macdelays log, p' = { p with macdelays := macdelays, log := log }

section
variable {p : Prover}

theorem Kept.refl (p : Prover) : p.Kept p := ⟨p.macdelays, p.log, rfl⟩

theorem kept_queueMacDelay (m : Msg) : p.Kept (p.queueMacDelay m) :=
  ⟨p.macdelays ++ [macDelay p.cfg.device m.byteLength], p.log, rfl⟩

theorem kept_record (mark : Mark) : p.Kept (p.record mark) := ⟨p.macdelays, mark :: p.log, rfl⟩

theorem Kept.trans {p₁ p₂ : Prover} (h₁ : p.Kept p₁) (h₂ : p₁.Kept p₂) : p.Kept p₂ := by
  obtain ⟨_, _, rfl⟩ := h₁
  obtain ⟨d, l, rfl⟩ := h₂
  exact ⟨d, l, rfl⟩

theorem handleCommitReq_kept {m : CommitReq} (h : ∀ sess, ¬ p.Joins m sess) :
    p.Kept (p.handleCommitReq m) := by
  rcases p.handleCommitReq_cases m with he | ⟨sess, hjoins, -⟩
  · rw [he]
    exact .refl p
  · exact absurd hjoins (h sess)

theorem handleCommitResp_kept {m : CommitResp} (h : ¬ p.Answers m) :
    p.Kept (p.handleCommitResp m) := by
  unfold handleCommitResp
  split
  · exact .refl p
  next hs =>
  split
  · exact .refl p
  next hfree =>
  split
  · exact .refl p
  next hdest =>
  split
  · exact .refl p
  next hnew =>
  split
  · exact .refl p
  next hkey =>
  dsimp only
  split
  · exact kept_queueMacDelay _
  next hmac =>
  exact absurd ⟨not_not.mp hs, Nat.not_le.mp hfree, not_not.mp hdest, hnew, not_not.mp hkey,
    not_not.mp hmac⟩ h

/-- `hrej` is about the tests behind those for the source and the destination. -/
theorem handleCommitAck_kept (c : Choice) {m : CommitAck}
    (hrej : p.psessions.first = m.source → m.destination = p.cfg.UId →
      ∃ parent, p.psessions.second = some parent ∧
        (parent.keyID ∉ p.cfg.KeyRing ∨ p.cfg.checkMAC (.commitAck m) parent.keyID = false)) :
    p.Kept (p.handleCommitAck c m) := by
  unfold handleCommitAck
  split
  · exact .refl p
  next hsrc =>
  split
  · exact .refl p
  next hdest =>
  obtain ⟨parent, hsecond, hno⟩ := hrej (not_not.mp hsrc) (not_not.mp hdest)
  rw [hsecond]
  dsimp only
  split
  · exact .refl p
  next hkey =>
  split
  · exact kept_queueMacDelay _
  next hmac =>
  rcases hno with hno | hno
  · exact absurd hno hkey
  · exact absurd (hno ▸ Bool.false_ne_true) hmac

/-- `hrej` is about the tests behind those for the destination and the status. -/
theorem handleUpReq_kept {m : UpdateReq} (hkind : m.kind ≠ .UPRQF)
    (hstatus : m.destination = p.cfg.UId → p.status ≠ .FINISHED)
    (hrej : m.destination = p.cfg.UId → p.status = .COLLECTING ∨ p.status = .CREATING →
      ∀ child, p.csessions.lookup m.source = some child →
        ∃ parent, p.psessions.second = some parent ∧
          (m.treeID ≠ parent.treeID ∨ p.cfg.checkMAC (.updateReq m) child.keyID = false)) :
    p.Kept (p.handleUpReq m) := by
  have hrec : p.Kept (p.record (.upReq m.source)) := kept_record _
  unfold handleUpReq
  dsimp only
  rw [if_neg hkind]
  split
  · exact hrec
  next hdest =>
  have hdest' : m.destination = p.cfg.UId := not_not.mp hdest
  split
  · next hfin => exact absurd hfin (hstatus hdest')
  split
  · exact hrec
  next hst =>
  have hst' : p.status = .COLLECTING ∨ p.status = .CREATING := by
    by_contra hno
    exact hst ⟨fun h => hno (.inl h), fun h => hno (.inr h)⟩
  split
  · exact hrec
  next child hchild =>
  obtain ⟨parent, hsecond, hno⟩ := hrej hdest' hst' child hchild
  have hsecond' : (p.record (.upReq m.source)).psessions.second = some parent := hsecond
  rw [hsecond']
  dsimp only
  split
  · exact hrec
  next htree =>
  split
  · exact hrec.trans (kept_queueMacDelay _)
  next hmac =>
  rcases hno with hno | hno
  · exact absurd hno htree
  · exact absurd (hno ▸ Bool.false_ne_true) hmac

end

end Prover

namespace JoiningProver

/-! ## The rejections -/

/-- The tests of the handlers.  A report that is passed on to the collector is not rejected,
nor is a message at which the simulation ends. -/
inductive Rejected (s : JoiningProver) : Received → Prop
  | joinRespDestination {m : JoinResp} : m.destination ≠ s.prover.cfg.UId → Rejected s (.joinResp m)
  | joinRespSource {m : JoinResp} : m.source ≠ s.cid → Rejected s (.joinResp m)
  | joinRespMac {m : JoinResp} : s.checkJoinResp m ckey = false → Rejected s (.joinResp m)
  | commitReqStatus {m : CommitReq} : s.prover.status ≠ .READY → Rejected s (.message (.commitReq m))
  | commitReqKey {m : CommitReq} : (∀ kid ∈ m.kid, kid ∉ s.prover.cfg.KeyRing) →
      Rejected s (.message (.commitReq m))
  | commitRespStatus {m : CommitResp} : s.prover.status ≠ .CREATING →
      Rejected s (.message (.commitResp m))
  | commitRespFull {m : CommitResp} :
      s.prover.maxchildren ≤ subSize s.prover.csessions.keys.length 1 →
      Rejected s (.message (.commitResp m))
  | commitRespDestination {m : CommitResp} : m.destination ≠ s.prover.cfg.UId →
      Rejected s (.message (.commitResp m))
  | commitRespSession {m : CommitResp} : m.source ∈ s.prover.csessions →
      Rejected s (.message (.commitResp m))
  | commitRespKey {m : CommitResp} : m.kid ∉ s.prover.cfg.KeyRing →
      Rejected s (.message (.commitResp m))
  | commitRespMac {m : CommitResp} : s.prover.cfg.checkMAC (.commitResp m) m.kid = false →
      Rejected s (.message (.commitResp m))
  | commitAckSource {m : CommitAck} : s.prover.psessions.first ≠ m.source →
      Rejected s (.message (.commitAck m))
  | commitAckDestination {m : CommitAck} : m.destination ≠ s.prover.cfg.UId →
      Rejected s (.message (.commitAck m))
  | commitAckKey {m : CommitAck} {parent : Session} : s.prover.psessions.second = some parent →
      parent.keyID ∉ s.prover.cfg.KeyRing → Rejected s (.message (.commitAck m))
  | commitAckMac {m : CommitAck} {parent : Session} : s.prover.psessions.second = some parent →
      s.prover.cfg.checkMAC (.commitAck m) parent.keyID = false →
      Rejected s (.message (.commitAck m))
  | updateReqDestination {m : UpdateReq} : m.kind ≠ .UPRQF → m.destination ≠ s.prover.cfg.UId →
      Rejected s (.message (.updateReq m))
  | updateReqStatus {m : UpdateReq} : m.kind ≠ .UPRQF → s.prover.status ≠ .FINISHED →
      s.prover.status ≠ .COLLECTING → s.prover.status ≠ .CREATING →
      Rejected s (.message (.updateReq m))
  | updateReqSession {m : UpdateReq} : m.kind ≠ .UPRQF → s.prover.status ≠ .FINISHED →
      m.source ∉ s.prover.csessions → Rejected s (.message (.updateReq m))
  | updateReqTree {m : UpdateReq} {parent : Session} : m.kind ≠ .UPRQF →
      s.prover.status ≠ .FINISHED → s.prover.psessions.second = some parent →
      m.treeID ≠ parent.treeID → Rejected s (.message (.updateReq m))
  | updateReqMac {m : UpdateReq} {child parent : Session} : m.kind ≠ .UPRQF →
      s.prover.status ≠ .FINISHED → s.prover.csessions.lookup m.source = some child →
      s.prover.psessions.second = some parent →
      s.prover.cfg.checkMAC (.updateReq m) child.keyID = false →
      Rejected s (.message (.updateReq m))
  | revokeReqDestination {m : RevokeReq} : m.destination ≠ s.prover.cfg.UId →
      Rejected s (.revokeReq m)
  | revokeReqMac {m : RevokeReq} : s.checkRevokeReq m 0 = false → Rejected s (.revokeReq m)

/-- What the handlers do with the other messages: a `JoinResp` or `RevokeReq` is accepted, a
`CommitReq`, `CommitResp`, `CommitAck` or report passes all tests, a report is passed on to the
collector, or the simulation ends. -/
inductive Handled (s : JoiningProver) : Received → Prop
  | joined {m : JoinResp} : m.destination = s.prover.cfg.UId → m.source = s.cid →
      s.checkJoinResp m ckey = true → Handled s (.joinResp m)
  | revoked {m : RevokeReq} : m.destination = s.prover.cfg.UId → s.checkRevokeReq m 0 = true →
      Handled s (.revokeReq m)
  | joins {m : CommitReq} {sess : Session} : s.prover.Joins m sess →
      Handled s (.message (.commitReq m))
  | answers {m : CommitResp} : s.prover.Answers m → Handled s (.message (.commitResp m))
  | acked {m : CommitAck} {parent : Session} : s.prover.Acked m parent →
      Handled s (.message (.commitAck m))
  | merges {m : UpdateReq} {child parent : Session} : s.prover.Merges m child parent →
      Handled s (.message (.updateReq m))
  | redirected {m : UpdateReq} : m.kind = .UPRQF → Handled s (.message (.updateReq m))
  | late {m : UpdateReq} : m.destination = s.prover.cfg.UId → s.prover.status = .FINISHED →
      Handled s (.message (.updateReq m))
  | null {m : Msg} : s.prover.psessions.second = none → Handled s (.message m)
  | array {m : UpdateReq} : m.report2.length < m.report1.length → Handled s (.message (.updateReq m))

/-- The protocol state is the same: only the queue of MAC delays and the log differ. -/
def Kept (s s' : JoiningProver) : Prop :=
  ∃ macdelays log, s' = { s with prover.macdelays := macdelays, prover.log := log }

/-- The message passes the first test of `handleJoinResp`, and brings another configuration or
finds its timeout still scheduled. -/
def Reconfigures (s : JoiningProver) : Received → Prop
  | .joinResp m => m.destination = s.prover.cfg.UId ∧ m.source = s.cid ∧
      (s.jointomsg.isSome ∨ m.depth ≠ s.prover.cfg.maxdepth ∨ m.deltah ≠ s.prover.cfg.deltah ∨
        m.deltag ≠ s.deltag)
  | .revokeReq _ | .message _ => False

instance (s : JoiningProver) : (m : Received) → Decidable (s.Reconfigures m)
  | .joinResp _ => inferInstanceAs (Decidable (_ ∧ _))
  | .revokeReq _ | .message _ => inferInstanceAs (Decidable False)

section
variable {s : JoiningProver}

theorem Kept.refl (s : JoiningProver) : s.Kept s := ⟨s.prover.macdelays, s.prover.log, rfl⟩

theorem kept_queueMacDelay (byteLength : Nat) : s.Kept (s.queueMacDelay byteLength) :=
  ⟨s.prover.macdelays ++ [macDelay s.prover.cfg.device byteLength], s.prover.log, rfl⟩

theorem kept_message {c : Choice} {m : Msg} (h : s.prover.Kept (s.prover.onRecv m c)) :
    s.Kept (s.handle c (.message m)) := by
  obtain ⟨d, l, he⟩ := h
  exact ⟨d, l, congrArg (fun p => { s with prover := p }) he⟩

/-- Every rejected message for the `Prover` leaves it as it was. -/
theorem message_kept (c : Choice) {m : Msg} (h : s.Rejected (.message m)) :
    s.Kept (s.handle c (.message m)) := by
  apply kept_message
  cases h with
  | commitReqStatus hs => exact Prover.handleCommitReq_kept fun sess hj => hs hj.1
  | commitReqKey hk =>
    refine Prover.handleCommitReq_kept fun sess hj => ?_
    obtain ⟨-, kid, hfind, -⟩ := hj
    have hmem := List.find?_some hfind
    exact hk kid (List.mem_of_find?_eq_some hfind) (by simpa using hmem)
  | commitRespStatus hs => exact Prover.handleCommitResp_kept fun ha => hs ha.status
  | commitRespFull hs => exact Prover.handleCommitResp_kept fun ha => Nat.not_lt.mpr hs ha.free
  | commitRespDestination hs => exact Prover.handleCommitResp_kept fun ha => hs ha.destination
  | commitRespSession hs => exact Prover.handleCommitResp_kept fun ha => ha.new hs
  | commitRespKey hs => exact Prover.handleCommitResp_kept fun ha => hs ha.key
  | commitRespMac hs =>
    exact Prover.handleCommitResp_kept fun ha => Bool.false_ne_true (hs.symm.trans ha.mac)
  | commitAckSource hs => exact Prover.handleCommitAck_kept c fun h _ => absurd h hs
  | commitAckDestination hs => exact Prover.handleCommitAck_kept c fun _ h => absurd h hs
  | commitAckKey hp hk => exact Prover.handleCommitAck_kept c fun _ _ => ⟨_, hp, .inl hk⟩
  | commitAckMac hp hk => exact Prover.handleCommitAck_kept c fun _ _ => ⟨_, hp, .inr hk⟩
  | updateReqDestination hkind hd =>
    exact Prover.handleUpReq_kept hkind (fun h => absurd h hd) fun h => absurd h hd
  | updateReqStatus hkind hf hc hcr =>
    exact Prover.handleUpReq_kept hkind (fun _ => hf) fun _ h => absurd h (not_or.mpr ⟨hc, hcr⟩)
  | updateReqSession hkind hf hsess =>
    refine Prover.handleUpReq_kept hkind (fun _ => hf) fun _ _ child hl => ?_
    exact absurd (AList.lookup_isSome.mp (Option.isSome_iff_exists.mpr ⟨child, hl⟩)) hsess
  | updateReqTree hkind hf hp ht =>
    exact Prover.handleUpReq_kept hkind (fun _ => hf) fun _ _ _ _ => ⟨_, hp, .inl ht⟩
  | updateReqMac hkind hf hl hp hmac =>
    refine Prover.handleUpReq_kept hkind (fun _ => hf) fun _ _ child hchild => ⟨_, hp, .inr ?_⟩
    obtain rfl := Option.some.inj (hl.symm.trans hchild)
    exact hmac

/-- With the `checkMAC` of the source this is the handler of `RevocableProver`. -/
theorem handleRevReq_eq {m : RevokeReq} (h : s.checkRevokeReq = fun m _ => m.mac == generateMAC 0) :
    (s.handleRevReq m).toRevocableProver = s.toRevocableProver.handleRevReq m := by
  have hcheck : (s.queueMacDelay m.byteLength).checkRevokeReq m 0 = (m.mac == generateMAC 0) :=
    congrArg (· m 0) h
  unfold handleRevReq RevocableProver.handleRevReq
  dsimp only
  rw [hcheck]
  split
  · rfl
  · by_cases hmac : m.mac = generateMAC 0
    · rw [if_neg (not_not.mpr (beq_iff_eq.mpr hmac)), if_neg (not_not.mpr hmac)]
      rfl
    · rw [if_pos (fun h => hmac (beq_iff_eq.mp h)), if_pos hmac]
      rfl

theorem revokeReq_kept {m : RevokeReq} (h : s.Rejected (.revokeReq m)) :
    s.Kept (s.handleRevReq m) := by
  unfold handleRevReq
  split
  · exact .refl s
  next hd =>
  dsimp only
  split
  · exact kept_queueMacDelay _
  next hmac =>
  cases h with
  | revokeReqDestination hdest => exact absurd hdest hd
  | revokeReqMac hno => exact absurd (hno ▸ Bool.false_ne_true) hmac

/-- The configuration is taken over before the MAC is checked. -/
theorem joinResp_kept_iff {m : JoinResp} (h : s.Rejected (.joinResp m)) :
    s.Kept (s.handleJoinResp m) ↔ ¬ s.Reconfigures (.joinResp m) := by
  unfold handleJoinResp
  split
  · next hno =>
    refine iff_of_true (.refl s) fun hre => ?_
    rcases hno with hno | hno
    · exact hno hre.1
    · exact hno hre.2.1
  next hok =>
  obtain ⟨hdest, hsrc⟩ := not_or.mp hok
  have hmac : s.checkJoinResp m ckey = false := by
    cases h with
    | joinRespDestination hd => exact absurd hd hdest
    | joinRespSource hs => exact absurd hs hsrc
    | joinRespMac hmac => exact hmac
  dsimp only
  rw [if_neg (by
    show ¬ s.checkJoinResp m ckey = true
    rw [hmac]
    exact Bool.false_ne_true)]
  constructor
  · rintro ⟨d, l, he⟩ ⟨-, -, hchange⟩
    rcases hchange with hj | hd | hh | hg
    · have hnone : none = s.jointomsg := congrArg JoiningProver.jointomsg he
      rw [← hnone] at hj
      cases hj
    · exact hd (congrArg (·.prover.cfg.maxdepth) he)
    · exact hh (congrArg (·.prover.cfg.deltah) he)
    · exact hg (congrArg JoiningProver.deltag he)
  · intro hre
    have hsame : s.reconfigure m = s := by
      have hnot : ¬ (s.jointomsg.isSome ∨ m.depth ≠ s.prover.cfg.maxdepth ∨
          m.deltah ≠ s.prover.cfg.deltah ∨ m.deltag ≠ s.deltag) :=
        fun h => hre ⟨not_not.mp hdest, not_not.mp hsrc, h⟩
      push Not at hnot
      obtain ⟨hj, hd, hh, hg⟩ := hnot
      have hnone : none = s.jointomsg := (Option.not_isSome_iff_eq_none.mp hj).symm
      unfold reconfigure
      rw [hd, hh, hg, hnone]
    rw [hsame]
    exact kept_queueMacDelay _

end

/-- `Rejected` misses no test: what it does not list is not rejected. -/
theorem rejected_or_handled (m : Received) (s : JoiningProver) : s.Rejected m ∨ s.Handled m := by
  by_contra hno
  obtain ⟨hrej, hhan⟩ := not_or.mp hno
  match m with
  | .joinResp m =>
    refine hhan (.joined ?_ ?_ ?_)
    · exact not_not.mp fun h => hrej (.joinRespDestination h)
    · exact not_not.mp fun h => hrej (.joinRespSource h)
    · exact Bool.of_not_eq_false fun h => hrej (.joinRespMac h)
  | .revokeReq m =>
    refine hhan (.revoked ?_ ?_)
    · exact not_not.mp fun h => hrej (.revokeReqDestination h)
    · exact Bool.of_not_eq_false fun h => hrej (.revokeReqMac h)
  | .message (.commitReq m) =>
    have hkid : ∃ kid ∈ m.kid, kid ∈ s.prover.cfg.KeyRing := by
      by_contra h
      push Not at h
      exact hrej (.commitReqKey h)
    obtain ⟨kid, hmem, hring⟩ := hkid
    have hsome : (m.kid.find? (· ∈ s.prover.cfg.KeyRing)).isSome :=
      List.find?_isSome.mpr ⟨kid, hmem, decide_eq_true hring⟩
    obtain ⟨found, hfound⟩ := Option.isSome_iff_exists.mp hsome
    exact hhan (.joins ⟨not_not.mp fun h => hrej (.commitReqStatus h), found, hfound, rfl⟩)
  | .message (.commitResp m) =>
    refine hhan (.answers ⟨?_, ?_, ?_, ?_, ?_, ?_⟩)
    · exact not_not.mp fun h => hrej (.commitRespStatus h)
    · exact Nat.not_le.mp fun h => hrej (.commitRespFull h)
    · exact not_not.mp fun h => hrej (.commitRespDestination h)
    · exact fun h => hrej (.commitRespSession h)
    · exact not_not.mp fun h => hrej (.commitRespKey h)
    · exact Bool.of_not_eq_false fun h => hrej (.commitRespMac h)
  | .message (.commitAck m) =>
    cases hp : s.prover.psessions.second with
    | none => exact hhan (.null hp)
    | some parent =>
      refine hhan (.acked ⟨?_, ?_, hp, ?_, ?_⟩)
      · exact not_not.mp fun h => hrej (.commitAckSource h)
      · exact not_not.mp fun h => hrej (.commitAckDestination h)
      · exact not_not.mp fun h => hrej (.commitAckKey hp h)
      · exact Bool.of_not_eq_false fun h => hrej (.commitAckMac hp h)
  | .message (.updateReq m) =>
    have hkind : m.kind ≠ .UPRQF := fun h => hhan (.redirected h)
    have hdest : m.destination = s.prover.cfg.UId :=
      not_not.mp fun h => hrej (.updateReqDestination hkind h)
    have hfin : s.prover.status ≠ .FINISHED := fun h => hhan (.late hdest h)
    have hstatus : s.prover.status = .COLLECTING ∨ s.prover.status = .CREATING := by
      by_contra h
      obtain ⟨hcol, hcre⟩ := not_or.mp h
      exact hrej (.updateReqStatus hkind hfin hcol hcre)
    have hsender : m.source ∈ s.prover.csessions :=
      not_not.mp fun h => hrej (.updateReqSession hkind hfin h)
    obtain ⟨child, hchild⟩ := Option.isSome_iff_exists.mp (AList.lookup_isSome.mpr hsender)
    cases hp : s.prover.psessions.second with
    | none => exact hhan (.null hp)
    | some parent =>
      refine hhan (.merges ⟨hkind, hdest, hstatus, hchild, hp, ?_, ?_, ?_⟩)
      · exact not_not.mp fun h => hrej (.updateReqTree hkind hfin hp h)
      · exact Bool.of_not_eq_false fun h => hrej (.updateReqMac hkind hfin hchild hp h)
      · exact Nat.not_lt.mp fun h => hhan (.array h)

/-- **A rejected message leaves the prover as it was** unless it is a `JoinResp` from its
collector that brings another configuration. -/
theorem rejected_kept_iff (c : Choice) (m : Received) (s : JoiningProver) (h : s.Rejected m) :
    s.Kept (s.handle c m) ↔ ¬ s.Reconfigures m := by
  cases m with
  | joinResp m => exact joinResp_kept_iff h
  | revokeReq m => exact iff_of_true (revokeReq_kept h) not_false
  | message m => exact iff_of_true (message_kept c h) not_false

/-- A prover that has joined. -/
def joined : JoiningProver where
  prover :=
    { cfg := ⟨1, [5], 2, 50 * second, 2, .SKY, fun m _ => m.mac == 0, fun _ _ _ => 0⟩
      timers := fun _ => none }
  cid := 1
  deltag := 6 * second

/-- A `JoinResp` with a wrong MAC that repeats the configuration has been taken over when its MAC
is checked, and has changed nothing. -/
theorem rejected_kept_repeated :
    joined.Kept (joined.handle {} (.joinResp ⟨1, 1, 2, 50 * second, 7⟩)) :=
  (rejected_kept_iff {} (.joinResp ⟨1, 1, 2, 50 * second, 7⟩) joined
    (.joinRespMac (by decide))).mpr (by decide)

/-- A `JoinResp` with a wrong MAC gives the prover another depth. -/
theorem forgedJoinResp_reconfigures :
    ¬ ∀ (c : Choice) (m : Received) (s : JoiningProver), s.Rejected m → s.Kept (s.handle c m) := by
  intro h
  obtain ⟨_, _, he⟩ := h {} (.joinResp ⟨1, 1, 1, 0, 7⟩) joined (.joinRespMac rfl)
  have hdepth : (joined.handle {} (.joinResp ⟨1, 1, 1, 0, 7⟩)).prover.cfg.maxdepth =
      joined.prover.cfg.maxdepth := congrArg (·.prover.cfg.maxdepth) he
  exact absurd hdepth (by decide)

end JoiningProver

end Fadia
