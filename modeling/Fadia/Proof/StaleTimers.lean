import Fadia.Proof.Schedule
import Fadia.Proof.SessionsAgree

/-!
# Timers of earlier rounds

`startAttestation` deletes the sessions but leaves `cresptomsg`, `cacktomsg` and the
`UPTO` messages scheduled.  One that was scheduled before it is stale: its place is
before that of `attesttimer` (`Stale`).  `Fresh` says which sessions the others belong
to; every handler keeps it (`Settles`, `fresh_live`).  An ack timeout that is stale
finds no parent, a stale `UPTO` may find a session of the new round, and a stale
`cresptomsg` closes the new round before it has begun (`staleWindow`): the rounds stay
apart exactly where these two do not (`rounds_apart`).
-/

namespace Fadia

open Schedule

namespace Prover

/-- The place of the last `startAttestation`, which schedules `attesttimer` first. -/
def round (p : Prover) : Nat := ((p.timers .attesttimer).map Stamp.seq).getD 0

/-- Scheduled before the last `startAttestation`. -/
def Stale (s : Stamp) (p : Prover) : Prop := s.seq < p.round

/-- The event is the expiry of `cresptomsg`, of `cacktomsg` or of an `UPTO` message. -/
inductive Expires (p : Prover) (e : Event) (s : Stamp) : Prop
  | resp {c : Choice} (hact : e.act = .timer .cresptomsg c) (hs : p.timers .cresptomsg = some s)
  | ack {c : Choice} (hact : e.act = .timer .cacktomsg c) (hs : p.timers .cacktomsg = some s)
  | upto {u : Stamp × CommitTimeOut} (hact : e.act = .upto s.seq)
      (hu : p.uptos.find? (·.1.seq = s.seq) = some u) (hs : u.1 = s)

/-- The round goes on as it was. -/
structure Untouched (p p' : Prover) : Prop where
  status : p'.status = p.status
  psessions : p'.psessions = p.psessions
  csessions : p'.csessions = p.csessions
  aggreport : p'.aggreport = p.aggreport
  reports : p'.log.count .sendUpReq = p.log.count .sendUpReq

/-- At a prover that lives no stale `cresptomsg` expires, and a stale `UPTO` only where
there is neither a session of its device nor just one entry in `csessions`. -/
def Apart (e : Event) (p : Prover) : Prop :=
  p.crashed = false →
    (∀ c s, e.act = .timer .cresptomsg c → p.timers .cresptomsg = some s → ¬ p.Stale s) ∧
      ∀ k u, e.act = .upto k → p.uptos.find? (·.1.seq = k) = some u → p.Stale u.1 →
        u.2.device ∉ p.csessions ∧ p.csessions.keys.length ≠ 1

/-- The timers scheduled from place `n` on belong to the sessions as they are. -/
structure Fresh (n : Nat) (p : Prover) : Prop where
  upto : ∀ u ∈ p.uptos, n ≤ u.1.seq → u.2.device ≠ NOID ∧
    ∃ s, p.csessions.lookup u.2.device = some s ∧ s.tomsg = some u.1.seq
  ack : ∀ s, p.timers .cacktomsg = some s → p.cackto.device ≠ NOID
  joins : ∀ s, p.timers .cacktomsg = some s → s.seq < n → p.psessions.first = NOID
  resp : ∀ s, p.timers .cresptomsg = some s → s.seq < n →
    p.status ≠ .CREATING ∧ p.status ≠ .COLLECTING

/-- What a handler does that neither starts a round nor adds or removes a child. -/
structure Settles (p p' : Prover) : Prop where
  outer : ∀ t : Timer, t.Outer → p'.timers t = p.timers t
  seq : p.seq ≤ p'.seq
  uptos : p'.uptos = p.uptos
  lookup : ∀ c ≠ NOID, p'.csessions.lookup c = p.csessions.lookup c
  cackto : p'.cackto = p.cackto
  first : p'.psessions.first = p.psessions.first ∨ p'.psessions.first = NOID
  ack : ∀ s, p'.timers .cacktomsg = some s → p.timers .cacktomsg = some s
  resp : ∀ s, p'.timers .cresptomsg = some s → p.seq ≤ s.seq ∨
    p'.status ≠ .CREATING ∧ p'.status ≠ .COLLECTING ∨
      p.timers .cresptomsg = some s ∧ p'.status = p.status

section
variable {p p' q : Prover} {n : Nat}

theorem Settles.trans (h : Settles p q) (h' : Settles q p') : Settles p p' := by
  refine ⟨fun t ht => (h'.outer t ht).trans (h.outer t ht), h.seq.trans h'.seq, h'.uptos.trans h.uptos,
    fun c hc => (h'.lookup c hc).trans (h.lookup c hc), h'.cackto.trans h.cackto, ?_,
    fun s hs => h.ack s (h'.ack s hs), fun s hs => ?_⟩
  · rcases h'.first with he | he
    · rw [he]
      exact h.first
    · exact .inr he
  · rcases h'.resp s hs with hle | hidle | ⟨hq, hst⟩
    · exact .inl (h.seq.trans hle)
    · exact .inr (.inl hidle)
    · rw [hst]
      exact h.resp s hq

theorem settles_of_eq (hs : p'.status = p.status) (ht : p'.timers = p.timers)
    (hq : p.seq ≤ p'.seq) (hu : p'.uptos = p.uptos) (hc : p'.csessions = p.csessions)
    (hd : p'.cackto = p.cackto)
    (hf : p'.psessions.first = p.psessions.first ∨ p'.psessions.first = NOID) :
    Settles p p' :=
  ⟨fun _ _ => by rw [ht], hq, hu, fun _ _ => by rw [hc], hd, hf, fun s h => ht ▸ h,
    fun s h => .inr (.inr ⟨ht ▸ h, hs⟩)⟩

theorem Fresh.settles (h : p.Fresh n) (hs : Settles p p') (hn : n ≤ p.seq) : p'.Fresh n := by
  refine ⟨fun u hu hle => ?_, fun s hc => ?_, fun s hc hlt => ?_, fun s hr hlt => ?_⟩
  · rw [hs.uptos] at hu
    obtain ⟨hne, hown⟩ := h.upto u hu hle
    exact ⟨hne, by rw [hs.lookup _ hne]; exact hown⟩
  · rw [hs.cackto]
    exact h.ack s (hs.ack s hc)
  · rcases hs.first with he | he
    · rw [he]
      exact h.joins s (hs.ack s hc) hlt
    · exact he
  · rcases hs.resp s hr with hle | hidle | ⟨hr, hst⟩
    · omega
    · exact hidle
    · rw [hst]
      exact h.resp s hr hlt

/-! ## The handlers -/

theorem settles_cancelEvent {t : Timer} (hno : ¬ t.Outer) (p : Prover) :
    Settles p (p.cancelEvent t) := by
  have hpop : ∀ t' s, (p.cancelEvent t).timers t' = some s → p.timers t' = some s := by
    intro t' s hs
    simp only [cancelEvent, Function.update_apply] at hs
    split at hs
    · cases hs
    · exact hs
  have hother : ∀ t' : Timer, t'.Outer → (p.cancelEvent t).timers t' = p.timers t' := by
    intro t' ht
    have hne : t' ≠ t := fun he => hno (he ▸ ht)
    exact Function.update_of_ne hne _ _
  exact ⟨hother, Nat.le_refl _, rfl, fun _ _ => rfl, rfl, .inl rfl, fun s hs => hpop _ s hs,
    fun s hs => .inr (.inr ⟨hpop _ s hs, rfl⟩)⟩

theorem outer_scheduleAt {t : Timer} (hno : ¬ t.Outer) (d : Nat) (p : Prover) (t' : Timer)
    (ht : t'.Outer) : (p.scheduleAt t d).timers t' = p.timers t' := by
  unfold scheduleAt
  have hne : t' ≠ t := fun he => hno (he ▸ ht)
  split
  · rfl
  · exact Function.update_of_ne hne _ _

theorem settles_sendUpReq (tid : TreeId) (p : Prover) : Settles p (p.sendUpReq tid) := by
  cases hs : p.psessions.second with
  | none =>
    have he : p.sendUpReq tid = { p with
        attestcount := p.attestcount + 1
        aggreport := addOwnReport p.cfg.aggsize p.cfg.recordMac p.cfg.UId (p.attestcount + 1)
          { p.aggreport with tid := tid }
        log := .sendUpReq :: p.log
        fault := some .nullSession } := by
      simp [sendUpReq, hs, fail]
    rw [he]
    exact settles_of_eq rfl rfl (Nat.le_refl _) rfl rfl rfl (.inl rfl)
  | some parent =>
    rw [sendUpReq_of_some tid hs]
    exact ⟨fun _ _ => rfl, Nat.le_succ _, rfl, fun c hc => AList.lookup_erase_ne hc, rfl, .inr rfl,
      fun _ h => h, fun _ _ => .inr (.inl ⟨by simp, by simp⟩)⟩

theorem settles_broadcast (depth : Nat) (tid : TreeId) (hf : p.fault = none)
    (hok : (p.broadcastCommitReq depth tid).fault = none) :
    Settles p (p.broadcastCommitReq depth tid) := by
  cases hc : p.timers .creqmsg with
  | some s =>
    rw [(broadcast_of_some tid depth hc).1] at hok
    cases hok
  | none =>
    rw [broadcast_of_none tid depth hf hc]
    have hother : ∀ t : Timer, t.Outer → t ≠ .creqmsg ∧ t ≠ .cresptomsg := by
      rintro t (rfl | rfl) <;> decide
    refine ⟨fun t ht => ?_, Nat.le_add_right _ _, rfl, fun c hc => AList.lookup_insert_ne hc, rfl,
      .inl rfl, fun s hs => by simpa using hs, fun s hs => .inl ?_⟩
    · simp [hother t ht]
    · obtain rfl : (⟨p.now + timeoutresp, p.seq + 1⟩ : Stamp) = s := by simpa using hs
      exact Nat.le_succ _

/-- `sendCommitReq` opens a new window, or ends outside of one. -/
theorem window_sendCommitReq (c : Choice) (tid : TreeId) (hf : p.fault = none)
    (hok : (p.sendCommitReq c tid).fault = none) (s : Stamp)
    (hs : (p.sendCommitReq c tid).timers .cresptomsg = some s) :
    p.seq ≤ s.seq ∨ (p.sendCommitReq c tid).status ≠ .CREATING ∧
      (p.sendCommitReq c tid).status ≠ .COLLECTING := by
  have hopen : ∀ {q : Prover} {d : Nat} {tid : TreeId}, q.seq = p.seq → q.fault = none →
      (q.broadcastCommitReq d tid).fault = none →
      (q.broadcastCommitReq d tid).timers .cresptomsg = some s → p.seq ≤ s.seq := by
    intro q d tid hq hqf hqok hqs
    cases hc : q.timers .creqmsg with
    | some s' =>
      rw [(broadcast_of_some tid d hc).1] at hqok
      cases hqok
    | none =>
      rw [broadcast_of_none tid d hqf hc] at hqs
      obtain rfl : (⟨q.now + timeoutresp, q.seq + 1⟩ : Stamp) = s := by simpa using hqs
      exact hq ▸ Nat.le_succ _
  by_cases hst : p.status = .ATTESTING
  · rw [sendCommitReq_attesting tid c hst]
    exact .inr ⟨by simp, by simp⟩
  by_cases hm : p.maxchildren = 0
  · rw [sendCommitReq_leaf tid c hst hm, sendUpReq_of_some c.treeID (p := p.startTree c.treeID) rfl]
    exact .inr ⟨by simp, by simp⟩
  by_cases hfirst : p.psessions.first = NOID
  · rw [sendCommitReq_root tid c hst hm hfirst] at hok hs
    exact .inl (hopen (q := p.startTree c.treeID) rfl hf hok hs)
  cases hp : p.psessions.second with
  | none =>
    rw [sendCommitReq_null tid c hst hm hfirst hp] at hok
    cases hok
  | some parent =>
    rw [sendCommitReq_inner tid c hst hm hfirst hp] at hok hs
    exact .inl (hopen (q := p.record (.depthSub parent.depth)) rfl hf hok hs)

/-- `sendCommitReq`, whatever the status was before the handler set it to `st`. -/
theorem settles_sendCommitReq (st : Status) (c : Choice) (tid : TreeId) (hf : p.fault = none)
    (hok : ({ p with status := st }.sendCommitReq c tid).fault = none) :
    Settles p ({ p with status := st }.sendCommitReq c tid) := by
  let q := { p with status := st }
  have hwindow : ∀ s, (q.sendCommitReq c tid).timers .cresptomsg = some s → p.seq ≤ s.seq ∨
      (q.sendCommitReq c tid).status ≠ .CREATING ∧ (q.sendCommitReq c tid).status ≠ .COLLECTING :=
    window_sendCommitReq (p := q) c tid hf hok
  have hsettle : Settles q (q.sendCommitReq c tid) := by
    have hroot : Settles q (q.startTree c.treeID) :=
      settles_of_eq rfl rfl (Nat.le_refl _) rfl rfl rfl (.inl rfl)
    by_cases hs : q.status = .ATTESTING
    · rw [sendCommitReq_attesting tid c hs]
      exact ⟨fun _ _ => rfl, Nat.le_refl _, rfl, fun _ _ => rfl, rfl, .inl rfl, fun _ h => h,
        fun _ _ => .inr (.inl ⟨by simp, by simp⟩)⟩
    by_cases hm : q.maxchildren = 0
    · rw [sendCommitReq_leaf tid c hs hm]
      exact hroot.trans (settles_sendUpReq _ _)
    by_cases hfirst : q.psessions.first = NOID
    · rw [sendCommitReq_root tid c hs hm hfirst] at hok ⊢
      exact hroot.trans (settles_broadcast _ _ hf hok)
    cases hp : q.psessions.second with
    | none =>
      rw [sendCommitReq_null tid c hs hm hfirst hp] at hok
      cases hok
    | some parent =>
      rw [sendCommitReq_inner tid c hs hm hfirst hp] at hok ⊢
      have hrec : Settles q (q.record (.depthSub parent.depth)) :=
        settles_of_eq rfl rfl (Nat.le_refl _) rfl rfl rfl (.inl rfl)
      exact hrec.trans (settles_broadcast _ _ hf hok)
  exact ⟨hsettle.outer, hsettle.seq, hsettle.uptos, hsettle.lookup, hsettle.cackto,
    hsettle.first, hsettle.ack, fun s hs => (hwindow s hs).imp_right .inl⟩

/-- Setting the status to one outside the window settles whatever `cresptomsg` is. -/
theorem settles_status {st : Status} (h1 : st ≠ .CREATING) (h2 : st ≠ .COLLECTING) (p : Prover) :
    Settles p { p with status := st } :=
  ⟨fun _ _ => rfl, Nat.le_refl _, rfl, fun _ _ => rfl, rfl, .inl rfl, fun _ h => h,
    fun _ _ => .inr (.inl ⟨h1, h2⟩)⟩

/-- The parent session is forgotten before the handler goes on. -/
theorem settles_ackTimeOut (c : Choice) (hf : p.fault = none)
    (hok : (p.handleCommitAckTimeOut c).fault = none) :
    Settles p (p.handleCommitAckTimeOut c) := by
  by_cases hd : p.cackto.device = p.psessions.first
  · have hforget : Settles p { p with psessions := {} } :=
      settles_of_eq rfl rfl (Nat.le_refl _) rfl rfl rfl (.inr rfl)
    by_cases hs : p.status = .ATTESTING_CREATING
    · rw [handleCommitAckTimeOut_creating c hd hs] at hok ⊢
      exact hforget.trans (settles_sendCommitReq (p := { p with psessions := {} }) _ c _ hf hok)
    · rw [handleCommitAckTimeOut_ready c hd hs]
      exact hforget.trans (settles_status (by decide) (by decide) _)
  · rw [handleCommitAckTimeOut_stale c hd]
    exact settles_of_eq rfl rfl (Nat.le_refl _) rfl rfl rfl (.inl rfl)

/-- With `cresptomsg` off the window may close. -/
theorem settles_closeWindow (hoff : p.timers .cresptomsg = none) : Settles p p.closeWindow := by
  refine ⟨fun _ _ => rfl, Nat.le_refl _, rfl, fun _ _ => rfl, rfl, .inl rfl, fun _ h => h,
    fun s hs => ?_⟩
  cases hoff.symm.trans hs

theorem settles_respTimeOut (hoff : p.timers .cresptomsg = none) :
    Settles p p.handleCommitRespTimeOut := by
  by_cases hl : p.csessions.keys.length = 1
  · rw [handleCommitRespTimeOut_last hl]
    exact (settles_closeWindow hoff).trans (settles_sendUpReq _ _)
  · rw [handleCommitRespTimeOut_open hl]
    exact settles_closeWindow hoff

theorem settles_commitAck (c : Choice) (m : CommitAck) (hf : p.fault = none)
    (hok : (p.handleCommitAck c m).fault = none) : Settles p (p.handleCommitAck c m) := by
  have hvalid : ∀ parent, Settles p ((p.queueMacDelay (.commitAck m)).validateParent parent) :=
    fun parent => by
      have hoff := (settles_cancelEvent (t := .mktreetimer) (by decide) p).trans
        (settles_cancelEvent (t := .cacktomsg) (by decide) (p.cancelEvent .mktreetimer))
      exact ⟨hoff.outer, hoff.seq, rfl, fun _ _ => rfl, rfl, .inl rfl, hoff.ack, hoff.resp⟩
  have hcase := handleCommitAck_cases (p := p) c m
  generalize p.handleCommitAck c m = p' at hok hcase ⊢
  cases hcase with
  | ignored => exact settles_of_eq rfl rfl (Nat.le_refl _) rfl rfl rfl (.inl rfl)
  | unverified => exact settles_of_eq rfl rfl (Nat.le_refl _) rfl rfl rfl (.inl rfl)
  | null => cases hok
  | @leaf parent =>
    exact ((hvalid parent).trans (settles_status (by decide) (by decide) _)).trans
      (settles_sendUpReq _ _)
  | @inner parent =>
    exact (hvalid parent).trans (settles_sendCommitReq
      (p := (p.queueMacDelay (.commitAck m)).validateParent parent) _ c _ hf hok)

/-! ## The child sessions -/

/-- An answered request schedules `cacktomsg`, which must have been off. -/
theorem Fresh.commitReq (h : p.Fresh n) (hn : n ≤ p.seq) {m : CommitReq} (hsrc : m.source ≠ NOID)
    (hok : (p.handleCommitReq m).fault = none) : (p.handleCommitReq m).Fresh n := by
  rcases handleCommitReq_cases (p := p) m with he | ⟨sess, -, he⟩
  · rw [he]
    exact h
  · rw [he] at hok ⊢
    cases hk : p.timers .cacktomsg with
    | some s =>
      rw [(sendCommitResp_of_some (p := { p with psessions := ⟨m.source, some sess⟩ })
        m.treeID sess m.source hk).1] at hok
      cases hok
    | none =>
      rw [sendCommitResp_of_none (p := { p with psessions := ⟨m.source, some sess⟩ }) _ _ _ hk]
      refine ⟨h.upto, fun _ _ => hsrc, fun s hs hlt => ?_, fun s hs hlt => ⟨by simp, by simp⟩⟩
      obtain rfl : (⟨p.now + timeoutack, p.seq + 1⟩ : Stamp) = s := by simpa using hs
      simp only at hlt
      omega

/-- The session of a new child and its `UPTO` message. -/
theorem Fresh.accept (h : p.Fresh n) {m : CommitResp} {parent : Session} (hsrc : m.source ≠ NOID)
    (hnew : m.source ∉ p.csessions) (hp : p.psessions.second = some parent) :
    ((p.admitChild m).sendCommitAck m.source m.treeID (childSession m)).Fresh n := by
  rw [sendCommitAck_of_some (p := p.admitChild m) m.treeID m.source _ hp]
  refine ⟨fun u hu hle => ?_, h.ack, h.joins, h.resp⟩
  rcases List.mem_append.mp hu with hu | hu
  · obtain ⟨hne, s, hl, ht⟩ := h.upto u hu hle
    have hother : u.2.device ≠ m.source := fun he =>
      hnew (he ▸ AList.lookup_isSome.mp (Option.isSome_of_eq_some hl))
    refine ⟨hne, s, ?_, ht⟩
    exact (AList.lookup_insert_ne hother).trans ((AList.lookup_insert_ne hother).trans hl)
  · rw [List.mem_singleton.mp hu]
    exact ⟨hsrc, _, AList.lookup_insert _, rfl⟩

theorem Fresh.commitResp (h : p.Fresh n) (hf : p.fault = none) {m : CommitResp}
    (hsrc : m.source ≠ NOID) (hok : (p.handleCommitResp m).fault = none) :
    (p.handleCommitResp m).Fresh n := by
  have hcase := handleCommitResp_cases hf m
  generalize p.handleCommitResp m = p' at hok hcase ⊢
  cases hcase with
  | ignored => exact h
  | unverified => exact ⟨h.upto, h.ack, h.joins, h.resp⟩
  | null _ _ hnull =>
    rw [hnull] at hok
    cases hok
  | more ha hp he =>
    rw [he]
    exact h.accept hsrc ha.new hp
  | full ha hp he =>
    rw [he]
    have hacc := h.accept hsrc ha.new hp
    refine ⟨hacc.upto, fun s hs => hacc.ack s (by simpa [cancelEvent, closeWindow, record] using hs),
      fun s hs => hacc.joins s (by simpa [cancelEvent, closeWindow, record] using hs),
      fun s hs => ?_⟩
    simp [cancelEvent] at hs

/-- A child session is removed together with the `UPTO` message that it names. -/
theorem Fresh.remove (h : p.Fresh n) {c : Uid} (hs : p'.status = p.status)
    (ht : p'.timers = p.timers) (hd : p'.cackto = p.cackto)
    (hps : p'.psessions = p.psessions) (hc : p'.csessions = p.csessions.erase c)
    (hu : ∀ u ∈ p'.uptos, u ∈ p.uptos ∧ (n ≤ u.1.seq → u.2.device ≠ c)) :
    p'.Fresh n := by
  refine ⟨fun u hmem hle => ?_, fun s hk => ?_, fun s hk => ?_, fun s hk => ?_⟩
  · obtain ⟨hmem, hne⟩ := hu u hmem
    obtain ⟨hno, s, hl, hto⟩ := h.upto u hmem hle
    exact ⟨hno, s, by rw [hc, AList.lookup_erase_ne (hne hle)]; exact hl, hto⟩
  · rw [hd]
    exact h.ack s (ht ▸ hk)
  · rw [hps]
    exact h.joins s (ht ▸ hk)
  · rw [hs]
    exact h.resp s (ht ▸ hk)

theorem Fresh.upReq (h : p.Fresh n) (hn : n ≤ p.seq) {m : UpdateReq}
    (hok : (p.handleUpReq m).fault = none) : (p.handleUpReq m).Fresh n := by
  have hsame : ∀ {q : Prover}, q.status = p.status → q.timers = p.timers → q.seq = p.seq →
      q.uptos = p.uptos → q.csessions = p.csessions → q.cackto = p.cackto →
      q.psessions = p.psessions → q.Fresh n := fun hs ht hq hu hc hd hp =>
    h.settles (settles_of_eq hs ht hq.ge hu hc hd (.inl (by rw [hp]))) hn
  have hmerged : ∀ child, p.csessions.lookup m.source = some child →
      (p.merged m child).Fresh n := by
    intro child hl
    refine h.remove (c := m.source) rfl rfl rfl rfl rfl fun u hu => ?_
    obtain ⟨hmem, hto⟩ := List.mem_filter.mp hu
    refine ⟨hmem, fun hle hdev => ?_⟩
    obtain ⟨-, s, hl', hs⟩ := h.upto u hmem hle
    rw [hdev, hl] at hl'
    obtain rfl := Option.some.inj hl'
    exact of_decide_eq_true hto hs
  have hcase := handleUpReq_cases (p := p) m
  generalize p.handleUpReq m = p' at hok hcase ⊢
  cases hcase with
  | forward => exact hsame rfl rfl rfl rfl rfl rfl rfl
  | redirect => exact hsame rfl rfl rfl rfl rfl rfl rfl
  | ignored => exact hsame rfl rfl rfl rfl rfl rfl rfl
  | unverified => exact hsame rfl rfl rfl rfl rfl rfl rfl
  | null => cases hok
  | array => cases hok
  | last hm => exact (hmerged _ hm.sender).settles (settles_sendUpReq _ _) hn
  | more hm => exact hmerged _ hm.sender

theorem Fresh.recv (h : p.Fresh n) (hn : n ≤ p.seq) (hf : p.fault = none) {m : Msg} (c : Choice)
    (hsrc : m.source ≠ NOID) (hok : (p.onRecv m c).fault = none) :
    (p.onRecv m c).Fresh n := by
  cases m with
  | commitReq m => exact h.commitReq hn hsrc hok
  | commitResp m => exact h.commitResp hf hsrc hok
  | commitAck m => exact h.settles (settles_commitAck c m hf hok) hn
  | updateReq m => exact h.upReq hn hok

/-- An `UPTO` message that goes off where it may: a stale one changes no session. -/
theorem Fresh.updateTimeOut (h : p.Fresh n) (hn : n ≤ p.seq) {k : Nat}
    {u : Stamp × CommitTimeOut} (hu : p.uptos.find? (·.1.seq = k) = some u)
    (hapart : u.1.seq < n → u.2.device ∉ p.csessions) :
    ((p.popUpto k).handleUpdateTimeOut u.2).Fresh n := by
  have hmem : u ∈ p.uptos := List.mem_of_find?_eq_some hu
  have hk : u.1.seq = k := by simpa using List.find?_some hu
  have htimed : ((p.popUpto k).timedOut u.2).Fresh n := by
    refine h.remove (c := u.2.device) rfl rfl rfl rfl rfl fun v hv => ?_
    obtain ⟨hvm, hvk⟩ := List.mem_filter.mp hv
    refine ⟨hvm, fun hle hdev => ?_⟩
    obtain ⟨-, s, hl, hs⟩ := h.upto v hvm hle
    rw [hdev] at hl
    -- both messages would be that of the one session of the device
    have hin : u.2.device ∈ p.csessions :=
      AList.lookup_isSome.mp (Option.isSome_of_eq_some hl)
    have hfresh : n ≤ u.1.seq := Nat.le_of_not_lt fun hlt => hapart hlt hin
    obtain ⟨-, s', hl', hs'⟩ := h.upto u hmem hfresh
    obtain rfl := Option.some.inj (hl.symm.trans hl')
    have hseq : v.1.seq = u.1.seq := Option.some.inj (hs.symm.trans hs')
    exact of_decide_eq_true hvk (hseq.trans hk)
  by_cases hlen : (p.csessions.erase u.2.device).keys.length = 1
  · rw [handleUpdateTimeOut_last (p := p.popUpto k) hlen]
    exact (htimed.settles (settles_status (by decide) (by decide) _) hn).settles
      (settles_sendUpReq _ _) hn
  · rw [handleUpdateTimeOut_more (p := p.popUpto k) hlen]
    exact htimed

/-! ## Steps and runs -/

/-- Only the start of a round changes its timers. -/
theorem Live.outer_eq {e : Event} (hl : p.Live e p') (hf : p.fault = none)
    (hok : p'.fault = none) (hno : ¬ StartsAttestation e.act) (t : Timer) (ht : t.Outer) :
    p'.timers t = p.timers t := by
  have hother : ∀ {t' : Timer}, ¬ t'.Outer → t ≠ t' := fun hno' he => hno' (he ▸ ht)
  cases hl with
  | @timer t' c s hact =>
    rw [hact] at hno
    have hpop : ¬ t'.Outer → ((p.atTime e.time).cancelEvent t').timers t = p.timers t := fun h =>
      Function.update_of_ne (hother h) _ _
    cases t' with
    | startmsg => exact absurd trivial hno
    | attesttimer => exact absurd trivial hno
    | checkdelaymsg => exact hpop (by decide)
    | mktreetimer =>
      exact ((settles_sendCommitReq (p := (p.atTime e.time).cancelEvent .mktreetimer) _ c _ hf
        hok).outer t ht).trans (hpop (by decide))
    | creqmsg => exact hpop (by decide)
    | cacktomsg =>
      exact ((settles_ackTimeOut (p := (p.atTime e.time).cancelEvent .cacktomsg) c hf
        hok).outer t ht).trans (hpop (by decide))
    | cresptomsg =>
      have hoff : ((p.atTime e.time).cancelEvent .cresptomsg).timers .cresptomsg = none := by
        simp [cancelEvent]
      exact ((settles_respTimeOut hoff).outer t ht).trans (hpop (by decide))
  | @upto k u =>
    have hset := fun q : Prover => (settles_sendUpReq u.2.treeID q).outer t ht
    unfold handleUpdateTimeOut
    dsimp only
    split
    · exact hset _
    · rfl
  | @self k c o =>
    obtain ⟨out, he⟩ := onSelf_eq (p := (p.atTime e.time).popOutbox k) o.2 c
    rw [he]
    rfl
  | @recv m c =>
    cases m with
    | commitReq m =>
      change ((p.atTime e.time).handleCommitReq m).fault = none at hok
      change ((p.atTime e.time).handleCommitReq m).timers t = p.timers t
      rcases handleCommitReq_cases (p := p.atTime e.time) m with he | ⟨sess, -, he⟩
      · rw [he]
        rfl
      · rw [he]
        exact outer_scheduleAt (by decide) _ _ t ht
    | commitResp m =>
      change ((p.atTime e.time).handleCommitResp m).fault = none at hok
      change ((p.atTime e.time).handleCommitResp m).timers t = p.timers t
      have hcase := handleCommitResp_cases (p := p.atTime e.time) hf m
      generalize (p.atTime e.time).handleCommitResp m = q at hok hcase ⊢
      cases hcase with
      | ignored => rfl
      | unverified => rfl
      | null _ _ hnull =>
        rw [hnull] at hok
        cases hok
      | more _ hp he =>
        rw [he, sendCommitAck_of_some (p := (p.atTime e.time).admitChild m) m.treeID m.source _ hp]
        rfl
      | full _ hp he =>
        rw [he, sendCommitAck_of_some (p := (p.atTime e.time).admitChild m) m.treeID m.source _ hp]
        exact Function.update_of_ne (hother (by decide)) _ _
    | commitAck m => exact (settles_commitAck (p := p.atTime e.time) c m hf hok).outer t ht
    | updateReq m =>
      change ((p.atTime e.time).handleUpReq m).timers t = p.timers t
      have hcase := handleUpReq_cases (p := p.atTime e.time) m
      generalize (p.atTime e.time).handleUpReq m = q at hcase ⊢
      cases hcase with
      | forward => rfl
      | redirect => rfl
      | ignored => rfl
      | unverified => rfl
      | null => rfl
      | array => rfl
      | last => exact (settles_sendUpReq m.treeID _).outer t ht
      | more => rfl

/-- What a prover that lives has scheduled, in this round and before. -/
structure Rounds (p : Prover) : Prop where
  ordered : Ordered p.schedule
  fresh : p.Fresh p.round

theorem Rounds.round_le (h : p.Rounds) : p.round ≤ p.seq := by
  unfold round
  cases ha : p.timers .attesttimer with
  | none => exact Nat.zero_le _
  | some a => exact (h.ordered.timer .attesttimer a ha).2.le

theorem round_eq (h : p'.timers .attesttimer = p.timers .attesttimer) : p'.round = p.round := by
  rw [round, round, h]

/-- A new round: everything scheduled before it is stale. -/
theorem fresh_startAttestation (hseq : ∀ u ∈ p.uptos, u.1.seq < p.seq)
    (hack : ∀ s, p.timers .cacktomsg = some s → p.cackto.device ≠ NOID) {t : Timer}
    (hno : t ≠ .cacktomsg) (c : Choice) (hf : p.fault = none)
    (hok : ((p.cancelEvent t).startAttestation c).fault = none) :
    ((p.cancelEvent t).startAttestation c).Fresh ((p.cancelEvent t).startAttestation c).round := by
  obtain ⟨h1, h2, h3⟩ := timers_of_startAttestation (p := p.cancelEvent t) c hf hok
  have he := startAttestation_of_none (p := p.cancelEvent t) c hf h1 h2 h3
  have hround : ((p.cancelEvent t).startAttestation c).round = p.seq := by
    rw [he]
    simp [round, cancelEvent]
  rw [hround, he]
  refine ⟨fun u hu hle => ?_, fun s hs => ?_, fun _ _ _ => rfl, fun _ _ _ => ⟨by simp, by simp⟩⟩
  · exact absurd hle (Nat.not_le.mpr (hseq u hu))
  · refine hack s ?_
    simpa [cancelEvent, hno.symm] using hs

theorem rounds_live {e : Event} (h : p.Rounds) (hf : p.fault = none) (hc : p.crashed = false)
    (hsrc : RealSource e.act) (hapart : Apart e p) (hl : p.Live e p') (hok : p'.fault = none) :
    p'.Fresh p'.round := by
  have hn := h.round_le
  have hnow : ∀ time, Settles p (p.atTime time) := fun _ =>
    settles_of_eq rfl rfl (Nat.le_refl _) rfl rfl rfl (.inl rfl)
  have hkeep : ¬ StartsAttestation e.act → p'.Fresh p.round → p'.Fresh p'.round :=
    fun hno hk => by
      rw [round_eq (hl.outer_eq hf hok hno .attesttimer (.inr rfl))]
      exact hk
  cases hl with
  | @timer t c s hact ht =>
    have hseq : ∀ u ∈ p.uptos, u.1.seq < p.seq := fun u hu => (h.ordered.upto u hu).2
    have hstart : t ≠ .cacktomsg →
        (((p.atTime e.time).cancelEvent t).startAttestation c).fault = none →
        (((p.atTime e.time).cancelEvent t).startAttestation c).Fresh
          (((p.atTime e.time).cancelEvent t).startAttestation c).round := fun hne =>
      fresh_startAttestation (p := p.atTime e.time) hseq h.fresh.ack hne c hf
    have hpop : ¬ t.Outer → Settles p ((p.atTime e.time).cancelEvent t) := fun hne =>
      (hnow _).trans (settles_cancelEvent hne _)
    cases t with
    | startmsg => exact hstart (by decide) hok
    | attesttimer => exact hstart (by decide) hok
    | checkdelaymsg =>
      exact hkeep (hact ▸ id) (h.fresh.settles ((hpop (by decide)).trans
        (settles_status (by decide) (by decide) _)) hn)
    | mktreetimer =>
      exact hkeep (hact ▸ id) (h.fresh.settles ((hpop (by decide)).trans
        (settles_sendCommitReq (p := (p.atTime e.time).cancelEvent .mktreetimer) _ c _ hf hok)) hn)
    | creqmsg =>
      exact hkeep (hact ▸ id) (h.fresh.settles ((hpop (by decide)).trans
        (settles_of_eq rfl rfl (Nat.le_refl _) rfl rfl rfl (.inl rfl))) hn)
    | cacktomsg =>
      exact hkeep (hact ▸ id) (h.fresh.settles ((hpop (by decide)).trans
        (settles_ackTimeOut (p := (p.atTime e.time).cancelEvent .cacktomsg) c hf hok)) hn)
    | cresptomsg =>
      refine hkeep (hact ▸ id) (h.fresh.settles ((hpop (by decide)).trans (settles_respTimeOut ?_)) hn)
      simp [cancelEvent]
  | @upto k u hact hu =>
    have hsettle := h.fresh.settles (hnow e.time) hn
    exact hkeep (hact ▸ id) (Fresh.updateTimeOut (p := p.atTime e.time) hsettle hn hu fun hlt =>
      ((hapart hc).2 k u hact hu hlt).1)
  | @self k c o hact =>
    obtain ⟨out, he⟩ := onSelf_eq (p := (p.atTime e.time).popOutbox k) o.2 c
    have hself : Settles p (((p.atTime e.time).popOutbox k).onSelf o.2 c) := by
      rw [he]
      exact settles_of_eq rfl rfl (Nat.le_refl _) rfl rfl rfl (.inl rfl)
    exact hkeep (hact ▸ id) (h.fresh.settles hself hn)
  | @recv m c hact =>
    have hsrc' : m.source ≠ NOID := by rwa [hact] at hsrc
    have hsettle := h.fresh.settles (hnow e.time) hn
    exact hkeep (hact ▸ id) (Fresh.recv (p := p.atTime e.time) hsettle hn hf c hsrc' hok)

theorem rounds_step {e : Event} (h : Alive Rounds p) (hok : RealSource e.act ∧ Apart e p)
    (hs : step e p = some p') : Alive Rounds p' := by
  intro hf' hc'
  obtain ⟨hf, hc⟩ := step_alive hs hc'
  have hr := h hf hc
  obtain ⟨-, -, ⟨-, _, _, _, _, -, rfl⟩ | ⟨-, hl⟩⟩ := step_cases hs
  · cases hc'
  · exact ⟨ordered_step hs (fun _ _ => hr.ordered) hf' hc', rounds_live hr hf hc hok.1 hok.2 hl hf'⟩

theorem rounds_of_reaches {cfg : Config} {start : Nat}
    (h : Runs.Reaches step (fun e p => RealSource e.act ∧ Apart e p) (init cfg start) p) :
    Alive Rounds p := by
  have hinit : (init cfg start).Rounds := by
    refine ⟨ordered_init cfg start, fun u hu => ?_, fun s hs => ?_, fun s hs => ?_, fun s hs => ?_⟩
    · cases hu
    · simp [init] at hs
    · simp [init] at hs
    · simp [init] at hs
  exact h.invariant (I := Alive Rounds) (fun _ _ => hinit) fun _ _ _ ih hok hs => rounds_step ih hok hs

/-! ## Stale timers -/

theorem untouched_of_eq (hs : p'.status = p.status) (hp : p'.psessions = p.psessions)
    (hc : p'.csessions = p.csessions) (ha : p'.aggreport = p.aggreport) (hl : p'.log = p.log) :
    Untouched p p' :=
  ⟨hs, hp, hc, ha, by rw [hl]⟩

theorem not_untouched_of_count (hl : p.log.count .sendUpReq < p'.log.count .sendUpReq) :
    ¬ Untouched p p' := by
  intro h
  have := h.reports
  omega

/-- A stale ack timeout finds no parent, or that of an abandoned attempt. -/
theorem Fresh.staleAck (h : p.Fresh n) {s : Stamp} (hs : p.timers .cacktomsg = some s)
    (hlt : s.seq < n) (c : Choice) (time : Nat) :
    Untouched p (((p.atTime time).cancelEvent .cacktomsg).handleCommitAckTimeOut c) := by
  have hd : ((p.atTime time).cancelEvent .cacktomsg).cackto.device ≠
      ((p.atTime time).cancelEvent .cacktomsg).psessions.first := by
    show p.cackto.device ≠ p.psessions.first
    rw [h.joins s hs hlt]
    exact h.ack s hs
  rw [handleCommitAckTimeOut_stale c hd]
  exact untouched_of_eq rfl rfl rfl rfl rfl

/-- A stale `cresptomsg` closes a window that the round has not opened. -/
theorem Fresh.staleResp (h : p.Fresh n) {s : Stamp} (hs : p.timers .cresptomsg = some s)
    (hlt : s.seq < n) (time : Nat) :
    ¬ Untouched p ((p.atTime time).cancelEvent .cresptomsg).handleCommitRespTimeOut := by
  let q := (p.atTime time).cancelEvent .cresptomsg
  by_cases hlen : q.csessions.keys.length = 1
  · rw [handleCommitRespTimeOut_last (p := q) hlen]
    refine not_untouched_of_count ?_
    rw [sendUpReq_log, List.count_cons_self]
    exact Nat.lt_succ_of_le ((List.sublist_cons_self Mark.respClosed p.log).count_le _)
  · rw [handleCommitRespTimeOut_open (p := q) hlen]
    intro hu
    exact (h.resp s hs hlt).2 hu.status.symm

theorem erase_of_notMem {m : SessionMap} {c : Uid} (h : c ∉ m) : m.erase c = m :=
  AList.ext (List.kerase_of_notMem_keys h)

/-- **When an `UPTO` message that goes off leaves the round alone.** -/
theorem untouched_updateTimeOut_iff (u : CommitTimeOut) (k time : Nat) :
    Untouched p (((p.atTime time).popUpto k).handleUpdateTimeOut u) ↔
      u.device ∉ p.csessions ∧ p.csessions.keys.length ≠ 1 := by
  let q := (p.atTime time).popUpto k
  constructor
  · intro hu
    have hlen : (q.csessions.erase u.device).keys.length ≠ 1 := by
      intro hlen
      rw [handleUpdateTimeOut_last (p := q) hlen] at hu
      refine not_untouched_of_count ?_ hu
      rw [sendUpReq_log, List.count_cons_self]
      exact Nat.lt_succ_of_le ((List.sublist_cons_self (Mark.upTimeOut u.device) p.log).count_le _)
    rw [handleUpdateTimeOut_more (p := q) hlen] at hu
    have hsame : p.csessions.erase u.device = p.csessions := hu.csessions
    have hno : u.device ∉ p.csessions := by
      rw [← hsame]
      exact fun hmem => (AList.mem_erase.mp hmem).1 rfl
    refine ⟨hno, ?_⟩
    rw [← hsame]
    exact hlen
  · rintro ⟨hno, hlen⟩
    have hsame : q.csessions.erase u.device = p.csessions := erase_of_notMem hno
    have hlen' : (q.csessions.erase u.device).keys.length ≠ 1 := by
      rw [hsame]
      exact hlen
    rw [handleUpdateTimeOut_more (p := q) hlen']
    refine ⟨rfl, rfl, hsame, rfl, ?_⟩
    show (Mark.upTimeOut u.device :: p.log).count .sendUpReq = _
    rw [List.count_cons_of_ne (by simp)]

/-- An `UPTO` message removes the session that it was scheduled for, if any. -/
theorem Fresh.own_session (h : p.Fresh n) {k : Nat} {u : Stamp × CommitTimeOut}
    (hu : p.uptos.find? (·.1.seq = k) = some u) (hapart : u.1.seq < n → u.2.device ∉ p.csessions)
    (time : Nat) {c : Uid} (hne : c ≠ NOID) {s : Session} (hs : p.csessions.lookup c = some s) :
    (((p.atTime time).popUpto k).handleUpdateTimeOut u.2).csessions.lookup c = some s ∨
      s.tomsg = some k := by
  have hk : u.1.seq = k := by simpa using List.find?_some hu
  by_cases hc : c = u.2.device
  · subst hc
    have hin : u.2.device ∈ p.csessions := AList.lookup_isSome.mp (Option.isSome_of_eq_some hs)
    have hfresh : n ≤ u.1.seq := Nat.le_of_not_lt fun hlt => hapart hlt hin
    obtain ⟨-, s', hs', hto⟩ := h.upto u (List.mem_of_find?_eq_some hu) hfresh
    obtain rfl := Option.some.inj (hs.symm.trans hs')
    exact .inr (hk ▸ hto)
  · refine .inl ?_
    have hkeep : (((p.atTime time).popUpto k).timedOut u.2).csessions.lookup c = some s :=
      (AList.lookup_erase_ne hc).trans hs
    by_cases hlen : (p.csessions.erase u.2.device).keys.length = 1
    · rw [handleUpdateTimeOut_last (p := (p.atTime time).popUpto k) hlen,
        (settles_sendUpReq _ _).lookup c hne]
      exact hkeep
    · rw [handleUpdateTimeOut_more (p := (p.atTime time).popUpto k) hlen]
      exact hkeep

/-- **The rounds stay apart**: a stale timer leaves the round alone exactly where the step
meets `Apart`, and where it does an `UPTO` message removes no session but its own, in
every run whose steps meet it. -/
theorem rounds_apart {cfg : Config} {start : Nat} {e : Event}
    (h : Runs.Reaches step (fun e p => RealSource e.act ∧ Apart e p) (init cfg start) p)
    (hs : step e p = some p') :
    (∀ s, p.Expires e s → p.Stale s → (Untouched p p' ↔ Apart e p)) ∧
      (Apart e p → ∀ k, e.act = .upto k → ∀ c ≠ NOID, ∀ s, p.csessions.lookup c = some s →
        p'.csessions.lookup c = some s ∨ s.tomsg = some k) := by
  have hrounds := rounds_of_reaches h
  obtain ⟨hf, -, ⟨hcr, _, _, _, _, -, rfl⟩ | ⟨hc, hl⟩⟩ := step_cases hs
  · -- a crashed prover drops the timer
    refine ⟨fun s hexp _ => ?_, fun _ _ _ _ _ s hs => .inl hs⟩
    have hdead : p.crashed = true := by
      rcases hcr with hcr | hcr
      · exact hcr
      · cases hexp with
        | resp hact => cases hact.symm.trans hcr
        | ack hact => cases hact.symm.trans hcr
        | upto hact => cases hact.symm.trans hcr
    refine iff_of_true (untouched_of_eq rfl rfl rfl rfl rfl) fun hc => ?_
    cases hc.symm.trans hdead
  have hfresh := (hrounds hf hc).fresh
  refine ⟨fun s hexp hstale => ?_, fun hapart k hact c hne s hsess => ?_⟩
  · cases hexp with
    | @resp c hact ht =>
      refine iff_of_false ?_ fun hapart => (hapart hc).1 c s hact ht hstale
      cases hl with
      | timer hact' =>
        obtain ⟨rfl, -⟩ : _ = Timer.cresptomsg ∧ _ := by simpa using hact'.symm.trans hact
        exact hfresh.staleResp ht hstale e.time
      | upto hact' => cases hact'.symm.trans hact
      | self hact' => cases hact'.symm.trans hact
      | recv hact' => cases hact'.symm.trans hact
    | @ack c hact ht =>
      refine iff_of_true ?_ fun _ => ⟨fun c s hact' => ?_, fun k u hact' => ?_⟩
      · cases hl with
        | timer hact' =>
          obtain ⟨rfl, -⟩ : _ = Timer.cacktomsg ∧ _ := by simpa using hact'.symm.trans hact
          exact hfresh.staleAck ht hstale _ e.time
        | upto hact' => cases hact'.symm.trans hact
        | self hact' => cases hact'.symm.trans hact
        | recv hact' => cases hact'.symm.trans hact
      · cases hact.symm.trans hact'
      · cases hact.symm.trans hact'
    | @upto u hact hu hus =>
      cases hl with
      | timer hact' => cases hact'.symm.trans hact
      | @upto k u' hact' hu' =>
        obtain rfl : k = s.seq := by simpa using hact'.symm.trans hact
        obtain rfl := Option.some.inj (hu.symm.trans hu')
        rw [untouched_updateTimeOut_iff]
        refine ⟨fun hquiet _ => ⟨fun c s hact'' => ?_, fun k v hact'' hv _ => ?_⟩, fun hapart => ?_⟩
        · cases hact.symm.trans hact''
        · obtain rfl : s.seq = k := by simpa using hact.symm.trans hact''
          obtain rfl := Option.some.inj (hu.symm.trans hv)
          exact hquiet
        · exact (hapart hc).2 _ u hact hu (hus ▸ hstale)
      | self hact' => cases hact'.symm.trans hact
      | recv hact' => cases hact'.symm.trans hact
  · cases hl with
    | timer hact' => cases hact'.symm.trans hact
    | @upto k' u hact' hu =>
      obtain rfl : k' = k := by simpa using hact'.symm.trans hact
      exact hfresh.own_session hu (fun hlt => ((hapart hc).2 _ u hact hu hlt).1) e.time hne hsess
    | self hact' => cases hact'.symm.trans hact
    | recv hact' => cases hact'.symm.trans hact

end

/-- A round of 13 s: the budget for gathering is clamped to 0, the root broadcasts at
1.96 s, and its window would close 0.96 s after the next round has begun. -/
def shortRound : Config := { rootConfig with deltah := 13 * second }

def staleWindow : List Event :=
  earlyReport.take 4 ++
    [⟨13 * second, .timer .attesttimer {}⟩, ⟨13960 * 10 ^ 9, .timer .cresptomsg {}⟩]

/-- In `staleWindow` the `cresptomsg` of the first round makes the second `COLLECTING`. -/
theorem staleWindow_touches :
    ¬ ∀ (cfg : Config) (start : Nat) (p p' : Prover) (e : Event) (s : Stamp), 1 ≤ cfg.maxdepth →
      checkFirmwareDelay cfg.device + timeoutack < cfg.deltah →
      Runs.Reaches step (fun e _ => RealSource e.act) (init cfg start) p → step e p = some p' →
        p.Expires e s → p.Stale s → Untouched p p' := by
  intro h
  obtain ⟨p, hp, ht⟩ := Runs.exists_of_run step (fun e _ => RealSource e.act)
    (staleWindow.take 5) (init shortRound 0) (fun p => p.status = .CHECKING ∧
      p.timers .cresptomsg = some ⟨13960 * 10 ^ 9, 5⟩ ∧ 5 < p.round ∧
        (step ⟨13960 * 10 ^ 9, .timer .cresptomsg {}⟩ p).any fun p' => p'.status = .COLLECTING)
    (by decide +kernel)
  obtain ⟨hs, hresp, hlt, hany⟩ := of_decide_eq_true ht
  obtain ⟨p', hstep, hst⟩ := Runs.exists_of_any hany
  have hsame := h shortRound 0 p p' _ _ (by decide) (by decide) hp hstep (.resp rfl hresp) hlt
  rw [hsame.status, hs] at hst
  cases of_decide_eq_true hst

/-- The child of `earlyReport` does not report; its `UPTO` message removes its session. -/
theorem rounds_apart_child : ∃ p p' : Prover, ∃ s : Session,
    step ⟨15 * second, .upto 7⟩ p = some p' ∧ p.csessions.lookup 2 = some s ∧
      (p'.csessions.lookup 2 = some s ∨ s.tomsg = some 7) := by
  let fresh : Prover → Bool := fun p =>
    ((p.timers .cresptomsg).all fun s => p.round ≤ s.seq) ∧ ∀ u ∈ p.uptos, p.round ≤ u.1.seq
  have hapart : ∀ (e : Event) (p : Prover), fresh p = true → Apart e p := by
    intro e p hf _
    obtain ⟨hresp, hupto⟩ := of_decide_eq_true hf
    refine ⟨fun c s _ hs hlt => ?_, fun k u _ hu hlt => ?_⟩
    · rw [hs, Option.all_some, decide_eq_true_eq] at hresp
      exact absurd hlt (Nat.not_lt.mpr hresp)
    · exact absurd hlt (Nat.not_lt.mpr (hupto u (List.mem_of_find?_eq_some hu)))
  obtain ⟨p, hp, ht⟩ := Runs.exists_of_run step (fun e p => RealSource e.act ∧ fresh p = true)
    (earlyReport.take 6 ++ [⟨13960 * 10 ^ 9, .timer .cresptomsg {}⟩]) (init rootConfig 0)
    (fun p => (p.csessions.lookup 2).isSome ∧ fresh p = true ∧
      (step ⟨15 * second, .upto 7⟩ p).isSome) (by decide +kernel)
  obtain ⟨hsess, hfresh, hstep⟩ := of_decide_eq_true ht
  obtain ⟨s, hs⟩ := Option.isSome_iff_exists.mp hsess
  obtain ⟨p', hp'⟩ := Option.isSome_iff_exists.mp hstep
  have hown := (rounds_apart (hp.weaken fun e p h => ⟨h.1, hapart e p h.2⟩) hp').2
    (hapart _ p hfresh) 7 rfl 2 (by decide) s hs
  exact ⟨p, p', s, hp', hs, hown⟩

end Prover

end Fadia
