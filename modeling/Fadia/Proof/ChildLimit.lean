import Fadia.Proof.SessionsAgree
import Fadia.Lib.Traces

/-!
# How many children a prover acknowledges in one round

`acksSent` counts the acks since the last `startAttestation`, `children` the open child
sessions.  `handleCommitResp` compares the open ones with `maxchildren`, so that a session
that is closed in the round makes room for another child.  Where no response is accepted
behind such a close (`FreshSlot`), each acknowledged child still has its session when the
next one is (`Shared`), and the acks stay within `maxchildren` (`acks_within_share`).  In
`freedSlots` the slot of a child that has reported goes to another one.
-/

namespace Fadia

open Traces

/-! ## Counting -/

def Mark.isAck : Mark → Bool
  | .ack _ => true
  | _ => false

def Mark.closes : Mark → Bool
  | .merge _ => true
  | .upTimeOut _ => true
  | _ => false

namespace Prover

/-- The `CommitAck`s sent since the last `startAttestation`. -/
def acksSent (p : Prover) : Nat := (since .start p.log).countP Mark.isAck

/-- The open child sessions. -/
def children (p : Prover) : Nat := p.csessions.keys.countP (· ≠ NOID)

/-- No child that was acknowledged in this round has been dropped since, by its report or by
its update timer. -/
def KeepsSlots (p : Prover) : Prop :=
  ∀ k, AtEach (.merge k) (fun past => Mark.ack k ∉ past) (since .start p.log) ∧
    AtEach (.upTimeOut k) (fun past => Mark.ack k ∉ past) (since .start p.log)

/-- A response is accepted only while no slot has been freed in this round. -/
def FreshSlot (e : Event) (p : Prover) : Prop :=
  RealSource e.act ∧ ∀ m c, e.act = .recv (.commitResp m) c → p.Answers m → p.KeepsSlots

/-- Whoever has a session was acknowledged in this round. -/
def SlotsAcked (p : Prover) : Prop :=
  ∀ k ∈ p.csessions.keys, k ≠ NOID → Mark.ack k ∈ since .start p.log

/-- What the count of acks is bounded by. -/
structure Shared (p : Prover) : Prop where
  limit : p.acksSent ≤ p.maxchildren
  each : p.fault = none → p.KeepsSlots → p.acksSent ≤ p.children
  acked : p.fault = none → p.SlotsAcked

/-- No ack is sent, and a child session is closed at most with a mark of it. -/
structure KeepsShare (p p' : Prover) : Prop where
  limit : p'.maxchildren = p.maxchildren
  acks : p'.acksSent = p.acksSent
  acked : p.SlotsAcked → p'.SlotsAcked
  slots : p.SlotsAcked → p'.KeepsSlots → p.KeepsSlots ∧ p.children ≤ p'.children

section
variable {p p' q : Prover}

/-- Nothing is freed without a mark of it. -/
theorem keepsSlots_of_no_close (h : ∀ y ∈ since .start p.log, y.closes = false) :
    p.KeepsSlots := by
  intro k
  refine ⟨atEach_of_not_mem fun hmem => ?_, atEach_of_not_mem fun hmem => ?_⟩
  · have hclose := h _ hmem
    cases hclose
  · have hclose := h _ hmem
    cases hclose

theorem KeepsShare.trans (h : KeepsShare p q) (h' : KeepsShare q p') : KeepsShare p p' := by
  refine ⟨h'.limit.trans h.limit, h'.acks.trans h.acks, fun ha => h'.acked (h.acked ha),
    fun ha hk => ?_⟩
  obtain ⟨hkq, hle⟩ := h'.slots (h.acked ha) hk
  obtain ⟨hkp, hle'⟩ := h.slots ha hkq
  exact ⟨hkp, hle'.trans hle⟩

theorem Shared.keeps (h : p.Shared) (hf : p.fault = none) (hk : KeepsShare p p') : p'.Shared := by
  refine ⟨?_, fun _ hslots => ?_, fun _ => hk.acked (h.acked hf)⟩
  · rw [hk.acks, hk.limit]
    exact h.limit
  · obtain ⟨hkeeps, hle⟩ := hk.slots (h.acked hf) hslots
    rw [hk.acks]
    exact (h.each hf hkeeps).trans hle

/-- Neither the log nor the child sessions change. -/
theorem keepsShare_of_eq (hm : p'.maxchildren = p.maxchildren) (hl : p'.log = p.log)
    (hc : p'.csessions = p.csessions) : KeepsShare p p' := by
  refine ⟨hm, ?_, ?_, ?_⟩
  · rw [acksSent, acksSent, hl]
  · rw [SlotsAcked, SlotsAcked, hl, hc]
    exact id
  · rw [KeepsSlots, KeepsSlots, children, children, hl, hc]
    exact fun _ hk => ⟨hk, Nat.le_refl _⟩

/-- A mark that counts for neither. -/
theorem keepsShare_record {y : Mark} (hs : y ≠ .start) (ha : y.isAck = false) (p : Prover) :
    KeepsShare p (p.record y) := by
  refine ⟨rfl, ?_, fun hacked k hk hne => ?_, fun _ hk => ⟨fun k => ?_, Nat.le_refl _⟩⟩
  · simp [acksSent, record, since_cons hs, ha]
  · rw [record, since_cons hs]
    exact List.mem_cons_of_mem _ (hacked k hk hne)
  · obtain ⟨hmerge, hout⟩ := hk k
    rw [record, since_cons hs] at hmerge hout
    exact ⟨(atEach_cons.mp hmerge).2, (atEach_cons.mp hout).2⟩

/-- The window's entry does not count. -/
theorem keepsShare_erase_window (p : Prover) :
    KeepsShare p { p with csessions := p.csessions.erase NOID } := by
  refine ⟨rfl, rfl, fun hacked k hk hne => ?_, fun _ hk => ⟨hk, ?_⟩⟩
  · rw [AList.keys_erase] at hk
    exact hacked k (List.mem_of_mem_erase hk) hne
  · simp only [children, AList.keys_erase]
    by_cases h : NOID ∈ p.csessions.keys
    · have hperm := (List.perm_cons_erase h).countP_eq (· ≠ NOID)
      rw [List.countP_cons_of_neg (by simp)] at hperm
      exact hperm.le
    · rw [List.erase_of_not_mem h]

theorem keepsShare_insert_window (s : Session) (p : Prover) :
    KeepsShare p { p with csessions := p.csessions.insert NOID s } := by
  refine ⟨rfl, rfl, fun hacked k hk hne => ?_, fun _ hk => ⟨hk, ?_⟩⟩
  · rw [AList.keys_insert] at hk
    exact hacked k (List.mem_of_mem_erase ((List.mem_cons.mp hk).resolve_left hne)) hne
  · simp only [children, AList.keys_insert]
    by_cases h : NOID ∈ p.csessions.keys
    · exact ((List.perm_cons_erase h).countP_eq (· ≠ NOID)).le
    · rw [List.erase_of_not_mem h]
      exact (List.sublist_cons_self _ _).countP_le

/-- A child session is closed with a mark: it was acknowledged, so a slot is freed. -/
theorem keepsShare_drop {y : Mark} {child : Uid} (hy : y = .merge child ∨ y = .upTimeOut child)
    (p : Prover) : KeepsShare p ((p.record y).dropSession child) := by
  have hs : y ≠ .start := by rcases hy with rfl | rfl <;> simp
  have ha : y.isAck = false := by rcases hy with rfl | rfl <;> rfl
  have hrec := keepsShare_record hs ha p
  refine ⟨rfl, hrec.acks, fun hacked k hk hne => ?_, fun hacked hk => ?_⟩
  · rw [show ((p.record y).dropSession child).csessions.keys = p.csessions.keys.erase child from
      AList.keys_erase ..] at hk
    exact hrec.acked hacked k (List.mem_of_mem_erase hk) hne
  · refine ⟨(hrec.slots hacked hk).1, ?_⟩
    have hunacked : Mark.ack child ∉ since .start p.log := by
      obtain ⟨hmerge, hout⟩ := hk child
      simp only [dropSession, record, since_cons hs] at hmerge hout
      rcases hy with rfl | rfl
      · exact (atEach_cons.mp hmerge).1 rfl
      · exact (atEach_cons.mp hout).1 rfl
    simp only [children, record, dropSession, AList.keys_erase]
    by_cases hin : child ∈ p.csessions.keys
    · have hno : child = NOID := by
        by_contra hne
        exact hunacked (hacked child hin hne)
      subst hno
      have hperm := (List.perm_cons_erase hin).countP_eq (· ≠ NOID)
      rw [List.countP_cons_of_neg (by simp)] at hperm
      exact hperm.le
    · rw [List.erase_of_not_mem hin]

/-! ## The handlers -/

theorem keepsShare_sendUpReq (tid : TreeId) (p : Prover) : KeepsShare p (p.sendUpReq tid) := by
  have hrec := keepsShare_record (y := .sendUpReq) (by decide) rfl p
  cases hs : p.psessions.second with
  | none =>
    refine hrec.trans (keepsShare_of_eq ?_ ?_ ?_) <;> simp [sendUpReq, hs, fail, record]
  | some parent =>
    rw [sendUpReq_of_some tid hs]
    exact (hrec.trans (keepsShare_erase_window _)).trans (keepsShare_of_eq rfl rfl rfl)

theorem keepsShare_broadcast (depth : Nat) (tid : TreeId) (hf : p.fault = none) :
    KeepsShare p (p.broadcastCommitReq depth tid) := by
  cases hc : p.timers .creqmsg with
  | some s =>
    refine keepsShare_of_eq ?_ (broadcast_of_some tid depth hc).2 ?_ <;>
      simp [broadcastCommitReq, scheduleAt, hc, andThen, fail]
  | none =>
    rw [broadcast_of_none tid depth hf hc]
    have hrec := keepsShare_record (y := .broadcast) (by decide) rfl p
    exact (hrec.trans (keepsShare_insert_window { treeID := tid } _)).trans
      (keepsShare_of_eq rfl rfl rfl)

theorem keepsShare_sendCommitReq (c : Choice) (tid : TreeId) (hf : p.fault = none) :
    KeepsShare p (p.sendCommitReq c tid) := by
  have hroot : KeepsShare p (p.startTree c.treeID) :=
    (keepsShare_record (y := .root) (by decide) rfl p).trans (keepsShare_of_eq rfl rfl rfl)
  unfold sendCommitReq
  split
  · exact keepsShare_of_eq rfl rfl rfl
  · split
    · exact hroot.trans (keepsShare_sendUpReq _ _)
    · split
      · exact hroot.trans (keepsShare_broadcast (p := p.startTree c.treeID) _ _ hf)
      · split
        · exact keepsShare_of_eq rfl rfl rfl
        · next parent _ =>
          exact (keepsShare_record (y := .depthSub parent.depth) (by simp) rfl p).trans
            (keepsShare_broadcast (p := p.record (.depthSub parent.depth)) _ _ hf)

theorem keepsShare_commitReq (m : CommitReq) (p : Prover) : KeepsShare p (p.handleCommitReq m) := by
  rcases handleCommitReq_cases (p := p) m with he | ⟨sess, -, he⟩
  · rw [he]
    exact keepsShare_of_eq rfl rfl rfl
  · rw [he]
    cases hc : p.timers .cacktomsg with
    | some s =>
      have hsome := sendCommitResp_of_some (p := { p with psessions := ⟨m.source, some sess⟩ })
        m.treeID sess m.source hc
      refine keepsShare_of_eq ?_ hsome.2 ?_ <;>
        simp [sendCommitResp, prepare, scheduleAt, hc, fail]
    | none =>
      rw [sendCommitResp_of_none (p := { p with psessions := ⟨m.source, some sess⟩ }) _ _ _ hc]
      exact keepsShare_of_eq rfl rfl rfl

theorem keepsShare_commitAck (c : Choice) (m : CommitAck) (hf : p.fault = none) :
    KeepsShare p (p.handleCommitAck c m) := by
  have hcase := handleCommitAck_cases (p := p) c m
  generalize p.handleCommitAck c m = p' at hcase ⊢
  cases hcase with
  | ignored => exact keepsShare_of_eq rfl rfl rfl
  | unverified => exact keepsShare_of_eq rfl rfl rfl
  | null => exact keepsShare_of_eq rfl rfl rfl
  | @leaf parent =>
    have hq : KeepsShare p { (p.queueMacDelay (.commitAck m)).validateParent parent with
      status := .FINISHED } := keepsShare_of_eq rfl rfl rfl
    exact hq.trans (keepsShare_sendUpReq _ _)
  | @inner parent =>
    have hq : KeepsShare p { (p.queueMacDelay (.commitAck m)).validateParent parent with
      status := .CREATING } := keepsShare_of_eq rfl rfl rfl
    exact hq.trans (keepsShare_sendCommitReq c m.treeID hf)

theorem keepsShare_ackTimeOut (c : Choice) (hf : p.fault = none) :
    KeepsShare p (p.handleCommitAckTimeOut c) := by
  unfold handleCommitAckTimeOut
  split
  · exact keepsShare_of_eq rfl rfl rfl
  · dsimp only
    split
    · have hq : KeepsShare p { p with psessions := {}, status := .CREATING } :=
        keepsShare_of_eq rfl rfl rfl
      exact hq.trans (keepsShare_sendCommitReq c NOID hf)
    · exact keepsShare_of_eq rfl rfl rfl

theorem keepsShare_closeWindow (p : Prover) : KeepsShare p p.closeWindow :=
  (keepsShare_record (y := .respClosed) (by decide) rfl p).trans (keepsShare_of_eq rfl rfl rfl)

theorem keepsShare_respTimeOut (p : Prover) : KeepsShare p p.handleCommitRespTimeOut := by
  unfold handleCommitRespTimeOut
  dsimp only
  split
  · exact (keepsShare_closeWindow p).trans (keepsShare_sendUpReq _ _)
  · exact keepsShare_closeWindow p

theorem keepsShare_upTimeOut (u : CommitTimeOut) (p : Prover) :
    KeepsShare p (p.handleUpdateTimeOut u) := by
  have hdrop := keepsShare_drop (y := .upTimeOut u.device) (.inr rfl) p
  unfold handleUpdateTimeOut
  dsimp only
  split
  · have hq : KeepsShare p { (p.record (.upTimeOut u.device)).dropSession u.device with
      status := .FINISHED } := hdrop.trans (keepsShare_of_eq rfl rfl rfl)
    exact hq.trans (keepsShare_sendUpReq _ _)
  · exact hdrop

theorem keepsShare_upReq (m : UpdateReq) (p : Prover) : KeepsShare p (p.handleUpReq m) := by
  have hrec := keepsShare_record (y := .upReq m.source) (by simp) rfl p
  have hmerged : ∀ child, KeepsShare p (p.merged m child) := fun child =>
    (hrec.trans (keepsShare_drop (y := .merge m.source) (.inl rfl) _)).trans
      (keepsShare_of_eq rfl rfl rfl)
  have hcase := handleUpReq_cases (p := p) m
  generalize p.handleUpReq m = p' at hcase ⊢
  cases hcase with
  | forward =>
    exact (hrec.trans (keepsShare_record (y := .redirect m.source) (by simp) rfl _)).trans
      (keepsShare_of_eq rfl rfl rfl)
  | redirect =>
    exact (hrec.trans (keepsShare_record (y := .redirect m.source) (by simp) rfl _)).trans
      (keepsShare_of_eq rfl rfl rfl)
  | ignored => exact hrec
  | unverified => exact hrec.trans (keepsShare_of_eq rfl rfl rfl)
  | null => exact hrec.trans (keepsShare_of_eq rfl rfl rfl)
  | array => exact hrec.trans (keepsShare_of_eq rfl rfl rfl)
  | last => exact (hmerged _).trans (keepsShare_sendUpReq _ _)
  | more => exact hmerged _

/-- One ack more, for one child session more. -/
theorem Shared.ack (h : p.Shared) (hf : p.fault = none) {child : Uid} {d : Nat}
    (hne : child ≠ NOID) (hfresh : p.KeepsSlots) (hfree : p.children < p.maxchildren)
    (hl : p'.log = .ack child :: .depthSub d :: p.log)
    (hc : p'.csessions.keys = child :: p.csessions.keys)
    (hm : p'.maxchildren = p.maxchildren) : p'.Shared := by
  have hsince : since .start p'.log = .ack child :: .depthSub d :: since .start p.log := by
    rw [hl, since_cons (by simp), since_cons (by simp)]
  have hacks : p'.acksSent = p.acksSent + 1 := by
    rw [acksSent, hsince, List.countP_cons_of_pos rfl, List.countP_cons_of_neg (by simp [Mark.isAck])]
    rfl
  have hchildren : p'.children = p.children + 1 := by
    rw [children, hc, List.countP_cons_of_pos (by simpa using hne)]
    rfl
  have heach := h.each hf hfresh
  refine ⟨by omega, fun _ _ => by omega, fun _ k hk hk0 => ?_⟩
  rw [hsince]
  rw [hc] at hk
  rcases List.mem_cons.mp hk with rfl | hk
  · exact List.mem_cons_self
  · exact List.mem_cons_of_mem _ (List.mem_cons_of_mem _ (h.acked hf k hk hk0))

/-- `csessions` also has the window's entry, so the open child sessions are fewer. -/
theorem children_lt {m : CommitResp} (ha : p.Answers m) (hw : NOID ∈ p.csessions) :
    p.children < p.maxchildren := by
  have hperm := (List.perm_cons_erase (AList.mem_keys.mp hw)).countP_eq (· ≠ NOID)
  rw [List.countP_cons_of_neg (by simp)] at hperm
  have hle : p.children ≤ (p.csessions.keys.erase NOID).length :=
    (Nat.le_of_eq hperm).trans List.countP_le_length
  rw [List.length_erase_of_mem (AList.mem_keys.mp hw)] at hle
  have hfree := ha.free
  have hpos := List.length_pos_of_mem (AList.mem_keys.mp hw)
  unfold subSize at hfree
  split at hfree <;> omega

theorem Shared.accept (h : p.Shared) (hf : p.fault = none) {m : CommitResp}
    (hsrc : m.source ≠ NOID) (ha : p.Answers m) (hfresh : p.KeepsSlots) (hw : NOID ∈ p.csessions)
    {parent : Session} (hp : p.psessions.second = some parent) :
    ((p.admitChild m).sendCommitAck m.source m.treeID (childSession m)).Shared := by
  rw [sendCommitAck_of_some (p := p.admitChild m) m.treeID m.source _ hp]
  have hkeys : m.source ∉ p.csessions.keys := fun hm => ha.new (AList.mem_keys.mpr hm)
  refine h.ack hf (d := parent.depth) hsrc hfresh (children_lt ha hw) rfl ?_ rfl
  simp only [admitChild, queueMacDelay, AList.keys_insert]
  rw [List.erase_cons_head, List.erase_of_not_mem hkeys]

theorem Shared.commitResp (h : p.Shared) (hf : p.fault = none) {m : CommitResp}
    (hsrc : m.source ≠ NOID) (hfresh : p.Answers m → p.KeepsSlots)
    (hw : p.status = .CREATING → NOID ∈ p.csessions) : (p.handleCommitResp m).Shared := by
  have hcase := handleCommitResp_cases hf m
  generalize p.handleCommitResp m = p' at hcase ⊢
  have hfault : ∀ {parent : Session}, p.psessions.second = some parent →
      ((p.admitChild m).sendCommitAck m.source m.treeID (childSession m)).fault = none := by
    intro parent hp
    rw [sendCommitAck_of_some (p := p.admitChild m) m.treeID m.source _ hp]
    exact hf
  cases hcase with
  | ignored => exact h
  | unverified => exact h.keeps hf (keepsShare_of_eq rfl rfl rfl)
  | null _ hp hfail _ he =>
    -- the run ends here
    refine ⟨?_, fun hno => ?_, fun hno => ?_⟩
    · have hsame : p'.maxchildren = p.maxchildren ∧ p'.log = p.log := by
        simp [he, sendCommitAck, prepare, fail, admitChild, queueMacDelay, hp]
      rw [acksSent, hsame.1, hsame.2]
      exact h.limit
    · rw [hfail] at hno
      cases hno
    · rw [hfail] at hno
      cases hno
  | more ha hp he =>
    rw [he]
    exact h.accept hf hsrc ha (hfresh ha) (hw ha.status) hp
  | full ha hp he =>
    rw [he]
    exact (h.accept hf hsrc ha (hfresh ha) (hw ha.status) hp).keeps (hfault hp)
      ((keepsShare_closeWindow _).trans (keepsShare_of_eq rfl rfl rfl))

/-- A new round. -/
theorem shared_startAttestation (c : Choice) (p : Prover) : (p.startAttestation c).Shared := by
  have hl : since .start (p.startAttestation c).log = [] := by rw [startAttestation_log, since_self]
  have hacks : (p.startAttestation c).acksSent = 0 := by rw [acksSent, hl]; rfl
  refine ⟨hacks ▸ Nat.zero_le _, fun _ _ => hacks ▸ Nat.zero_le _, fun _ k hk => ?_⟩
  obtain ⟨_, _, _, he⟩ := startAttestation_shape (p := p) c
  rw [he] at hk
  cases hk

theorem Shared.timer (h : p.Shared) (t : Timer) (c : Choice) (hf : p.fault = none) :
    (p.onTimer t c).Shared := by
  cases t with
  | startmsg => exact shared_startAttestation c p
  | attesttimer => exact shared_startAttestation c p
  | checkdelaymsg => exact h.keeps hf (keepsShare_of_eq rfl rfl rfl)
  | mktreetimer => exact h.keeps hf (keepsShare_sendCommitReq c NOID hf)
  | creqmsg => exact h.keeps hf (keepsShare_of_eq rfl rfl rfl)
  | cacktomsg => exact h.keeps hf (keepsShare_ackTimeOut c hf)
  | cresptomsg => exact h.keeps hf (keepsShare_respTimeOut p)

/-! ## The window's entry -/

/-- While responses are accepted the window's entry is there, and no update timer is for it. -/
structure Windowed (p : Prover) : Prop where
  window : p.status = .CREATING → NOID ∈ p.csessions
  uptos : ∀ u ∈ p.uptos, u.2.device ≠ NOID

theorem Windowed.congr (h : p.Windowed) (hs : q.status = .CREATING → p.status = .CREATING)
    (hc : NOID ∈ p.csessions → NOID ∈ q.csessions) (hu : q.uptos.Sublist p.uptos) : q.Windowed :=
  ⟨fun hq => hc (h.window (hs hq)), fun u hmem => h.uptos u (hu.subset hmem)⟩

theorem windowed_of_status (hs : q.status ≠ .CREATING) (hu : ∀ u ∈ q.uptos, u.2.device ≠ NOID) :
    q.Windowed :=
  ⟨fun hq => absurd hq hs, hu⟩

theorem windowed_sendUpReq (tid : TreeId) (hu : ∀ u ∈ p.uptos, u.2.device ≠ NOID)
    (hok : (p.sendUpReq tid).fault = none) : (p.sendUpReq tid).Windowed := by
  cases hp : p.psessions.second with
  | none =>
    rw [(sendUpReq_of_none tid hp).1] at hok
    cases hok
  | some parent =>
    rw [sendUpReq_of_some tid hp]
    exact windowed_of_status (by simp) hu

theorem windowed_broadcast (depth : Nat) (tid : TreeId) (hf : p.fault = none)
    (hu : ∀ u ∈ p.uptos, u.2.device ≠ NOID) (hok : (p.broadcastCommitReq depth tid).fault = none) :
    (p.broadcastCommitReq depth tid).Windowed := by
  cases h : p.timers .creqmsg with
  | some s =>
    rw [(broadcast_of_some tid depth h).1] at hok
    cases hok
  | none =>
    rw [broadcast_of_none tid depth hf h]
    exact ⟨fun _ => (AList.mem_insert _).mpr (.inl rfl), hu⟩

theorem windowed_sendCommitReq (c : Choice) (tid : TreeId) (hf : p.fault = none)
    (hu : ∀ u ∈ p.uptos, u.2.device ≠ NOID) (hok : (p.sendCommitReq c tid).fault = none) :
    (p.sendCommitReq c tid).Windowed := by
  by_cases hs : p.status = .ATTESTING
  · rw [sendCommitReq_attesting tid c hs]
    exact windowed_of_status (by simp) hu
  by_cases hm : p.maxchildren = 0
  · rw [sendCommitReq_leaf tid c hs hm] at hok ⊢
    exact windowed_sendUpReq _ hu hok
  by_cases hfirst : p.psessions.first = NOID
  · rw [sendCommitReq_root tid c hs hm hfirst] at hok ⊢
    exact windowed_broadcast (p := p.startTree c.treeID) _ _ hf hu hok
  cases hp : p.psessions.second with
  | none =>
    rw [sendCommitReq_null tid c hs hm hfirst hp] at hok
    cases hok
  | some parent =>
    rw [sendCommitReq_inner tid c hs hm hfirst hp] at hok ⊢
    exact windowed_broadcast (p := p.record (.depthSub parent.depth)) _ _ hf hu hok

theorem windowed_commitReq (h : p.Windowed) (m : CommitReq)
    (hok : (p.handleCommitReq m).fault = none) : (p.handleCommitReq m).Windowed := by
  rcases handleCommitReq_cases (p := p) m with he | ⟨sess, -, he⟩
  · rw [he]
    exact h
  · rw [he] at hok ⊢
    cases hc : p.timers .cacktomsg with
    | some s =>
      rw [(sendCommitResp_of_some (p := { p with psessions := ⟨m.source, some sess⟩ })
        m.treeID sess m.source hc).1] at hok
      cases hok
    | none =>
      rw [sendCommitResp_of_none (p := { p with psessions := ⟨m.source, some sess⟩ }) _ _ _ hc]
      exact windowed_of_status (by simp) h.uptos

theorem windowed_commitAck (h : p.Windowed) (hf : p.fault = none) (c : Choice) (m : CommitAck)
    (hok : (p.handleCommitAck c m).fault = none) : (p.handleCommitAck c m).Windowed := by
  have hcase := handleCommitAck_cases (p := p) c m
  generalize p.handleCommitAck c m = p' at hcase hok ⊢
  cases hcase with
  | ignored => exact h
  | unverified => exact h.congr id id (List.Sublist.refl _)
  | null => cases hok
  | leaf => exact windowed_sendUpReq _ h.uptos hok
  | inner => exact windowed_sendCommitReq _ _ hf h.uptos hok

theorem windowed_commitResp (h : p.Windowed) (hf : p.fault = none) {m : CommitResp}
    (hsrc : m.source ≠ NOID) (hok : (p.handleCommitResp m).fault = none) :
    (p.handleCommitResp m).Windowed := by
  have hnew : ∀ {parent : Session}, p.psessions.second = some parent →
      ((p.admitChild m).sendCommitAck m.source m.treeID (childSession m)).Windowed := by
    intro parent hp
    rw [sendCommitAck_of_some (p := p.admitChild m) m.treeID m.source _ hp]
    refine ⟨fun hs => ?_, fun u hu => ?_⟩
    · exact (AList.mem_insert _).mpr (.inr ((AList.mem_insert _).mpr (.inr (h.window hs))))
    · rcases List.mem_append.mp hu with hu | hu
      · exact h.uptos u hu
      · rw [List.mem_singleton.mp hu]
        exact hsrc
  have hcase := handleCommitResp_cases hf m
  generalize p.handleCommitResp m = p' at hcase hok ⊢
  cases hcase with
  | ignored => exact h
  | unverified => exact h.congr id id (List.Sublist.refl _)
  | null _ _ hfail =>
    rw [hfail] at hok
    cases hok
  | more _ hp he =>
    rw [he]
    exact hnew hp
  | full _ hp he =>
    rw [he]
    exact windowed_of_status (by simp [closeWindow, record, cancelEvent]) (hnew hp).uptos

theorem windowed_upReq (h : p.Windowed) {m : UpdateReq} (hsrc : m.source ≠ NOID)
    (hok : (p.handleUpReq m).fault = none) : (p.handleUpReq m).Windowed := by
  have hmerged : ∀ child, (p.merged m child).Windowed := fun child =>
    h.congr id (fun hw => AList.mem_erase.mpr ⟨hsrc.symm, hw⟩) List.filter_sublist
  have hcase := handleUpReq_cases (p := p) m
  generalize p.handleUpReq m = p' at hcase hok ⊢
  cases hcase with
  | forward => exact h.congr id id (List.Sublist.refl _)
  | redirect => exact h.congr id id (List.Sublist.refl _)
  | ignored => exact h.congr id id (List.Sublist.refl _)
  | unverified => exact h.congr id id (List.Sublist.refl _)
  | null => cases hok
  | array => cases hok
  | last => exact windowed_sendUpReq _ (hmerged _).uptos hok
  | more => exact hmerged _

theorem windowed_upTimeOut (h : p.Windowed) {u : CommitTimeOut} (hne : u.device ≠ NOID)
    (hok : (p.handleUpdateTimeOut u).fault = none) : (p.handleUpdateTimeOut u).Windowed := by
  have hdrop : (p.timedOut u).Windowed :=
    h.congr id (fun hw => AList.mem_erase.mpr ⟨hne.symm, hw⟩) (List.Sublist.refl _)
  by_cases hlen : (p.csessions.erase u.device).keys.length = 1
  · rw [handleUpdateTimeOut_last hlen] at hok ⊢
    exact windowed_sendUpReq _ hdrop.uptos hok
  · rw [handleUpdateTimeOut_more hlen]
    exact hdrop

theorem windowed_startAttestation (h : p.Windowed) (c : Choice) :
    (p.startAttestation c).Windowed := by
  obtain ⟨_, _, _, he⟩ := startAttestation_shape (p := p) c
  rw [he]
  exact windowed_of_status (by simp) h.uptos

theorem windowed_timer (h : p.Windowed) (hf : p.fault = none) (t : Timer) (c : Choice)
    (hok : (p.onTimer t c).fault = none) : (p.onTimer t c).Windowed := by
  cases t with
  | startmsg => exact windowed_startAttestation h c
  | attesttimer => exact windowed_startAttestation h c
  | checkdelaymsg => exact windowed_of_status (by simp [onTimer, checkSoftConfig]) h.uptos
  | mktreetimer => exact windowed_sendCommitReq c NOID hf h.uptos hok
  | creqmsg => exact h.congr id id (List.Sublist.refl _)
  | cacktomsg =>
    by_cases hd : p.cackto.device = p.psessions.first
    · by_cases hs : p.status = .ATTESTING_CREATING
      · have he := handleCommitAckTimeOut_creating c hd hs
        rw [show p.onTimer .cacktomsg c = p.handleCommitAckTimeOut c from rfl, he] at hok ⊢
        exact windowed_sendCommitReq (p := { p with psessions := {}, status := .CREATING }) c NOID
          hf h.uptos hok
      · rw [show p.onTimer .cacktomsg c = p.handleCommitAckTimeOut c from rfl,
          handleCommitAckTimeOut_ready c hd hs]
        exact windowed_of_status (by simp) h.uptos
    · rw [show p.onTimer .cacktomsg c = p.handleCommitAckTimeOut c from rfl,
        handleCommitAckTimeOut_stale c hd]
      exact h
  | cresptomsg =>
    have hclosed : p.closeWindow.Windowed :=
      windowed_of_status (by simp [closeWindow, record]) h.uptos
    by_cases hlen : p.csessions.keys.length = 1
    · rw [show p.onTimer .cresptomsg c = p.handleCommitRespTimeOut from rfl,
        handleCommitRespTimeOut_last hlen] at hok ⊢
      exact windowed_sendUpReq _ hclosed.uptos hok
    · rw [show p.onTimer .cresptomsg c = p.handleCommitRespTimeOut from rfl,
        handleCommitRespTimeOut_open hlen]
      exact hclosed

theorem windowed_live {e : Event} (h : p.Windowed) (hf : p.fault = none) (hsrc : RealSource e.act)
    (hl : p.Live e q) (hok : q.fault = none) : q.Windowed := by
  cases hl with
  | @timer t c =>
    have hpop : ((p.atTime e.time).cancelEvent t).Windowed := h.congr id id (List.Sublist.refl _)
    exact windowed_timer hpop hf t c hok
  | @upto k u _ hu =>
    have hpop : ((p.atTime e.time).popUpto k).Windowed := h.congr id id List.filter_sublist
    exact windowed_upTimeOut hpop (h.uptos u (List.mem_of_find?_eq_some hu)) hok
  | @self k c o =>
    obtain ⟨out, he⟩ := onSelf_eq (p := (p.atTime e.time).popOutbox k) o.2 c
    rw [he]
    exact h.congr id id (List.Sublist.refl _)
  | @recv m c hact =>
    have hnow : (p.atTime e.time).Windowed := h.congr id id (List.Sublist.refl _)
    rw [hact] at hsrc
    cases m with
    | commitReq m => exact windowed_commitReq hnow m hok
    | commitResp m => exact windowed_commitResp hnow hf hsrc hok
    | commitAck m => exact windowed_commitAck hnow hf c m hok
    | updateReq m => exact windowed_upReq hnow hsrc hok

/-! ## Runs -/

/-- **One event.** -/
theorem Shared.step {e : Event} (h : p.Shared) (hw : Alive Windowed p) (hok : p.FreshSlot e)
    (hs : step e p = some p') : p'.Shared := by
  obtain ⟨hf, -, ⟨-, _, _, _, _, -, rfl⟩ | ⟨halive, hlive⟩⟩ := step_cases hs
  · exact h.keeps hf (keepsShare_of_eq rfl rfl rfl)
  have hnow : (p.atTime e.time).Shared := h.keeps hf (keepsShare_of_eq rfl rfl rfl)
  cases hlive with
  | @timer t c =>
    have hq : ((p.atTime e.time).cancelEvent t).Shared := h.keeps hf (keepsShare_of_eq rfl rfl rfl)
    exact hq.timer t c hf
  | @upto k u =>
    have hq : ((p.atTime e.time).popUpto k).Shared := h.keeps hf (keepsShare_of_eq rfl rfl rfl)
    exact hq.keeps hf (keepsShare_upTimeOut u.2 _)
  | @self k c o =>
    obtain ⟨out, he⟩ := onSelf_eq (p := (p.atTime e.time).popOutbox k) o.2 c
    rw [he]
    exact h.keeps hf (keepsShare_of_eq rfl rfl rfl)
  | @recv m c hact =>
    have hsrc : m.source ≠ NOID := by
      have := hok.1
      rwa [hact] at this
    cases m with
    | commitReq m => exact hnow.keeps hf (keepsShare_commitReq m _)
    | commitResp m =>
      refine hnow.commitResp hf hsrc (fun ha => hok.2 m c hact ?_) (hw hf halive).window
      exact ⟨ha.status, ha.free, ha.destination, ha.new, ha.key, ha.mac⟩
    | commitAck m => exact hnow.keeps hf (keepsShare_commitAck c m hf)
    | updateReq m => exact hnow.keeps hf (keepsShare_upReq m _)

end

/-- **The acks of a round stay within `maxchildren`** in every run in which no response is
accepted behind the close of a session of a child acknowledged in the same round. -/
theorem acks_within_share {cfg : Config} {start : Nat} {p : Prover}
    (h : Runs.Reaches step FreshSlot (init cfg start) p) : p.acksSent ≤ p.maxchildren := by
  have hno : ∀ k, k ∉ (∅ : SessionMap) := fun k hk => by cases AList.mem_keys.mp hk
  have hshared : (init cfg start).Shared :=
    ⟨Nat.zero_le _, fun _ _ => Nat.zero_le _, fun _ k hk => absurd (AList.mem_keys.mpr hk) (hno k)⟩
  have hwindowed : Alive Windowed (init cfg start) := fun _ _ =>
    windowed_of_status (by simp [init]) (by simp [init])
  refine (h.invariant (I := fun p : Prover => p.Shared ∧ Alive Windowed p)
    ⟨hshared, hwindowed⟩ ?_).1.limit
  rintro e p q ⟨hshared, hw⟩ hok hs
  refine ⟨hshared.step hw hok hs, fun hf hc => ?_⟩
  obtain ⟨hpf, -, ⟨hdead, _, _, _, _, -, rfl⟩ | ⟨halive, hlive⟩⟩ := step_cases hs
  · cases hc
  · exact windowed_live (hw hpf halive) hpf hok.1 hlive hf

/-- A share of three children: two are acknowledged, one of them reports, and two
more are. -/
def freedSlots : List Event :=
  [⟨0, .timer .startmsg { maxchildren := 3 }⟩,
   ⟨1960 * 10 ^ 9, .timer .checkdelaymsg {}⟩,
   ⟨1960 * 10 ^ 9, .timer .mktreetimer { treeID := 7 }⟩,
   ⟨1960 * 10 ^ 9, .timer .creqmsg {}⟩,
   ⟨3 * second, .recv (.commitResp ⟨2, 1, 5, 7, 0, 5⟩) {}⟩,
   ⟨3 * second, .recv (.commitResp ⟨3, 1, 5, 7, 0, 5⟩) {}⟩,
   ⟨3133198816000, .self 6 {}⟩,
   ⟨3133198816000, .self 8 {}⟩,
   ⟨4 * second, .recv (.updateReq ⟨.UPRQ, 2, 1, [2, 0], [1, 0], 7, 0, 5, [0]⟩) {}⟩,
   ⟨5 * second, .recv (.commitResp ⟨4, 1, 5, 7, 0, 5⟩) {}⟩,
   ⟨5 * second, .recv (.commitResp ⟨5, 1, 5, 7, 0, 5⟩) {}⟩]

/-- In `freedSlots` a prover with a share of three sends four acks. -/
theorem freedSlots_exceeds :
    ¬ ∀ (cfg : Config) (start : Nat) (p : Prover),
      Runs.Reaches step (fun e _ => RealSource e.act) (init cfg start) p →
        p.acksSent ≤ p.maxchildren := by
  intro h
  obtain ⟨p, hp, ht⟩ := Runs.exists_of_run step (fun e _ => RealSource e.act) freedSlots
    (init rootConfig 0) (fun p => p.acksSent = 4 ∧ p.maxchildren = 3) (by decide +kernel)
  have hle := h rootConfig 0 p hp
  have ht := of_decide_eq_true ht
  omega

/-- The first nine events of `freedSlots`: two acks and a report. -/
theorem acks_within_share_two : ∃ p : Prover, p.acksSent = 2 ∧ p.children = 1 ∧
    p.acksSent ≤ p.maxchildren := by
  obtain ⟨p, hp, ht⟩ := Runs.exists_of_run step
    (fun e p => RealSource e.act ∧ ∀ y ∈ since Mark.start p.log, y.closes = false)
    (freedSlots.take 9) (init rootConfig 0) (fun p => p.acksSent = 2 ∧ p.children = 1)
    (by decide +kernel)
  obtain ⟨hacks, hchildren⟩ := of_decide_eq_true ht
  refine ⟨p, hacks, hchildren, acks_within_share (hp.weaken fun _ _ h => ?_)⟩
  exact ⟨h.1, fun _ _ _ _ => keepsSlots_of_no_close h.2⟩

end Prover

end Fadia
