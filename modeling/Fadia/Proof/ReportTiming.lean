import Fadia.Proof.SessionsAgree
import Fadia.Lib.Traces

/-!
# A prover reports after its window is closed and its children are accounted for

`ReportsInTime` says of a log that at each `sendUpReq` the window of each broadcast
had been closed and each child acknowledged had reported or timed out since.  It
holds of the log of every orderly run with one attestation
(`reportsInTime_of_orderly`).
-/

namespace Fadia

open Traces

/-- `cresptomsg` has fired or was cancelled since each broadcast. -/
def WindowClosed (past : List Mark) : Prop := Answered .broadcast (· = .respClosed) past

/-- The child's report was merged or its update timer fired. -/
def ChildMark (c : Uid) (y : Mark) : Prop := y = .merge c ∨ y = .upTimeOut c

/-- Since each ack, the child has reported or timed out. -/
def ChildrenDone (past : List Mark) : Prop := ∀ c, Answered (.ack c) (ChildMark c) past

def ReportsInTime (log : List Mark) : Prop :=
  AtEach .sendUpReq (fun past => WindowClosed past ∧ ChildrenDone past) log

namespace Prover

/-- What the state of a prover knows about its log. -/
structure Tracked (p : Prover) : Prop where
  window : p.status ≠ .CREATING → WindowClosed p.log
  child : ∀ c, Answered (.ack c) (ChildMark c) p.log ∨ c ≠ NOID ∧ c ∈ p.csessions

section
variable {p p' : Prover}

theorem Tracked.congr (h : p.Tracked) (hs : p'.status ≠ .CREATING → p.status ≠ .CREATING)
    (hc : ∀ c ≠ NOID, c ∈ p.csessions → c ∈ p'.csessions) (hl : p'.log = p.log) :
    p'.Tracked := by
  refine ⟨fun hne => by rw [hl]; exact h.window (hs hne), fun c => ?_⟩
  rw [hl]
  exact (h.child c).imp_right fun ⟨hne, hm⟩ => ⟨hne, hc c hne hm⟩

/-- A mark that opens nothing. -/
theorem Tracked.mark (h : p.Tracked) {y : Mark} (hb : y ≠ .broadcast) (ha : ∀ c, y ≠ .ack c)
    (hs : p'.status ≠ .CREATING → p.status ≠ .CREATING)
    (hc : ∀ c ≠ NOID, c ∈ p.csessions → c ∈ p'.csessions) (hl : p'.log = y :: p.log) :
    p'.Tracked := by
  refine ⟨fun hne => ?_, fun c => ?_⟩
  · rw [hl]; exact (h.window (hs hne)).cons_of_ne hb
  · rw [hl]
    exact (h.child c).imp (fun hans => hans.cons_of_ne (ha c)) fun ⟨hne, hm⟩ => ⟨hne, hc c hne hm⟩

/-- **A report sent with the window closed and no child left.** -/
theorem Tracked.sendUpReq (h : p.Tracked) (tid : TreeId) (hr : ReportsInTime p.log)
    (hw : WindowClosed p.log) (hc : ∀ c ∈ p.csessions, c = NOID) :
    ReportsInTime (p.sendUpReq tid).log ∧
      ((p.sendUpReq tid).fault = none → (p.sendUpReq tid).Tracked) := by
  have hdone : ChildrenDone p.log := fun c =>
    (h.child c).resolve_right fun ⟨hne, hm⟩ => hne (hc c hm)
  rw [sendUpReq_log]
  refine ⟨atEach_cons.mpr ⟨fun _ => ⟨hw, hdone⟩, hr⟩, fun hok => ⟨fun _ => ?_, fun c => ?_⟩⟩
  · rw [sendUpReq_log]; exact hw.cons_of_ne nofun
  · rw [sendUpReq_log]; exact .inl ((hdone c).cons_of_ne (by simp))

theorem Tracked.broadcast (h : p.Tracked) (depth : Nat) (tid : TreeId) (hf : p.fault = none)
    (hr : ReportsInTime p.log) :
    ReportsInTime (p.broadcastCommitReq depth tid).log ∧
      ((p.broadcastCommitReq depth tid).fault = none →
        (p.broadcastCommitReq depth tid).Tracked) := by
  cases hcreq : p.timers .creqmsg with
  | some s =>
    obtain ⟨h1, h2⟩ := broadcast_of_some tid depth hcreq
    rw [h1, h2]
    exact ⟨hr, nofun⟩
  | none =>
    rw [broadcast_of_none tid depth hf hcreq]
    refine ⟨hr.cons_of_ne nofun, fun _ => ⟨fun hne => absurd rfl hne, fun c => ?_⟩⟩
    exact (h.child c).imp (fun ha => ha.cons_of_ne nofun) fun ⟨hne, hm⟩ =>
      ⟨hne, (AList.mem_insert _).mpr (.inr hm)⟩

/-- A prover without a parent starts a tree. -/
theorem Tracked.sendCommitReq (h : p.Tracked) (c : Choice) (tid : TreeId) (hf : p.fault = none)
    (hr : ReportsInTime p.log) (hw : WindowClosed p.log) (hs : p.status ≠ .ATTESTING)
    (hn : p.NoSessions) :
    ReportsInTime (p.sendCommitReq c tid).log ∧
      ((p.sendCommitReq c tid).fault = none → (p.sendCommitReq c tid).Tracked) := by
  have hroot : (p.startTree c.treeID).Tracked :=
    h.mark (y := .root) nofun nofun (fun hne => hne) (fun _ _ hm => hm) rfl
  have hrr : ReportsInTime (p.startTree c.treeID).log := hr.cons_of_ne nofun
  by_cases hm : p.maxchildren = 0
  · rw [sendCommitReq_leaf tid c hs hm]
    exact hroot.sendUpReq _ hrr (hw.cons_of_ne nofun)
      fun k hk => absurd hk (not_mem_of_keys_nil hn.children k)
  · rw [sendCommitReq_root tid c hs hm (by rw [hn.parent])]
    exact hroot.broadcast _ _ hf hrr

/-- The handler of an event: what it adds to the log is in time, and it keeps track. -/
def KeepsTrack (p' : Prover) : Prop :=
  ReportsInTime p'.log ∧ (p'.fault = none → p'.Tracked)

theorem Tracked.timer (h : p.Tracked) (ho : p.Once False) {t : Timer} {c : Choice} {s : Stamp}
    (hf : p.fault = none) (hr : ReportsInTime p.log) (ht : p.timers t = some s)
    (hst : StartsAttestation (.timer t c) → .start ∉ p.log) :
    KeepsTrack ((p.cancelEvent t).onTimer t c) := by
  have hstart : .start ∉ p.log → KeepsTrack ((p.cancelEvent t).startAttestation c) := by
    intro hl
    have hi : p.Idle := ho.phase.resolve_right fun ha => hl ha.1
    rw [KeepsTrack, startAttestation_log]
    refine ⟨hr.cons_of_ne nofun, fun hok => ⟨fun _ => ?_, fun k => ?_⟩⟩
    · rw [startAttestation_log]
      exact (h.window (by rw [hi.status]; nofun)).cons_of_ne nofun
    · rw [startAttestation_log]
      refine .inl (((h.child k).resolve_right fun ⟨_, hm⟩ => ?_).cons_of_ne nofun)
      exact not_mem_of_keys_nil hi.sessions.children k hm
  have hq : (p.cancelEvent t).Tracked := h.congr (fun hne => hne) (fun _ _ hm => hm) rfl
  cases t with
  | startmsg => exact hstart (hst trivial)
  | attesttimer => exact hstart (hst trivial)
  | checkdelaymsg =>
    obtain ⟨-, ha⟩ := ho.active (by decide) ht
    refine ⟨hr, fun _ => ⟨fun _ => ?_, h.child⟩⟩
    refine h.window fun hs => ?_
    exact absurd_off ht (ha.of_creating hs).2.check
  | mktreetimer =>
    obtain ⟨-, ha⟩ := ho.active (by decide) ht
    have hw : WindowClosed p.log := h.window fun hs => absurd_off ht (ha.of_creating hs).2.mktree
    by_cases hs : p.status = .ATTESTING
    · rw [show onTimer .mktreetimer c _ = _ from
        sendCommitReq_attesting (p := p.cancelEvent .mktreetimer) NOID c hs]
      exact ⟨hr, fun _ => h.congr (fun _ he => nomatch hs.symm.trans he) (fun _ _ hm => hm) rfl⟩
    · refine hq.sendCommitReq c NOID hf hr hw hs ?_
      cases ha with
      | checking _ hn => exact ⟨hn.parent, hn.children⟩
      | ready _ hn => exact ⟨hn.parent, hn.children⟩
      | attesting h => exact absurd h hs
      | attestingCreating _ _ hsch => exact (absurd_off ht hsch.mktree).elim
      | creating _ _ hsch => exact (absurd_off ht hsch.mktree).elim
      | collecting _ _ _ hsch => exact (absurd_off ht hsch.mktree).elim
      | done _ hn => exact ⟨hn.parent, hn.children⟩
      | ghost hg => exact hg.elim
  | creqmsg => exact ⟨hr, fun _ => h.congr (fun hne => hne) (fun _ _ hm => hm) rfl⟩
  | cacktomsg =>
    obtain ⟨-, ha⟩ := ho.active (by decide) ht
    have hnc : p.status ≠ .CREATING := fun hs => absurd_off ht (ha.of_creating hs).2.cackto
    change KeepsTrack ((p.cancelEvent .cacktomsg).handleCommitAckTimeOut c)
    by_cases hd : p.cackto.device = p.psessions.first
    · by_cases hs : p.status = .ATTESTING_CREATING
      · rw [handleCommitAckTimeOut_creating (p := p.cancelEvent .cacktomsg) c hd hs]
        have hans : p.csessions.keys = [] := by
          cases ha with
          | attestingCreating _ ha => exact ha.children
          | checking h => cases h.symm.trans hs
          | ready h => cases h.symm.trans hs
          | attesting h => cases h.symm.trans hs
          | creating h => cases h.symm.trans hs
          | collecting h => cases h.symm.trans hs
          | done h => cases h.symm.trans hs
          | ghost hg => exact hg.elim
        have hq' : { p.cancelEvent .cacktomsg with psessions := {}, status := .CREATING }.Tracked :=
          h.congr (fun hne => absurd rfl hne) (fun _ _ hm => hm) rfl
        exact hq'.sendCommitReq c NOID hf hr (h.window hnc) nofun ⟨rfl, hans⟩
      · rw [handleCommitAckTimeOut_ready (p := p.cancelEvent .cacktomsg) c hd hs]
        exact ⟨hr, fun _ => h.congr (fun _ => hnc) (fun _ _ hm => hm) rfl⟩
    · rw [handleCommitAckTimeOut_stale (p := p.cancelEvent .cacktomsg) c hd]
      exact ⟨hr, fun _ => hq⟩
  | cresptomsg =>
    obtain ⟨-, ha⟩ := ho.active (by decide) ht
    have hw : WindowClosed (.respClosed :: p.log) := answered_cons_of_meets nofun rfl
    have hcl : (p.cancelEvent .cresptomsg).closeWindow.Tracked :=
      ⟨fun _ => hw, fun k => (h.child k).imp (fun hans => hans.cons_of_ne nofun) id⟩
    have hrr : ReportsInTime (p.cancelEvent .cresptomsg).closeWindow.log := hr.cons_of_ne nofun
    change KeepsTrack (p.cancelEvent .cresptomsg).handleCommitRespTimeOut
    by_cases hl : p.csessions.keys.length = 1
    · rw [handleCommitRespTimeOut_last (p := p.cancelEvent .cresptomsg) hl]
      obtain ⟨k, hk⟩ := List.length_eq_one_iff.mp hl
      have hmem : k ∈ p.csessions := AList.mem_keys.mpr (by rw [hk]; exact List.mem_singleton.mpr rfl)
      exact hcl.sendUpReq _ hrr hw (only_window (ha.opened hmem).1.window hl)
    · rw [handleCommitRespTimeOut_open (p := p.cancelEvent .cresptomsg) hl]
      exact ⟨hrr, fun _ => hcl⟩

/-- Closing the session of `c` with the mark `y`. -/
theorem Tracked.close (h : p.Tracked) {c : Uid} {y : Mark} (hy : ChildMark c y)
    (hs : p'.status ≠ .CREATING → p.status ≠ .CREATING) (hc : p'.csessions = p.csessions.erase c)
    (hl : p'.log = y :: p.log) : p'.Tracked := by
  have hb : y ≠ .broadcast := by rcases hy with rfl | rfl <;> nofun
  have ha : ∀ k, y ≠ .ack k := by rcases hy with rfl | rfl <;> nofun
  refine ⟨fun hne => by rw [hl]; exact (h.window (hs hne)).cons_of_ne hb, fun k => ?_⟩
  rw [hl]
  by_cases hk : k = c
  · subst hk
    exact .inl (answered_cons_of_meets (ha k) hy)
  · refine (h.child k).imp (fun hans => hans.cons_of_ne (ha k)) fun ⟨hne, hm⟩ => ⟨hne, ?_⟩
    rw [hc]
    exact AList.mem_erase.mpr ⟨hk, hm⟩

theorem Tracked.upto (h : p.Tracked) (ho : p.Once False) {u : Stamp × CommitTimeOut} {k : Nat}
    (hr : ReportsInTime p.log) (hu : p.uptos.find? (·.1.seq = k) = some u)
    (hg : p.status = .CREATING → (p.csessions.erase u.2.device).keys.length ≠ 1) :
    KeepsTrack ((p.popUpto k).handleUpdateTimeOut u.2) := by
  obtain ⟨hne, s, hl, -⟩ := ho.linked.upto u (List.mem_of_find?_eq_some hu)
  have hc : u.2.device ∈ p.csessions := AList.lookup_isSome.mp (Option.isSome_of_eq_some hl)
  have ha : p.Active False := by
    rcases ho.phase with hi | ⟨-, ha⟩
    · exact absurd hc (not_mem_of_keys_nil hi.sessions.children _)
    · exact ha
  have hr' : ReportsInTime ((p.popUpto k).timedOut u.2).log := hr.cons_of_ne nofun
  by_cases hlen : (p.csessions.erase u.2.device).keys.length = 1
  · rw [handleUpdateTimeOut_last (p := p.popUpto k) hlen]
    have hnc : p.status ≠ .CREATING := fun hs => hg hs hlen
    have hq : { (p.popUpto k).timedOut u.2 with status := .FINISHED }.Tracked :=
      h.close (c := u.2.device) (.inr rfl) (fun _ => hnc) rfl rfl
    refine hq.sendUpReq _ hr' ((h.window hnc).cons_of_ne nofun) (only_window ?_ hlen)
    exact AList.mem_erase.mpr ⟨hne.symm, (ha.opened hc).1.window⟩
  · rw [handleUpdateTimeOut_more (p := p.popUpto k) hlen]
    exact ⟨hr', fun _ => h.close (c := u.2.device) (.inr rfl) (fun hne => hne) rfl rfl⟩

theorem Tracked.commitReq (h : p.Tracked) {m : CommitReq} (hr : ReportsInTime p.log) :
    KeepsTrack (p.handleCommitReq m) := by
  rcases handleCommitReq_cases (p := p) m with he | ⟨sess, ⟨hs, -⟩, he⟩
  · rw [he]; exact ⟨hr, fun _ => h⟩
  rw [he]
  cases hk : p.timers .cacktomsg with
  | some s =>
    have hno := sendCommitResp_of_some (p := { p with psessions := ⟨m.source, some sess⟩ })
      m.treeID sess m.source hk
    rw [KeepsTrack, hno.1, hno.2]
    exact ⟨hr, nofun⟩
  | none =>
    rw [sendCommitResp_of_none (p := { p with psessions := ⟨m.source, some sess⟩ }) _ _ _ hk]
    exact ⟨hr, fun _ => h.congr (fun _ he => nomatch hs.symm.trans he) (fun _ _ hm => hm) rfl⟩

theorem Tracked.commitResp (h : p.Tracked) {m : CommitResp} (hf : p.fault = none)
    (hsrc : m.source ≠ NOID) (hr : ReportsInTime p.log) : KeepsTrack (p.handleCommitResp m) := by
  have hcase := handleCommitResp_cases hf m
  generalize p.handleCommitResp m = p' at hcase ⊢
  -- the new child is acknowledged and has a session
  have hack : ∀ {parent}, p.Answers m → p.psessions.second = some parent →
      KeepsTrack ((p.admitChild m).sendCommitAck m.source m.treeID (childSession m)) := by
    intro parent ha hp
    rw [sendCommitAck_of_some (p := p.admitChild m) m.treeID m.source _ hp]
    have hsub : ReportsInTime (.depthSub parent.depth :: p.log) := hr.cons_of_ne nofun
    refine ⟨hsub.cons_of_ne nofun, fun _ => ⟨fun hne => absurd ha.status hne, fun c => ?_⟩⟩
    by_cases hc : c = m.source
    · subst hc
      exact .inr ⟨hsrc, (AList.mem_insert _).mpr (.inl rfl)⟩
    · refine (h.child c).imp (fun hans => ?_) fun ⟨hne, hm⟩ => ⟨hne, ?_⟩
      · have hans' : Answered (.ack c) (ChildMark c) (.depthSub parent.depth :: p.log) :=
          hans.cons_of_ne nofun
        exact hans'.cons_of_ne (by simpa using Ne.symm hc)
      · exact (AList.mem_insert _).mpr (.inr ((AList.mem_insert _).mpr (.inr hm)))
  cases hcase with
  | ignored => exact ⟨hr, fun _ => h⟩
  | unverified => exact ⟨hr, fun _ => h.congr (fun hne => hne) (fun _ _ hm => hm) rfl⟩
  | null _ _ hnull hlog => rw [KeepsTrack, hnull, hlog]; exact ⟨hr, nofun⟩
  | more ha hp he => rw [he]; exact hack ha hp
  | full ha hp he =>
    obtain ⟨hr', htr⟩ := hack ha hp
    rw [← he] at hr' htr
    refine ⟨hr'.cons_of_ne nofun, fun hok => ⟨fun _ => answered_cons_of_meets nofun rfl, fun c => ?_⟩⟩
    exact ((htr hok).child c).imp (fun hans => hans.cons_of_ne nofun) id

theorem Tracked.commitAck (h : p.Tracked) (ho : p.Once False) (c : Choice) {m : CommitAck}
    (hf : p.fault = none) (hsrc : m.source ≠ NOID) (hr : ReportsInTime p.log) :
    KeepsTrack (p.handleCommitAck c m) := by
  have hcase := handleCommitAck_cases (p := p) c m
  generalize p.handleCommitAck c m = p' at hcase ⊢
  cases hcase with
  | ignored => exact ⟨hr, fun _ => h⟩
  | unverified => exact ⟨hr, fun _ => h.congr (fun hne => hne) (fun _ _ hm => hm) rfl⟩
  | null => exact ⟨hr, nofun⟩
  | @leaf parent ha hl =>
    obtain ⟨hnc, hchildren⟩ := ho.of_leaf ha hsrc hl
    have hq : { (p.queueMacDelay (.commitAck m)).validateParent parent with
        status := .FINISHED }.Tracked := h.congr (fun _ => hnc) (fun _ _ hm => hm) rfl
    exact hq.sendUpReq _ hr (h.window hnc) fun k hk => absurd hk (not_mem_of_keys_nil hchildren k)
  | @inner parent ha hl =>
    have hd : ¬ (parent.depth = 1 ∨ p.maxchildren = 0) := hl
    rw [not_or] at hd
    rw [sendCommitReq_inner (p := { (p.queueMacDelay (.commitAck m)).validateParent parent with
      status := .CREATING }) m.treeID c nofun hd.2 (by rw [← ha.source] at hsrc; exact hsrc) rfl]
    have hq : ({ (p.queueMacDelay (.commitAck m)).validateParent parent with
        status := .CREATING }.record (.depthSub parent.depth)).Tracked :=
      h.mark (y := .depthSub parent.depth) nofun nofun (fun hne => absurd rfl hne)
        (fun _ _ hm => hm) rfl
    exact hq.broadcast _ _ hf (hr.cons_of_ne nofun)

theorem Tracked.upReq (h : p.Tracked) (ho : p.Once False) {m : UpdateReq}
    (hsrc : m.source ≠ NOID) (hr : ReportsInTime p.log)
    (hg : p.status = .CREATING → (∃ child parent, p.Merges m child parent) →
      (p.csessions.erase m.source).keys.length ≠ 1) : KeepsTrack (p.handleUpReq m) := by
  have hcase := handleUpReq_cases (p := p) m
  generalize p.handleUpReq m = p' at hcase ⊢
  have hrec : (p.record (.upReq m.source)).Tracked :=
    h.mark (y := .upReq m.source) nofun nofun (fun hne => hne) (fun _ _ hm => hm) rfl
  have hr1 : ReportsInTime (p.record (.upReq m.source)).log := hr.cons_of_ne nofun
  have hmer : ∀ child, ReportsInTime (p.merged m child).log ∧ (p.merged m child).Tracked := fun _ =>
    ⟨hr1.cons_of_ne nofun, hrec.close (c := m.source) (.inl rfl) (fun hne => hne) rfl rfl⟩
  cases hcase with
  | forward =>
    exact ⟨hr1.cons_of_ne nofun,
      fun _ => hrec.mark (y := .redirect m.source) nofun nofun (fun hne => hne) (fun _ _ hm => hm) rfl⟩
  | redirect =>
    exact ⟨hr1.cons_of_ne nofun,
      fun _ => hrec.mark (y := .redirect m.source) nofun nofun (fun hne => hne) (fun _ _ hm => hm) rfl⟩
  | ignored => exact ⟨hr1, fun _ => hrec⟩
  | unverified => exact ⟨hr1, fun _ => hrec.congr (fun hne => hne) (fun _ _ hm => hm) rfl⟩
  | null => exact ⟨hr1, nofun⟩
  | array => exact ⟨hr1, nofun⟩
  | @last child parent hm hlen =>
    have hnc : p.status ≠ .CREATING := fun hs => hg hs ⟨child, parent, hm⟩ hlen
    have hc : m.source ∈ p.csessions := AList.lookup_isSome.mp (Option.isSome_of_eq_some hm.sender)
    have ha : p.Active False := by
      rcases ho.phase with hi | ⟨-, ha⟩
      · exact absurd hc (not_mem_of_keys_nil hi.sessions.children _)
      · exact ha
    have hw : WindowClosed (p.record (.upReq m.source)).log := (h.window hnc).cons_of_ne nofun
    have hw : WindowClosed (p.merged m child).log := hw.cons_of_ne nofun
    refine (hmer child).2.sendUpReq _ (hmer child).1 hw (only_window ?_ hlen)
    exact AList.mem_erase.mpr ⟨hsrc.symm, (ha.opened hc).1.window⟩
  | more => exact ⟨(hmer _).1, fun _ => (hmer _).2⟩

/-- **One event** of a prover that lives. -/
theorem Tracked.step {e : Event} (h : p.Tracked) (ho : p.Once False) (hr : ReportsInTime p.log)
    (hok : OrderlyOk e p) (hf : p.fault = none) (hl : p.Live e p') : KeepsTrack p' := by
  have hnow : (p.atTime e.time).Tracked := h.congr (fun hne => hne) (fun _ _ hm => hm) rfl
  have honow : (p.atTime e.time).Once False :=
    ho.congr rfl rfl rfl rfl rfl rfl rfl (Nat.le_refl _) rfl
  have hsrc : ∀ {m c}, e.act = .recv m c → m.source ≠ NOID := by
    intro m c hact
    have := hok.1.2
    rwa [hact] at this
  cases hl with
  | timer hact ht => exact hnow.timer honow hf hr ht fun h => hok.1.1 (hact ▸ h)
  | upto hact hu =>
    exact hnow.upto honow hr hu fun hs hlen => hok.2 ⟨hs, .inr ⟨_, _, hact, hu, hlen⟩⟩
  | self hact ho =>
    obtain ⟨out, he⟩ := onSelf_eq (p := (p.atTime e.time).popOutbox _) _ _
    rw [he]
    exact ⟨hr, fun _ => h.congr (fun hne => hne) (fun _ _ hm => hm) rfl⟩
  | @recv m c hact =>
    have hs := hsrc hact
    cases m with
    | commitReq m => exact hnow.commitReq hr
    | commitResp m => exact hnow.commitResp hf hs hr
    | commitAck m => exact hnow.commitAck honow c hf hs hr
    | updateReq m =>
      refine hnow.upReq honow hs hr fun hst ⟨child, parent, hmer⟩ hlen => ?_
      have hmer' : p.Merges m child parent := { hmer with }
      exact hok.2 ⟨hst, .inl ⟨m, c, hact, ⟨child, parent, hmer'⟩, hlen⟩⟩

end

/-- **A prover reports only when its response window is over and each child it
acknowledged has reported or timed out**, in every run with one attestation in
which no child session is closed too early. -/
theorem reportsInTime_of_orderly {cfg : Config} {start : Nat} {p : Prover}
    (h : Runs.Reaches step OrderlyOk (init cfg start) p) : ReportsInTime p.log := by
  let I : Prover → Prop := fun p => ReportsInTime p.log ∧ Alive (fun p => p.Once False ∧ p.Tracked) p
  have hinit : I (init cfg start) := by
    refine ⟨atEach_nil, fun _ _ => ⟨once_init False cfg start, fun _ => ?_, fun _ => .inl ?_⟩⟩
    · exact answered_nil
    · exact answered_nil
  have key : I p := by
    refine h.invariant hinit ?_
    · intro e p p' ⟨hr, ih⟩ hok hs
      obtain ⟨hf, -, ⟨-, _, _, _, _, -, rfl⟩ | ⟨hc, hlive⟩⟩ := step_cases hs
      · exact ⟨hr, fun _ hcr => nomatch hcr⟩
      · obtain ⟨ho, ht⟩ := ih hf hc
        obtain ⟨hr', ht'⟩ := ht.step ho hr hok hf hlive
        exact ⟨hr', fun hf' hc' => ⟨ho.step hok.1 hok.2 hs hf' hc', ht' hf'⟩⟩
  exact key.1

/-- In `earlyReport` the response window is open when the report is sent. -/
theorem earlyReport_not_in_time :
    ¬ ∀ (cfg : Config) (start : Nat) (p : Prover), Runs.Reaches step OnceOk (init cfg start) p →
      ReportsInTime p.log := by
  intro h
  obtain ⟨p, hp, ht⟩ := Runs.exists_of_run step OnceOk earlyReport
    (init rootConfig 0) (fun p => p.log = .sendUpReq :: .merge 2 :: .upReq 2 :: .ack 2 ::
      .depthSub 1 :: [.broadcast, .root, .start]) (by decide +kernel)
  have hr := h rootConfig 0 p hp
  rw [of_decide_eq_true ht] at hr
  obtain ⟨y, hy, rfl⟩ := ((atEach_cons.mp hr).1 rfl).1 [_, _, _, _] _ rfl
  simp at hy

/-- The same events with the report after the end of the window. -/
def timelyReport : List Event :=
  earlyReport.take 6 ++
    [⟨13960000000000, .timer .cresptomsg {}⟩,
     ⟨14 * second, .recv (.updateReq ⟨.UPRQ, 2, 1, [2, 0], [1, 0], 7, 0, 5, [0]⟩) {}⟩]

theorem timelyReport_in_time : ∃ p : Prover, .sendUpReq ∈ p.log ∧ ReportsInTime p.log := by
  obtain ⟨p, hp, ht⟩ := Runs.exists_of_run step
    (fun e p => OnceOk e p ∧ (p.status ≠ .CREATING ∨ e.act = .self 6 {} ∨
      e.act = .timer .creqmsg {} ∨ e.act = .timer .cresptomsg {} ∨
      e.act = .recv (.commitResp ⟨2, 1, 5, 7, 0, 5⟩) {})) timelyReport (init rootConfig 0)
    (fun p => .sendUpReq ∈ p.log) (by decide +kernel)
  refine ⟨p, of_decide_eq_true ht, reportsInTime_of_orderly (hp.weaken fun e p h => ⟨h.1, ?_⟩)⟩
  rintro ⟨hs, ⟨m, c, hact, -⟩ | ⟨k, u, hact, -⟩⟩ <;> simp [hs, hact] at h

end Prover

end Fadia
