import Fadia.Proof.Children

/-!
# One report for each attestation

`OneReport log` says that no report had been sent since the last `startAttestation`
each time one is sent.  It holds of every run, over any number of rounds, in which
no prover with child sessions is made a leaf by an ack (`oneReport_of_reaches`).
`Sound p` is the invariant: which timers are off while sessions are open, and what
is left of them once the report is sent (`Spent`).
-/

namespace Fadia

open Traces

/-- No report was sent earlier in the round. -/
def OneReport (log : List Mark) : Prop := AtEach .sendUpReq (fun past => ¬ SentIn past) log

theorem OneReport.append {marks log : List Mark} (h : OneReport log)
    (hm : ∀ y ∈ marks, y ≠ .start ∧ y ≠ .sendUpReq) : OneReport (marks ++ log) := by
  induction marks with
  | nil => exact h
  | cons y ys ih =>
    exact (ih fun z hz => hm z (List.mem_cons_of_mem _ hz)).cons_of_ne (hm y List.mem_cons_self).2

namespace Prover

/-- An ack makes a prover with child sessions a leaf. -/
def LeavesChildren (e : Event) (p : Prover) : Prop :=
  ∃ m c parent, e.act = .recv (.commitAck m) c ∧ p.Acked m parent ∧ p.Leaf parent ∧ ∃ k, p.Child k

/-- Nothing that is scheduled revives a prover behind its report. -/
structure Clear (p : Prover) : Prop where
  sent : ¬ SentIn p.log
  check : p.timers .checkdelaymsg = none
  mktree : p.timers .mktreetimer = none
  cackto : p.timers .cacktomsg ≠ none → p.cackto.device ≠ NOID
  uptos : ∀ u ∈ p.uptos, u.2.device ≠ NOID

/-- What is left once the report is sent. -/
structure Spent (p : Prover) : Prop where
  status : p.status = .FINISHED ∨ p.status = .COLLECTING
  parent : p.psessions = {}
  children : p.csessions.keys = []
  check : p.timers .checkdelaymsg = none
  mktree : p.timers .mktreetimer = none

/-- While sessions are open, the window's entry is there and no tree is started. -/
structure Collects (p : Prover) : Prop where
  window : NOID ∈ p.csessions
  check : p.timers .checkdelaymsg = none
  mktree : p.timers .mktreetimer = none
  room : p.maxchildren ≠ 0

structure Sound (p : Prover) : Prop where
  sessions : ∀ c ∈ p.csessions, p.Collects
  creating : p.status = .CREATING → p.Collects
  joined : p.psessions.first ≠ NOID → p.timers .checkdelaymsg = none
  ready : p.status = .READY → p.timers .checkdelaymsg = none
  detour : p.status = .ATTESTING_CREATING →
    p.timers .checkdelaymsg = none ∧ p.timers .mktreetimer = none
  order : ∀ a b, p.timers .checkdelaymsg = some a → p.timers .mktreetimer = some b → a.Before b
  cackto : p.timers .cacktomsg ≠ none → p.cackto.device ≠ NOID
  uptos : ∀ u ∈ p.uptos, u.2.device ≠ NOID
  spent : SentIn p.log → p.Spent

/-- What a handler leaves behind. -/
def KeepsSound (p : Prover) : Prop := OneReport p.log ∧ (p.fault = none → p.Sound)

section
variable {p q : Prover}

/-- What `Sound` does not read may change. -/
theorem Sound.congr (h : p.Sound) (hs : q.status = p.status) (hp : q.psessions = p.psessions)
    (hc : q.csessions = p.csessions) (hch : q.timers .checkdelaymsg = p.timers .checkdelaymsg)
    (hmk : q.timers .mktreetimer = p.timers .mktreetimer)
    (hca : q.timers .cacktomsg ≠ none → q.cackto.device ≠ NOID)
    (hm : q.maxchildren = p.maxchildren) (hu : q.uptos.Sublist p.uptos)
    (hl : SentIn q.log ↔ SentIn p.log) : q.Sound := by
  have hcol : p.Collects → q.Collects := fun h =>
    ⟨by rw [hc]; exact h.window, by rw [hch]; exact h.check, by rw [hmk]; exact h.mktree,
      by rw [hm]; exact h.room⟩
  refine ⟨?_, ?_, ?_, ?_, ?_, ?_, hca, ?_, ?_⟩
  · rw [hc]
    exact fun c hmem => hcol (h.sessions c hmem)
  · rw [hs]
    exact fun hst => hcol (h.creating hst)
  · rw [hp, hch]
    exact h.joined
  · rw [hs, hch]
    exact h.ready
  · rw [hs, hch, hmk]
    exact h.detour
  · rw [hch, hmk]
    exact h.order
  · exact fun u hmem => h.uptos u (hu.mem hmem)
  · rw [hl]
    intro hsent
    have hsp := h.spent hsent
    exact ⟨by rw [hs]; exact hsp.status, by rw [hp]; exact hsp.parent, by rw [hc]; exact hsp.children,
      by rw [hch]; exact hsp.check, by rw [hmk]; exact hsp.mktree⟩

/-- A prover that has a parent or a session, or waits, has not sent its report. -/
theorem Sound.not_sent (h : p.Sound) (hb : p.psessions.first ≠ NOID ∨ (∃ c, c ∈ p.csessions) ∨
    (p.status ≠ .FINISHED ∧ p.status ≠ .COLLECTING)) : ¬ SentIn p.log := by
  intro hsent
  have hsp := h.spent hsent
  rcases hb with hfirst | ⟨c, hc⟩ | ⟨hf, hc⟩
  · exact hfirst (by rw [hsp.parent])
  · exact not_mem_of_keys_nil hsp.children c hc
  · exact hsp.status.elim hf hc

theorem Collects.clear (hc : p.Collects) (h : p.Sound) : p.Clear :=
  ⟨h.not_sent (.inr (.inl ⟨NOID, hc.window⟩)), hc.check, hc.mktree, h.cackto, h.uptos⟩

theorem Clear.congr (h : p.Clear) (hch : q.timers .checkdelaymsg = p.timers .checkdelaymsg)
    (hmk : q.timers .mktreetimer = p.timers .mktreetimer)
    (hca : q.timers .cacktomsg ≠ none → q.cackto.device ≠ NOID)
    (hu : q.uptos.Sublist p.uptos) (hl : SentIn q.log ↔ SentIn p.log) : q.Clear :=
  ⟨by rw [hl]; exact h.sent, by rw [hch]; exact h.check, by rw [hmk]; exact h.mktree, hca,
    fun u hmem => h.uptos u (hu.mem hmem)⟩

/-- A prover with sessions has room for children. -/
theorem Sound.no_room (h : p.Sound) (hm : p.maxchildren = 0) : ∀ c ∈ p.csessions, c = NOID :=
  fun c hc => absurd hm (h.sessions c hc).room

/-- **The report is sent**: it is the first, and the prover is spent. -/
theorem Clear.sendUpReq (h : p.Clear) (tid : TreeId) (hr : OneReport p.log)
    (hc : ∀ c ∈ p.csessions, c = NOID) : KeepsSound (p.sendUpReq tid) := by
  refine ⟨?_, fun hok => ?_⟩
  · rw [sendUpReq_log]
    exact atEach_cons.mpr ⟨fun _ => h.sent, hr⟩
  · obtain ⟨parent, hp⟩ := exists_parent_of_sendUpReq tid hok
    rw [sendUpReq_of_some tid hp]
    have hnil := keys_erase_window hc
    refine ⟨fun c hmem => ?_, nofun, fun hfirst => absurd rfl hfirst, nofun, nofun, ?_,
      h.cackto, h.uptos, fun _ => ⟨.inl rfl, rfl, hnil, h.check, h.mktree⟩⟩
    · exact absurd hmem (not_mem_of_keys_nil hnil c)
    · intro a b ha
      cases h.check.symm.trans ha

theorem Clear.broadcast (h : p.Clear) (depth : Nat) (tid : TreeId) (hf : p.fault = none)
    (hr : OneReport p.log) (hm : p.maxchildren ≠ 0) :
    KeepsSound (p.broadcastCommitReq depth tid) := by
  cases hcreq : p.timers .creqmsg with
  | some s =>
    obtain ⟨h1, h2⟩ := broadcast_of_some tid depth hcreq
    exact ⟨by rw [h2]; exact hr, fun hok => by rw [h1] at hok; cases hok⟩
  | none =>
    rw [broadcast_of_none tid depth hf hcreq]
    refine ⟨hr.cons_of_ne nofun, fun _ => ?_⟩
    have hsent : ¬ SentIn (.broadcast :: p.log) := by
      rw [sentIn_cons (y := .broadcast) nofun nofun]
      exact h.sent
    have hcol : Collects { p with
        status := .CREATING
        creqDepth := depth
        creqTreeID := tid
        crespTreeID := tid
        csessions := p.csessions.insert NOID { treeID := tid }
        timers := Function.update (Function.update p.timers .creqmsg (some ⟨p.now, p.seq⟩))
          .cresptomsg (some ⟨p.now + timeoutresp, p.seq + 1⟩)
        seq := p.seq + 2
        log := .broadcast :: p.log } :=
      ⟨(AList.mem_insert _).mpr (.inl rfl), h.check, h.mktree, hm⟩
    refine ⟨fun _ _ => hcol, fun _ => hcol, fun _ => hcol.check, nofun, nofun, ?_, h.cackto,
      h.uptos, fun hs => absurd hs hsent⟩
    intro a b ha
    cases hcol.check.symm.trans ha

/-- `sendCommitReq` where no tree is under way. -/
theorem Clear.sendCommitReq (h : p.Clear) (c : Choice) (tid : TreeId) (hf : p.fault = none)
    (hr : OneReport p.log) (hs : p.status ≠ .ATTESTING)
    (hm : p.maxchildren = 0 → ∀ c ∈ p.csessions, c = NOID) : KeepsSound (p.sendCommitReq c tid) := by
  have hroot : (p.startTree c.treeID).Clear :=
    h.congr rfl rfl h.cackto (List.Sublist.refl _) (sentIn_cons nofun nofun)
  have hrr : OneReport (p.startTree c.treeID).log := hr.cons_of_ne nofun
  by_cases hmax : p.maxchildren = 0
  · rw [sendCommitReq_leaf tid c hs hmax]
    exact hroot.sendUpReq _ hrr (hm hmax)
  by_cases hfirst : p.psessions.first = NOID
  · rw [sendCommitReq_root tid c hs hmax hfirst]
    exact hroot.broadcast _ _ hf hrr hmax
  cases hp : p.psessions.second with
  | none =>
    rw [sendCommitReq_null tid c hs hmax hfirst hp]
    exact ⟨hr, nofun⟩
  | some parent =>
    rw [sendCommitReq_inner tid c hs hmax hfirst hp]
    have hsub : (p.record (.depthSub parent.depth)).Clear :=
      h.congr rfl rfl h.cackto (List.Sublist.refl _) (sentIn_cons nofun nofun)
    exact hsub.broadcast _ _ hf (hr.cons_of_ne nofun) hmax

/-! ## The handlers -/

theorem Sound.start (h : p.Sound) {t : Timer} (c : Choice) (hf : p.fault = none)
    (hr : OneReport p.log) : KeepsSound ((p.cancelEvent t).startAttestation c) := by
  refine ⟨by rw [startAttestation_log]; exact hr.cons_of_ne nofun, fun hok => ?_⟩
  obtain ⟨ha, hch, hm⟩ := timers_of_startAttestation (p := p.cancelEvent t) c hf hok
  rw [startAttestation_of_none (p := p.cancelEvent t) c hf ha hch hm]
  have hempty : ∀ c, c ∉ (∅ : SessionMap) := AList.notMem_empty
  refine ⟨fun c hmem => absurd hmem (hempty c), nofun, fun hfirst => absurd rfl hfirst, nofun,
    nofun, ?_, ?_, h.uptos, fun hs => absurd hs not_sentIn_start⟩
  · intro a b hca hcb
    simp [Function.update] at hca hcb
    rw [← hca, ← hcb, Stamp.Before]
    dsimp only
    omega
  · intro hca
    refine h.cackto fun hno => hca ?_
    simp [cancelEvent, Function.update, hno]

theorem Sound.mktree (h : p.Sound) {s : Stamp} {time : Nat} (c : Choice) (hf : p.fault = none)
    (hr : OneReport p.log) (ht : p.timers .mktreetimer = some s) (hn : p.Next s time) :
    KeepsSound ((p.cancelEvent .mktreetimer).sendCommitReq c NOID) := by
  have hno : ∀ c, c ∉ p.csessions := fun c hmem => by
    cases ht.symm.trans (h.sessions c hmem).mktree
  have hcheck : p.timers .checkdelaymsg = none := by
    cases hc : p.timers .checkdelaymsg with
    | none => rfl
    | some a => exact absurd (h.order a s hc ht) (hn.not_before hc)
  have hsent : ¬ SentIn p.log := fun hs => by cases ht.symm.trans (h.spent hs).mktree
  have hclear : (p.cancelEvent .mktreetimer).Clear :=
    ⟨hsent, hcheck, by simp [cancelEvent], h.cackto, h.uptos⟩
  by_cases hs : p.status = .ATTESTING
  · rw [sendCommitReq_attesting (p := p.cancelEvent .mktreetimer) NOID c hs]
    refine ⟨hr, fun _ => ⟨fun c hmem => absurd hmem (hno c), (fun h => by cases h), h.joined,
      (fun h => by cases h), fun _ => ⟨hcheck, hclear.mktree⟩, ?_, h.cackto, h.uptos, fun hs => absurd hs hsent⟩⟩
    intro a b ha
    cases hcheck.symm.trans ha
  · exact hclear.sendCommitReq c NOID hf hr hs fun _ c hmem => absurd hmem (hno c)

theorem Sound.check (h : p.Sound) {s : Stamp} (ht : p.timers .checkdelaymsg = some s)
    (hr : OneReport p.log) : KeepsSound (p.cancelEvent .checkdelaymsg).checkSoftConfig := by
  have hoff : (p.cancelEvent .checkdelaymsg).timers .checkdelaymsg = none := by simp [cancelEvent]
  refine ⟨hr, fun _ => ⟨fun c hmem => ?_, (fun h => by cases h), fun _ => hoff, fun _ => hoff,
    (fun h => by cases h), ?_, h.cackto, h.uptos, fun hs => ?_⟩⟩
  · cases ht.symm.trans (h.sessions c hmem).check
  · intro a b ha
    cases hoff.symm.trans ha
  · cases ht.symm.trans (h.spent hs).check

theorem Sound.ackTimeOut (h : p.Sound) {s : Stamp} (c : Choice) (hf : p.fault = none)
    (hr : OneReport p.log) (ht : p.timers .cacktomsg = some s) :
    KeepsSound ((p.cancelEvent .cacktomsg).handleCommitAckTimeOut c) := by
  have hoff : (p.cancelEvent .cacktomsg).timers .cacktomsg = none := by simp [cancelEvent]
  have hdev : p.cackto.device ≠ NOID := h.cackto (by rw [ht]; exact fun h => by cases h)
  by_cases hd : p.cackto.device = p.psessions.first
  · have hfirst : p.psessions.first ≠ NOID := hd ▸ hdev
    have hcheck := h.joined hfirst
    have hsent := h.not_sent (.inl hfirst)
    by_cases hs : p.status = .ATTESTING_CREATING
    · rw [handleCommitAckTimeOut_creating (p := p.cancelEvent .cacktomsg) c hd hs]
      have hclear : { p.cancelEvent .cacktomsg with psessions := {}, status := .CREATING }.Clear :=
        ⟨hsent, hcheck, (h.detour hs).2, fun hno => absurd hoff hno, h.uptos⟩
      exact hclear.sendCommitReq c NOID hf hr (fun h => by cases h) h.no_room
    · rw [handleCommitAckTimeOut_ready (p := p.cancelEvent .cacktomsg) c hd hs]
      refine ⟨hr, fun _ => ⟨fun k hk => ?_, (fun h => by cases h), fun hno => absurd rfl hno,
        fun _ => hcheck, (fun h => by cases h), h.order, fun hno => absurd hoff hno, h.uptos, fun hs => absurd hs hsent⟩⟩
      have hcol := h.sessions k hk
      exact ⟨hcol.window, hcol.check, hcol.mktree, hcol.room⟩
  · rw [handleCommitAckTimeOut_stale (p := p.cancelEvent .cacktomsg) c hd]
    exact ⟨hr, fun _ => h.congr rfl rfl rfl rfl rfl (fun hno => absurd hoff hno) rfl
      (List.Sublist.refl _) Iff.rfl⟩

theorem Sound.closeWindow (h : p.Sound) : p.closeWindow.Sound := by
  refine ⟨fun c hc => ?_, nofun, h.joined, nofun, nofun, h.order, h.cackto, h.uptos, fun hs => ?_⟩
  · have hcol := h.sessions c hc
    exact ⟨hcol.window, hcol.check, hcol.mktree, hcol.room⟩
  · have hsp := h.spent ((sentIn_cons (y := .respClosed) nofun nofun).mp hs)
    exact ⟨.inr rfl, hsp.parent, hsp.children, hsp.check, hsp.mktree⟩

theorem Sound.respTimeOut (h : p.Sound) (hr : OneReport p.log) :
    KeepsSound p.handleCommitRespTimeOut := by
  by_cases hl : p.csessions.keys.length = 1
  · rw [handleCommitRespTimeOut_last hl]
    obtain ⟨k, hk⟩ := List.length_eq_one_iff.mp hl
    have hin : k ∈ p.csessions := AList.mem_keys.mpr (by rw [hk]; exact List.mem_cons_self)
    have hcol := h.sessions k hin
    have hclear : p.closeWindow.Clear := (hcol.clear h).congr rfl rfl h.cackto
      (List.Sublist.refl _) (sentIn_cons (y := .respClosed) nofun nofun)
    exact hclear.sendUpReq _ (hr.cons_of_ne nofun) (only_window hcol.window hl)
  · rw [handleCommitRespTimeOut_open hl]
    exact ⟨hr.cons_of_ne nofun, fun _ => h.closeWindow⟩

/-- Closing the session of a child. -/
theorem Sound.close (h : p.Sound) {c : Uid} (hne : c ≠ NOID) (hs : q.status = p.status)
    (hp : q.psessions = p.psessions) (hc : q.csessions = p.csessions.erase c)
    (ht : q.timers = p.timers) (hd : q.cackto = p.cackto) (hm : q.maxchildren = p.maxchildren)
    (hu : q.uptos.Sublist p.uptos) (hl : SentIn q.log ↔ SentIn p.log) : q.Sound := by
  have hcol : p.Collects → q.Collects := fun h =>
    ⟨by rw [hc]; exact AList.mem_erase.mpr ⟨hne.symm, h.window⟩, by rw [ht]; exact h.check,
      by rw [ht]; exact h.mktree, by rw [hm]; exact h.room⟩
  refine ⟨?_, ?_, ?_, ?_, ?_, ?_, ?_, ?_, ?_⟩
  · intro k hk
    rw [hc] at hk
    exact hcol (h.sessions k (AList.mem_erase.mp hk).2)
  · rw [hs]
    exact fun hst => hcol (h.creating hst)
  · rw [hp, ht]
    exact h.joined
  · rw [hs, ht]
    exact h.ready
  · rw [hs, ht]
    exact h.detour
  · rw [ht]
    exact h.order
  · rw [ht, hd]
    exact h.cackto
  · exact fun u hmem => h.uptos u (hu.mem hmem)
  · rw [hl]
    intro hsent
    have hsp := h.spent hsent
    have hnil : q.csessions.keys = [] := by
      apply List.eq_nil_iff_forall_not_mem.mpr
      intro k hk
      rw [← AList.mem_keys, hc] at hk
      exact not_mem_of_keys_nil hsp.children k (AList.mem_erase.mp hk).2
    exact ⟨by rw [hs]; exact hsp.status, by rw [hp]; exact hsp.parent, hnil,
      by rw [ht]; exact hsp.check, by rw [ht]; exact hsp.mktree⟩

/-- A child's session is closed and the report sent if it was the last one. -/
theorem Sound.closeLast (h : p.Sound) {c : Uid} (hne : c ≠ NOID) (hr : OneReport q.log)
    (hc : q.csessions = p.csessions.erase c) (ht : q.timers = p.timers) (hd : q.cackto = p.cackto)
    (hu : q.uptos.Sublist p.uptos) (hl : SentIn q.log ↔ SentIn p.log)
    (hlen : (p.csessions.erase c).keys.length = 1) (tid : TreeId) : KeepsSound (q.sendUpReq tid) := by
  obtain ⟨k, hk⟩ := List.length_eq_one_iff.mp hlen
  have hin : k ∈ p.csessions.erase c := AList.mem_keys.mpr (by rw [hk]; exact List.mem_cons_self)
  have hcol := h.sessions k (AList.mem_erase.mp hin).2
  have hclear : q.Clear := (hcol.clear h).congr (by rw [ht]) (by rw [ht])
    (by rw [ht, hd]; exact h.cackto) hu hl
  refine hclear.sendUpReq tid hr ?_
  rw [hc]
  exact only_window (AList.mem_erase.mpr ⟨hne.symm, hcol.window⟩) hlen

theorem Sound.upTimeOut (h : p.Sound) (hr : OneReport p.log) {u : CommitTimeOut}
    (hne : u.device ≠ NOID) : KeepsSound (p.handleUpdateTimeOut u) := by
  have hl : SentIn (.upTimeOut u.device :: p.log) ↔ SentIn p.log := sentIn_cons nofun nofun
  have hr' : OneReport (.upTimeOut u.device :: p.log) := hr.cons_of_ne nofun
  by_cases hlen : (p.csessions.erase u.device).keys.length = 1
  · rw [handleUpdateTimeOut_last hlen]
    exact h.closeLast (q := { p.timedOut u with status := .FINISHED }) hne hr' rfl rfl rfl
      (List.Sublist.refl _) hl hlen _
  · rw [handleUpdateTimeOut_more hlen]
    exact ⟨hr', fun _ => h.close hne rfl rfl rfl rfl rfl rfl (List.Sublist.refl _) hl⟩

theorem Sound.commitReq (h : p.Sound) (hr : OneReport p.log) {m : CommitReq}
    (hsrc : m.source ≠ NOID) : KeepsSound (p.handleCommitReq m) := by
  rcases handleCommitReq_cases (p := p) m with he | ⟨sess, hjoin, he⟩
  · rw [he]
    exact ⟨hr, fun _ => h⟩
  · rw [he]
    have hcheck := h.ready hjoin.1
    have hsent := h.not_sent (.inr (.inr (by rw [hjoin.1]; exact ⟨nofun, nofun⟩)))
    cases hca : p.timers .cacktomsg with
    | some s =>
      obtain ⟨h1, h2⟩ := sendCommitResp_of_some (p := { p with psessions := ⟨m.source, some sess⟩ })
        _ _ _ hca
      exact ⟨by rw [h2]; exact hr, fun hok => by rw [h1] at hok; cases hok⟩
    | none =>
      rw [sendCommitResp_of_none (p := { p with psessions := ⟨m.source, some sess⟩ })
        _ _ _ hca]
      refine ⟨hr, fun _ => ⟨fun c hc => ?_, nofun, fun _ => hcheck, nofun, nofun, ?_,
        fun _ => hsrc, h.uptos, fun hs => absurd hs hsent⟩⟩
      · have hcol := h.sessions c hc
        exact ⟨hcol.window, hcol.check, hcol.mktree, hcol.room⟩
      · intro a b ha
        cases hcheck.symm.trans ha

theorem Sound.commitResp (h : p.Sound) (hf : p.fault = none) (hr : OneReport p.log)
    {m : CommitResp} (hsrc : m.source ≠ NOID) : KeepsSound (p.handleCommitResp m) := by
  have hack : ∀ {parent : Session} {p' : Prover}, p.Answers m →
      p.psessions.second = some parent →
      p' = (p.admitChild m).sendCommitAck m.source m.treeID (childSession m) →
      OneReport p'.log ∧ p'.Sound := by
    intro parent p' ha hp he
    have hcol := h.creating ha.status
    have heq := sendCommitAck_of_some (p := p.admitChild m) m.treeID m.source (childSession m) hp
    have hcol' : ((p.admitChild m).sendCommitAck m.source m.treeID (childSession m)).Collects := by
      rw [heq]
      have hin : NOID ∈ (p.admitChild m).csessions := (AList.mem_insert _).mpr (.inr hcol.window)
      exact ⟨(AList.mem_insert _).mpr (.inr hin), hcol.check, hcol.mktree, hcol.room⟩
    have hmarks : ∀ y ∈ [Mark.ack m.source, .depthSub parent.depth], y ≠ .start ∧ y ≠ .sendUpReq := by
      simp
    rw [he]
    rw [heq] at hcol' ⊢
    refine ⟨hr.append hmarks, fun _ _ => hcol', fun _ => hcol', h.joined, h.ready, h.detour, h.order,
      h.cackto, fun u hu => ?_, fun hs => ?_⟩
    · rcases List.mem_append.mp hu with hu | hu
      · exact h.uptos u hu
      · rw [List.mem_singleton.mp hu]
        exact hsrc
    · exact absurd ((sentIn_append hmarks).mp hs) (h.not_sent (.inr (.inl ⟨NOID, hcol.window⟩)))
  have hcase := handleCommitResp_cases hf m
  generalize p.handleCommitResp m = p' at hcase ⊢
  cases hcase with
  | ignored => exact ⟨hr, fun _ => h⟩
  | unverified => exact ⟨hr, fun _ => h.congr rfl rfl rfl rfl rfl h.cackto rfl
      (List.Sublist.refl _) Iff.rfl⟩
  | null _ _ hnull hlog => exact ⟨by rw [hlog]; exact hr, fun hok => by rw [hnull] at hok; cases hok⟩
  | more ha hp he => exact (hack ha hp he).imp_right fun h _ => h
  | @full _ ha hp p' he =>
    obtain ⟨hr', h'⟩ := hack ha hp he
    exact ⟨hr'.cons_of_ne nofun, fun _ => h'.closeWindow.congr rfl rfl rfl rfl rfl h'.cackto rfl
      (List.Sublist.refl _) Iff.rfl⟩

theorem Sound.commitAck (h : p.Sound) (c : Choice) {m : CommitAck} (hf : p.fault = none)
    (hr : OneReport p.log) (hsrc : m.source ≠ NOID)
    (hok : ∀ parent, p.Acked m parent → p.Leaf parent → ∀ k, ¬ p.Child k) :
    KeepsSound (p.handleCommitAck c m) := by
  have hclear : ∀ {parent : Session} {st : Status}, p.Acked m parent →
      { (p.queueMacDelay (.commitAck m)).validateParent parent with status := st }.Clear := by
    intro parent st ha
    have hfirst : p.psessions.first ≠ NOID := by rw [ha.source]; exact hsrc
    have hcheck := h.joined hfirst
    refine ⟨h.not_sent (.inl hfirst), ?_, ?_, fun hno => absurd ?_ hno, h.uptos⟩ <;>
      simp [validateParent, cancelEvent, queueMacDelay, hcheck]
  have hcase := handleCommitAck_cases (p := p) c m
  generalize p.handleCommitAck c m = p' at hcase ⊢
  cases hcase with
  | ignored => exact ⟨hr, fun _ => h⟩
  | unverified => exact ⟨hr, fun _ => h.congr rfl rfl rfl rfl rfl h.cackto rfl
      (List.Sublist.refl _) Iff.rfl⟩
  | null => exact ⟨hr, (fun h => by cases h)⟩
  | @leaf parent ha hl =>
    refine (hclear ha).sendUpReq _ hr fun k hk => ?_
    by_contra hne
    exact hok parent ha hl k ⟨hne, hk⟩
  | @inner parent ha hl =>
    have hroom : p.maxchildren ≠ 0 := fun hm => hl (.inr hm)
    exact (hclear ha).sendCommitReq c m.treeID hf hr (fun h => by cases h) fun hm => absurd hm hroom

theorem Sound.upReq (h : p.Sound) (hr : OneReport p.log) {m : UpdateReq} (hsrc : m.source ≠ NOID) :
    KeepsSound (p.handleUpReq m) := by
  have hup : ∀ y ∈ [Mark.upReq m.source], y ≠ .start ∧ y ≠ .sendUpReq := by simp
  have hcol : ∀ y ∈ [Mark.redirect m.source, .upReq m.source], y ≠ .start ∧ y ≠ .sendUpReq := by simp
  have hmer : ∀ y ∈ [Mark.merge m.source, .upReq m.source], y ≠ .start ∧ y ≠ .sendUpReq := by simp
  have hsame : ∀ {q : Prover} {marks : List Mark}, q.status = p.status → q.psessions = p.psessions →
      q.csessions = p.csessions → q.timers = p.timers → q.cackto = p.cackto →
      q.maxchildren = p.maxchildren → q.uptos = p.uptos → q.log = marks ++ p.log →
      (∀ y ∈ marks, y ≠ .start ∧ y ≠ .sendUpReq) → KeepsSound q := by
    intro q marks hs hp hc ht hd hm hu hl hmarks
    refine ⟨by rw [hl]; exact hr.append hmarks, fun _ => ?_⟩
    refine h.congr hs hp hc (by rw [ht]) (by rw [ht]) (by rw [ht, hd]; exact h.cackto) hm
      (by rw [hu]) ?_
    rw [hl]
    exact sentIn_append hmarks
  have huptos : ∀ child : Session, (p.merged m child).uptos.Sublist p.uptos := fun _ =>
    List.filter_sublist
  have hcase := handleUpReq_cases (p := p) m
  generalize p.handleUpReq m = p' at hcase ⊢
  cases hcase with
  | forward => exact hsame rfl rfl rfl rfl rfl rfl rfl rfl hcol
  | redirect => exact hsame rfl rfl rfl rfl rfl rfl rfl rfl hcol
  | ignored => exact hsame rfl rfl rfl rfl rfl rfl rfl rfl hup
  | unverified => exact hsame rfl rfl rfl rfl rfl rfl rfl rfl hup
  | null => exact ⟨hr.append hup, nofun⟩
  | array => exact ⟨hr.append hup, nofun⟩
  | @last child parent hm hlen =>
    exact h.closeLast (q := p.merged m child) hsrc (hr.append hmer) rfl rfl rfl (huptos child)
      (sentIn_append hmer) hlen m.treeID
  | @more child parent hm hlen =>
    exact ⟨hr.append hmer, fun _ => h.close hsrc rfl rfl rfl rfl rfl rfl (huptos child)
      (sentIn_append hmer)⟩

/-! ## Steps and runs -/

/-- **One event** of a prover that lives. -/
theorem Sound.step {e : Event} (h : p.Sound) (hf : p.fault = none) (hr : OneReport p.log)
    (hsrc : RealSource e.act) (hok : ¬ p.LeavesChildren e) (hl : p.Live e q) : KeepsSound q := by
  have hnow : (p.atTime e.time).Sound :=
    h.congr rfl rfl rfl rfl rfl h.cackto rfl (List.Sublist.refl _) Iff.rfl
  cases hl with
  | @timer t c s hact ht hn =>
    cases t with
    | startmsg => exact hnow.start c hf hr
    | attesttimer => exact hnow.start c hf hr
    | checkdelaymsg => exact hnow.check ht hr
    | mktreetimer => exact hnow.mktree c hf hr ht hn
    | creqmsg =>
      exact ⟨hr, fun _ => h.congr rfl rfl rfl rfl rfl h.cackto rfl (List.Sublist.refl _) Iff.rfl⟩
    | cacktomsg => exact hnow.ackTimeOut c hf hr ht
    | cresptomsg =>
      have hpop : ((p.atTime e.time).cancelEvent .cresptomsg).Sound :=
        h.congr rfl rfl rfl rfl rfl h.cackto rfl (List.Sublist.refl _) Iff.rfl
      exact hpop.respTimeOut hr
  | @upto k u hact hu =>
    have hpop : ((p.atTime e.time).popUpto k).Sound :=
      h.congr rfl rfl rfl rfl rfl h.cackto rfl List.filter_sublist Iff.rfl
    exact hpop.upTimeOut hr (h.uptos u (List.mem_of_find?_eq_some hu))
  | self =>
    obtain ⟨out, he⟩ := onSelf_eq (p := (p.atTime e.time).popOutbox _) _ _
    rw [he]
    exact ⟨hr, fun _ => h.congr rfl rfl rfl rfl rfl h.cackto rfl (List.Sublist.refl _) Iff.rfl⟩
  | @recv m c hact =>
    rw [hact] at hsrc
    cases m with
    | commitReq m => exact hnow.commitReq hr hsrc
    | commitResp m => exact hnow.commitResp hf hr hsrc
    | commitAck m =>
      refine hnow.commitAck c hf hr hsrc fun parent ha hl k hk => ?_
      exact hok ⟨m, c, parent, hact, { ha with }, hl, k, hk⟩
    | updateReq m => exact hnow.upReq hr hsrc

end

theorem sound_init (cfg : Config) (start : Nat) : (init cfg start).Sound := by
  have hempty : ∀ c, c ∉ (∅ : SessionMap) := AList.notMem_empty
  refine ⟨fun c hc => absurd hc (hempty c), nofun, fun hfirst => absurd rfl hfirst, nofun, nofun,
    nofun, fun hno => absurd rfl hno, nofun, fun hs => ?_⟩
  cases hs

/-- Message sources are real and no prover with children is made a leaf. -/
def KeepsChildren (e : Event) (p : Prover) : Prop := RealSource e.act ∧ ¬ p.LeavesChildren e

/-- **One report for each attestation**, in every run in which no prover with children
is made a leaf. -/
theorem oneReport_of_reaches {cfg : Config} {start : Nat} {p : Prover}
    (h : Runs.Reaches step KeepsChildren (init cfg start) p) : OneReport p.log := by
  let I : Prover → Prop := fun p => OneReport p.log ∧ Alive Sound p
  have hinit : I (init cfg start) := ⟨atEach_nil, fun _ _ => sound_init cfg start⟩
  have key : I p := by
    refine h.invariant hinit ?_
    intro e p p' ⟨hr, ih⟩ hok hs
    obtain ⟨hf, -, ⟨-, _, _, _, _, -, rfl⟩ | ⟨hc, hlive⟩⟩ := step_cases hs
    · exact ⟨hr, fun _ hcr => nomatch hcr⟩
    · obtain ⟨hr', h'⟩ := (ih hf hc).step hf hr hok.1 hok.2 hlive
      exact ⟨hr', fun hf' _ => h' hf'⟩
  exact key.1

end Prover

end Fadia
