import Fadia.Proof.SessionsAgree

/-!
# Null sessions

The guards of the handlers compare `psessions.first` and look into `csessions`; they do not
test `psessions.second`.  `Backed` says why that suffices: a prover with a parent or with
child sessions has a session of its own, and the window's entry is there until its report.
`safe_step` keeps it as long as the children leave before that session does (`Attended`),
and then no handler dereferences a null session (`never_null`).  An ack from id 0 finds
"no parent" to be its sender (`zeroAck_null`).
-/

namespace Fadia

namespace Prover

/-- Sessions that the handlers rely on are there. -/
structure Backed (p : Prover) : Prop where
  parent : p.psessions.first ≠ NOID → p.psessions.second ≠ none
  window : p.status = .CREATING → NOID ∈ p.csessions
  children : ∀ c ∈ p.csessions, p.psessions.second ≠ none ∧ NOID ∈ p.csessions
  leaf : p.maxchildren = 0 → ∀ c, c ∉ p.csessions
  uptos : ∀ u ∈ p.uptos, u.2.device ≠ NOID

/-- No null session was dereferenced, and what comes next will not do so. -/
def Safe (p : Prover) : Prop := p.fault ≠ some .nullSession ∧ (p.fault = none → p.Backed)

/-- An event leaves no children without the session of their parent, and does not take
`psessions.first = NOID` for a parent. -/
structure Attended (p : Prover) (e : Event) : Prop where
  sender : ∀ m c, e.act = .recv (.commitAck m) c → m.source = NOID → p.psessions.first = NOID →
    m.destination = p.cfg.UId → p.psessions.second ≠ none
  leaf : ∀ m c parent, e.act = .recv (.commitAck m) c → p.Acked m parent → p.Leaf parent →
    ∀ k ∈ p.csessions, k = NOID
  joinOver : ∀ c, e.act = .timer .cacktomsg c → p.cackto.device = p.psessions.first →
    p.status ≠ .ATTESTING_CREATING → ∀ k, k ∉ p.csessions
  report : ∀ m c child parent, e.act = .recv (.updateReq m) c → p.Merges m child parent →
    m.source ≠ NOID

section
variable {p q : Prover}

theorem Backed.safe (h : p.Backed) (hf : p.fault = none) : p.Safe :=
  ⟨by rw [hf]; exact fun he => (by cases he), fun _ => h⟩

/-- What `Backed` does not read may change. -/
theorem Backed.congr (h : p.Backed) (hp : q.psessions = p.psessions)
    (hc : q.csessions = p.csessions) (hs : q.status = .CREATING → p.status = .CREATING)
    (hm : q.maxchildren = p.maxchildren) (hu : q.uptos.Sublist p.uptos) : q.Backed := by
  refine ⟨?_, fun hq => ?_, ?_, ?_, fun u hmem => h.uptos u (hu.subset hmem)⟩
  · rw [hp]
    exact h.parent
  · rw [hc]
    exact h.window (hs hq)
  · rw [hp, hc]
    exact h.children
  · rw [hc, hm]
    exact h.leaf

/-! ## Sending -/

/-- A prover without children can send its report. -/
theorem safe_sendUpReq {parent : Session} (tid : TreeId) (hf : p.fault = none)
    (hp : p.psessions.second = some parent) (hc : ∀ k ∈ p.csessions, k = NOID)
    (hu : ∀ u ∈ p.uptos, u.2.device ≠ NOID) : (p.sendUpReq tid).Safe := by
  have hnil : ∀ k, k ∉ p.csessions.erase NOID := not_mem_of_keys_nil (keys_erase_window hc)
  rw [sendUpReq_of_some tid hp]
  refine Backed.safe ⟨fun h => absurd rfl h, fun h => ?_, fun k hk => ?_, fun _ => hnil, hu⟩ hf
  · cases h
  · exact absurd hk (hnil k)

theorem safe_broadcast (depth : Nat) (tid : TreeId) (hf : p.fault = none)
    (hp : p.psessions.second ≠ none) (hm : p.maxchildren ≠ 0)
    (hu : ∀ u ∈ p.uptos, u.2.device ≠ NOID) : (p.broadcastCommitReq depth tid).Safe := by
  cases h : p.timers .creqmsg with
  | some s =>
    have hfault := (broadcast_of_some tid depth h).1
    refine ⟨?_, fun hnone => ?_⟩
    · rw [hfault]
      exact fun he => by cases he
    · cases hfault.symm.trans hnone
  | none =>
    rw [broadcast_of_none tid depth hf h]
    have hwindow : NOID ∈ p.csessions.insert NOID { treeID := tid } :=
      AList.mem_insert _ |>.mpr (.inl rfl)
    exact Backed.safe ⟨fun _ => hp, fun _ => hwindow, fun _ _ => ⟨hp, hwindow⟩,
      fun h0 => absurd h0 hm, hu⟩ hf

theorem safe_sendCommitReq (c : Choice) (tid : TreeId) (hf : p.fault = none)
    (hatt : p.status = .ATTESTING → p.Backed)
    (hparent : p.psessions.first ≠ NOID → p.psessions.second ≠ none)
    (hleaf : p.maxchildren = 0 → ∀ k, k ∉ p.csessions)
    (hu : ∀ u ∈ p.uptos, u.2.device ≠ NOID) : (p.sendCommitReq c tid).Safe := by
  by_cases hs : p.status = .ATTESTING
  · rw [sendCommitReq_attesting tid c hs]
    have h := (hatt hs).congr (q := { p with status := .ATTESTING_CREATING }) rfl rfl
      (fun h => by cases h) rfl (List.Sublist.refl _)
    exact h.safe hf
  by_cases hm : p.maxchildren = 0
  · rw [sendCommitReq_leaf tid c hs hm]
    exact safe_sendUpReq _ hf rfl (fun k hk => absurd hk (hleaf hm k)) hu
  by_cases hfirst : p.psessions.first = NOID
  · rw [sendCommitReq_root tid c hs hm hfirst]
    exact safe_broadcast _ _ hf (Option.some_ne_none _) hm hu
  obtain ⟨parent, hp⟩ := Option.ne_none_iff_exists'.mp (hparent hfirst)
  rw [sendCommitReq_inner tid c hs hm hfirst hp]
  exact safe_broadcast _ _ hf (hparent hfirst) hm hu

theorem safe_sendCommitResp (h : p.Backed) (hf : p.fault = none) (target : Uid) (tid : TreeId)
    (sess : Session) : ({ p with psessions := ⟨target, some sess⟩ }.sendCommitResp target tid
      sess).Safe := by
  have hjoin : ({ p with psessions := ⟨target, some sess⟩, status := .ATTESTING }).Backed :=
    ⟨fun _ => Option.some_ne_none _, (fun h => by cases h),
      fun k hk => ⟨Option.some_ne_none _, (h.children k hk).2⟩, h.leaf, h.uptos⟩
  cases ht : p.timers .cacktomsg with
  | some s =>
    have hfault := (sendCommitResp_of_some (p := { p with psessions := ⟨target, some sess⟩ })
      tid sess target ht).1
    refine ⟨?_, fun hnone => ?_⟩
    · rw [hfault]
      exact fun he => by cases he
    · cases hfault.symm.trans hnone
  | none =>
    rw [sendCommitResp_of_none (p := { p with psessions := ⟨target, some sess⟩ }) tid sess
      target ht]
    exact Backed.safe ⟨hjoin.parent, hjoin.window, hjoin.children, hjoin.leaf, hjoin.uptos⟩ hf

/-! ## Handlers -/

theorem safe_startAttestation (h : p.Backed) (hf : p.fault = none) (c : Choice) :
    (p.startAttestation c).Safe := by
  have hfault : (p.startAttestation c).fault ≠ some .nullSession := by
    cases ha : p.timers .attesttimer <;> cases hc : p.timers .checkdelaymsg <;>
      cases hm : p.timers .mktreetimer <;>
      simp [startAttestation, scheduleAt, andThen, fail, ha, hc, hm, hf]
  refine ⟨hfault, fun _ => ?_⟩
  obtain ⟨_, _, _, he⟩ := startAttestation_shape (p := p) c
  rw [he]
  have hno : ∀ k, k ∉ (∅ : SessionMap) := fun k hk => by cases AList.mem_keys.mp hk
  exact ⟨fun h => absurd rfl h, (fun h => by cases h), fun k hk => absurd hk (hno k),
    fun _ => hno, h.uptos⟩

theorem safe_handleCommitAckTimeOut (h : p.Backed) (hf : p.fault = none) (c : Choice)
    (hok : p.cackto.device = p.psessions.first → p.status ≠ .ATTESTING_CREATING →
      ∀ k, k ∉ p.csessions) : (p.handleCommitAckTimeOut c).Safe := by
  by_cases hd : p.cackto.device = p.psessions.first
  · by_cases hs : p.status = .ATTESTING_CREATING
    · rw [handleCommitAckTimeOut_creating c hd hs]
      exact safe_sendCommitReq _ _ hf (fun h => by cases h) (fun h => absurd rfl h) h.leaf h.uptos
    · rw [handleCommitAckTimeOut_ready c hd hs]
      have hno := hok hd hs
      exact Backed.safe ⟨fun h => absurd rfl h, (fun h => by cases h),
        fun k hk => absurd hk (hno k), fun _ => hno, h.uptos⟩ hf
  · rw [handleCommitAckTimeOut_stale c hd]
    exact h.safe hf

/-- The last child has left: what remains is the window's entry, so there is a session. -/
theorem Backed.safe_last {k : Uid} (h : p.Backed) (hk : k ≠ NOID)
    (hl : (p.csessions.erase k).keys.length = 1) :
    p.psessions.second ≠ none ∧ ∀ c ∈ p.csessions.erase k, c = NOID := by
  obtain ⟨c, hc⟩ := List.length_eq_one_iff.mp hl
  have hmem : c ∈ p.csessions.erase k := AList.mem_keys.mpr (hc ▸ List.mem_singleton_self c)
  obtain ⟨hsome, hwindow⟩ := h.children c (AList.mem_erase.mp hmem).2
  exact ⟨hsome, only_window (AList.mem_erase.mpr ⟨hk.symm, hwindow⟩) hl⟩

theorem safe_handleCommitRespTimeOut (h : p.Backed) (hf : p.fault = none) :
    p.handleCommitRespTimeOut.Safe := by
  by_cases hl : p.csessions.keys.length = 1
  · rw [handleCommitRespTimeOut_last hl]
    obtain ⟨c, hc⟩ := List.length_eq_one_iff.mp hl
    have hmem : c ∈ p.csessions := AList.mem_keys.mpr (hc ▸ List.mem_singleton_self c)
    obtain ⟨hsome, hwindow⟩ := h.children c hmem
    obtain ⟨parent, hp⟩ := Option.ne_none_iff_exists'.mp hsome
    exact safe_sendUpReq (p := p.closeWindow) _ hf hp (only_window hwindow hl) h.uptos
  · rw [handleCommitRespTimeOut_open hl]
    exact (h.congr (q := p.closeWindow) rfl rfl (fun h => by cases h) rfl
      (List.Sublist.refl _)).safe hf

/-- A child that leaves, and is not the window's entry, changes nothing else. -/
theorem Backed.erase {k : Uid} (h : p.Backed) (hk : k ≠ NOID) (hp : q.psessions = p.psessions)
    (hc : q.csessions = p.csessions.erase k) (hs : q.status = p.status)
    (hm : q.maxchildren = p.maxchildren) (hu : q.uptos.Sublist p.uptos) : q.Backed := by
  refine ⟨?_, fun hq => ?_, fun c hmem => ?_, fun h0 c hmem => ?_,
    fun u hmem => h.uptos u (hu.subset hmem)⟩
  · rw [hp]
    exact h.parent
  · rw [hc]
    exact AList.mem_erase.mpr ⟨hk.symm, h.window (hs ▸ hq)⟩
  · rw [hc] at hmem ⊢
    obtain ⟨hsome, hwindow⟩ := h.children c (AList.mem_erase.mp hmem).2
    exact ⟨hp ▸ hsome, AList.mem_erase.mpr ⟨hk.symm, hwindow⟩⟩
  · rw [hc] at hmem
    exact h.leaf (hm ▸ h0) c (AList.mem_erase.mp hmem).2

theorem safe_handleUpdateTimeOut {u : CommitTimeOut} (h : p.Backed) (hf : p.fault = none)
    (hd : u.device ≠ NOID) : (p.handleUpdateTimeOut u).Safe := by
  by_cases hl : (p.csessions.erase u.device).keys.length = 1
  · rw [handleUpdateTimeOut_last hl]
    obtain ⟨hsome, honly⟩ := h.safe_last hd hl
    obtain ⟨parent, hp⟩ := Option.ne_none_iff_exists'.mp hsome
    exact safe_sendUpReq (p := { p.timedOut u with status := .FINISHED }) _ hf hp honly h.uptos
  · rw [handleUpdateTimeOut_more hl]
    exact (h.erase (q := p.timedOut u) hd rfl rfl rfl rfl (List.Sublist.refl _)).safe hf

theorem safe_handleCommitReq (h : p.Backed) (hf : p.fault = none) (m : CommitReq) :
    (p.handleCommitReq m).Safe := by
  rcases handleCommitReq_cases (p := p) m with he | ⟨sess, -, he⟩
  · rw [he]
    exact h.safe hf
  · rw [he]
    exact safe_sendCommitResp h hf _ _ _

theorem safe_handleCommitResp (h : p.Backed) (hf : p.fault = none) (m : CommitResp) :
    (p.handleCommitResp m).Safe := by
  have hcase := handleCommitResp_cases hf m
  generalize p.handleCommitResp m = p' at hcase ⊢
  -- while the window is open its entry is there, so a child is not `NOID`
  have hback : ∀ {parent : Session}, p.Answers m → p.psessions.second = some parent →
      ((p.admitChild m).sendCommitAck m.source m.treeID (childSession m)).Backed := by
    intro parent ha hp
    have hwindow := h.window ha.status
    have hne : m.source ≠ NOID := fun he => ha.new (he ▸ hwindow)
    rw [sendCommitAck_of_some (p := p.admitChild m) m.treeID m.source _ hp]
    have hin : NOID ∈ ((p.admitChild m).csessions.insert m.source
        { childSession m with tomsg := some ((p.admitChild m).seq + 1) }) := by
      refine (AList.mem_insert _).mpr (.inr ?_)
      exact (AList.mem_insert _).mpr (.inr hwindow)
    refine ⟨h.parent, fun _ => hin, fun _ _ => ⟨?_, hin⟩, fun h0 => ?_, fun u hu => ?_⟩
    · show p.psessions.second ≠ none
      rw [hp]
      exact Option.some_ne_none _
    · exact absurd hwindow (h.leaf h0 NOID)
    · rcases List.mem_append.mp hu with hu | hu
      · exact h.uptos u hu
      · rw [List.mem_singleton.mp hu]
        exact hne
  have hfault : ∀ {parent : Session}, p.psessions.second = some parent →
      ((p.admitChild m).sendCommitAck m.source m.treeID (childSession m)).fault = none := by
    intro parent hp
    rw [sendCommitAck_of_some (p := p.admitChild m) m.treeID m.source _ hp]
    exact hf
  cases hcase with
  | ignored => exact h.safe hf
  | unverified =>
    exact (h.congr (q := p.queueMacDelay (.commitResp m)) rfl rfl id rfl
      (List.Sublist.refl _)).safe hf
  | null ha hp => exact absurd hp (h.children NOID (h.window ha.status)).1
  | more ha hp he =>
    subst he
    exact (hback ha hp).safe (hfault hp)
  | @full parent ha hp p' he =>
    subst he
    have hclose := (hback ha hp).congr (q := ((p.admitChild m).sendCommitAck m.source m.treeID
      (childSession m)).closeWindow.cancelEvent .cresptomsg) rfl rfl (fun h => by cases h) rfl
      (List.Sublist.refl _)
    exact hclose.safe (hfault hp)

theorem safe_handleCommitAck (h : p.Backed) (hf : p.fault = none) (c : Choice) (m : CommitAck)
    (hsender : m.source = NOID → p.psessions.first = NOID → m.destination = p.cfg.UId →
      p.psessions.second ≠ none)
    (hleaf : ∀ parent, p.Acked m parent → p.Leaf parent → ∀ k ∈ p.csessions, k = NOID) :
    (p.handleCommitAck c m).Safe := by
  have hdest : (p.handleCommitAck c m).fault = some .nullSession →
      p.psessions.second = none → p.psessions.first = m.source ∧ m.destination = p.cfg.UId := by
    intro hnull hnone
    unfold handleCommitAck at hnull
    split at hnull
    · cases hf.symm.trans hnull
    next hsrc =>
    split at hnull
    · cases hf.symm.trans hnull
    next hd => exact ⟨not_not.mp hsrc, not_not.mp hd⟩
  have hcase := handleCommitAck_cases (p := p) c m
  generalize p.handleCommitAck c m = p' at hcase hdest ⊢
  cases hcase with
  | ignored => exact h.safe hf
  | unverified =>
    exact (h.congr (q := p.queueMacDelay (.commitAck m)) rfl rfl id rfl
      (List.Sublist.refl _)).safe hf
  | null _ hnone =>
    obtain ⟨hsrc, hd⟩ := hdest rfl hnone
    by_cases hzero : m.source = NOID
    · exact absurd hnone (hsender hzero (hsrc.trans hzero) hd)
    · -- a real sender is the parent, whose session is there
      exact absurd hnone (h.parent (hsrc ▸ hzero))
  | leaf ha hl => exact safe_sendUpReq _ hf rfl (hleaf _ ha hl) h.uptos
  | inner ha hl =>
    exact safe_sendCommitReq _ _ hf (fun h => by cases h) (fun _ => Option.some_ne_none _)
      (fun h0 => absurd (.inr h0) hl) h.uptos

theorem safe_handleUpReq (h : p.Backed) (hf : p.fault = none) (m : UpdateReq)
    (hreport : ∀ child parent, p.Merges m child parent → m.source ≠ NOID) :
    (p.handleUpReq m).Safe := by
  have hcase := handleUpReq_cases (p := p) m
  generalize p.handleUpReq m = p' at hcase ⊢
  have hquiet : ∀ {q : Prover}, q.fault = none → q.psessions = p.psessions →
      q.csessions = p.csessions → q.status = p.status → q.maxchildren = p.maxchildren →
      q.uptos = p.uptos → q.Safe := by
    intro q hq hp hc hs hm hu
    exact (h.congr hp hc (hs ▸ id) hm (hu ▸ List.Sublist.refl _)).safe hq
  cases hcase with
  | forward => exact hquiet hf rfl rfl rfl rfl rfl
  | redirect => exact hquiet hf rfl rfl rfl rfl rfl
  | ignored => exact hquiet hf rfl rfl rfl rfl rfl
  | unverified => exact hquiet hf rfl rfl rfl rfl rfl
  | null _ _ hc hnone => exact absurd hnone (h.children _ hc).1
  | array => exact ⟨(fun he => by cases he), (fun he => by cases he)⟩
  | last hm hl =>
    obtain ⟨hsome, honly⟩ := h.safe_last (hreport _ _ hm) hl
    exact safe_sendUpReq (p := p.merged m _) _ hf hm.second honly
      fun u hu => h.uptos u (List.mem_filter.mp hu).1
  | more hm hl =>
    exact (h.erase (q := p.merged m _) (hreport _ _ hm) rfl rfl rfl rfl
      List.filter_sublist).safe hf

/-! ## Runs -/

/-- **Step lemma**: no handler of a prover that lives dereferences a null session. -/
theorem safe_live {e : Event} (h : p.Backed) (hf : p.fault = none) (hok : p.Attended e)
    (hs : p.Live e q) : q.Safe := by
  cases hs with
  | @timer t c s hact =>
    have hpop : ((p.atTime e.time).cancelEvent t).Backed :=
      h.congr rfl rfl id rfl (List.Sublist.refl _)
    cases t with
    | startmsg => exact safe_startAttestation hpop hf c
    | attesttimer => exact safe_startAttestation hpop hf c
    | checkdelaymsg =>
      exact (hpop.congr (q := ((p.atTime e.time).cancelEvent .checkdelaymsg).checkSoftConfig)
        rfl rfl (fun h => by cases h) rfl (List.Sublist.refl _)).safe hf
    | mktreetimer =>
      exact safe_sendCommitReq _ _ hf (fun _ => hpop) h.parent h.leaf h.uptos
    | creqmsg =>
      exact (hpop.congr (q := ((p.atTime e.time).cancelEvent .creqmsg).onTimer .creqmsg c)
        rfl rfl id rfl (List.Sublist.refl _)).safe hf
    | cacktomsg => exact safe_handleCommitAckTimeOut hpop hf c (hok.joinOver c hact)
    | cresptomsg => exact safe_handleCommitRespTimeOut hpop hf
  | @upto k u hact hupto =>
    have hpop : ((p.atTime e.time).popUpto k).Backed :=
      h.congr rfl rfl id rfl List.filter_sublist
    exact safe_handleUpdateTimeOut hpop hf (h.uptos u (List.mem_of_find?_eq_some hupto))
  | @self k c o hact =>
    obtain ⟨out, he⟩ := onSelf_eq (p := (p.atTime e.time).popOutbox k) o.2 c
    rw [he]
    exact (h.congr (q := { (p.atTime e.time).popOutbox k with out := out }) rfl rfl id rfl
      (List.Sublist.refl _)).safe hf
  | @recv m c hact =>
    have hnow : (p.atTime e.time).Backed := h.congr rfl rfl id rfl (List.Sublist.refl _)
    cases m with
    | commitReq m => exact safe_handleCommitReq hnow hf m
    | commitResp m => exact safe_handleCommitResp hnow hf m
    | commitAck m =>
      refine safe_handleCommitAck hnow hf c m (hok.sender m c hact) fun parent ha hl => ?_
      exact hok.leaf m c parent hact ⟨ha.source, ha.destination, ha.second, ha.key, ha.mac⟩ hl
    | updateReq m =>
      refine safe_handleUpReq hnow hf m fun child parent hm => ?_
      exact hok.report m c child parent hact
        ⟨hm.kind, hm.destination, hm.status, hm.sender, hm.second, hm.treeID, hm.mac, hm.arrays⟩

/-- **No null session is dereferenced** in a run whose events are all `Attended`. -/
theorem never_null {cfg : Config} {start : Nat}
    (h : Runs.Reaches step (fun e p => p.Attended e) (init cfg start) p) :
    p.fault ≠ some .nullSession := by
  have hno : ∀ k, k ∉ (∅ : SessionMap) := fun k hk => by cases AList.mem_keys.mp hk
  have hinit : (init cfg start).fault ≠ some .nullSession ∧ Alive Backed (init cfg start) :=
    ⟨fun h => (by cases h), fun _ _ => ⟨fun h => absurd rfl h, fun h => (by cases h),
      fun k hk => absurd hk (hno k), fun _ => hno, (fun u hu => by cases hu)⟩⟩
  refine (h.invariant (I := fun p => p.fault ≠ some .nullSession ∧ Alive Backed p) hinit ?_).1
  rintro e p q ⟨hsafe, hback⟩ hok hs
  obtain ⟨hf, -, ⟨-, _, _, _, _, -, rfl⟩ | ⟨halive, hlive⟩⟩ := step_cases hs
  · exact ⟨hsafe, fun _ hc => by cases hc⟩
  · have h' := safe_live (hback hf halive) hf hok hlive
    exact ⟨h'.1, fun hf _ => h'.2 hf⟩

end

/-- An ack without a source at a prover that has no parent. -/
theorem zeroAck_null : ¬ ∀ (cfg : Config) (start : Nat) (p : Prover),
    Runs.Reaches step (fun _ _ => True) (init cfg start) p → p.fault ≠ some .nullSession := by
  intro h
  obtain ⟨p, hp, ht⟩ := Runs.exists_of_run step (fun _ _ => True)
    [⟨0, .recv (.commitAck ⟨NOID, 1, 7, 0, 5⟩) {}⟩]
    (init rootConfig 1)
    (fun p => p.fault = some .nullSession) (by decide +kernel)
  exact h _ _ p hp (of_decide_eq_true ht)

/-- The child of `earlyReport` leaves before its parent's session does. -/
theorem never_null_early : ∃ p : Prover, p.status = .FINISHED ∧ p.fault ≠ some .nullSession := by
  obtain ⟨p, hp, ht⟩ := Runs.exists_of_run step (fun e _ => e ∈ earlyReport) earlyReport
    (init rootConfig 0) (fun p => p.status = .FINISHED) (by decide +kernel)
  have hack : ∀ e ∈ earlyReport, ∀ m c, e.act ≠ .recv (.commitAck m) c := by
    simp [earlyReport]
  have hover : ∀ e ∈ earlyReport, ∀ c, e.act ≠ .timer .cacktomsg c := by
    simp [earlyReport]
  have hsource : ∀ e ∈ earlyReport, ∀ m c, e.act = .recv (.updateReq m) c → m.source ≠ NOID := by
    simp +contextual [earlyReport]
  exact ⟨p, of_decide_eq_true ht, never_null (hp.weaken fun e p hmem =>
    ⟨fun m c he => absurd he (hack e hmem m c), fun m c _ he => absurd he (hack e hmem m c),
      fun c he => absurd he (hover e hmem c), fun m c _ _ he _ => hsource e hmem m c he⟩)⟩

end Prover

end Fadia
