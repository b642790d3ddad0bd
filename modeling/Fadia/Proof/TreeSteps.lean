import Fadia.Proof.TreeSessions

/-!
# One event keeps the sessions in agreement

The handlers of a prover in a run with one attestation, one after the other
(`keeps_of_live`).  `Around` is what a prover may assume of the others: a prover
broadcasts one depth and one tree id, and what `A` says of this prover is what it
has broadcast.
-/

namespace Fadia

namespace Prover

variable {ring : Uid → List KeyId} {A : Uid → Nat → TreeId → Prop}

/-- What a prover relies on. -/
structure Around (ring : Uid → List KeyId) (A : Uid → Nat → TreeId → Prop) (p : Prover) : Prop where
  ring : p.cfg.KeyRing = ring p.cfg.UId
  self : ∀ d t, A p.cfg.UId d t → p.Says d t
  tree : ∀ q d t d' t', A q d t → A q d' t' → t = t'

section
variable {p q : Prover}

/-- A handler that changes neither the sessions nor what was broadcast. -/
theorem keeps_same (h : Fits ring A p) (marks : List Mark) (hcfg : q.cfg = p.cfg)
    (hp : q.psessions = p.psessions)
    (hc : ∀ c s, q.csessions.lookup c = some s → p.csessions.lookup c = some s)
    (hd : q.creqDepth = p.creqDepth) (ht : q.creqTreeID = p.creqTreeID)
    (hr : q.crespTreeID = p.crespTreeID) (hu : q.uptos.Sublist p.uptos)
    (ho : .creqmsg ∈ q.out → .broadcast ∈ p.log) (hmail : ∀ m ∈ q.mail, m ∈ p.mail)
    (hl : q.log = marks ++ p.log) (hm : ∀ y ∈ marks, treeMark y = false)
    (hs : .root ∈ p.log ∨ .broadcast ∈ p.log →
      q.status = .CREATING ∨ q.status = .COLLECTING ∨ q.status = .FINISHED)
    (hcreq : q.timers .creqmsg ≠ none → .broadcast ∈ p.log) : KeepsFits ring A p q := by
  have hmarks : ∀ y, treeMark y = true → (y ∈ q.log ↔ y ∈ p.log) := by
    rw [hl]
    exact treeMarks_append hm
  refine fun _ => ⟨h.same hcfg hp hc hd ht hr hu ho hmail hmarks, ⟨?_, ?_⟩, ?_⟩
  · rw [hmarks _ rfl, hmarks _ rfl]
    exact hs
  · rw [hmarks _ rfl]
    exact hcreq
  · rintro d t ⟨hb, hd', ht'⟩
    exact ⟨(hmarks _ rfl).mpr hb, hd.trans hd', ht.trans ht'⟩

/-- A timer that is taken from the queue. -/
theorem creq_cancel (t : Timer) (h : p.Settled) (hne : (p.cancelEvent t).timers .creqmsg ≠ none) :
    .broadcast ∈ p.log := by
  refine h.creq fun hno => hne ?_
  change Function.update p.timers t none .creqmsg = none
  rw [Function.update_apply]
  split
  · rfl
  · exact hno

theorem keeps_start (h : Fits ring A p) (hset : p.Settled) (hi : p.Idle) {t : Timer} (c : Choice)
    (hf : p.fault = none) : KeepsFits ring A p ((p.cancelEvent t).startAttestation c) := by
  intro hok
  obtain ⟨ha, hch, hm⟩ := timers_of_startAttestation (p := p.cancelEvent t) c hf hok
  rw [startAttestation_of_none (p := p.cancelEvent t) c hf ha hch hm]
  have hno : ∀ y, ¬ Passing y → y ∉ p.log := fun y hy hmem => hy (hi.log y hmem)
  have hroot : .root ∉ .start :: p.log := by simpa using hno .root id
  have hb : .broadcast ∉ p.log := hno .broadcast id
  have hb' : .broadcast ∉ .start :: p.log := by simpa using hb
  have hempty : ∀ c, c ∉ (∅ : SessionMap) := AList.notMem_empty
  refine ⟨⟨nofun, nofun, fun hf => absurd rfl hf, fun hbr => absurd hbr hb',
    fun hr => absurd hr hroot, fun hbr => absurd hbr hb', nofun,
    fun c hc => absurd hc (hempty c), fun hbr => absurd hbr hb', ?_, ?_, ?_, h.mail⟩, ⟨?_, ?_⟩, fun _ _ hs => absurd hs.1 hb⟩
  · exact fun u hu => absurd (h.uptos u hu).1 hb
  · exact fun ho => absurd (h.outs ho) hb
  · intro d hd
    exact absurd ((List.mem_cons.mp hd).resolve_left nofun) (hno (.depthSub d) id)
  · exact fun hd => hd.elim (absurd · hroot) (absurd · hb')
  · intro hne
    refine absurd (creq_cancel t hset fun hoff => hne ?_) hb
    simpa [Function.update] using hoff

theorem keeps_check {g : Prop} (h : Fits ring A p) (hset : p.Settled) (ho : p.Once g) {s : Stamp}
    (ht : p.timers .checkdelaymsg = some s) :
    KeepsFits ring A p (p.cancelEvent .checkdelaymsg).checkSoftConfig := by
  have hcreq : (p.cancelEvent .checkdelaymsg).timers .creqmsg ≠ none → .broadcast ∈ p.log :=
    creq_cancel .checkdelaymsg hset
  have hs := ho.of_check ht
  obtain ⟨hroot, hb⟩ := hset.undecided (by rw [hs]; nofun) (by rw [hs]; nofun) (by rw [hs]; nofun)
  exact keeps_same h [] rfl rfl (fun _ _ => id) rfl rfl rfl (List.Sublist.refl _) h.outs
    (fun _ => id) rfl (by simp) (fun hd => hd.elim (absurd · hroot) (absurd · hb)) hcreq

theorem keeps_mktree {g : Prop} (h : Fits ring A p) (hset : p.Settled) (ho : p.Once g) {s : Stamp}
    (c : Choice) (hf : p.fault = none) (ht : p.timers .mktreetimer = some s) :
    KeepsFits ring A p ((p.cancelEvent .mktreetimer).sendCommitReq c NOID) := by
  have hcreq : (p.cancelEvent .mktreetimer).timers .creqmsg ≠ none → .broadcast ∈ p.log :=
    creq_cancel .mktreetimer hset
  have hpop : Fits ring A (p.cancelEvent .mktreetimer) :=
    h.same rfl rfl (fun _ _ => id) rfl rfl rfl (List.Sublist.refl _) h.outs (fun _ => id)
      fun _ _ => Iff.rfl
  rcases ho.of_mktree ht with ⟨hs, hn⟩ | ⟨hs, -⟩
  · obtain ⟨hroot, hb⟩ : .root ∉ p.log ∧ .broadcast ∉ p.log := by
      rcases hs with hs | hs <;>
        exact hset.undecided (by rw [hs]; nofun) (by rw [hs]; nofun) (by rw [hs]; nofun)
    have hne : p.status ≠ .ATTESTING := by
      rcases hs with hs | hs <;> rw [hs] <;> nofun
    exact (keeps_sendCommitReq hpop hcreq c NOID hf hne ⟨hn.parent, hn.children⟩
      hb).of_said fun _ _ => id
  · obtain ⟨hroot, hb⟩ := hset.undecided (by rw [hs]; nofun) (by rw [hs]; nofun) (by rw [hs]; nofun)
    rw [sendCommitReq_attesting (p := p.cancelEvent .mktreetimer) NOID c hs]
    exact keeps_same h [] rfl rfl (fun _ _ => id) rfl rfl rfl (List.Sublist.refl _) h.outs
      (fun _ => id) rfl (by simp) (fun hd => hd.elim (absurd · hroot) (absurd · hb)) hcreq

/-- The parent's session is given up. -/
theorem Fits.leave (h : Fits ring A p) (hc : p.csessions.keys = []) (st : Status) :
    Fits ring A { p with psessions := {}, status := st } :=
  { h with
    parent := nofun
    root := nofun
    present := fun hf => absurd rfl hf
    own := fun _ => nofun
    opened := fun c hmem => absurd hmem (not_mem_of_keys_nil hc c) }

theorem keeps_ackTimeOut {g : Prop} (h : Fits ring A p) (hset : p.Settled) (ho : p.Once g) {s : Stamp}
    (c : Choice) (hf : p.fault = none) (ht : p.timers .cacktomsg = some s) :
    KeepsFits ring A p ((p.cancelEvent .cacktomsg).handleCommitAckTimeOut c) := by
  have hcreq : (p.cancelEvent .cacktomsg).timers .creqmsg ≠ none → .broadcast ∈ p.log :=
    creq_cancel .cacktomsg hset
  have hpop : Fits ring A (p.cancelEvent .cacktomsg) :=
    h.same rfl rfl (fun _ _ => id) rfl rfl rfl (List.Sublist.refl _) h.outs (fun _ => id)
      fun _ _ => Iff.rfl
  obtain ⟨hs, hans⟩ := ho.of_cackto ht
  obtain ⟨hroot, hb⟩ : .root ∉ p.log ∧ .broadcast ∉ p.log := by
    rcases hs with hs | hs <;>
      exact hset.undecided (by rw [hs]; nofun) (by rw [hs]; nofun) (by rw [hs]; nofun)
  have hleave := fun st => hpop.leave hans.children st
  by_cases hac : p.status = .ATTESTING_CREATING
  · rw [handleCommitAckTimeOut_creating (p := p.cancelEvent .cacktomsg) c hans.device hac]
    exact (keeps_sendCommitReq (hleave .CREATING) hcreq c NOID hf nofun
      ⟨rfl, hans.children⟩ hb).of_said fun _ _ => id
  · rw [handleCommitAckTimeOut_ready (p := p.cancelEvent .cacktomsg) c hans.device hac]
    exact fun _ => ⟨hleave .READY, ⟨fun hd => hd.elim (absurd · hroot) (absurd · hb),
      hcreq⟩, fun _ _ hd => absurd hd.1 hb⟩

/-- The tree id of a prover with sessions is its parent's. -/
theorem Fits.tree (h : Fits ring A p) (hb : .broadcast ∈ p.log) {s : Session}
    (hs : p.psessions.second = some s) (hf : p.psessions.first ≠ NOID) :
    ∃ d, A p.psessions.first d p.creqTreeID := by
  rw [← (h.own hb s hs).1]
  exact ⟨s.depth, (h.parent s hs hf).1⟩

theorem keeps_respTimeOut (h : Fits ring A p) (hset : p.Settled)
    (hopen : ∀ c ∈ p.csessions, p.Opened) : KeepsFits ring A p p.handleCommitRespTimeOut := by
  have hmarks : ∀ y ∈ [Mark.respClosed], treeMark y = false := by simp [treeMark]
  have hclose : KeepsFits ring A p p.closeWindow :=
    keeps_same h [.respClosed] rfl rfl (fun _ _ => id) rfl rfl rfl (List.Sublist.refl _) h.outs
      (fun _ => id) rfl hmarks (fun _ => .inr (.inl rfl)) hset.creq
  by_cases hl : p.csessions.keys.length = 1
  · rw [handleCommitRespTimeOut_last hl]
    obtain ⟨k, hk⟩ := List.length_eq_one_iff.mp hl
    have hin : k ∈ p.csessions := AList.mem_keys.mpr (by rw [hk]; exact List.mem_cons_self)
    have ho := hopen k hin
    obtain ⟨hb, hsome⟩ := h.opened k hin
    obtain ⟨s, hs⟩ := Option.isSome_iff_exists.mp hsome
    intro hok
    obtain ⟨hfits, hsettled, hsaid⟩ :=
      hclose (by rw [sendUpReq_of_some (p := p.closeWindow) _ hs] at hok; exact hok)
    refine (keeps_sendUpReq hfits hsettled.creq _ (only_window ho.window hl) fun hf => ?_).of_said
      hsaid hok
    rw [h.resp hb]
    exact h.tree hb hs hf
  · rw [handleCommitRespTimeOut_open hl]
    exact hclose

/-- The session of a child is closed, and the report sent if it was the last one. -/
theorem keeps_close (h : Fits ring A p) (hset : p.Settled) {c : Uid} (hne : c ≠ NOID)
    (hin : c ∈ p.csessions) (hopen : p.Opened) (marks : List Mark) (hcfg : q.cfg = p.cfg)
    (hp : q.psessions = p.psessions) (hc : q.csessions = p.csessions.erase c)
    (hd : q.creqDepth = p.creqDepth) (ht : q.creqTreeID = p.creqTreeID)
    (hr : q.crespTreeID = p.crespTreeID) (hu : q.uptos.Sublist p.uptos) (ho : q.out = p.out)
    (hout : q.outbox = p.outbox) (hl : q.log = marks ++ p.log)
    (hm : ∀ y ∈ marks, treeMark y = false) (htm : q.timers = p.timers)
    (hs : q.status = p.status ∨ q.status = .FINISHED) :
    KeepsFits ring A p q ∧ ∀ tid, tid = p.creqTreeID → q.fault = none →
      (p.csessions.erase c).keys.length = 1 → KeepsFits ring A p (q.sendUpReq tid) := by
  have hsub : ∀ k s, q.csessions.lookup k = some s → p.csessions.lookup k = some s := by
    intro k s hk
    rw [hc] at hk
    by_cases he : k = c
    · rw [he, AList.lookup_erase] at hk
      cases hk
    · rwa [AList.lookup_erase_ne he] at hk
  have hkeep : KeepsFits ring A p q := by
    refine keeps_same h marks hcfg hp hsub hd ht hr hu (by rw [ho]; exact h.outs)
      (by rw [mail, ho, hout]; exact fun _ => id) hl hm (fun hdec => ?_) (by rw [htm]; exact hset.creq)
    rcases hs with hs | hs
    · rw [hs]
      exact hset.status hdec
    · exact .inr (.inr hs)
  refine ⟨hkeep, fun tid htid hf hlen => ?_⟩
  obtain ⟨hb, hsome⟩ := h.opened c hin
  obtain ⟨s, hs⟩ := Option.isSome_iff_exists.mp hsome
  obtain ⟨hfits, hsettled, hsaid⟩ := hkeep hf
  refine (keeps_sendUpReq hfits hsettled.creq tid ?_ fun hfirst => ?_).of_said hsaid
  · rw [hc]
    exact only_window (AList.mem_erase.mpr ⟨hne.symm, hopen.window⟩) hlen
  · rw [hp] at hfirst ⊢
    rw [htid]
    exact h.tree hb hs hfirst

theorem keeps_upTimeOut (h : Fits ring A p) (hset : p.Settled) (hf : p.fault = none)
    {u : CommitTimeOut} (hne : u.device ≠ NOID) (hin : u.device ∈ p.csessions) (hopen : p.Opened)
    (htid : u.treeID = p.creqTreeID) : KeepsFits ring A p (p.handleUpdateTimeOut u) := by
  have hm : ∀ y ∈ [Mark.upTimeOut u.device], treeMark y = false := by simp [treeMark]
  by_cases hl : (p.csessions.erase u.device).keys.length = 1
  · rw [handleUpdateTimeOut_last hl]
    exact (keeps_close (q := { p.timedOut u with status := .FINISHED }) h hset hne hin hopen
      [.upTimeOut u.device] rfl rfl rfl rfl rfl rfl (List.Sublist.refl _) rfl rfl rfl hm rfl
      (.inr rfl)).2 _ htid hf hl
  · rw [handleUpdateTimeOut_more hl]
    exact (keeps_close (q := p.timedOut u) h hset hne hin hopen
      [.upTimeOut u.device] rfl rfl rfl rfl rfl rfl (List.Sublist.refl _) rfl rfl rfl hm rfl
      (.inl rfl)).1

theorem keeps_commitReq (h : Fits ring A p) (hset : p.Settled) (har : Around ring A p)
    {m : CommitReq} (hm : MsgFits ring A (.commitReq m)) (hsrc : m.source ≠ NOID) :
    KeepsFits ring A p (p.handleCommitReq m) := by
  rcases handleCommitReq_cases (p := p) m with he | ⟨sess, ⟨hs, kid, hkid, rfl⟩, he⟩
  · rw [he]
    exact fun _ => ⟨h, hset, fun _ _ => id⟩
  rw [he]
  intro hok
  obtain ⟨hroot, hb⟩ := hset.undecided (by rw [hs]; nofun) (by rw [hs]; nofun) (by rw [hs]; nofun)
  have hkey : sharedKey ring m.source p.cfg.UId = some kid := by
    rw [← hkid, hm.2, har.ring]
    rfl
  have hca : p.timers .cacktomsg = none := by
    cases hc : p.timers .cacktomsg with
    | none => rfl
    | some a =>
      rw [(sendCommitResp_of_some (p := { p with psessions := ⟨m.source, some _⟩ }) _ _ _ hc).1] at hok
      cases hok
  rw [sendCommitResp_of_none (p := { p with psessions := ⟨m.source, some _⟩ }) _ _ _ hca]
  have hno : ∀ c, c ∉ p.csessions := fun c hc => hb (h.opened c hc).1
  refine ⟨{ h with
    parent := ?_, root := ?_, present := ?_, own := ?_, opened := ?_, mail := ?_ }, ⟨?_, ?_⟩, ?_⟩
  · intro s hs' _
    cases hs'
    exact ⟨hm.1, hkey, hroot⟩
  · exact fun _ _ hf => absurd hf hsrc
  · exact fun _ => rfl
  · exact fun hbr => absurd hbr hb
  · exact fun c hc => absurd hc (hno c)
  · intro m' hm'
    rcases mem_mail_prepare (p := p) hm' with hm' | rfl
    · exact h.mail m' hm'
    · exact ⟨rfl, ⟨_, hm.1⟩, hkey⟩
  · exact fun hd => hd.elim (absurd · hroot) (absurd · hb)
  · intro hne
    refine hset.creq fun hoff => hne ?_
    simpa [Function.update] using hoff
  · exact fun _ _ hd => absurd hd.1 hb

theorem keeps_commitResp (h : Fits ring A p) (hset : p.Settled) (har : Around ring A p)
    {m : CommitResp} (hm : MsgFits ring A (.commitResp m)) (hf : p.fault = none) :
    KeepsFits ring A p (p.handleCommitResp m) := by
  have hack : ∀ {parent : Session} {p' : Prover}, p.Answers m →
      p.psessions.second = some parent →
      p' = (p.admitChild m).sendCommitAck m.source m.treeID (childSession m) →
      KeepsFits ring A p p' := by
    intro parent p' ha hp he _
    obtain ⟨⟨d, htree⟩, hkey⟩ := hm
    rw [ha.destination] at htree hkey
    obtain ⟨hb, -, hid⟩ := har.self d m.treeID htree
    rw [he, sendCommitAck_of_some (p := p.admitChild m) m.treeID m.source (childSession m) hp]
    have hsub : parent.depth = p.cfg.maxdepth ∨ ∃ q t, A q parent.depth t := by
      by_cases hfirst : p.psessions.first = NOID
      · exact .inl (h.root parent hp hfirst)
      · exact .inr ⟨_, _, (h.parent parent hp hfirst).1⟩
    have hmarks : ∀ y, y = .root ∨ y = .broadcast →
        (y ∈ Mark.ack m.source :: .depthSub parent.depth :: p.log ↔ y ∈ p.log) := by
      rintro y (rfl | rfl) <;> simp
    have hroot := hmarks .root (.inl rfl)
    have hbr := hmarks .broadcast (.inr rfl)
    refine ⟨⟨?_, h.root, h.present, ?_, ?_, ?_, ?_, ?_, ?_, ?_, ?_, ?_, ?_⟩, ⟨?_, ?_⟩, ?_⟩
    · intro s hs hfirst
      have hold := h.parent s hs hfirst
      exact ⟨hold.1, hold.2.1, fun hr => hold.2.2 (hroot.mp hr)⟩
    · exact fun _ => h.own hb
    · exact fun hr _ => h.rooted (hroot.mp hr) hb
    · exact fun _ => h.depth hb
    · intro c s hne hs
      by_cases hc : c = m.source
      · rw [hc, AList.lookup_insert] at hs
        cases hs
        rw [hc]
        exact ⟨hid.symm, hkey⟩
      · rw [AList.lookup_insert_ne hc] at hs
        change (p.csessions.insert m.source _).lookup c = some s at hs
        rw [AList.lookup_insert_ne hc] at hs
        exact h.child c s hne hs
    · exact fun _ _ => ⟨hbr.mpr hb, Option.isSome_of_eq_some hp⟩
    · exact fun _ => h.resp hb
    · intro u hu
      refine ⟨hbr.mpr hb, ?_⟩
      rcases List.mem_append.mp hu with hu | hu
      · exact (h.uptos u hu).2
      · rw [List.mem_singleton.mp hu]
        exact hid.symm
    · exact fun _ => hbr.mpr hb
    · intro d' hd
      rcases List.mem_cons.mp hd with hd | hd
      · cases hd
      rcases List.mem_cons.mp hd with hd | hd
      · cases hd
        exact hsub
      · exact h.subs d' hd
    · intro m' hm'
      rcases mem_mail_prepare (p := p.admitChild m) hm' with hm' | rfl
      · exact h.mail m' hm'
      · exact ⟨rfl, d, htree⟩
    · exact fun _ => .inl ha.status
    · exact fun hne => hbr.mpr (hset.creq hne)
    · exact fun d' t hd => ⟨hbr.mpr hd.1, hd.2⟩
  have hcase := handleCommitResp_cases hf m
  generalize p.handleCommitResp m = p' at hcase ⊢
  cases hcase with
  | ignored => exact fun _ => ⟨h, hset, fun _ _ => id⟩
  | unverified =>
    exact keeps_same h [] rfl rfl (fun _ _ => id) rfl rfl rfl (List.Sublist.refl _) h.outs
      (fun _ => id) rfl (by simp) hset.status hset.creq
  | null _ _ hnull =>
    intro hok
    rw [hnull] at hok
    cases hok
  | more ha hp he => exact hack ha hp he
  | @full _ ha hp p' he =>
    intro hok
    obtain ⟨hfits, hsettled, hsaid⟩ := hack ha hp he hok
    have hm : ∀ y ∈ [Mark.respClosed], treeMark y = false := by simp [treeMark]
    have hcreq : (p'.cancelEvent .cresptomsg).timers .creqmsg ≠ none → .broadcast ∈ p'.log :=
      creq_cancel .cresptomsg hsettled
    have hclose : KeepsFits ring A p' (p'.closeWindow.cancelEvent .cresptomsg) :=
      keeps_same hfits [.respClosed] rfl rfl (fun _ _ => id) rfl rfl rfl (List.Sublist.refl _)
        hfits.outs (fun _ => id) rfl hm (fun _ => .inr (.inl rfl)) hcreq
    exact hclose.of_said hsaid hok

/-- The parent's ack validates the session with it. -/
theorem Fits.validate (h : Fits ring A p) {parent : Session} (hp : p.psessions.second = some parent)
    (m : Msg) (st : Status) :
    Fits ring A { (p.queueMacDelay m).validateParent parent with status := st } := by
  refine h.congr rfl rfl (fun _ => rfl) (fun s hs => ?_) (fun _ _ => id) rfl rfl rfl
    (List.Sublist.refl _) h.outs (fun _ => id) fun _ _ => Iff.rfl
  cases hs
  exact ⟨parent, hp, rfl, rfl, rfl⟩

theorem keeps_commitAck {g : Prop} (h : Fits ring A p) (hset : p.Settled) (ho : p.Once g)
    (har : Around ring A p) (c : Choice) {m : CommitAck} (hm : MsgFits ring A (.commitAck m))
    (hsrc : m.source ≠ NOID) (hf : p.fault = none) : KeepsFits ring A p (p.handleCommitAck c m) := by
  have hcreq : ∀ parent : Session,
      ((p.queueMacDelay (.commitAck m)).validateParent parent).timers .creqmsg ≠ none →
      .broadcast ∈ p.log := by
    intro parent hne
    refine hset.creq fun hoff => hne ?_
    simpa [validateParent, cancelEvent, queueMacDelay, Function.update] using hoff
  have hcase := handleCommitAck_cases (p := p) c m
  generalize p.handleCommitAck c m = p' at hcase ⊢
  cases hcase with
  | ignored => exact fun _ => ⟨h, hset, fun _ _ => id⟩
  | unverified =>
    exact keeps_same h [] rfl rfl (fun _ _ => id) rfl rfl rfl (List.Sublist.refl _) h.outs
      (fun _ => id) rfl (by simp) hset.status hset.creq
  | null => exact fun h => by cases h
  | @leaf parent ha hl =>
    have hq := h.validate ha.second (.commitAck m) .FINISHED
    have hnil := (ho.of_leaf ha hsrc hl).2
    refine (keeps_sendUpReq hq (hcreq parent) m.treeID ?_ fun _ => ?_).of_said fun _ _ => id
    · exact fun k hk => absurd hk (not_mem_of_keys_nil hnil k)
    · change ∃ d, A p.psessions.first d m.treeID
      rw [ha.source]
      exact hm
  | @inner parent ha hl =>
    obtain ⟨hne, hroom⟩ : parent.depth ≠ 1 ∧ p.maxchildren ≠ 0 := not_or.mp hl
    have hfirst : p.psessions.first ≠ NOID := by rw [ha.source]; exact hsrc
    obtain ⟨hA, -, hroot⟩ := h.parent parent ha.second hfirst
    have htree : parent.treeID = m.treeID := by
      obtain ⟨d, hd⟩ := hm
      rw [ha.source] at hA
      exact har.tree _ _ _ _ _ hA hd
    rw [sendCommitReq_inner (p := { (p.queueMacDelay (.commitAck m)).validateParent parent with
      status := .CREATING }) m.treeID c (fun h => by cases h) hroom hfirst rfl]
    have hq := h.validate ha.second (.commitAck m) .CREATING
    -- the subtraction is recorded before the broadcast
    have hsub : Fits ring A ({ (p.queueMacDelay (.commitAck m)).validateParent parent with
        status := .CREATING }.record (.depthSub parent.depth)) := by
      refine { hq with parent := ?_, own := ?_, rooted := ?_, depth := ?_, opened := ?_, resp := ?_,
                       uptos := ?_, outs := ?_, subs := ?_ }
      · simpa [record] using hq.parent
      · simpa [record] using hq.own
      · simpa [record] using hq.rooted
      · simpa [record] using hq.depth
      · simpa [record] using hq.opened
      · simpa [record] using hq.resp
      · simpa [record] using hq.uptos
      · simpa [record] using hq.outs
      · intro d hd
        rcases List.mem_cons.mp hd with hd | hd
        · cases hd
          exact .inr ⟨_, _, hA⟩
        · exact hq.subs d hd
    refine (keeps_broadcast hsub hf rfl htree (fun hno => absurd hno hfirst) (fun _ => ⟨hne, rfl⟩)
      (fun hr => absurd ((List.mem_cons.mp hr).resolve_left (fun h => by cases h)) hroot)
      fun d t hs => ?_).of_said fun d t hs => ?_
    · have hb : .broadcast ∈ p.log := (List.mem_cons.mp hs.1).resolve_left (fun h => by cases h)
      obtain ⟨htr, -, hinner⟩ := h.own hb parent ha.second
      exact ⟨hs.2.1.symm.trans (hinner hfirst).2, hs.2.2.symm.trans (htr.symm.trans htree)⟩
    · exact ⟨List.mem_cons_of_mem _ hs.1, hs.2⟩

theorem keeps_upReq {g : Prop} (h : Fits ring A p) (hset : p.Settled) (ho : p.Once g)
    {m : UpdateReq} (hsrc : m.source ≠ NOID) (hf : p.fault = none) :
    KeepsFits ring A p (p.handleUpReq m) := by
  have hup : ∀ y ∈ [Mark.upReq m.source], treeMark y = false := by simp [treeMark]
  have hcol : ∀ y ∈ [Mark.redirect m.source, .upReq m.source], treeMark y = false := by
    simp [treeMark]
  have hmer : ∀ y ∈ [Mark.merge m.source, .upReq m.source], treeMark y = false := by simp [treeMark]
  -- a report for the collector is no message to a prover
  have hpass : ∀ m' : UpdateReq, m'.source = m.source →
      KeepsFits ring A p ((p.record (.upReq m.source)).sendCollector m') := by
    intro m' he
    refine keeps_same h [.redirect m.source, .upReq m.source] rfl rfl (fun _ _ => id) rfl rfl rfl
      (List.Sublist.refl _) (fun hmem => h.outs ?_) (fun m'' hm => ?_) ?_ hcol hset.status hset.creq
    · simpa [sendCollector, record] using hmem
    · simpa [mail, sendCollector, record, Packet.msg?] using hm
    · simp [sendCollector, record, he]
  have hclose : ∀ {child parent}, p.Merges m child parent → _ := fun {child parent} hm =>
    have hin : m.source ∈ p.csessions := AList.lookup_isSome.mp (Option.isSome_of_eq_some hm.sender)
    keeps_close (q := p.merged m child) h hset hsrc hin (ho.opened hin)
      [.merge m.source, .upReq m.source] rfl rfl rfl rfl rfl rfl List.filter_sublist rfl rfl rfl hmer
      rfl (.inl rfl)
  have hcase := handleUpReq_cases (p := p) m
  generalize p.handleUpReq m = p' at hcase ⊢
  cases hcase with
  | forward => exact hpass m rfl
  | redirect => exact hpass _ rfl
  | ignored =>
    exact keeps_same h [.upReq m.source] rfl rfl (fun _ _ => id) rfl rfl rfl (List.Sublist.refl _)
      h.outs (fun _ => id) rfl hup hset.status hset.creq
  | unverified =>
    exact keeps_same h [.upReq m.source] rfl rfl (fun _ _ => id) rfl rfl rfl (List.Sublist.refl _)
      h.outs (fun _ => id) rfl hup hset.status hset.creq
  | null => exact fun h => by cases h
  | array => exact fun h => by cases h
  | @last child parent hm hlen =>
    have hin : m.source ∈ p.csessions := AList.lookup_isSome.mp (Option.isSome_of_eq_some hm.sender)
    have hb := (h.opened _ hin).1
    have htid : m.treeID = p.creqTreeID := hm.treeID.trans (h.own hb parent hm.second).1
    exact (hclose hm).2 _ htid hf hlen
  | more hm => exact (hclose hm).1

/-! ## Any event -/

theorem keeps_onTimer {g : Prop} (h : Fits ring A p) (hset : p.Settled) (ho : p.Once g) {t : Timer}
    {c : Choice} {s : Stamp} (hf : p.fault = none) (ht : p.timers t = some s)
    (hst : StartsAttestation (.timer t c) → .start ∉ p.log) :
    KeepsFits ring A p ((p.cancelEvent t).onTimer t c) := by
  have hidle : StartsAttestation (.timer t c) → p.Idle := fun hs =>
    ho.phase.resolve_right fun ha => hst hs ha.1
  cases t with
  | startmsg => exact keeps_start h hset (hidle trivial) c hf
  | attesttimer => exact keeps_start h hset (hidle trivial) c hf
  | checkdelaymsg => exact keeps_check h hset ho ht
  | mktreetimer => exact keeps_mktree h hset ho c hf ht
  | creqmsg =>
    have hb : .broadcast ∈ p.log := hset.creq (by rw [ht]; nofun)
    refine keeps_same h [] rfl rfl (fun _ _ => id) rfl rfl rfl (List.Sublist.refl _) (fun _ => hb)
      (fun m hm => ?_) rfl (by simp) hset.status fun _ => hb
    simpa [mail, onTimer, cancelEvent, Packet.msg?] using hm
  | cacktomsg => exact keeps_ackTimeOut h hset ho c hf ht
  | cresptomsg =>
    have hpop : KeepsFits ring A p (p.cancelEvent .cresptomsg) :=
      keeps_same h [] rfl rfl (fun _ _ => id) rfl rfl rfl (List.Sublist.refl _) h.outs
        (fun _ => id) rfl (by simp) hset.status (creq_cancel .cresptomsg hset)
    obtain ⟨hfits, hsettled, hsaid⟩ := hpop hf
    refine (keeps_respTimeOut hfits hsettled fun k hk => ?_).of_said hsaid
    have hopen := ho.opened (c := k) hk
    exact ⟨hopen.second, hopen.depth, hopen.maxchildren, hopen.window⟩

theorem keeps_onUpto {g : Prop} (h : Fits ring A p) (hset : p.Settled) (ho : p.Once g) {k : Nat}
    {u : Stamp × CommitTimeOut} (hf : p.fault = none) (hu : p.uptos.find? (·.1.seq = k) = some u) :
    KeepsFits ring A p ((p.popUpto k).handleUpdateTimeOut u.2) := by
  have hmem : u ∈ p.uptos := List.mem_of_find?_eq_some hu
  obtain ⟨hne, s, hs, -⟩ := ho.linked.upto u hmem
  have hin : u.2.device ∈ p.csessions := AList.lookup_isSome.mp (Option.isSome_of_eq_some hs)
  have hopen := ho.opened hin
  have hpop : KeepsFits ring A p (p.popUpto k) :=
    keeps_same h [] rfl rfl (fun _ _ => id) rfl rfl rfl List.filter_sublist h.outs
      (fun _ => id) rfl (by simp) hset.status hset.creq
  obtain ⟨hfits, hsettled, hsaid⟩ := hpop hf
  exact (keeps_upTimeOut hfits hsettled hf hne hin
    ⟨hopen.second, hopen.depth, hopen.maxchildren, hopen.window⟩ (h.uptos u hmem).2).of_said hsaid

/-- A prepared message is handed over. -/
theorem keeps_onSelf (h : Fits ring A p) (hset : p.Settled) {k : Nat} {a : Stamp × Msg} (c : Choice)
    (ha : p.outbox.find? (·.1.seq = k) = some a) :
    KeepsFits ring A p ((p.popOutbox k).onSelf a.2 c) := by
  have hmem : a ∈ p.outbox := List.mem_of_find?_eq_some ha
  obtain ⟨pkt, he, -, hcreq, hmsg⟩ := onSelf_out (p := p.popOutbox k) a.2 c
  rw [he]
  refine keeps_same h [] rfl rfl (fun _ _ => id) rfl rfl rfl (List.Sublist.refl _) (fun ho => ?_)
    (fun m hm => ?_) rfl (by simp) hset.status hset.creq
  · rcases List.mem_append.mp ho with ho | ho
    · exact h.outs ho
    · exact absurd (List.mem_singleton.mp ho).symm hcreq
  · rcases List.mem_append.mp hm with hm | hm
    · exact List.mem_append_left _ ((List.filter_sublist.map Prod.snd).mem hm)
    · obtain ⟨x, hx, he⟩ := List.mem_filterMap.mp hm
      rcases List.mem_append.mp hx with hx | hx
      · exact List.mem_append_right _ (List.mem_filterMap.mpr ⟨x, hx, he⟩)
      · rw [List.mem_singleton.mp hx] at he
        rw [hmsg m he]
        exact List.mem_append_left _ (List.mem_map_of_mem hmem)

/-- **One event** of a prover that lives keeps its sessions in agreement. -/
theorem keeps_of_live {g : Prop} {e : Event} (h : Fits ring A p) (hset : p.Settled) (ho : p.Once g)
    (har : Around ring A p) (hok : OnceOk e p) (hf : p.fault = none)
    (hm : ∀ m c, e.act = .recv m c → MsgFits ring A m) (hl : p.Live e q) : KeepsFits ring A p q := by
  have hnow : KeepsFits ring A p (p.atTime e.time) :=
    keeps_same h [] rfl rfl (fun _ _ => id) rfl rfl rfl (List.Sublist.refl _) h.outs
      (fun _ => id) rfl (by simp) hset.status hset.creq
  obtain ⟨h', hset', -⟩ := hnow hf
  have ho' : (p.atTime e.time).Once g :=
    ho.congr rfl rfl rfl rfl rfl rfl rfl (Nat.le_refl _) rfl
  have har' : Around ring A (p.atTime e.time) := ⟨har.ring, har.self, har.tree⟩
  cases hl with
  | timer hact ht =>
    exact (keeps_onTimer h' hset' ho' hf ht fun hs => hok.1 (hact ▸ hs)).of_said fun _ _ => id
  | upto hact hu => exact (keeps_onUpto h' hset' ho' hf hu).of_said fun _ _ => id
  | @self k c o hact hout => exact (keeps_onSelf h' hset' c hout).of_said fun _ _ => id
  | @recv m c hact =>
    have hsrc : RealSource e.act := hok.2
    have hfit := hm m c hact
    rw [hact] at hsrc
    cases m with
    | commitReq m => exact (keeps_commitReq h' hset' har' hfit hsrc).of_said fun _ _ => id
    | commitResp m => exact (keeps_commitResp h' hset' har' hfit hf).of_said fun _ _ => id
    | commitAck m => exact (keeps_commitAck h' hset' ho' har' c hfit hsrc hf).of_said fun _ _ => id
    | updateReq m => exact (keeps_upReq h' hset' ho' hsrc hf).of_said fun _ _ => id

end

end Prover

end Fadia
