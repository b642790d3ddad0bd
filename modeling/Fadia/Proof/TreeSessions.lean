import Fadia.Proof.OnceRun
import Fadia.Proof.Children
import Fadia.Devices.Network

/-!
# What the sessions of a prover say about the trees around it

`A q d t` stands for "prover `q` has broadcast depth `d` and tree id `t`".  `Fits`
says that the sessions of a prover, its timers and the messages it sends agree with
what has been broadcast and with the key rings; `MsgFits` says it of one message.
Both are kept by every event of a run with one attestation, if the message the
event delivers fits (`Fits.step`).
-/

namespace Fadia

/-- The key two provers share: the first of `q`'s ring that is in `p`'s ring. -/
def sharedKey (ring : Uid → List KeyId) (q p : Uid) : Option KeyId :=
  (ring q).find? fun k => decide (k ∈ ring p)

section
variable (ring : Uid → List KeyId) (A : Uid → Nat → TreeId → Prop)

/-- A message agrees with what has been broadcast and with the key rings. -/
def MsgFits : Msg → Prop
  | .commitReq m => A m.source m.depth m.treeID ∧ m.kid = ring m.source
  | .commitResp m => (∃ d, A m.destination d m.treeID) ∧
      sharedKey ring m.destination m.source = some m.kid
  | .commitAck m => ∃ d, A m.source d m.treeID
  | .updateReq m => m.kind = .UPRQ → (∃ d, A m.destination d m.treeID) ∧
      sharedKey ring m.destination m.source = some m.macKid

end

namespace Prover

/-- The marks of a prover that takes part in a tree. -/
def treeMark : Mark → Bool
  | .root | .broadcast | .depthSub _ => true
  | _ => false

variable (ring : Uid → List KeyId) (A : Uid → Nat → TreeId → Prop)

structure Fits (p : Prover) : Prop where
  parent : ∀ s, p.psessions.second = some s → p.psessions.first ≠ NOID →
    A p.psessions.first s.depth s.treeID ∧
      sharedKey ring p.psessions.first p.cfg.UId = some s.keyID ∧ .root ∉ p.log
  root : ∀ s, p.psessions.second = some s → p.psessions.first = NOID → s.depth = p.cfg.maxdepth
  present : p.psessions.first ≠ NOID → p.psessions.second.isSome
  own : .broadcast ∈ p.log → ∀ s, p.psessions.second = some s → s.treeID = p.creqTreeID ∧
    (p.psessions.first = NOID → p.creqDepth = p.cfg.maxdepth) ∧
    (p.psessions.first ≠ NOID → s.depth ≠ 1 ∧ p.creqDepth = subUnsigned s.depth 1)
  rooted : .root ∈ p.log → .broadcast ∈ p.log → p.creqDepth = p.cfg.maxdepth
  depth : .broadcast ∈ p.log → p.creqDepth = p.cfg.maxdepth ∨
    ∃ q d t, A q d t ∧ d ≠ 1 ∧ p.creqDepth = subUnsigned d 1
  child : ∀ c s, c ≠ NOID → p.csessions.lookup c = some s →
    s.treeID = p.creqTreeID ∧ sharedKey ring p.cfg.UId c = some s.keyID
  opened : ∀ c ∈ p.csessions, .broadcast ∈ p.log ∧ p.psessions.second.isSome
  resp : .broadcast ∈ p.log → p.crespTreeID = p.creqTreeID
  uptos : ∀ u ∈ p.uptos, .broadcast ∈ p.log ∧ u.2.treeID = p.creqTreeID
  outs : .creqmsg ∈ p.out → .broadcast ∈ p.log
  subs : ∀ d, .depthSub d ∈ p.log → d = p.cfg.maxdepth ∨ ∃ q t, A q d t
  mail : ∀ m ∈ p.mail, m.source = p.cfg.UId ∧ MsgFits ring A m

/-- A prover that has chosen its tree neither joins nor starts another one. -/
structure Settled (p : Prover) : Prop where
  status : .root ∈ p.log ∨ .broadcast ∈ p.log →
    p.status = .CREATING ∨ p.status = .COLLECTING ∨ p.status = .FINISHED
  creq : p.timers .creqmsg ≠ none → .broadcast ∈ p.log

/-- The prover has broadcast depth `d` and tree id `t`. -/
def Says (p : Prover) (d : Nat) (t : TreeId) : Prop :=
  .broadcast ∈ p.log ∧ p.creqDepth = d ∧ p.creqTreeID = t

/-- What a handler leaves behind, if it does not end the simulation. -/
def KeepsFits (p p' : Prover) : Prop :=
  p'.fault = none → Fits ring A p' ∧ p'.Settled ∧ ∀ d t, p.Says d t → p'.Says d t

variable {ring A}

section
variable {p q : Prover} {A' : Uid → Nat → TreeId → Prop}

theorem msgFits_mono (hA : ∀ q d t, A q d t → A' q d t) {m : Msg} (h : MsgFits ring A m) :
    MsgFits ring A' m := by
  cases m with
  | commitReq m => exact ⟨hA _ _ _ h.1, h.2⟩
  | commitResp m => exact ⟨h.1.imp fun d => hA _ d _, h.2⟩
  | commitAck m => exact h.imp fun d => hA _ d _
  | updateReq m => exact fun hk => ⟨(h hk).1.imp fun d => hA _ d _, (h hk).2⟩

theorem Fits.mono (hA : ∀ q d t, A q d t → A' q d t) (h : Fits ring A p) : Fits ring A' p :=
  { h with
    parent := fun s hs hf => ⟨hA _ _ _ (h.parent s hs hf).1, (h.parent s hs hf).2⟩
    depth := fun hb => (h.depth hb).imp_right fun ⟨q, d, t, hq⟩ => ⟨q, d, t, hA q d t hq.1, hq.2⟩
    subs := fun d hd => (h.subs d hd).imp_right fun ⟨q, t, hq⟩ => ⟨q, t, hA q d t hq⟩
    mail := fun m hm => ⟨(h.mail m hm).1, msgFits_mono hA (h.mail m hm).2⟩ }

/-- A log that grew by marks of other kinds. -/
theorem treeMarks_append {marks log : List Mark} (hm : ∀ y ∈ marks, treeMark y = false) (y : Mark)
    (hy : treeMark y = true) : y ∈ marks ++ log ↔ y ∈ log := by
  rw [List.mem_append, or_iff_right]
  intro hmem
  rw [hm y hmem] at hy
  cases hy

/-- What `Fits` does not read may change, sessions of children may close, and
scheduled messages may be dropped or handed over. -/
theorem Fits.congr (h : Fits ring A p) (hcfg : q.cfg = p.cfg)
    (hfirst : q.psessions.first = p.psessions.first)
    (hsome : p.psessions.second.isSome → q.psessions.second.isSome)
    (hsecond : ∀ s, q.psessions.second = some s → ∃ s', p.psessions.second = some s' ∧
      s'.treeID = s.treeID ∧ s'.depth = s.depth ∧ s'.keyID = s.keyID)
    (hc : ∀ c s, q.csessions.lookup c = some s → p.csessions.lookup c = some s)
    (hd : q.creqDepth = p.creqDepth) (ht : q.creqTreeID = p.creqTreeID)
    (hr : q.crespTreeID = p.crespTreeID) (hu : q.uptos.Sublist p.uptos)
    (ho : .creqmsg ∈ q.out → .broadcast ∈ p.log) (hmail : ∀ m ∈ q.mail, m ∈ p.mail)
    (hl : ∀ y, treeMark y = true → (y ∈ q.log ↔ y ∈ p.log)) : Fits ring A q := by
  have hroot : .root ∈ q.log ↔ .root ∈ p.log := hl _ rfl
  have hbr : .broadcast ∈ q.log ↔ .broadcast ∈ p.log := hl _ rfl
  refine ⟨?_, ?_, ?_, ?_, ?_, ?_, ?_, ?_, ?_, ?_, ?_, ?_, ?_⟩
  · intro s hs hf
    obtain ⟨s', hs', htree, hdepth, hkey⟩ := hsecond s hs
    rw [hfirst] at hf ⊢
    rw [hcfg, hroot, ← htree, ← hdepth, ← hkey]
    exact h.parent s' hs' hf
  · intro s hs hf
    obtain ⟨s', hs', -, hdepth, -⟩ := hsecond s hs
    rw [hcfg, ← hdepth]
    exact h.root s' hs' (hfirst ▸ hf)
  · rw [hfirst]
    exact fun hf => hsome (h.present hf)
  · rw [hbr]
    intro hb s hs
    obtain ⟨s', hs', htree, hdepth, -⟩ := hsecond s hs
    rw [hfirst, hcfg, hd, ht, ← htree, ← hdepth]
    exact h.own hb s' hs'
  · rw [hroot, hbr, hd, hcfg]
    exact h.rooted
  · rw [hbr, hd, hcfg]
    exact h.depth
  · intro c s hne hs
    rw [ht, hcfg]
    exact h.child c s hne (hc c s hs)
  · intro c hmem
    obtain ⟨s, hs⟩ := Option.isSome_iff_exists.mp (AList.lookup_isSome.mpr hmem)
    have hold := h.opened c (AList.lookup_isSome.mp (Option.isSome_of_eq_some (hc c s hs)))
    exact ⟨hbr.mpr hold.1, hsome hold.2⟩
  · rw [hbr, hr, ht]
    exact h.resp
  · intro u hmem
    rw [hbr, ht]
    exact h.uptos u (hu.mem hmem)
  · rw [hbr]
    exact ho
  · intro d hmem
    rw [hcfg]
    exact h.subs d ((hl _ rfl).mp hmem)
  · intro m hm
    rw [hcfg]
    exact h.mail m (hmail m hm)

/-- `Fits.congr` with the parent's session unchanged. -/
theorem Fits.same (h : Fits ring A p) (hcfg : q.cfg = p.cfg) (hp : q.psessions = p.psessions)
    (hc : ∀ c s, q.csessions.lookup c = some s → p.csessions.lookup c = some s)
    (hd : q.creqDepth = p.creqDepth) (ht : q.creqTreeID = p.creqTreeID)
    (hr : q.crespTreeID = p.crespTreeID) (hu : q.uptos.Sublist p.uptos)
    (ho : .creqmsg ∈ q.out → .broadcast ∈ p.log) (hmail : ∀ m ∈ q.mail, m ∈ p.mail)
    (hl : ∀ y, treeMark y = true → (y ∈ q.log ↔ y ∈ p.log)) : Fits ring A q :=
  h.congr hcfg (by rw [hp]) (by rw [hp]; exact id) (fun s hs => ⟨s, hp ▸ hs, rfl, rfl, rfl⟩) hc hd ht
    hr hu ho hmail hl

/-- A message that was prepared. -/
theorem mem_mail_prepare {m m' : Msg} (h : m' ∈ (p.prepare m).mail) : m' ∈ p.mail ∨ m' = m := by
  simp only [mail, prepare, List.map_append, List.map_cons, List.map_nil, List.mem_append,
    List.mem_singleton] at h ⊢
  rcases h with (h | h) | h
  · exact .inl (.inl h)
  · exact .inr h
  · exact .inl (.inr h)

/-- **The report is sent.** -/
theorem Fits.sendUpReq (h : Fits ring A p) (tid : TreeId) (hc : ∀ c ∈ p.csessions, c = NOID)
    (htid : p.psessions.first ≠ NOID → ∃ d, A p.psessions.first d tid) {parent : Session}
    (hp : p.psessions.second = some parent) : Fits ring A (p.sendUpReq tid) := by
  have hmsg : MsgFits ring A (.updateReq (p.reportMsg tid parent)) := by
    unfold reportMsg
    dsimp only
    split
    · next hf => exact fun _ => ⟨htid hf, (h.parent parent hp hf).2.1⟩
    · exact nofun
  have hsrc : (p.reportMsg tid parent).source = p.cfg.UId := by
    unfold reportMsg
    dsimp only
    split <;> rfl
  have hempty := keys_erase_window hc
  have hno : ∀ c, c ∉ p.csessions.erase NOID := not_mem_of_keys_nil hempty
  rw [sendUpReq_of_some tid hp]
  refine ⟨nofun, nofun, fun hf => absurd rfl hf, fun _ => nofun, ?_, ?_, ?_,
    fun c hmem => absurd hmem (hno c), ?_, ?_, ?_, ?_, ?_⟩
  · simpa using h.rooted
  · simpa using h.depth
  · intro c s _ hs
    exact absurd (AList.lookup_isSome.mp (Option.isSome_of_eq_some hs)) (hno c)
  · simpa using h.resp
  · simpa using h.uptos
  · simpa using h.outs
  · simpa using h.subs
  · intro m hm
    rcases mem_mail_prepare (p := p) hm with hm | rfl
    · exact h.mail m hm
    · exact ⟨hsrc, hmsg⟩

theorem keeps_sendUpReq (h : Fits ring A p) (hcreq : p.timers .creqmsg ≠ none → .broadcast ∈ p.log)
    (tid : TreeId) (hc : ∀ c ∈ p.csessions, c = NOID)
    (htid : p.psessions.first ≠ NOID → ∃ d, A p.psessions.first d tid) :
    KeepsFits ring A p (p.sendUpReq tid) := by
  intro hok
  obtain ⟨parent, hp⟩ := exists_parent_of_sendUpReq tid hok
  refine ⟨h.sendUpReq tid hc htid hp, ?_, ?_⟩
  · rw [sendUpReq_of_some tid hp]
    exact ⟨fun _ => .inr (.inr rfl), fun ht => List.mem_cons_of_mem _ (hcreq ht)⟩
  · rw [sendUpReq_of_some tid hp]
    exact fun d t hs => ⟨List.mem_cons_of_mem _ hs.1, hs.2⟩

/-- **A `CommitReq` is broadcast.** -/
theorem keeps_broadcast (h : Fits ring A p) (hf : p.fault = none) {depth : Nat} {tid : TreeId}
    {s : Session} (hs : p.psessions.second = some s) (htree : s.treeID = tid)
    (hroot : p.psessions.first = NOID → depth = p.cfg.maxdepth)
    (hinner : p.psessions.first ≠ NOID → s.depth ≠ 1 ∧ depth = subUnsigned s.depth 1)
    (hr : .root ∈ p.log → depth = p.cfg.maxdepth)
    (hsaid : ∀ d t, p.Says d t → d = depth ∧ t = tid) :
    KeepsFits ring A p (p.broadcastCommitReq depth tid) := by
  intro hok
  have hcreq : p.timers .creqmsg = none := by
    cases hc : p.timers .creqmsg with
    | none => rfl
    | some a =>
      rw [(broadcast_of_some tid depth hc).1] at hok
      cases hok
  have hold : .broadcast ∈ p.log → p.creqTreeID = tid := fun hb => (hsaid _ _ ⟨hb, rfl, rfl⟩).2
  rw [broadcast_of_none tid depth hf hcreq]
  refine ⟨⟨?_, h.root, h.present, ?_, ?_, ?_, ?_, ?_, fun _ => rfl, ?_, ?_, ?_, h.mail⟩, ⟨?_, ?_⟩, ?_⟩
  · simpa using h.parent
  · intro _ s' hs'
    cases hs.symm.trans hs'
    exact ⟨htree, hroot, hinner⟩
  · simpa using hr
  · intro _
    by_cases hfirst : p.psessions.first = NOID
    · exact .inl (hroot hfirst)
    · exact .inr ⟨_, _, _, (h.parent s hs hfirst).1, hinner hfirst⟩
  · intro c s' hne hs'
    rw [AList.lookup_insert_ne hne] at hs'
    have hb := (h.opened c (AList.lookup_isSome.mp (Option.isSome_of_eq_some hs'))).1
    have hchild := h.child c s' hne hs'
    exact ⟨hchild.1.trans (hold hb), hchild.2⟩
  · exact fun _ _ => ⟨List.mem_cons_self, Option.isSome_of_eq_some hs⟩
  · intro u hu
    obtain ⟨hb, ht⟩ := h.uptos u hu
    exact ⟨List.mem_cons_self, ht.trans (hold hb)⟩
  · exact fun _ => List.mem_cons_self
  · simpa using h.subs
  · exact fun _ => .inl rfl
  · exact fun _ => List.mem_cons_self
  · intro d t hs
    obtain ⟨rfl, rfl⟩ := hsaid d t hs
    exact ⟨List.mem_cons_self, rfl, rfl⟩

theorem KeepsFits.of_said {r : Prover} (h : KeepsFits ring A q r)
    (hs : ∀ d t, p.Says d t → q.Says d t) : KeepsFits ring A p r := fun hok =>
  ⟨(h hok).1, (h hok).2.1, fun d t hd => (h hok).2.2 d t (hs d t hd)⟩

/-- A prover without a parent starts a tree of its own. -/
theorem Fits.startTree (h : Fits ring A p) (t : TreeId) (hfirst : p.psessions.first = NOID)
    (hb : .broadcast ∉ p.log) : Fits ring A (p.startTree t) := by
  have hb' : .broadcast ∉ (p.startTree t).log := by simpa [Prover.startTree] using hb
  refine ⟨fun _ _ hf => absurd hfirst hf, ?_, fun hf => absurd hfirst hf, fun hbr => absurd hbr hb',
    fun _ hbr => absurd hbr hb', fun hbr => absurd hbr hb', h.child, ?_, fun hbr => absurd hbr hb',
    ?_, ?_, ?_, h.mail⟩
  · intro s hs _
    cases hs
    rfl
  · exact fun c hc => absurd (h.opened c hc).1 hb
  · exact fun u hu => absurd (h.uptos u hu).1 hb
  · exact fun ho => absurd (h.outs ho) hb
  · simpa [Prover.startTree] using h.subs

/-- `sendCommitReq` of a prover without a parent. -/
theorem keeps_sendCommitReq (h : Fits ring A p)
    (hcreq : p.timers .creqmsg ≠ none → .broadcast ∈ p.log) (c : Choice) (tid : TreeId)
    (hf : p.fault = none) (hs : p.status ≠ .ATTESTING) (hn : p.NoSessions) (hb : .broadcast ∉ p.log) :
    KeepsFits ring A p (p.sendCommitReq c tid) := by
  have hfirst : p.psessions.first = NOID := by rw [hn.parent]
  have hroot := h.startTree c.treeID hfirst hb
  have hsaid : ∀ d t, p.Says d t → (p.startTree c.treeID).Says d t := fun _ _ hd => absurd hd.1 hb
  by_cases hm : p.maxchildren = 0
  · rw [sendCommitReq_leaf tid c hs hm]
    refine (keeps_sendUpReq hroot (fun ht => absurd (hcreq ht) hb) c.treeID ?_ ?_).of_said hsaid
    · exact fun k hk => absurd hk (not_mem_of_keys_nil hn.children k)
    · exact fun hno => absurd hfirst hno
  · rw [sendCommitReq_root tid c hs hm hfirst]
    refine (keeps_broadcast hroot hf rfl rfl (fun _ => rfl) (fun hno => absurd hfirst hno)
      (fun _ => rfl) fun d t hd => absurd hd.1 ?_).of_said hsaid
    simpa [Prover.startTree] using hb

/-! ## The phases of a run with one attestation -/

theorem Once.of_check {g : Prop} (h : p.Once g) {s : Stamp} (ht : p.timers .checkdelaymsg = some s) :
    p.status = .CHECKING := by
  obtain ⟨-, ha⟩ := h.active (by decide) ht
  cases ha with
  | checking hs => exact hs
  | ready _ _ hsch => exact (absurd_off ht hsch.check).elim
  | attesting _ _ hsch => exact (absurd_off ht hsch.check).elim
  | attestingCreating _ _ hsch => exact (absurd_off ht hsch.check).elim
  | creating _ _ hsch => exact (absurd_off ht hsch.check).elim
  | collecting _ _ _ hsch => exact (absurd_off ht hsch.check).elim
  | done _ _ hsch => exact (absurd_off ht hsch.check).elim
  | ghost _ _ _ hsch => exact (absurd_off ht hsch.check).elim

theorem Once.of_mktree {g : Prop} (h : p.Once g) {s : Stamp} (ht : p.timers .mktreetimer = some s) :
    (p.status = .CHECKING ∨ p.status = .READY) ∧ p.NoSessions ∨
      p.status = .ATTESTING ∧ p.Answering := by
  obtain ⟨-, ha⟩ := h.active (by decide) ht
  cases ha with
  | checking hs hn => exact .inl ⟨.inl hs, hn⟩
  | ready hs hn => exact .inl ⟨.inr hs, hn⟩
  | attesting hs ha => exact .inr ⟨hs, ha⟩
  | attestingCreating _ _ hsch => exact (absurd_off ht hsch.mktree).elim
  | creating _ _ hsch => exact (absurd_off ht hsch.mktree).elim
  | collecting _ _ _ hsch => exact (absurd_off ht hsch.mktree).elim
  | done _ _ hsch => exact (absurd_off ht hsch.mktree).elim
  | ghost _ _ _ hsch => exact (absurd_off ht hsch.mktree).elim

theorem Once.of_cackto {g : Prop} (h : p.Once g) {s : Stamp} (ht : p.timers .cacktomsg = some s) :
    (p.status = .ATTESTING ∨ p.status = .ATTESTING_CREATING) ∧ p.Answering := by
  obtain ⟨-, ha⟩ := h.active (by decide) ht
  cases ha with
  | attesting hs ha => exact ⟨.inl hs, ha⟩
  | attestingCreating hs ha => exact ⟨.inr hs, ha⟩
  | checking _ _ hsch => exact (absurd_off ht hsch.cackto).elim
  | ready _ _ hsch => exact (absurd_off ht hsch.cackto).elim
  | creating _ _ hsch => exact (absurd_off ht hsch.cackto).elim
  | collecting _ _ _ hsch => exact (absurd_off ht hsch.cackto).elim
  | done _ _ hsch => exact (absurd_off ht hsch.cackto).elim
  | ghost _ _ _ hsch => exact (absurd_off ht hsch.cackto).elim

/-- Only a prover that has opened its window has sessions. -/
theorem Once.opened {g : Prop} (h : p.Once g) {c : Uid} (hc : c ∈ p.csessions) : p.Opened := by
  rcases h.phase with hi | ⟨-, ha⟩
  · exact absurd hc (not_mem_of_keys_nil hi.sessions.children _)
  · exact (ha.opened hc).1

/-- A prover that is not yet in a tree has not chosen one. -/
theorem Settled.undecided (h : p.Settled) (hs : p.status ≠ .CREATING) (hs' : p.status ≠ .COLLECTING)
    (hs'' : p.status ≠ .FINISHED) : .root ∉ p.log ∧ .broadcast ∉ p.log := by
  have hno : ¬ (p.status = .CREATING ∨ p.status = .COLLECTING ∨ p.status = .FINISHED) := fun h =>
    h.elim hs fun h => h.elim hs' hs''
  exact ⟨fun hr => hno (h.status (.inl hr)), fun hb => hno (h.status (.inr hb))⟩

end

end Prover

end Fadia
