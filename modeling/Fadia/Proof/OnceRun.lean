import Fadia.Proof.ProverSteps

/-!
# Status, sessions and timers in a run with one attestation

`Active g p` lists what a prover can be doing once it has started its
attestation, and which sessions and timers it has then; `g` says whether it may
have reported while its response window was open (`Active.ghost`).  `Linked p`
says that the `UPTO` messages belong to the child sessions one to one.

`Once g p` is the invariant of the runs in which a prover starts one attestation
and message sources are not `NOID` (`once_of_reaches`).  Where no session is
closed too early (`ClosesEarly`) there is no ghost, and status, sessions and
timers agree (`agree_of_reaches`).
-/

namespace Fadia

namespace Prover

/-! ## Child sessions and their timers -/

/-- The `UPTO` messages are those of the child sessions. -/
structure Linked (p : Prover) : Prop where
  nodup : (p.uptos.map (·.1.seq)).Nodup
  seq_lt : ∀ u ∈ p.uptos, u.1.seq < p.seq
  child : ∀ c s, c ≠ NOID → p.csessions.lookup c = some s →
    ∃ u ∈ p.uptos, u.2.device = c ∧ s.tomsg = some u.1.seq
  upto : ∀ u ∈ p.uptos, u.2.device ≠ NOID ∧
    ∃ s, p.csessions.lookup u.2.device = some s ∧ s.tomsg = some u.1.seq

section Linked
variable {p p' : Prover}

theorem Linked.congr (h : p.Linked) (hu : p'.uptos = p.uptos) (hs : p.seq ≤ p'.seq)
    (hc : ∀ c ≠ NOID, p'.csessions.lookup c = p.csessions.lookup c) : p'.Linked := by
  refine ⟨by rw [hu]; exact h.nodup, ?_, ?_, ?_⟩
  · intro u hmem
    rw [hu] at hmem
    exact Nat.lt_of_lt_of_le (h.seq_lt u hmem) hs
  · intro c s hne hl
    rw [hc c hne] at hl
    rw [hu]
    exact h.child c s hne hl
  · intro u hmem
    rw [hu] at hmem
    obtain ⟨hne, s, hl, ht⟩ := h.upto u hmem
    exact ⟨hne, s, by rw [hc _ hne]; exact hl, ht⟩

theorem Linked.uptos_nil (h : p.Linked) (hc : ∀ c ∈ p.csessions, c = NOID) : p.uptos = [] := by
  apply List.eq_nil_iff_forall_not_mem.mpr
  intro u hu
  obtain ⟨hne, s, hl, -⟩ := h.upto u hu
  exact hne (hc _ (AList.lookup_isSome.mp (by rw [hl]; rfl)))

/-- Distinct `UPTO` messages have distinct places in the scheduling order. -/
theorem Linked.eq_of_seq (h : p.Linked) {u v : Stamp × CommitTimeOut} (hu : u ∈ p.uptos)
    (hv : v ∈ p.uptos) (he : u.1.seq = v.1.seq) : u = v :=
  List.inj_on_of_nodup_map h.nodup hu hv he

/-- A child session and its `UPTO` message go together. -/
theorem Linked.remove (h : p.Linked) {u : Stamp × CommitTimeOut} (hu : u ∈ p.uptos)
    (hs : p'.seq = p.seq)
    (hus : ∀ v, v ∈ p'.uptos ↔ v ∈ p.uptos ∧ v.1.seq ≠ u.1.seq)
    (hnd : (p'.uptos.map (·.1.seq)).Nodup)
    (hc : p'.csessions = p.csessions.erase u.2.device) : p'.Linked := by
  refine ⟨hnd, ?_, ?_, ?_⟩
  · intro v hv
    rw [hs]
    exact h.seq_lt v ((hus v).mp hv).1
  · intro c s hne hl
    rw [hc] at hl
    by_cases he : c = u.2.device
    · rw [he, AList.lookup_erase] at hl
      cases hl
    · rw [AList.lookup_erase_ne he] at hl
      obtain ⟨v, hv, hd, ht⟩ := h.child c s hne hl
      refine ⟨v, (hus v).mpr ⟨hv, fun heq => he ?_⟩, hd, ht⟩
      rw [← hd, h.eq_of_seq hv hu heq]
  · intro v hv
    obtain ⟨hv, hneq⟩ := (hus v).mp hv
    obtain ⟨hne, s, hl, ht⟩ := h.upto v hv
    have hd : v.2.device ≠ u.2.device := by
      intro hd
      obtain ⟨-, s', hl', ht'⟩ := h.upto u hu
      rw [hd, hl'] at hl
      cases hl
      rw [ht'] at ht
      exact hneq (by injection ht with ht; exact ht.symm)
    exact ⟨hne, s, by rw [hc, AList.lookup_erase_ne hd]; exact hl, ht⟩

end Linked

/-! ## Phases -/

/-- Which of `checkdelaymsg`, `mktreetimer`, `cacktomsg` and `cresptomsg` are scheduled. -/
structure Scheduled (check mktree cackto crespto : Bool) (p : Prover) : Prop where
  check : (p.timers .checkdelaymsg).isSome = check
  mktree : (p.timers .mktreetimer).isSome = mktree
  cackto : (p.timers .cacktomsg).isSome = cackto
  crespto : (p.timers .cresptomsg).isSome = crespto

/-- No parent and no children. -/
structure NoSessions (p : Prover) : Prop where
  parent : p.psessions = {}
  children : p.csessions.keys = []

/-- A parent that has answered or not, and no children. -/
structure Answering (p : Prover) : Prop where
  first : p.psessions.first ≠ NOID
  second : p.psessions.second.isSome
  children : p.csessions.keys = []
  device : p.cackto.device = p.psessions.first

/-- The response window has been opened and `NOID` stands for it in `csessions`. -/
structure Opened (p : Prover) : Prop where
  second : p.psessions.second.isSome
  depth : p.psessions.first ≠ NOID → ∀ s, p.psessions.second = some s → s.depth ≠ 1
  maxchildren : p.maxchildren ≠ 0
  window : NOID ∈ p.csessions

/-- Has a child session besides the window's entry. -/
def HasChild (p : Prover) : Prop := ∃ c ∈ p.csessions, c ≠ NOID

inductive Active (g : Prop) (p : Prover) : Prop
  | checking (hs : p.status = .CHECKING) (hn : p.NoSessions)
      (ht : p.Scheduled true true false false)
      (hb : ∀ a b, p.timers .checkdelaymsg = some a → p.timers .mktreetimer = some b → a.Before b)
  | ready (hs : p.status = .READY) (hn : p.NoSessions) (ht : p.Scheduled false true false false)
  | attesting (hs : p.status = .ATTESTING) (ha : p.Answering)
      (ht : p.Scheduled false true true false)
  | attestingCreating (hs : p.status = .ATTESTING_CREATING) (ha : p.Answering)
      (ht : p.Scheduled false false true false)
  | creating (hs : p.status = .CREATING) (ho : p.Opened) (ht : p.Scheduled false false false true)
  | collecting (hs : p.status = .COLLECTING) (ho : p.Opened) (hc : p.HasChild)
      (ht : p.Scheduled false false false false)
  | done (hs : p.status = .FINISHED) (hn : p.NoSessions) (ht : p.Scheduled false false false false)
  | ghost (hg : g) {r : Bool} (hs : p.status = .FINISHED ∨ p.status = .COLLECTING)
      (hn : p.NoSessions) (ht : p.Scheduled false false false r)

/-- Marks of a report that is not for the prover. -/
def Passing : Mark → Prop
  | .upReq _ | .redirect _ => True
  | _ => False

/-- Before its first attestation. -/
structure Idle (p : Prover) : Prop where
  status : p.status = .FINISHED
  sessions : p.NoSessions
  timers : ∀ t, t ≠ .startmsg → p.timers t = none
  uptos : p.uptos = []
  log : ∀ y ∈ p.log, Passing y

/-- The invariant of a run with one attestation. -/
structure Once (g : Prop) (p : Prover) : Prop where
  linked : p.Linked
  phase : p.Idle ∨ .start ∈ p.log ∧ p.Active g

/-! ## The run condition -/

/-- The prover starts one attestation and message sources are not `NOID`. -/
def OnceOk (e : Event) (p : Prover) : Prop :=
  (StartsAttestation e.act → .start ∉ p.log) ∧ RealSource e.act

instance (e : Event) (p : Prover) : Decidable (OnceOk e p) :=
  inferInstanceAs (Decidable ((_ → _) ∧ _))

/-- While responses are still accepted, the last child session is closed. -/
def ClosesEarly (e : Event) (p : Prover) : Prop :=
  p.status = .CREATING ∧
    ((∃ m c, e.act = .recv (.updateReq m) c ∧ (∃ child parent, p.Merges m child parent) ∧
        (p.csessions.erase m.source).keys.length = 1) ∨
      ∃ k u, e.act = .upto k ∧ p.uptos.find? (·.1.seq = k) = some u ∧
        (p.csessions.erase u.2.device).keys.length = 1)

/-! ## The handlers keep the invariant -/

section
variable {g : Prop} {p p' : Prover}

theorem Scheduled.congr {a b c d : Bool} (h : p.Scheduled a b c d)
    (ht : ∀ t, t = .checkdelaymsg ∨ t = .mktreetimer ∨ t = .cacktomsg ∨ t = .cresptomsg →
      p'.timers t = p.timers t) : p'.Scheduled a b c d := by
  obtain ⟨h1, h2, h3, h4⟩ := h
  exact ⟨by rw [ht _ (.inl rfl)]; exact h1, by rw [ht _ (.inr (.inl rfl))]; exact h2,
    by rw [ht _ (.inr (.inr (.inl rfl)))]; exact h3, by rw [ht _ (.inr (.inr (.inr rfl)))]; exact h4⟩

section
variable {a b c d : Bool}

theorem Scheduled.cancel_check (h : p.Scheduled a b c d) :
    (p.cancelEvent .checkdelaymsg).Scheduled false b c d :=
  ⟨by simp [cancelEvent], by simpa [cancelEvent] using h.mktree,
    by simpa [cancelEvent] using h.cackto, by simpa [cancelEvent] using h.crespto⟩

theorem Scheduled.cancel_mktree (h : p.Scheduled a b c d) :
    (p.cancelEvent .mktreetimer).Scheduled a false c d :=
  ⟨by simpa [cancelEvent] using h.check, by simp [cancelEvent],
    by simpa [cancelEvent] using h.cackto, by simpa [cancelEvent] using h.crespto⟩

theorem Scheduled.cancel_cackto (h : p.Scheduled a b c d) :
    (p.cancelEvent .cacktomsg).Scheduled a b false d :=
  ⟨by simpa [cancelEvent] using h.check, by simpa [cancelEvent] using h.mktree,
    by simp [cancelEvent], by simpa [cancelEvent] using h.crespto⟩

theorem Scheduled.cancel_crespto (h : p.Scheduled a b c d) :
    (p.cancelEvent .cresptomsg).Scheduled a b c false :=
  ⟨by simpa [cancelEvent] using h.check, by simpa [cancelEvent] using h.mktree,
    by simpa [cancelEvent] using h.cackto, by simp [cancelEvent]⟩

/-- A timer that is scheduled is not off. -/
theorem absurd_off {t : Timer} {s : Stamp} (ht : p.timers t = some s)
    (h : (p.timers t).isSome = false) : False := by
  rw [ht] at h
  cases h

end

/-- `Active` reads the status, the sessions, four timers, `cacktomsg` and `maxchildren`. -/
theorem Active.congr (h : p.Active g) (hs : p'.status = p.status)
    (hp : p'.psessions = p.psessions) (hc : p'.csessions = p.csessions)
    (ht : ∀ t, t = .checkdelaymsg ∨ t = .mktreetimer ∨ t = .cacktomsg ∨ t = .cresptomsg →
      p'.timers t = p.timers t)
    (hd : p'.cackto = p.cackto) (hm : p'.maxchildren = p.maxchildren) : p'.Active g := by
  have hn : p.NoSessions → p'.NoSessions := fun ⟨h1, h2⟩ => ⟨by rw [hp]; exact h1, by rw [hc]; exact h2⟩
  have ha : p.Answering → p'.Answering := fun ⟨h1, h2, h3, h4⟩ =>
    ⟨by rw [hp]; exact h1, by rw [hp]; exact h2, by rw [hc]; exact h3, by rw [hd, hp]; exact h4⟩
  have ho : p.Opened → p'.Opened := fun ⟨h1, h2, h3, h4⟩ =>
    ⟨by rw [hp]; exact h1, by rw [hp]; exact h2, by rw [hm]; exact h3, by rw [hc]; exact h4⟩
  cases h with
  | checking h1 h2 h3 h4 =>
    refine .checking (hs.trans h1) (hn h2) (h3.congr ht) ?_
    rw [ht _ (.inl rfl), ht _ (.inr (.inl rfl))]
    exact h4
  | ready h1 h2 h3 => exact .ready (hs.trans h1) (hn h2) (h3.congr ht)
  | attesting h1 h2 h3 => exact .attesting (hs.trans h1) (ha h2) (h3.congr ht)
  | attestingCreating h1 h2 h3 => exact .attestingCreating (hs.trans h1) (ha h2) (h3.congr ht)
  | creating h1 h2 h3 => exact .creating (hs.trans h1) (ho h2) (h3.congr ht)
  | collecting h1 h2 h3 h4 =>
    exact .collecting (hs.trans h1) (ho h2) (by rw [HasChild, hc]; exact h3) (h4.congr ht)
  | done h1 h2 h3 => exact .done (hs.trans h1) (hn h2) (h3.congr ht)
  | ghost hg h1 h2 h3 => exact .ghost hg (by rw [hs]; exact h1) (hn h2) (h3.congr ht)

theorem Idle.congr (h : p.Idle) (hs : p'.status = p.status) (hp : p'.psessions = p.psessions)
    (hc : p'.csessions = p.csessions) (ht : ∀ t, t ≠ .startmsg → p'.timers t = p.timers t)
    (hu : p'.uptos = p.uptos) (hl : ∀ y ∈ p'.log, y ∈ p.log ∨ Passing y) : p'.Idle :=
  ⟨hs.trans h.status, ⟨by rw [hp]; exact h.sessions.parent, by rw [hc]; exact h.sessions.children⟩,
    fun t hne => by rw [ht t hne]; exact h.timers t hne, hu.trans h.uptos,
    fun y hy => (hl y hy).elim (h.log y) id⟩

/-- A change of what `Once` does not read. -/
theorem Once.congr (h : p.Once g) (hs : p'.status = p.status) (hp : p'.psessions = p.psessions)
    (hc : p'.csessions = p.csessions) (ht : p'.timers = p.timers) (hd : p'.cackto = p.cackto)
    (hm : p'.maxchildren = p.maxchildren) (hu : p'.uptos = p.uptos) (hq : p.seq ≤ p'.seq)
    (hl : p'.log = p.log) : p'.Once g := by
  refine ⟨h.linked.congr hu hq fun c _ => by rw [hc], ?_⟩
  rcases h.phase with hi | ⟨hst, ha⟩
  · exact .inl (hi.congr hs hp hc (fun t _ => by rw [ht]) hu fun y hy => .inl (hl ▸ hy))
  · exact .inr ⟨hl ▸ hst, ha.congr hs hp hc (fun t _ => by rw [ht]) hd hm⟩

/-- What `sendUpReq` leaves behind where no child is left. -/
theorem sendUpReq_closed (tid : TreeId) (hs : p.psessions.second.isSome)
    (hc : ∀ c ∈ p.csessions, c = NOID) :
    (p.sendUpReq tid).status = .FINISHED ∧ (p.sendUpReq tid).NoSessions ∧
      (p.sendUpReq tid).timers = p.timers := by
  obtain ⟨parent, hp⟩ := Option.isSome_iff_exists.mp hs
  rw [sendUpReq_of_some tid hp]
  exact ⟨rfl, ⟨rfl, keys_erase_window hc⟩, rfl⟩

theorem Linked.sendUpReq (h : p.Linked) (tid : TreeId) (hs : p.psessions.second.isSome) :
    (p.sendUpReq tid).Linked := by
  obtain ⟨parent, hp⟩ := Option.isSome_iff_exists.mp hs
  rw [sendUpReq_of_some tid hp]
  exact h.congr rfl (Nat.le_succ _) fun c hne => AList.lookup_erase_ne hne

/-- A report sent with all timers but perhaps `cresptomsg` off. -/
theorem Active.of_sendUpReq (tid : TreeId) {r : Bool} (hs : p.psessions.second.isSome)
    (hc : ∀ c ∈ p.csessions, c = NOID) (ht : p.Scheduled false false false r) (hg : r = true → g) :
    (p.sendUpReq tid).Active g := by
  obtain ⟨h1, h2, h3⟩ := sendUpReq_closed tid hs hc
  have ht' : (p.sendUpReq tid).Scheduled false false false r := ht.congr fun t _ => by rw [h3]
  cases r with
  | false => exact .done h1 h2 ht'
  | true => exact .ghost (hg rfl) (.inl h1) h2 ht'

/-- A broadcast by a prover that is no leaf. -/
theorem Active.of_broadcast (depth : Nat) (tid : TreeId) (hf : p.fault = none) {r : Bool}
    (hs : p.psessions.second.isSome)
    (hd : p.psessions.first ≠ NOID → ∀ s, p.psessions.second = some s → s.depth ≠ 1)
    (hm : p.maxchildren ≠ 0) (ht : p.Scheduled false false false r)
    (hok : (p.broadcastCommitReq depth tid).fault = none) :
    (p.broadcastCommitReq depth tid).Active g := by
  cases hcreq : p.timers .creqmsg with
  | some s => rw [(broadcast_of_some tid depth hcreq).1] at hok; cases hok
  | none =>
    rw [broadcast_of_none tid depth hf hcreq]
    refine .creating rfl ⟨hs, hd, hm, ?_⟩ ⟨?_, ?_, ?_, ?_⟩
    · exact (AList.mem_insert _).mpr (.inl rfl)
    · simpa using ht.check
    · simpa using ht.mktree
    · simpa using ht.cackto
    · simp

theorem Linked.broadcast (h : p.Linked) (depth : Nat) (tid : TreeId) (hf : p.fault = none)
    (hok : (p.broadcastCommitReq depth tid).fault = none) :
    (p.broadcastCommitReq depth tid).Linked := by
  cases hcreq : p.timers .creqmsg with
  | some s => rw [(broadcast_of_some tid depth hcreq).1] at hok; cases hok
  | none =>
    rw [broadcast_of_none tid depth hf hcreq]
    exact h.congr rfl (Nat.le_add_right _ _) fun c hne => AList.lookup_insert_ne hne

theorem linked_nil (hu : p.uptos = []) (hc : p.csessions.keys = []) : p.Linked := by
  refine ⟨by simp [hu], by simp [hu], ?_, by simp [hu]⟩
  intro c s _ hl
  exact absurd (AList.lookup_isSome.mp (by rw [hl]; rfl)) (not_mem_of_keys_nil hc c)

/-- An attestation starts where nothing is left of an earlier one. -/
theorem once_startAttestation (hu : p.uptos = []) (hk : p.timers .cacktomsg = none)
    (hr : p.timers .cresptomsg = none) (c : Choice) (hf : p.fault = none)
    (hok : (p.startAttestation c).fault = none) : (p.startAttestation c).Once g := by
  obtain ⟨h1, h2, h3⟩ := timers_of_startAttestation c hf hok
  rw [startAttestation_of_none c hf h1 h2 h3]
  refine ⟨linked_nil hu rfl, .inr ⟨List.mem_cons_self, ?_⟩⟩
  refine .checking rfl ⟨rfl, rfl⟩ ⟨by simp, by simp, ?_, ?_⟩ ?_
  · simpa using hk
  · simpa using hr
  · intro a b ha hb
    simp at ha hb
    subst ha hb
    rcases Nat.eq_zero_or_pos c.delay with h0 | h0
    · exact .inr ⟨by simp [h0], by simp⟩
    · exact .inl (by simp only; omega)

theorem Once.startAttestation (h : p.Once g) {t : Timer} (c : Choice) (hf : p.fault = none)
    (hl : .start ∉ p.log) (hok : ((p.cancelEvent t).startAttestation c).fault = none) :
    ((p.cancelEvent t).startAttestation c).Once g := by
  rcases h.phase with hi | ⟨hst, -⟩
  · have hu : p.uptos = [] :=
      h.linked.uptos_nil fun c hc => absurd hc (not_mem_of_keys_nil hi.sessions.children c)
    have ht : ∀ t', t' ≠ .startmsg → (p.cancelEvent t).timers t' = none := by
      intro t' hne
      simp only [cancelEvent, Function.update_apply]
      split
      · rfl
      · exact hi.timers t' hne
    exact once_startAttestation (p := p.cancelEvent t) hu (ht .cacktomsg (by decide))
      (ht .cresptomsg (by decide)) c hf hok
  · exact absurd hst hl

/-- `MKTREE` and an ack timeout in `ATTESTING_CREATING` find a prover without a parent. -/
theorem Active.of_sendCommitReq (c : Choice) (tid : TreeId) (hf : p.fault = none)
    (hs : p.status ≠ .ATTESTING) (hn : p.NoSessions) (ht : p.Scheduled false false false false)
    (hok : (p.sendCommitReq c tid).fault = none) : (p.sendCommitReq c tid).Active g := by
  have hfirst : p.psessions.first = NOID := by rw [hn.parent]
  by_cases hm : p.maxchildren = 0
  · rw [sendCommitReq_leaf tid c hs hm]
    refine .of_sendUpReq c.treeID (r := false) rfl ?_ (ht.congr fun _ _ => rfl) nofun
    exact fun k hk => absurd hk (not_mem_of_keys_nil hn.children k)
  · rw [sendCommitReq_root tid c hs hm hfirst] at hok ⊢
    exact .of_broadcast _ _ hf rfl (fun hne => absurd hfirst hne) hm (ht.congr fun _ _ => rfl) hok

theorem Linked.sendCommitReq (h : p.Linked) (c : Choice) (tid : TreeId) (hf : p.fault = none)
    (hok : (p.sendCommitReq c tid).fault = none) : (p.sendCommitReq c tid).Linked := by
  have hroot : (p.startTree c.treeID).Linked := h.congr rfl (Nat.le_refl _) fun _ _ => rfl
  by_cases hs : p.status = .ATTESTING
  · rw [sendCommitReq_attesting tid c hs]
    exact h.congr rfl (Nat.le_refl _) fun _ _ => rfl
  by_cases hm : p.maxchildren = 0
  · rw [sendCommitReq_leaf tid c hs hm]
    exact hroot.sendUpReq _ rfl
  by_cases hfirst : p.psessions.first = NOID
  · rw [sendCommitReq_root tid c hs hm hfirst] at hok ⊢
    exact hroot.broadcast _ _ hf hok
  cases hp : p.psessions.second with
  | none =>
    rw [sendCommitReq_null tid c hs hm hfirst hp] at hok
    cases hok
  | some parent =>
    rw [sendCommitReq_inner tid c hs hm hfirst hp] at hok ⊢
    have hrec : (p.record (.depthSub parent.depth)).Linked :=
      h.congr rfl (Nat.le_refl _) fun _ _ => rfl
    exact hrec.broadcast _ _ hf hok

theorem Linked.ackTimeOut (h : p.Linked) (c : Choice) (hf : p.fault = none)
    (hok : (p.handleCommitAckTimeOut c).fault = none) : (p.handleCommitAckTimeOut c).Linked := by
  by_cases hd : p.cackto.device = p.psessions.first
  · by_cases hs : p.status = .ATTESTING_CREATING
    · rw [handleCommitAckTimeOut_creating c hd hs] at hok ⊢
      have hq : { p with psessions := {}, status := .CREATING }.Linked :=
        h.congr rfl (Nat.le_refl _) fun _ _ => rfl
      exact hq.sendCommitReq c _ hf hok
    · rw [handleCommitAckTimeOut_ready c hd hs]
      exact h.congr rfl (Nat.le_refl _) fun _ _ => rfl
  · rw [handleCommitAckTimeOut_stale c hd]
    exact h

theorem Linked.respTimeOut (h : p.Linked) (hs : ∀ c ∈ p.csessions, p.psessions.second.isSome) :
    p.handleCommitRespTimeOut.Linked := by
  have hq : p.closeWindow.Linked := h.congr rfl (Nat.le_refl _) fun _ _ => rfl
  by_cases hl : p.csessions.keys.length = 1
  · rw [handleCommitRespTimeOut_last hl]
    obtain ⟨k, hk⟩ := List.length_eq_one_iff.mp hl
    exact hq.sendUpReq _ (hs k (AList.mem_keys.mpr (by rw [hk]; exact List.mem_singleton.mpr rfl)))
  · rw [handleCommitRespTimeOut_open hl]
    exact hq

/-! What each handler does to the phase. -/

theorem Active.mktree (h : p.Active g) {s : Stamp} {time : Nat} (c : Choice) (hf : p.fault = none)
    (ht : p.timers .mktreetimer = some s) (hn : p.Next s time)
    (hok : ((p.cancelEvent .mktreetimer).sendCommitReq c NOID).fault = none) :
    ((p.cancelEvent .mktreetimer).sendCommitReq c NOID).Active g := by
  cases h with
  | checking _ _ hsch hb =>
    obtain ⟨a, ha⟩ := Option.isSome_iff_exists.mp hsch.check
    exact absurd (hb a s ha ht) (hn.not_before ha)
  | ready hs hns hsch =>
    have hs' : (p.cancelEvent .mktreetimer).status ≠ .ATTESTING := fun h => by
      rw [show (p.cancelEvent .mktreetimer).status = p.status from rfl, hs] at h
      cases h
    exact .of_sendCommitReq c NOID hf hs' ⟨hns.parent, hns.children⟩ hsch.cancel_mktree hok
  | attesting hs ha hsch =>
    rw [sendCommitReq_attesting (p := p.cancelEvent .mktreetimer) NOID c hs]
    exact .attestingCreating rfl ⟨ha.first, ha.second, ha.children, ha.device⟩
      (hsch.cancel_mktree.congr fun _ _ => rfl)
  | attestingCreating _ _ hsch => exact (absurd_off ht hsch.mktree).elim
  | creating _ _ hsch => exact (absurd_off ht hsch.mktree).elim
  | collecting _ _ _ hsch => exact (absurd_off ht hsch.mktree).elim
  | done _ _ hsch => exact (absurd_off ht hsch.mktree).elim
  | ghost _ _ _ hsch => exact (absurd_off ht hsch.mktree).elim

theorem Active.check (h : p.Active g) {s : Stamp} (ht : p.timers .checkdelaymsg = some s) :
    ((p.cancelEvent .checkdelaymsg).checkSoftConfig).Active g := by
  cases h with
  | checking _ hn hsch =>
    exact .ready rfl ⟨hn.parent, hn.children⟩ (hsch.cancel_check.congr fun _ _ => rfl)
  | ready _ _ hsch => exact (absurd_off ht hsch.check).elim
  | attesting _ _ hsch => exact (absurd_off ht hsch.check).elim
  | attestingCreating _ _ hsch => exact (absurd_off ht hsch.check).elim
  | creating _ _ hsch => exact (absurd_off ht hsch.check).elim
  | collecting _ _ _ hsch => exact (absurd_off ht hsch.check).elim
  | done _ _ hsch => exact (absurd_off ht hsch.check).elim
  | ghost _ _ _ hsch => exact (absurd_off ht hsch.check).elim

theorem Active.cackto (h : p.Active g) {s : Stamp} (c : Choice) (hf : p.fault = none)
    (ht : p.timers .cacktomsg = some s)
    (hok : ((p.cancelEvent .cacktomsg).handleCommitAckTimeOut c).fault = none) :
    ((p.cancelEvent .cacktomsg).handleCommitAckTimeOut c).Active g := by
  cases h with
  | attesting hs ha hsch =>
    rw [handleCommitAckTimeOut_ready (p := p.cancelEvent .cacktomsg) c ha.device
      (fun h => nomatch hs.symm.trans h)]
    exact .ready rfl ⟨rfl, ha.children⟩ (hsch.cancel_cackto.congr fun _ _ => rfl)
  | attestingCreating hs ha hsch =>
    rw [handleCommitAckTimeOut_creating (p := p.cancelEvent .cacktomsg) c ha.device hs] at hok ⊢
    exact .of_sendCommitReq c NOID hf (fun h => nomatch h) ⟨rfl, ha.children⟩
      (hsch.cancel_cackto.congr fun _ _ => rfl) hok
  | checking _ _ hsch => exact (absurd_off ht hsch.cackto).elim
  | ready _ _ hsch => exact (absurd_off ht hsch.cackto).elim
  | creating _ _ hsch => exact (absurd_off ht hsch.cackto).elim
  | collecting _ _ _ hsch => exact (absurd_off ht hsch.cackto).elim
  | done _ _ hsch => exact (absurd_off ht hsch.cackto).elim
  | ghost _ _ _ hsch => exact (absurd_off ht hsch.cackto).elim

theorem Active.crespto (h : p.Active g) {s : Stamp} (ht : p.timers .cresptomsg = some s) :
    ((p.cancelEvent .cresptomsg).handleCommitRespTimeOut).Active g := by
  cases h with
  | creating _ ho hsch =>
    by_cases hlen : p.csessions.keys.length = 1
    · rw [handleCommitRespTimeOut_last (p := p.cancelEvent .cresptomsg) hlen]
      exact .of_sendUpReq _ (r := false) ho.second (only_window ho.window hlen)
        (hsch.cancel_crespto.congr fun _ _ => rfl) nofun
    · rw [handleCommitRespTimeOut_open (p := p.cancelEvent .cresptomsg) hlen]
      exact .collecting rfl ⟨ho.second, ho.depth, ho.maxchildren, ho.window⟩
        (exists_child ho.window hlen) (hsch.cancel_crespto.congr fun _ _ => rfl)
  | ghost hg _ hn hsch =>
    have hlen : p.csessions.keys.length ≠ 1 := by rw [hn.children]; decide
    rw [handleCommitRespTimeOut_open (p := p.cancelEvent .cresptomsg) hlen]
    exact .ghost hg (.inr rfl) ⟨hn.parent, hn.children⟩ (hsch.cancel_crespto.congr fun _ _ => rfl)
  | checking _ _ hsch => exact (absurd_off ht hsch.crespto).elim
  | ready _ _ hsch => exact (absurd_off ht hsch.crespto).elim
  | attesting _ _ hsch => exact (absurd_off ht hsch.crespto).elim
  | attestingCreating _ _ hsch => exact (absurd_off ht hsch.crespto).elim
  | collecting _ _ _ hsch => exact (absurd_off ht hsch.crespto).elim
  | done _ _ hsch => exact (absurd_off ht hsch.crespto).elim

/-- Only a prover that has opened its window has sessions. -/
theorem Active.opened (h : p.Active g) {c : Uid} (hc : c ∈ p.csessions) :
    p.Opened ∧ (p.status = .CREATING ∧ p.Scheduled false false false true ∨
      p.status = .COLLECTING ∧ p.Scheduled false false false false) := by
  cases h with
  | creating hs ho ht => exact ⟨ho, .inl ⟨hs, ht⟩⟩
  | collecting hs ho _ ht => exact ⟨ho, .inr ⟨hs, ht⟩⟩
  | checking _ hn => exact absurd hc (not_mem_of_keys_nil hn.children c)
  | ready _ hn => exact absurd hc (not_mem_of_keys_nil hn.children c)
  | attesting _ ha => exact absurd hc (not_mem_of_keys_nil ha.children c)
  | attestingCreating _ ha => exact absurd hc (not_mem_of_keys_nil ha.children c)
  | done _ hn => exact absurd hc (not_mem_of_keys_nil hn.children c)
  | ghost _ _ hn => exact absurd hc (not_mem_of_keys_nil hn.children c)

/-- Closing the session of a child: the last one is followed by `sendUpReq`. -/
theorem Active.close {q : Prover} (h : p.Active g) {c : Uid} (hc : c ∈ p.csessions) (hne : c ≠ NOID)
    (hs : q.status = p.status ∨ q.csessions.keys.length = 1) (hp : q.psessions = p.psessions)
    (hcs : q.csessions = p.csessions.erase c) (ht : q.timers = p.timers)
    (hm : q.maxchildren = p.maxchildren)
    (hg : p.status = .CREATING → q.csessions.keys.length = 1 → g) (tid : TreeId) :
    (q.csessions.keys.length = 1 → (q.sendUpReq tid).Active g) ∧
      (q.csessions.keys.length ≠ 1 → q.Active g) := by
  obtain ⟨ho, hph⟩ := h.opened hc
  have ho' : q.Opened := by
    refine ⟨by rw [hp]; exact ho.second, by rw [hp]; exact ho.depth,
      by rw [hm]; exact ho.maxchildren, ?_⟩
    rw [hcs]
    exact AList.mem_erase.mpr ⟨hne.symm, ho.window⟩
  constructor
  · intro hlen
    rcases hph with ⟨hst, hsch⟩ | ⟨hst, hsch⟩
    · exact .of_sendUpReq tid ho'.second (only_window ho'.window hlen)
        (hsch.congr fun _ _ => by rw [ht]) fun _ => hg hst hlen
    · exact .of_sendUpReq tid (r := false) ho'.second (only_window ho'.window hlen)
        (hsch.congr fun _ _ => by rw [ht]) nofun
  · intro hlen
    have hs' := hs.resolve_right hlen
    rcases hph with ⟨hst, hsch⟩ | ⟨hst, hsch⟩
    · exact .creating (hs'.trans hst) ho' (hsch.congr fun _ _ => by rw [ht])
    · exact .collecting (hs'.trans hst) ho' (exists_child ho'.window hlen)
        (hsch.congr fun _ _ => by rw [ht])

/-! What the messages do to the phase. -/

theorem Active.commitReq (h : p.Active g) {m : CommitReq} (hsrc : m.source ≠ NOID) :
    (p.handleCommitReq m).Active g := by
  rcases handleCommitReq_cases (p := p) m with he | ⟨sess, ⟨hr, -⟩, he⟩
  · rw [he]; exact h
  rw [he]
  have hready : ∀ {st}, p.status = st → st ≠ .READY → False := fun h1 h2 => h2 (h1.symm.trans hr)
  cases h with
  | ready hs hn hsch =>
    have hcack : p.timers .cacktomsg = none := by simpa using hsch.cackto
    rw [sendCommitResp_of_none (p := { p with psessions := ⟨m.source, some sess⟩ }) _ _ _ hcack]
    refine .attesting rfl ⟨hsrc, rfl, hn.children, rfl⟩ ⟨?_, ?_, ?_, ?_⟩
    · simpa using hsch.check
    · simpa using hsch.mktree
    · simp
    · simpa using hsch.crespto
  | checking hs => exact (hready hs (by decide)).elim
  | attesting hs => exact (hready hs (by decide)).elim
  | attestingCreating hs => exact (hready hs (by decide)).elim
  | creating hs => exact (hready hs (by decide)).elim
  | collecting hs => exact (hready hs (by decide)).elim
  | done hs => exact (hready hs (by decide)).elim
  | ghost _ hs => exact (hs.elim (hready · (by decide)) (hready · (by decide))).elim

theorem Active.of_creating (h : p.Active g) (hs : p.status = .CREATING) :
    p.Opened ∧ p.Scheduled false false false true := by
  have hno : ∀ {st}, p.status = st → st ≠ .CREATING → False := fun h1 h2 => h2 (h1.symm.trans hs)
  cases h with
  | creating _ ho ht => exact ⟨ho, ht⟩
  | checking hs => exact (hno hs (by decide)).elim
  | ready hs => exact (hno hs (by decide)).elim
  | attesting hs => exact (hno hs (by decide)).elim
  | attestingCreating hs => exact (hno hs (by decide)).elim
  | collecting hs => exact (hno hs (by decide)).elim
  | done hs => exact (hno hs (by decide)).elim
  | ghost _ hs => exact (hs.elim (hno · (by decide)) (hno · (by decide))).elim

theorem Active.commitResp (h : p.Active g) {m : CommitResp} (hf : p.fault = none)
    (hsrc : m.source ≠ NOID) (hok : (p.handleCommitResp m).fault = none) :
    (p.handleCommitResp m).Active g := by
  generalize hr : p.handleCommitResp m = p' at hok ⊢
  have hcase := handleCommitResp_cases hf m
  rw [hr] at hcase
  cases hcase with
  | ignored => exact h
  | unverified => exact h.congr rfl rfl rfl (fun _ _ => rfl) rfl rfl
  | null _ _ hnull => rw [hnull] at hok; cases hok
  | more ha hp he =>
    obtain ⟨ho, hsch⟩ := h.of_creating ha.status
    rw [he, sendCommitAck_of_some (p := p.admitChild m) m.treeID m.source _ hp]
    refine .creating ha.status ⟨ho.second, ho.depth, ho.maxchildren, ?_⟩ (hsch.congr fun _ _ => rfl)
    exact (AList.mem_insert _).mpr (.inr ((AList.mem_insert _).mpr (.inr ho.window)))
  | full ha hp he =>
    obtain ⟨ho, hsch⟩ := h.of_creating ha.status
    rw [he, sendCommitAck_of_some (p := p.admitChild m) m.treeID m.source _ hp]
    refine .collecting rfl ⟨ho.second, ho.depth, ho.maxchildren, ?_⟩
      ⟨m.source, (AList.mem_insert _).mpr (.inl rfl), hsrc⟩ (hsch.cancel_crespto.congr fun _ _ => rfl)
    exact (AList.mem_insert _).mpr (.inr ((AList.mem_insert _).mpr (.inr ho.window)))

/-- An ack finds a prover that waits for one, or that has one already and is no leaf. -/
theorem Active.commitAck (h : p.Active g) (c : Choice) {m : CommitAck} (hf : p.fault = none)
    (hsrc : m.source ≠ NOID) (hok : (p.handleCommitAck c m).fault = none) :
    (p.handleCommitAck c m).Active g := by
  generalize hr : p.handleCommitAck c m = p' at hok ⊢
  have hcase := handleCommitAck_cases (p := p) c m
  rw [hr] at hcase
  have hfirst : ∀ {parent}, p.Acked m parent → p.psessions.first ≠ NOID := fun ha => by
    rw [ha.source]; exact hsrc
  -- `validateParent` cancels the gather timer and the ack timer
  have hwait : ∀ {parent}, p.Acked m parent → (∀ k ∈ p.csessions, k = NOID) ∧
        p.timers .checkdelaymsg = none ∧ p.timers .cresptomsg = none ∨
      ¬ p.Leaf parent ∧ ∃ r, p.Scheduled false false false r := by
    intro parent ha
    have hnone : p.NoSessions → False := fun hn => hfirst ha (by rw [hn.parent])
    cases h with
    | attesting _ hans hsch =>
      exact .inl ⟨fun k hk => absurd hk (not_mem_of_keys_nil hans.children k),
        by simpa using hsch.check, by simpa using hsch.crespto⟩
    | attestingCreating _ hans hsch =>
      exact .inl ⟨fun k hk => absurd hk (not_mem_of_keys_nil hans.children k),
        by simpa using hsch.check, by simpa using hsch.crespto⟩
    | creating _ ho hsch =>
      exact .inr ⟨fun hl => hl.elim (ho.depth (hfirst ha) _ ha.second) ho.maxchildren, _, hsch⟩
    | collecting _ ho _ hsch =>
      exact .inr ⟨fun hl => hl.elim (ho.depth (hfirst ha) _ ha.second) ho.maxchildren, _, hsch⟩
    | checking _ hn => exact (hnone hn).elim
    | ready _ hn => exact (hnone hn).elim
    | done _ hn => exact (hnone hn).elim
    | ghost _ _ hn => exact (hnone hn).elim
  have hoff : ∀ {parent}, p.Acked m parent →
      ∃ r, ((p.queueMacDelay (.commitAck m)).validateParent parent).Scheduled false false false r := by
    intro parent ha
    rcases hwait ha with ⟨-, hc, hr⟩ | ⟨-, r, hsch⟩
    · exact ⟨false, by simp [validateParent, cancelEvent, queueMacDelay, hc],
        by simp [validateParent, cancelEvent], by simp [validateParent, cancelEvent],
        by simp [validateParent, cancelEvent, queueMacDelay, hr]⟩
    · exact ⟨r, (hsch.cancel_mktree.cancel_cackto).congr fun _ _ => rfl⟩
  cases hcase with
  | ignored => exact h
  | unverified => exact h.congr rfl rfl rfl (fun _ _ => rfl) rfl rfl
  | null => cases hok
  | leaf ha hl =>
    rcases hwait ha with ⟨hc, hch, hre⟩ | ⟨hno, -⟩
    · refine .of_sendUpReq m.treeID (r := false) rfl hc ⟨?_, ?_, ?_, ?_⟩ (fun h => by cases h)
      · simpa [validateParent, cancelEvent, queueMacDelay] using hch
      · simp [validateParent, cancelEvent]
      · simp [validateParent, cancelEvent]
      · simpa [validateParent, cancelEvent, queueMacDelay] using hre
    · exact absurd hl hno
  | @inner parent ha hl =>
    obtain ⟨r, hsch⟩ := hoff ha
    have hd : ¬ (parent.depth = 1 ∨ p.maxchildren = 0) := hl
    rw [not_or] at hd
    rw [sendCommitReq_inner (p := { (p.queueMacDelay (.commitAck m)).validateParent parent with
      status := .CREATING }) m.treeID c (fun h => by cases h) hd.2 (hfirst ha) rfl] at hok ⊢
    refine .of_broadcast _ _ hf rfl (fun _ s hs => ?_) hd.2 (hsch.congr fun _ _ => rfl) hok
    cases hs
    exact hd.1

theorem Active.upReq (h : p.Active g) {m : UpdateReq} (hsrc : m.source ≠ NOID)
    (hg : p.status = .CREATING → (∃ child parent, p.Merges m child parent) →
      (p.csessions.erase m.source).keys.length = 1 → g)
    (hok : (p.handleUpReq m).fault = none) : (p.handleUpReq m).Active g := by
  generalize hr : p.handleUpReq m = p' at hok ⊢
  have hcase := handleUpReq_cases (p := p) m
  rw [hr] at hcase
  have hmem : ∀ {child parent}, p.Merges m child parent → m.source ∈ p.csessions := fun hm =>
    AList.lookup_isSome.mp (Option.isSome_of_eq_some hm.sender)
  cases hcase with
  | forward => exact h.congr rfl rfl rfl (fun _ _ => rfl) rfl rfl
  | redirect => exact h.congr rfl rfl rfl (fun _ _ => rfl) rfl rfl
  | ignored => exact h.congr rfl rfl rfl (fun _ _ => rfl) rfl rfl
  | unverified => exact h.congr rfl rfl rfl (fun _ _ => rfl) rfl rfl
  | null => cases hok
  | array => cases hok
  | @last child _ hm hlen =>
    exact (h.close (q := p.merged m child) (hmem hm) hsrc (.inl rfl) rfl rfl rfl rfl
      (fun hs hl => hg hs ⟨_, _, hm⟩ hl) m.treeID).1 hlen
  | @more child _ hm hlen =>
    exact (h.close (q := p.merged m child) (hmem hm) hsrc (.inl rfl) rfl rfl rfl rfl
      (fun hs hl => hg hs ⟨_, _, hm⟩ hl) m.treeID).2 hlen

/-! What the messages do to the child sessions. -/

/-- A new child session with its `UPTO` message. -/
theorem Linked.add (h : p.Linked) {c : Uid} {tid : TreeId} {st : Stamp} {s : Session}
    (hc : c ∉ p.csessions) (hne : c ≠ NOID) (hu : p'.uptos = p.uptos ++ [(st, ⟨c, tid⟩)])
    (hst : p.seq ≤ st.seq) (hlt : st.seq < p'.seq) (hl : p'.csessions.lookup c = some s)
    (ht : s.tomsg = some st.seq)
    (ho : ∀ k ≠ c, p'.csessions.lookup k = p.csessions.lookup k) : p'.Linked := by
  refine ⟨?_, ?_, ?_, ?_⟩
  · rw [hu, List.map_append, List.nodup_append]
    refine ⟨h.nodup, by simp, ?_⟩
    intro a ha b hb
    obtain ⟨u, hmem, rfl⟩ := List.mem_map.mp ha
    obtain rfl : b = st.seq := by simpa using hb
    have := h.seq_lt u hmem
    omega
  · intro u hmem
    rw [hu] at hmem
    rcases List.mem_append.mp hmem with hmem | hmem
    · have := h.seq_lt u hmem
      omega
    · rw [List.mem_singleton.mp hmem]
      exact hlt
  · intro k s' hk hl'
    rw [hu]
    by_cases he : k = c
    · subst he
      obtain rfl : s = s' := by rw [hl] at hl'; exact Option.some.inj hl'
      exact ⟨_, List.mem_append_right _ (List.mem_singleton.mpr rfl), rfl, ht⟩
    · rw [ho k he] at hl'
      obtain ⟨u, hmem, hd, ht'⟩ := h.child k s' hk hl'
      exact ⟨u, List.mem_append_left _ hmem, hd, ht'⟩
  · intro u hmem
    rw [hu] at hmem
    rcases List.mem_append.mp hmem with hmem | hmem
    · obtain ⟨hk, s', hl', ht'⟩ := h.upto u hmem
      have hkc : u.2.device ≠ c := fun he =>
        hc (he ▸ AList.lookup_isSome.mp (Option.isSome_of_eq_some hl'))
      exact ⟨hk, s', by rw [ho _ hkc]; exact hl', ht'⟩
    · rw [List.mem_singleton.mp hmem]
      exact ⟨hne, s, hl, ht⟩

theorem Linked.accept (h : p.Linked) {m : CommitResp} {parent : Session} (hsrc : m.source ≠ NOID)
    (hnew : m.source ∉ p.csessions) (hp : p.psessions.second = some parent) :
    ((p.admitChild m).sendCommitAck m.source m.treeID (childSession m)).Linked := by
  rw [sendCommitAck_of_some (p := p.admitChild m) m.treeID m.source _ hp]
  refine h.add hnew hsrc rfl (Nat.le_succ _) (Nat.lt_succ_self _) (AList.lookup_insert _) rfl ?_
  intro k hk
  exact (AList.lookup_insert_ne hk).trans (AList.lookup_insert_ne hk)

theorem Linked.merge (h : p.Linked) {m : UpdateReq} {child : Session} (hsrc : m.source ≠ NOID)
    (hl : p.csessions.lookup m.source = some child) : (p.merged m child).Linked := by
  obtain ⟨u, hu, hd, ht⟩ := h.child _ _ hsrc hl
  refine h.remove hu rfl ?_ (h.nodup.sublist (List.filter_sublist.map _)) (by rw [hd]; rfl)
  intro v
  show v ∈ p.uptos.filter _ ↔ _
  rw [List.mem_filter, ht, decide_eq_true_eq, ne_eq, Option.some.injEq]
  exact and_congr_right fun _ => not_congr eq_comm

theorem Linked.recv (h : p.Linked) (c : Choice) {m : Msg} (hf : p.fault = none)
    (hsrc : m.source ≠ NOID) (hok : (p.onRecv m c).fault = none) : (p.onRecv m c).Linked := by
  have hsame : ∀ {q : Prover}, q.uptos = p.uptos → q.csessions = p.csessions → q.seq = p.seq →
      q.Linked := fun hu hc hs => h.congr hu hs.ge fun _ _ => by rw [hc]
  cases m with
  | commitReq m =>
    change (p.handleCommitReq m).fault = none at hok
    change (p.handleCommitReq m).Linked
    rcases handleCommitReq_cases (p := p) m with he | ⟨sess, -, he⟩
    · rw [he]; exact h
    · rw [he] at hok ⊢
      cases hk : p.timers .cacktomsg with
      | some s =>
        have hno := (sendCommitResp_of_some (p := { p with psessions := ⟨m.source, some sess⟩ })
          m.treeID sess m.source hk).1
        rw [hno] at hok
        cases hok
      | none =>
        rw [sendCommitResp_of_none (p := { p with psessions := ⟨m.source, some sess⟩ }) _ _ _ hk]
        exact h.congr rfl (Nat.le_add_right _ _) fun _ _ => rfl
  | commitResp m =>
    have hcase := handleCommitResp_cases hf m
    rw [show p.handleCommitResp m = p.onRecv (.commitResp m) c from rfl] at hcase
    generalize p.onRecv (.commitResp m) c = p' at hok hcase ⊢
    cases hcase with
    | ignored => exact h
    | unverified => exact hsame rfl rfl rfl
    | null _ _ hnull => rw [hnull] at hok; cases hok
    | more ha hp he => rw [he]; exact h.accept hsrc ha.new hp
    | full ha hp he =>
      rw [he]
      exact (h.accept hsrc ha.new hp).congr rfl (Nat.le_refl _) fun _ _ => rfl
  | commitAck m =>
    have hcase := handleCommitAck_cases (p := p) c m
    rw [show p.handleCommitAck c m = p.onRecv (.commitAck m) c from rfl] at hcase
    generalize p.onRecv (.commitAck m) c = p' at hok hcase ⊢
    cases hcase with
    | ignored => exact h
    | unverified => exact hsame rfl rfl rfl
    | null => cases hok
    | @leaf parent ha _ =>
      have hq : { (p.queueMacDelay (.commitAck m)).validateParent parent with
        status := .FINISHED }.Linked := hsame rfl rfl rfl
      exact hq.sendUpReq _ rfl
    | @inner parent ha _ =>
      have hq : { (p.queueMacDelay (.commitAck m)).validateParent parent with
        status := .CREATING }.Linked := hsame rfl rfl rfl
      exact hq.sendCommitReq _ _ hf hok
  | updateReq m =>
    have hcase := handleUpReq_cases (p := p) m
    rw [show p.handleUpReq m = p.onRecv (.updateReq m) c from rfl] at hcase
    generalize p.onRecv (.updateReq m) c = p' at hok hcase ⊢
    cases hcase with
    | forward => exact hsame rfl rfl rfl
    | redirect => exact hsame rfl rfl rfl
    | ignored => exact hsame rfl rfl rfl
    | unverified => exact hsame rfl rfl rfl
    | null => cases hok
    | array => cases hok
    | last hm _ => exact (h.merge hsrc hm.sender).sendUpReq _ (Option.isSome_of_eq_some hm.second)
    | more hm _ => exact h.merge hsrc hm.sender

theorem Idle.recv (h : p.Idle) (c : Choice) {m : Msg} (hf : p.fault = none)
    (hsrc : m.source ≠ NOID) : (p.onRecv m c).Idle := by
  have hsame : ∀ {q : Prover}, q.status = p.status → q.psessions = p.psessions →
      q.csessions = p.csessions → q.timers = p.timers → q.uptos = p.uptos →
      (∀ y ∈ q.log, y ∈ p.log ∨ Passing y) → q.Idle := fun hs hp hc ht =>
    h.congr hs hp hc fun _ _ => by rw [ht]
  have hst : ∀ {st}, p.status = st → st ≠ .FINISHED → False := fun h1 h2 =>
    h2 (h1.symm.trans h.status)
  have hfirst : p.psessions.first = NOID := by rw [h.sessions.parent]
  cases m with
  | commitReq m =>
    change (p.handleCommitReq m).Idle
    rcases handleCommitReq_cases (p := p) m with he | ⟨_, ⟨hr, -⟩, -⟩
    · rw [he]; exact h
    · exact (hst hr (by decide)).elim
  | commitResp m =>
    have hcase := handleCommitResp_cases hf m
    rw [show p.handleCommitResp m = p.onRecv (.commitResp m) c from rfl] at hcase
    generalize p.onRecv (.commitResp m) c = p' at hcase ⊢
    cases hcase with
    | ignored => exact h
    | unverified => exact hsame rfl rfl rfl rfl rfl fun _ => .inl
    | null ha => exact (hst ha.status (by decide)).elim
    | more ha => exact (hst ha.status (by decide)).elim
    | full ha => exact (hst ha.status (by decide)).elim
  | commitAck m =>
    have hcase := handleCommitAck_cases (p := p) c m
    rw [show p.handleCommitAck c m = p.onRecv (.commitAck m) c from rfl] at hcase
    generalize p.onRecv (.commitAck m) c = p' at hcase ⊢
    cases hcase with
    | ignored => exact h
    | unverified => exact hsame rfl rfl rfl rfl rfl fun _ => .inl
    | null he => exact absurd (he.symm.trans hfirst) hsrc
    | leaf ha => exact absurd (ha.source.symm.trans hfirst) hsrc
    | inner ha => exact absurd (ha.source.symm.trans hfirst) hsrc
  | updateReq m =>
    have hcase := handleUpReq_cases (p := p) m
    rw [show p.handleUpReq m = p.onRecv (.updateReq m) c from rfl] at hcase
    generalize p.onRecv (.updateReq m) c = p' at hcase ⊢
    have hbusy : ¬ (p.status = .COLLECTING ∨ p.status = .CREATING) := fun hs =>
      hs.elim (hst · (by decide)) (hst · (by decide))
    cases hcase with
    | forward => exact hsame rfl rfl rfl rfl rfl (by simp +contextual [record, sendCollector, Passing])
    | redirect => exact hsame rfl rfl rfl rfl rfl (by simp +contextual [record, sendCollector, Passing])
    | ignored => exact hsame rfl rfl rfl rfl rfl (by simp +contextual [record, Passing])
    | unverified _ hs => exact absurd hs hbusy
    | null _ hs => exact absurd hs hbusy
    | array hs => exact absurd hs hbusy
    | last hm => exact absurd hm.status hbusy
    | more hm => exact absurd hm.status hbusy

/-! ## Steps and runs -/

/-- Only `startmsg` is scheduled before the first attestation. -/
theorem Once.active (h : p.Once g) {t : Timer} {s : Stamp} (hne : t ≠ .startmsg)
    (ht : p.timers t = some s) : .start ∈ p.log ∧ p.Active g := by
  refine h.phase.resolve_left fun hi => ?_
  rw [hi.timers t hne] at ht
  cases ht

theorem Once.timer (h : p.Once g) {t : Timer} {c : Choice} {s : Stamp} {time : Nat}
    (hf : p.fault = none) (ht : p.timers t = some s) (hn : p.Next s time)
    (hst : StartsAttestation (.timer t c) → .start ∉ p.log)
    (hok : ((p.cancelEvent t).onTimer t c).fault = none) :
    ((p.cancelEvent t).onTimer t c).Once g := by
  have hlink : (p.cancelEvent t).Linked := h.linked.congr rfl (Nat.le_refl _) fun _ _ => rfl
  have hlog : .start ∈ p.log → .start ∈ ((p.cancelEvent t).onTimer t c).log := fun hl =>
    (log_onTimer (p := p.cancelEvent t) c t hf).mem hl
  cases t with
  | startmsg => exact h.startAttestation c hf (hst trivial) hok
  | attesttimer => exact h.startAttestation c hf (hst trivial) hok
  | checkdelaymsg =>
    obtain ⟨hl, ha⟩ := h.active (by decide) ht
    exact ⟨hlink.congr rfl (Nat.le_refl _) fun _ _ => rfl, .inr ⟨hl, ha.check ht⟩⟩
  | mktreetimer =>
    obtain ⟨hl, ha⟩ := h.active (by decide) ht
    exact ⟨hlink.sendCommitReq c NOID hf hok, .inr ⟨hlog hl, ha.mktree c hf ht hn hok⟩⟩
  | creqmsg =>
    obtain ⟨hl, ha⟩ := h.active (by decide) ht
    refine ⟨hlink.congr rfl (Nat.le_refl _) fun _ _ => rfl, .inr ⟨hl, ?_⟩⟩
    refine ha.congr rfl rfl rfl (fun t ht => ?_) rfl rfl
    rcases ht with rfl | rfl | rfl | rfl <;> simp [onTimer, cancelEvent]
  | cacktomsg =>
    obtain ⟨hl, ha⟩ := h.active (by decide) ht
    exact ⟨hlink.ackTimeOut c hf hok, .inr ⟨hlog hl, ha.cackto c hf ht hok⟩⟩
  | cresptomsg =>
    obtain ⟨hl, ha⟩ := h.active (by decide) ht
    exact ⟨hlink.respTimeOut fun _ hc => (ha.opened hc).1.second, .inr ⟨hlog hl, ha.crespto ht⟩⟩

theorem Once.upto (h : p.Once g) {u : Stamp × CommitTimeOut} {k : Nat}
    (hu : p.uptos.find? (·.1.seq = k) = some u)
    (hg : p.status = .CREATING → (p.csessions.erase u.2.device).keys.length = 1 → g) :
    ((p.popUpto k).handleUpdateTimeOut u.2).Once g := by
  have hmem : u ∈ p.uptos := List.mem_of_find?_eq_some hu
  have hk : u.1.seq = k := by simpa using List.find?_some hu
  obtain ⟨hne, s, hl, -⟩ := h.linked.upto u hmem
  have hc : u.2.device ∈ p.csessions := AList.lookup_isSome.mp (Option.isSome_of_eq_some hl)
  obtain ⟨hlog, ha⟩ : .start ∈ p.log ∧ p.Active g := by
    refine h.phase.resolve_left fun hi => ?_
    exact not_mem_of_keys_nil hi.sessions.children _ hc
  have hq : ((p.popUpto k).timedOut u.2).Linked := by
    refine h.linked.remove hmem rfl ?_ (h.linked.nodup.sublist (List.filter_sublist.map _)) rfl
    intro v
    show v ∈ p.uptos.filter _ ↔ _
    rw [List.mem_filter, decide_eq_true_eq, hk]
  have hlog' : .start ∈ ((p.popUpto k).timedOut u.2).log := List.mem_cons_of_mem _ hlog
  by_cases hlen : (p.csessions.erase u.2.device).keys.length = 1
  · rw [handleUpdateTimeOut_last (p := p.popUpto k) hlen]
    have hfin : { (p.popUpto k).timedOut u.2 with status := .FINISHED }.Linked :=
      hq.congr rfl (Nat.le_refl _) fun _ _ => rfl
    have hcl := ha.close (q := { (p.popUpto k).timedOut u.2 with status := .FINISHED }) hc hne
      (.inr hlen) rfl rfl rfl rfl hg u.2.treeID
    refine ⟨hfin.sendUpReq _ (ha.opened hc).1.second, .inr ⟨?_, hcl.1 hlen⟩⟩
    rw [sendUpReq_log]
    exact List.mem_cons_of_mem _ hlog'
  · rw [handleUpdateTimeOut_more (p := p.popUpto k) hlen]
    have hcl := ha.close (q := (p.popUpto k).timedOut u.2) hc hne (.inl rfl) rfl rfl rfl rfl hg
      u.2.treeID
    exact ⟨hq, .inr ⟨hlog', hcl.2 hlen⟩⟩

theorem Once.recv (h : p.Once g) (c : Choice) {m : Msg} (hf : p.fault = none)
    (hsrc : m.source ≠ NOID)
    (hg : p.status = .CREATING → ∀ m', m = .updateReq m' →
      (∃ child parent, p.Merges m' child parent) → (p.csessions.erase m'.source).keys.length = 1 → g)
    (hok : (p.onRecv m c).fault = none) : (p.onRecv m c).Once g := by
  refine ⟨h.linked.recv c hf hsrc hok, ?_⟩
  rcases h.phase with hi | ⟨hl, ha⟩
  · exact .inl (hi.recv c hf hsrc)
  refine .inr ⟨(log_onRecv c m hf).mem hl, ?_⟩
  cases m with
  | commitReq m => exact ha.commitReq hsrc
  | commitResp m => exact ha.commitResp hf hsrc hok
  | commitAck m => exact ha.commitAck c hf hsrc hok
  | updateReq m => exact ha.upReq hsrc (fun hs => hg hs m rfl) hok

/-- A prover that becomes a leaf has not broadcast. -/
theorem Once.of_leaf (h : p.Once g) {m : CommitAck} {parent : Session} (ha : p.Acked m parent)
    (hsrc : m.source ≠ NOID) (hl : p.Leaf parent) :
    p.status ≠ .CREATING ∧ p.csessions.keys = [] := by
  have hfirst : p.psessions.first ≠ NOID := by rw [ha.source]; exact hsrc
  have hnone : ¬ p.NoSessions := fun hn => hfirst (by rw [hn.parent])
  have hinner : ¬ p.Opened := fun ho =>
    hl.elim (ho.depth hfirst _ ha.second) ho.maxchildren
  rcases h.phase with hi | ⟨-, ha⟩
  · exact absurd hi.sessions hnone
  cases ha with
  | attesting hs hans => exact ⟨by rw [hs]; nofun, hans.children⟩
  | attestingCreating hs hans => exact ⟨by rw [hs]; nofun, hans.children⟩
  | creating _ ho => exact absurd ho hinner
  | collecting _ ho => exact absurd ho hinner
  | checking _ hn => exact absurd hn hnone
  | ready _ hn => exact absurd hn hnone
  | done _ hn => exact absurd hn hnone
  | ghost _ _ hn => exact absurd hn hnone

/-- **One event keeps the invariant**, as long as the prover lives. -/
theorem Once.step {e : Event} (h : p.Once g) (hok : OnceOk e p) (hg : p.ClosesEarly e → g)
    (hs : Prover.step e p = some p') (hf' : p'.fault = none) (hcr' : p'.crashed = false) :
    p'.Once g := by
  have hnow : (p.atTime e.time).Once g :=
    h.congr rfl rfl rfl rfl rfl rfl rfl (Nat.le_refl _) rfl
  obtain ⟨hf, -, ⟨-, _, _, _, _, -, rfl⟩ | ⟨-, hlive⟩⟩ := step_cases hs
  · cases hcr'
  cases hlive with
  | timer hact ht hn => exact hnow.timer hf ht hn (fun h => hok.1 (hact ▸ h)) hf'
  | upto hact hu => exact hnow.upto hu fun hs hl => hg ⟨hs, .inr ⟨_, _, hact, hu, hl⟩⟩
  | self hact ho =>
    obtain ⟨out, he⟩ := onSelf_eq (p := (p.atTime e.time).popOutbox _) _ _
    rw [he]
    exact h.congr rfl rfl rfl rfl rfl rfl rfl (Nat.le_refl _) rfl
  | @recv m c hact =>
    have hsrc : m.source ≠ NOID := by
      have := hok.2
      rwa [hact] at this
    refine hnow.recv c hf hsrc (fun hs m' hm ⟨child, parent, hmer⟩ hl => ?_) hf'
    have hmer' : p.Merges m' child parent := { hmer with }
    exact hg ⟨hs, .inl ⟨m', c, by rw [hact, hm], ⟨child, parent, hmer'⟩, hl⟩⟩

end

theorem idle_init (cfg : Config) (start : Nat) : (init cfg start).Idle :=
  ⟨rfl, ⟨rfl, rfl⟩, fun _ hne => if_neg hne, rfl, nofun⟩

/-- The invariant holds before the first event. -/
theorem once_init (g : Prop) (cfg : Config) (start : Nat) : (init cfg start).Once g :=
  ⟨linked_nil rfl rfl, .inl (idle_init cfg start)⟩

/-- **Every run with one attestation**, with ghosts. -/
theorem once_of_reaches {cfg : Config} {start : Nat} {p : Prover}
    (h : Runs.Reaches step OnceOk (init cfg start) p) : Alive (Once True) p := by
  refine h.invariant (fun _ _ => once_init True cfg start) ?_
  intro e p p' ih hok hs hf' hc'
  obtain ⟨hf, hc⟩ := step_alive hs hc'
  exact (ih hf hc).step hok (fun _ => trivial) hs hf' hc'

/-- No child session is closed too early. -/
def OrderlyOk (e : Event) (p : Prover) : Prop := OnceOk e p ∧ ¬ p.ClosesEarly e

/-- **Every orderly run with one attestation**, without ghosts. -/
theorem once_of_orderly {cfg : Config} {start : Nat} {p : Prover}
    (h : Runs.Reaches step OrderlyOk (init cfg start) p) : Alive (Once False) p := by
  refine h.invariant (fun _ _ => once_init False cfg start) ?_
  intro e p p' ih hok hs hf' hc'
  obtain ⟨hf, hc⟩ := step_alive hs hc'
  exact (ih hf hc).step hok.1 hok.2 hs hf' hc'

end Prover

end Fadia
