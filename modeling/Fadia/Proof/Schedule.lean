import Fadia.Proof.ProverSteps

/-!
# The schedule of a prover

`Adds a b` says what a handler does to a schedule: it may take out what is there,
and what it puts in is due from now on and has a later place than all that came
before.  The two timers of the rounds stay in.  Every handler does so (`adds_onTimer`,
`adds_onRecv` and their like), so in every run what is scheduled is due from now on
and has a place of its own (`Ordered`, `ordered_step`), and the event queue has a
next event for a prover that waits for one (`exists_next`).
-/

namespace Fadia

/-- The timers that start a round. -/
def Timer.Outer (t : Timer) : Prop := t = .startmsg ∨ t = .attesttimer

instance : DecidablePred Timer.Outer := fun _ => inferInstanceAs (Decidable (_ ∨ _))

/-- What a prover has scheduled. -/
structure Schedule where
  now : Nat
  seq : Nat
  timers : Timer → Option Stamp
  uptos : List (Stamp × CommitTimeOut)
  outbox : List (Stamp × Msg)

def Prover.schedule (p : Prover) : Schedule := ⟨p.now, p.seq, p.timers, p.uptos, p.outbox⟩

namespace Schedule

variable {a b c : Schedule} {α : Type}

/-- The stamp is handed out between `a` and `b`. -/
def New (a b : Schedule) (s : Stamp) : Prop := a.now ≤ s.due ∧ a.seq ≤ s.seq ∧ s.seq < b.seq

/-- What is left of `l` and of what is put in between `a` and `b`. -/
def Grown (a b : Schedule) (l l' : List (Stamp × α)) : Prop :=
  ∃ new, l'.Sublist (l ++ new) ∧ (∀ x ∈ new, New a b x.1) ∧
    new.Pairwise fun x y => x.1.seq < y.1.seq

structure Adds (a b : Schedule) : Prop where
  now : b.now = a.now
  seq : a.seq ≤ b.seq
  timer : ∀ t s, b.timers t = some s → a.timers t = some s ∨ New a b s
  keep : ∀ t s, t.Outer → a.timers t = some s → b.timers t = some s
  upto : Grown a b a.uptos b.uptos
  outbox : Grown a b a.outbox b.outbox

theorem New.mono {s : Stamp} (h : New b c s) (hn : b.now = a.now) (hs : a.seq ≤ b.seq) :
    New a c s :=
  ⟨hn ▸ h.1, Nat.le_trans hs h.2.1, h.2.2⟩

theorem New.le {s : Stamp} (h : New a b s) (hs : b.seq ≤ c.seq) : New a c s :=
  ⟨h.1, h.2.1, Nat.lt_of_lt_of_le h.2.2 hs⟩

theorem Grown.of_sublist {l l' : List (Stamp × α)} (h : l'.Sublist l) : Grown a b l l' :=
  ⟨[], by rw [List.append_nil]; exact h, by simp, .nil⟩

theorem Grown.concat {l : List (Stamp × α)} {x : Stamp × α} (h : New a b x.1) :
    Grown a b l (l ++ [x]) :=
  ⟨[x], List.Sublist.refl _, by simpa using h, List.pairwise_singleton _ _⟩

theorem Grown.mem {l l' : List (Stamp × α)} (h : Grown a b l l') {x : Stamp × α} (hx : x ∈ l') :
    x ∈ l ∨ New a b x.1 := by
  obtain ⟨new, hsub, hnew, -⟩ := h
  exact (List.mem_append.mp (hsub.subset hx)).imp_right (hnew x)

/-- Only events are taken out. -/
theorem Adds.of_pops (hn : b.now = a.now) (hs : a.seq ≤ b.seq)
    (ht : ∀ t, ¬ t.Outer ∧ b.timers t = none ∨ b.timers t = a.timers t)
    (hu : b.uptos.Sublist a.uptos) (ho : b.outbox.Sublist a.outbox) : Adds a b := by
  refine ⟨hn, hs, fun t s hb => .inl ?_, fun t s hout ha => ?_, .of_sublist hu, .of_sublist ho⟩
  · rcases ht t with ⟨-, h⟩ | h
    · rw [h] at hb
      cases hb
    · rw [← h, hb]
  · rcases ht t with ⟨hno, -⟩ | h
    · exact absurd hout hno
    · rw [h, ha]

theorem Adds.refl (a : Schedule) : Adds a a :=
  .of_pops rfl (Nat.le_refl _) (fun _ => .inr rfl) (List.Sublist.refl _) (List.Sublist.refl _)

theorem Adds.trans (h : Adds a b) (h' : Adds b c) : Adds a c := by
  have hgrown : ∀ {β : Type} {l l' l'' : List (Stamp × β)}, Grown a b l l' → Grown b c l' l'' →
      Grown a c l l'' := by
    rintro β l l' l'' ⟨n, hsub, hn, hp⟩ ⟨n', hsub', hn', hp'⟩
    refine ⟨n ++ n', ?_, ?_, ?_⟩
    · rw [← List.append_assoc]
      exact hsub'.trans (hsub.append (List.Sublist.refl _))
    · intro x hx
      rcases List.mem_append.mp hx with hx | hx
      · exact (hn x hx).le h'.seq
      · exact (hn' x hx).mono h.now h.seq
    · refine List.pairwise_append.mpr ⟨hp, hp', fun x hx y hy => ?_⟩
      exact Nat.lt_of_lt_of_le (hn x hx).2.2 (hn' y hy).2.1
  refine ⟨h'.now.trans h.now, h.seq.trans h'.seq, ?_,
    fun t s ho ha => h'.keep t s ho (h.keep t s ho ha), hgrown h.upto h'.upto,
    hgrown h.outbox h'.outbox⟩
  intro t s ht
  rcases h'.timer t s ht with hb | hnew
  · exact (h.timer t s hb).imp_right fun hnew => hnew.le h'.seq
  · exact .inr (hnew.mono h.now h.seq)

/-- The event queue is in order: nothing is overdue, and every place is taken once. -/
structure Ordered (a : Schedule) : Prop where
  timer : ∀ t s, a.timers t = some s → a.now ≤ s.due ∧ s.seq < a.seq
  upto : ∀ u ∈ a.uptos, a.now ≤ u.1.due ∧ u.1.seq < a.seq
  outbox : ∀ o ∈ a.outbox, a.now ≤ o.1.due ∧ o.1.seq < a.seq
  uptos : a.uptos.Pairwise fun x y => x.1.seq < y.1.seq
  out : a.outbox.Pairwise fun x y => x.1.seq < y.1.seq

theorem Ordered.adds (h : Ordered a) (hab : Adds a b) : Ordered b := by
  have hnew : ∀ {s}, New a b s → b.now ≤ s.due ∧ s.seq < b.seq := fun h => ⟨hab.now ▸ h.1, h.2.2⟩
  have hold : ∀ {s : Stamp}, a.now ≤ s.due ∧ s.seq < a.seq → b.now ≤ s.due ∧ s.seq < b.seq :=
    fun h => ⟨hab.now ▸ h.1, Nat.lt_of_lt_of_le h.2 hab.seq⟩
  have hpair : ∀ {β : Type} {l l' : List (Stamp × β)}, Grown a b l l' →
      (∀ x ∈ l, a.now ≤ x.1.due ∧ x.1.seq < a.seq) →
      l.Pairwise (fun x y => x.1.seq < y.1.seq) → l'.Pairwise fun x y => x.1.seq < y.1.seq := by
    rintro β l l' ⟨n, hsub, hn, hp⟩ hl hlp
    refine List.Pairwise.sublist hsub (List.pairwise_append.mpr ⟨hlp, hp, fun x hx y hy => ?_⟩)
    exact Nat.lt_of_lt_of_le (hl x hx).2 (hn y hy).2.1
  refine ⟨?_, ?_, ?_, hpair hab.upto h.upto h.uptos, hpair hab.outbox h.outbox h.out⟩
  · intro t s ht
    exact (hab.timer t s ht).elim (fun ha => hold (h.timer t s ha)) hnew
  · intro u hu
    exact (hab.upto.mem hu).elim (fun ha => hold (h.upto u ha)) hnew
  · intro o ho
    exact (hab.outbox.mem ho).elim (fun ha => hold (h.outbox o ha)) hnew

end Schedule

namespace Prover

open Schedule

variable {p p' : Prover}

/-! ## The handlers -/

theorem adds_of_eq (h : p'.schedule = p.schedule) : Adds p.schedule p'.schedule :=
  h ▸ Adds.refl _

theorem adds_scheduleAt (t : Timer) (d : Nat) (p : Prover) :
    Adds p.schedule (p.scheduleAt t d).schedule := by
  cases ht : p.timers t with
  | some s =>
    rw [scheduleAt_of_some d ht]
    exact adds_of_eq rfl
  | none =>
    rw [scheduleAt_of_none d ht]
    refine ⟨rfl, Nat.le_succ _, fun t' s hs => ?_, fun t' s _ hs => ?_,
      .of_sublist (List.Sublist.refl _), .of_sublist (List.Sublist.refl _)⟩
    · simp only [schedule, Function.update_apply] at hs ⊢
      split at hs
      · obtain rfl := Option.some.inj hs
        exact .inr ⟨Nat.le_add_right _ _, Nat.le_refl _, Nat.lt_succ_self _⟩
      · exact .inl hs
    · simp only [schedule, Function.update_apply] at hs ⊢
      split
      · next he =>
        rw [he, ht] at hs
        cases hs
      · exact hs

theorem adds_cancelEvent {t : Timer} (hno : ¬ t.Outer) (p : Prover) :
    Adds p.schedule (p.cancelEvent t).schedule := by
  refine .of_pops rfl (Nat.le_refl _) (fun t' => ?_) (List.Sublist.refl _) (List.Sublist.refl _)
  simp only [schedule, cancelEvent, Function.update_apply]
  split
  · next he => exact .inl ⟨he ▸ hno, rfl⟩
  · exact .inr rfl

theorem adds_prepare (m : Msg) (p : Prover) : Adds p.schedule (p.prepare m).schedule :=
  ⟨rfl, Nat.le_succ _, fun _ _ h => .inl h, fun _ _ _ h => h, .of_sublist (List.Sublist.refl _),
    .concat ⟨Nat.le_add_right _ _, Nat.le_refl _, Nat.lt_succ_self _⟩⟩

theorem adds_andThen {f : Prover → Prover} (hf : ∀ q : Prover, Adds q.schedule (f q).schedule)
    (p : Prover) : Adds p.schedule (p.andThen f).schedule := by
  unfold andThen
  split
  · exact Adds.refl _
  · exact hf p

theorem adds_sendUpReq (tid : TreeId) (p : Prover) :
    Adds p.schedule (p.sendUpReq tid).schedule := by
  cases hs : p.psessions.second with
  | none =>
    have h : (p.sendUpReq tid).schedule = p.schedule := by simp [sendUpReq, hs, fail, schedule]
    exact adds_of_eq h
  | some parent =>
    rw [sendUpReq_of_some tid hs]
    exact adds_prepare (.updateReq (p.reportMsg tid parent)) p

theorem adds_broadcast (depth : Nat) (tid : TreeId) (p : Prover) :
    Adds p.schedule (p.broadcastCommitReq depth tid).schedule := by
  let q := { p with status := .CREATING, creqDepth := depth, creqTreeID := tid }
  refine (adds_scheduleAt .creqmsg 0 q).trans (adds_andThen (fun q => ?_) _)
  exact (adds_cancelEvent (t := .cresptomsg) (by decide) q).trans (adds_scheduleAt .cresptomsg timeoutresp
    ({ q.record .broadcast with
      csessions := q.csessions.insert NOID { treeID := tid }
      crespTreeID := tid }.cancelEvent .cresptomsg))

theorem adds_sendCommitReq (c : Choice) (tid : TreeId) (p : Prover) :
    Adds p.schedule (p.sendCommitReq c tid).schedule := by
  unfold sendCommitReq
  split
  · exact adds_of_eq rfl
  · split
    · exact adds_sendUpReq c.treeID (p.startTree c.treeID)
    · split
      · exact adds_broadcast _ _ (p.startTree c.treeID)
      · split
        · exact adds_of_eq rfl
        · exact adds_broadcast _ _ (p.record _)

theorem adds_sendCommitResp (target : Uid) (tid : TreeId) (parent : Session) (p : Prover) :
    Adds p.schedule (p.sendCommitResp target tid parent).schedule := by
  let q := { p with status := .ATTESTING }
  let r := q.prepare (.commitResp
    ⟨p.cfg.UId, target, parent.keyID, tid, generateMAC parent.keyID, parent.keyID⟩)
  exact (adds_prepare _ q).trans (adds_scheduleAt .cacktomsg timeoutack
    { r with cackto := ⟨target, tid⟩ })

theorem adds_sendCommitAck (target : Uid) (tid : TreeId) (child : Session) (p : Prover) :
    Adds p.schedule (p.sendCommitAck target tid child).schedule := by
  let r := p.prepare (.commitAck
    ⟨p.cfg.UId, target, tid, generateMAC child.keyID, child.keyID⟩)
  refine (adds_prepare _ p : Adds p.schedule r.schedule).trans ?_
  unfold sendCommitAck
  dsimp only
  split
  · exact adds_of_eq rfl
  · exact ⟨rfl, Nat.le_succ _, fun _ _ h => .inl h, fun _ _ _ h => h,
      .concat ⟨Nat.le_add_right _ _, Nat.le_refl _, Nat.lt_succ_self _⟩,
      .of_sublist (List.Sublist.refl _)⟩

theorem adds_startAttestation (c : Choice) (p : Prover) :
    Adds p.schedule (p.startAttestation c).schedule := by
  unfold startAttestation
  dsimp only
  refine ((adds_scheduleAt .attesttimer p.cfg.deltah { p with
    status := .CHECKING
    csessions := ∅
    psessions := {}
    aggreport := { p.aggreport with uids := [], counters := [], proofs := [] }
    maxchildren := c.maxchildren
    log := .start :: p.log }).trans (adds_andThen (fun q => ?_) _)).trans
      (adds_andThen (fun q => ?_) _)
  · exact adds_scheduleAt _ _ q
  · exact adds_scheduleAt _ _ q

theorem adds_handleCommitReq (m : CommitReq) (p : Prover) :
    Adds p.schedule (p.handleCommitReq m).schedule := by
  rcases handleCommitReq_cases (p := p) m with he | ⟨sess, -, he⟩
  · rw [he]
    exact Adds.refl _
  · rw [he]
    exact adds_sendCommitResp _ _ _ { p with psessions := ⟨m.source, some sess⟩ }

theorem adds_handleCommitAck (c : Choice) (m : CommitAck) (p : Prover) :
    Adds p.schedule (p.handleCommitAck c m).schedule := by
  have hcancel : ∀ parent, Adds p.schedule ((p.queueMacDelay (.commitAck m)).validateParent
      parent).schedule := fun parent =>
    (adds_cancelEvent (t := .mktreetimer) (by decide) p).trans
      (adds_cancelEvent (t := .cacktomsg) (by decide) (p.cancelEvent .mktreetimer))
  have hcase := handleCommitAck_cases (p := p) c m
  generalize p.handleCommitAck c m = p' at hcase ⊢
  cases hcase with
  | ignored => exact Adds.refl _
  | unverified => exact adds_of_eq rfl
  | null => exact adds_of_eq rfl
  | @leaf parent =>
    exact (hcancel parent).trans (adds_sendUpReq _
      { (p.queueMacDelay (.commitAck m)).validateParent parent with status := .FINISHED })
  | @inner parent =>
    exact (hcancel parent).trans (adds_sendCommitReq _ _
      { (p.queueMacDelay (.commitAck m)).validateParent parent with status := .CREATING })

theorem adds_handleCommitAckTimeOut (c : Choice) (p : Prover) :
    Adds p.schedule (p.handleCommitAckTimeOut c).schedule := by
  unfold handleCommitAckTimeOut
  split
  · exact Adds.refl _
  · dsimp only
    split
    · exact adds_sendCommitReq c NOID { p with psessions := {}, status := .CREATING }
    · exact adds_of_eq rfl

theorem adds_handleCommitRespTimeOut (p : Prover) :
    Adds p.schedule p.handleCommitRespTimeOut.schedule := by
  unfold handleCommitRespTimeOut
  dsimp only
  split
  · exact adds_sendUpReq _ p.closeWindow
  · exact adds_of_eq rfl

theorem adds_handleCommitResp (m : CommitResp) (hf : p.fault = none) :
    Adds p.schedule (p.handleCommitResp m).schedule := by
  have hack : Adds p.schedule ((p.admitChild m).sendCommitAck m.source m.treeID
      (childSession m)).schedule := adds_sendCommitAck _ _ _ (p.admitChild m)
  have hcase := handleCommitResp_cases hf m
  generalize p.handleCommitResp m = p' at hcase ⊢
  cases hcase with
  | ignored => exact Adds.refl _
  | unverified => exact adds_of_eq rfl
  | null _ _ _ _ he => rw [he]; exact hack
  | more _ _ he => rw [he]; exact hack
  | full _ _ he =>
    rw [← he] at hack
    exact hack.trans (adds_cancelEvent (by decide) _)

theorem adds_handleUpdateTimeOut (u : CommitTimeOut) (p : Prover) :
    Adds p.schedule (p.handleUpdateTimeOut u).schedule := by
  unfold handleUpdateTimeOut
  dsimp only
  split
  · exact adds_sendUpReq _ { (p.record (.upTimeOut u.device)).dropSession u.device with
      status := .FINISHED }
  · exact adds_of_eq rfl

theorem adds_handleUpReq (m : UpdateReq) (p : Prover) :
    Adds p.schedule (p.handleUpReq m).schedule := by
  have hmerged : ∀ child, Adds p.schedule (p.merged m child).schedule := fun child =>
    .of_pops rfl (Nat.le_refl _) (fun _ => .inr rfl) List.filter_sublist (List.Sublist.refl _)
  have hcase := handleUpReq_cases (p := p) m
  generalize p.handleUpReq m = p' at hcase ⊢
  cases hcase with
  | forward => exact adds_of_eq rfl
  | redirect => exact adds_of_eq rfl
  | ignored => exact adds_of_eq rfl
  | unverified => exact adds_of_eq rfl
  | null => exact adds_of_eq rfl
  | array => exact adds_of_eq rfl
  | last => exact (hmerged _).trans (adds_sendUpReq _ _)
  | more => exact hmerged _

theorem adds_onTimer (t : Timer) (c : Choice) (p : Prover) :
    Adds p.schedule (p.onTimer t c).schedule := by
  cases t with
  | startmsg => exact adds_startAttestation c p
  | attesttimer => exact adds_startAttestation c p
  | checkdelaymsg => exact adds_of_eq rfl
  | mktreetimer => exact adds_sendCommitReq c NOID p
  | creqmsg => exact adds_of_eq rfl
  | cacktomsg => exact adds_handleCommitAckTimeOut c p
  | cresptomsg => exact adds_handleCommitRespTimeOut p

theorem adds_onRecv (m : Msg) (c : Choice) (hf : p.fault = none) :
    Adds p.schedule (p.onRecv m c).schedule := by
  cases m with
  | commitReq m => exact adds_handleCommitReq m p
  | commitResp m => exact adds_handleCommitResp m hf
  | commitAck m => exact adds_handleCommitAck c m p
  | updateReq m => exact adds_handleUpReq m p

theorem adds_onSelf (m : Msg) (c : Choice) (p : Prover) :
    Adds p.schedule (p.onSelf m c).schedule := by
  obtain ⟨out, he⟩ := onSelf_eq (p := p) m c
  rw [he]
  exact adds_of_eq rfl

/-! ## One event -/

theorem mem_pending {s : Stamp} : s ∈ p.pending ↔
    (∃ t, p.timers t = some s) ∨ (∃ u ∈ p.uptos, u.1 = s) ∨ ∃ o ∈ p.outbox, o.1 = s := by
  simp only [pending, List.mem_append, List.mem_filterMap, List.mem_map, Timer.mem_all, true_and]

theorem Next.noneBefore {s : Stamp} {time : Nat} (h : p.Next s time) : p.NoneBefore time := by
  intro s' hs'
  have := h.2 s' hs'
  have := h.1
  unfold Stamp.Before at *
  omega

/-- The schedule when an event is handed out at `time`, some of it taken out. -/
theorem Ordered.pop (h : Ordered p.schedule) {time : Nat} (hn : p.NoneBefore time)
    {timers : Timer → Option Stamp} {uptos : List (Stamp × CommitTimeOut)}
    {outbox : List (Stamp × Msg)} (hp : p.Pops timers uptos outbox) :
    Ordered ⟨time, p.seq, timers, uptos, outbox⟩ := by
  obtain ⟨ht, hu, ho⟩ := hp
  have htimer : ∀ {t s}, timers t = some s → p.timers t = some s := by
    intro t s hs
    rcases ht t with h | h
    · rw [h] at hs
      cases hs
    · rw [← h, hs]
  refine ⟨fun t s hs => ⟨?_, (h.timer t s (htimer hs)).2⟩, fun u hu' => ⟨?_, ?_⟩,
    fun o ho' => ⟨?_, ?_⟩, h.uptos.sublist hu, h.out.sublist ho⟩
  · exact hn s (mem_pending_timer (htimer hs))
  · exact hn _ (mem_pending_upto (hu.subset hu'))
  · exact (h.upto u (hu.subset hu')).2
  · exact hn _ (mem_pending_outbox (ho.subset ho'))
  · exact (h.outbox o (ho.subset ho')).2

theorem pops_cancelEvent (t : Timer) (p : Prover) :
    p.Pops (p.cancelEvent t).timers p.uptos p.outbox := by
  refine ⟨fun t' => ?_, List.Sublist.refl _, List.Sublist.refl _⟩
  simp only [cancelEvent, Function.update_apply]
  split
  · exact .inl rfl
  · exact .inr rfl

/-- What an event does to the schedule of a prover that lives: it is taken out, and the
handler adds to the rest. -/
theorem Live.adds {e : Event} (hf : p.fault = none) (h : p.Live e p') :
    p.NoneBefore e.time ∧ ∃ timers uptos outbox, p.Pops timers uptos outbox ∧
      (∀ t, (∀ c, e.act ≠ .timer t c) → timers t = p.timers t) ∧
      Adds ⟨e.time, p.seq, timers, uptos, outbox⟩ p'.schedule := by
  cases h with
  | @timer t c _ hact _ hnext =>
    refine ⟨hnext.noneBefore, _, _, _, pops_cancelEvent t p, fun t' hno => ?_,
      adds_onTimer t c ((p.atTime e.time).cancelEvent t)⟩
    have hne : t' ≠ t := fun he => hno c (he ▸ hact)
    simp [cancelEvent, hne]
  | @upto k u _ _ hnext =>
    exact ⟨hnext.noneBefore, _, _, _, ⟨fun _ => .inr rfl, List.filter_sublist,
      List.Sublist.refl _⟩, fun _ _ => rfl, adds_handleUpdateTimeOut u.2 ((p.atTime e.time).popUpto k)⟩
  | @self k c o _ _ hnext =>
    exact ⟨hnext.noneBefore, _, _, _, ⟨fun _ => .inr rfl, List.Sublist.refl _,
      List.filter_sublist⟩, fun _ _ => rfl, adds_onSelf o.2 c ((p.atTime e.time).popOutbox k)⟩
  | @recv m c _ hnone =>
    exact ⟨hnone, _, _, _, ⟨fun _ => .inr rfl, List.Sublist.refl _, List.Sublist.refl _⟩,
      fun _ _ => rfl, adds_onRecv (p := p.atTime e.time) m c hf⟩

/-- **One event** keeps the schedule of a prover that lives in order. -/
theorem ordered_step {e : Event} (hs : step e p = some p')
    (h : Alive (fun p => Ordered p.schedule) p) : Alive (fun p => Ordered p.schedule) p' := by
  obtain ⟨hf, -, ⟨-, _, _, _, _, -, rfl⟩ | ⟨hc, hlive⟩⟩ := step_cases hs
  · exact fun _ hc => by cases hc
  · intro _ _
    obtain ⟨hnone, _, _, _, hpop, -, hadds⟩ := hlive.adds hf
    exact Ordered.adds (Ordered.pop (h hf hc) hnone hpop) hadds

/-! ## The next event -/

/-- Some stamp of a list is handed out first. -/
theorem exists_first {l : List Stamp} (h : l ≠ []) : ∃ s ∈ l, ∀ s' ∈ l, ¬ s'.Before s := by
  induction l with
  | nil => exact absurd rfl h
  | cons a l ih =>
    by_cases hl : l = []
    · refine ⟨a, List.mem_cons_self, fun s' hs' => ?_⟩
      rw [hl, List.mem_singleton] at hs'
      subst hs'
      unfold Stamp.Before
      omega
    · obtain ⟨m, hm, hmin⟩ := ih hl
      by_cases ha : a.Before m
      · refine ⟨a, List.mem_cons_self, fun s' hs' => ?_⟩
        rcases List.mem_cons.mp hs' with rfl | hs'
        · unfold Stamp.Before
          omega
        · have := hmin s' hs'
          unfold Stamp.Before at *
          omega
      · refine ⟨m, List.mem_cons_of_mem _ hm, fun s' hs' => ?_⟩
        rcases List.mem_cons.mp hs' with rfl | hs'
        · exact ha
        · exact hmin s' hs'

theorem exists_next (h : p.pending ≠ []) : ∃ s ∈ p.pending, p.Next s s.due := by
  obtain ⟨s, hs, hmin⟩ := exists_first h
  exact ⟨s, hs, rfl, hmin⟩

/-- Looking up an entry by its place. -/
theorem find?_of_mem {α : Type} {l : List (Stamp × α)} {x : Stamp × α}
    (hp : l.Pairwise fun x y => x.1.seq < y.1.seq) (hx : x ∈ l) :
    l.find? (·.1.seq = x.1.seq) = some x := by
  induction l with
  | nil => cases hx
  | cons y l ih =>
    obtain ⟨hy, hp⟩ := List.pairwise_cons.mp hp
    rcases List.mem_cons.mp hx with rfl | hx
    · exact List.find?_cons_of_pos (by simp)
    · have := hy x hx
      rw [List.find?_cons_of_neg (by simp; omega)]
      exact ih hp hx

section
variable (hf : p.fault = none) (hc : p.crashed = false)
include hf hc

theorem step_timer {t : Timer} {s : Stamp} (c : Choice) (ht : p.timers t = some s)
    (hnext : p.Next s s.due) (hnow : p.now ≤ s.due) (hd : c.delay ≤ p.cfg.deltag) :
    step ⟨s.due, .timer t c⟩ p = some (((p.atTime s.due).cancelEvent t).onTimer t c) := by
  have hlt : ¬ s.due < p.now := Nat.not_lt.mpr hnow
  have hnext' : (p.atTime s.due).Next s s.due := hnext
  simp [step, hf, hlt, atTime, ht, hd, handleMessage, cancelEvent, hc]
  exact hnext'

theorem step_upto {u : Stamp × CommitTimeOut} (ho : Ordered p.schedule) (hu : u ∈ p.uptos)
    (hnext : p.Next u.1 u.1.due) :
    step ⟨u.1.due, .upto u.1.seq⟩ p =
      some (((p.atTime u.1.due).popUpto u.1.seq).handleUpdateTimeOut u.2) := by
  have hlt : ¬ u.1.due < p.now := Nat.not_lt.mpr (ho.upto u hu).1
  have hfind := find?_of_mem ho.uptos hu
  have hnext' : (p.atTime u.1.due).Next u.1 u.1.due := hnext
  simp only [schedule] at hfind
  simp [step, hf, hlt, atTime, hfind, handleMessage, popUpto, hc]
  exact hnext'

theorem step_self {o : Stamp × Msg} (c : Choice) (ho : Ordered p.schedule) (hmem : o ∈ p.outbox)
    (hnext : p.Next o.1 o.1.due) :
    step ⟨o.1.due, .self o.1.seq c⟩ p =
      some (((p.atTime o.1.due).popOutbox o.1.seq).onSelf o.2 c) := by
  have hlt : ¬ o.1.due < p.now := Nat.not_lt.mpr (ho.outbox o hmem).1
  have hfind := find?_of_mem ho.out hmem
  have hnext' : (p.atTime o.1.due).Next o.1 o.1.due := hnext
  simp only [schedule] at hfind
  simp [step, hf, hlt, atTime, hfind, handleMessage, popOutbox, hc]
  exact hnext'

end

theorem ordered_init (cfg : Config) (start : Nat) : Ordered (init cfg start).schedule := by
  refine ⟨fun t s hs => ?_, by simp [schedule, init], by simp [schedule, init],
    by simp [schedule, init], by simp [schedule, init]⟩
  simp only [schedule, init] at hs ⊢
  split at hs
  · obtain rfl := Option.some.inj hs
    exact ⟨Nat.zero_le _, Nat.zero_lt_one⟩
  · cases hs

end Prover

end Fadia
