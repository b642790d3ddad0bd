import Fadia.Devices.CollectorApp
import Fadia.Lib.Runs

/-!
# The fields that the collector does not set

`ACollector::initialize` leaves `deltah`, `maxdepth` and `energy` unassigned.  They are read by
every `handleUpReq`, for every accepted `JoinReq` and by every transmission; all other steps
(`Spares`) go the same way whatever the fields hold (`step_fill`), so a run of such steps reads
none of them (`reads_nothing_absent`), and the first other step does.
-/

namespace Fadia

namespace CollectorApp

/-- No field was read before it was assigned. -/
def ReadsNothingAbsent (a : CollectorApp) : Prop := ∀ f, a.fault ≠ some (.absent f)

/-- Values for the three fields. -/
structure Fields where
  deltah : Option Nat := none
  maxdepth : Option Nat := none
  energy : Option Power := none

def fill (g : Fields) (a : CollectorApp) : CollectorApp :=
  { a with deltah := g.deltah, maxdepth := g.maxdepth, energy := g.energy }

section
variable (provers : List KeyHolder) (e : ServEvent) (a : CollectorApp)

/-- A message is not queued but goes on the air at once. -/
def Transmits (m : ServMsg) : Prop :=
  a.txrxstat ≠ .TRANSMITING ∧ a.chanstat ≠ .BUSY ∧ IsProver provers m.destination ∧
    e.channelBusy m.destination = false

instance (m : ServMsg) : Decidable (a.Transmits provers e m) :=
  inferInstanceAs (Decidable (_ ∧ _))

/-- The event is no report, no `JoinReq` that is accepted, and nothing goes on the air. -/
def Spares : Prop :=
  match e.act with
  | .joinReq m => m.destination ≠ a.CId ∨ a.checkMAC m (a.proverKeys m.source) = false
  | .updateReq _ => False
  | .outgoing k => ∀ m ∈ a.outbox[k]?, ¬ a.Transmits provers e m
  | .selfMsg .cbusymsg _ =>
    ∀ m ∈ a.msgqueue.head?, ¬ { a with chanstat := .CIDLE }.Transmits provers e m
  | _ => True

instance : Decidable (a.Spares provers e) :=
  match e with
  | ⟨_, _, .joinReq _⟩ => inferInstanceAs (Decidable (_ ∨ _))
  | ⟨_, _, .updateReq _⟩ => inferInstanceAs (Decidable False)
  | ⟨_, _, .outgoing k⟩ => inferInstanceAs (Decidable (∀ m ∈ a.outbox[k]?, _))
  | ⟨_, _, .selfMsg .cbusymsg _⟩ => inferInstanceAs (Decidable (∀ m ∈ a.msgqueue.head?, _))
  | ⟨_, _, .selfMsg .txmsg _⟩ | ⟨_, _, .selfMsg .entxmsg _⟩ | ⟨_, _, .selfMsg .collbusymsg _⟩
  | ⟨_, _, .revokeReq _⟩ | ⟨_, _, .procDone⟩ => inferInstanceAs (Decidable True)

end

/-- Nothing was transmitted and no report handled. -/
structure Idle (a : CollectorApp) : Prop where
  fault : a.ReadsNothingAbsent
  crashed : a.crashed = false
  failed : a.failed = false
  procendmsg : a.procendmsg = false
  txrxstat : a.txrxstat = .DIDLE
  scheduled : ∀ t, a.scheduled t = true → t = .cbusymsg

section
variable {provers : List KeyHolder} {e : ServEvent} {a a' : CollectorApp} {g : Fields}

/-- The fields as they are. -/
def fields (a : CollectorApp) : Fields := ⟨a.deltah, a.maxdepth, a.energy⟩

/-- What holds of a function that reads none of the fields. -/
structure Blind (f : CollectorApp → CollectorApp) (a : CollectorApp) : Prop where
  idle : Idle (f a)
  fill : ∀ g, f (a.fill g) = (f a).fill g

/-- `b` is what the function makes of `a`. -/
theorem Blind.of_eq {f : CollectorApp → CollectorApp} {b : CollectorApp}
    (he : ∀ g, f (a.fill g) = b.fill g) (hb : b.fields = a.fields) (h : Idle b) : Blind f a := by
  have hself : f a = b := by
    have hfill : f (a.fill b.fields) = b := he b.fields
    rw [hb] at hfill
    exact hfill
  exact ⟨hself.symm ▸ h, fun g => (he g).trans (congrArg (CollectorApp.fill g) hself.symm)⟩

theorem andThen_of_none {f : CollectorApp → CollectorApp} (h : a.fault = none) :
    a.andThen f = f a := by
  unfold andThen
  rw [h]

theorem andThen_of_some {f : CollectorApp → CollectorApp} {fault : ServFault}
    (h : a.fault = some fault) : a.andThen f = a := by
  unfold andThen
  rw [h]

theorem Idle.push (h : Idle a) (m : ServMsg) : Idle (a.push m) :=
  ⟨h.fault, h.crashed, h.failed, h.procendmsg, h.txrxstat, h.scheduled⟩

theorem Idle.fail {f : ServFault} (h : Idle a) (hf : ∀ field, f ≠ .absent field) :
    Idle (a.fail f) := by
  refine ⟨fun field he => ?_, h.crashed, h.failed, h.procendmsg, h.txrxstat, h.scheduled⟩
  exact hf field (Option.some.inj he)

theorem blind_scheduleAt (h : Idle a) : Blind (·.scheduleAt .cbusymsg) a := by
  by_cases hs : a.scheduled .cbusymsg = true
  · exact .of_eq (b := a.fail .alreadyScheduled) (fun _ => if_pos hs) rfl
      (h.fail fun _ => ServFault.noConfusion)
  · refine .of_eq (b := { a with scheduled := Function.update a.scheduled .cbusymsg true })
      (fun _ => if_neg hs) rfl ?_
    refine ⟨h.fault, h.crashed, h.failed, h.procendmsg, h.txrxstat, fun t ht => ?_⟩
    by_contra hne
    have hold : Function.update a.scheduled .cbusymsg true t = a.scheduled t :=
      Function.update_of_ne hne _ _
    exact hne (h.scheduled t (hold ▸ ht))

/-- Where nothing goes on the air, the message queues or the simulation ends. -/
theorem sendProver_cases {m : ServMsg} (hm : ¬ a.Transmits provers e m) :
    (∀ g, (a.fill g).sendProver provers e m = (a.push m).fill g) ∨
      (∀ g, (a.fill g).sendProver provers e m = (a.fail .noModule).fill g) ∨
      ∀ g, (a.fill g).sendProver provers e m =
        (({ a with chanstat := .BUSY }.push m).fill g).scheduleAt .cbusymsg := by
  by_cases hfree : a.txrxstat = .TRANSMITING ∨ a.chanstat = .BUSY
  · exact .inl fun g => if_pos hfree
  by_cases hmod : IsProver provers m.destination
  · have hbusy : e.channelBusy m.destination = true := by
      by_contra hno
      obtain ⟨htx, hch⟩ := not_or.mp hfree
      exact hm ⟨htx, hch, hmod, Bool.eq_false_of_not_eq_true hno⟩
    refine .inr (.inr fun g => ?_)
    unfold sendProver
    rw [if_neg (show ¬ ((a.fill g).txrxstat = .TRANSMITING ∨ (a.fill g).chanstat = .BUSY) from
      hfree), if_neg (not_not.mpr hmod), if_pos hbusy]
    rfl
  · refine .inr (.inl fun g => ?_)
    unfold sendProver
    rw [if_neg (show ¬ ((a.fill g).txrxstat = .TRANSMITING ∨ (a.fill g).chanstat = .BUSY) from
      hfree), if_pos hmod]
    rfl

theorem blind_sendProver {m : ServMsg} (h : Idle a) (hm : ¬ a.Transmits provers e m) :
    Blind (·.sendProver provers e m) a := by
  rcases sendProver_cases hm with he | he | he
  · exact .of_eq he rfl (h.push m)
  · exact .of_eq he rfl (h.fail fun _ => ServFault.noConfusion)
  · have hidle : Idle ({ a with chanstat := .BUSY }.push m) :=
      ⟨h.fault, h.crashed, h.failed, h.procendmsg, h.txrxstat, h.scheduled⟩
    have hsched := blind_scheduleAt hidle
    have he0 : a.sendProver provers e m =
        ({ a with chanstat := .BUSY }.push m).scheduleAt .cbusymsg := he a.fields
    refine ⟨?_, fun g => ((he g).trans (hsched.fill g)).trans (congrArg (fill g) he0.symm)⟩
    show Idle (a.sendProver provers e m)
    rw [he0]
    exact hsched.idle

theorem blind_drain (h : Idle a) (hm : ∀ m ∈ a.msgqueue.head?, ¬ a.Transmits provers e m) :
    Blind (·.drain provers e) a := by
  cases hq : a.msgqueue with
  | nil =>
    refine .of_eq (b := a) (fun g => ?_) rfl h
    have hq' : (a.fill g).msgqueue = [] := hq
    unfold drain
    rw [hq']
  | cons m rest =>
    have hhead : m ∈ a.msgqueue.head? := by
      rw [hq]
      exact Option.mem_some_self m
    have hsend := blind_sendProver h (hm m hhead)
    -- the test of `andThen` does not depend on the fields
    have hthen : ∀ g, (a.fill g).drain provers e =
        ((a.sendProver provers e m).fill g).andThen
          fun a => { a with msgqueue := a.msgqueue.tail } := by
      intro g
      have hq' : (a.fill g).msgqueue = m :: rest := hq
      have he := hsend.fill g
      unfold drain
      rw [hq']
      exact congrArg (andThen · _) he
    cases hf : (a.sendProver provers e m).fault with
    | some f =>
      have he : ∀ g, (a.fill g).drain provers e = (a.sendProver provers e m).fill g := by
        intro g
        have hf' : ((a.sendProver provers e m).fill g).fault = some f := hf
        rw [hthen, andThen_of_some hf']
      have he0 : a.drain provers e = a.sendProver provers e m := by
        have hself := he a.fields
        rw [← hsend.fill] at hself
        exact hself
      refine ⟨?_, fun g => (he g).trans (congrArg (fill g) he0.symm)⟩
      show Idle (a.drain provers e)
      rw [he0]
      exact hsend.idle
    | none =>
      have he : ∀ g, (a.fill g).drain provers e =
          { a.sendProver provers e m with
            msgqueue := (a.sendProver provers e m).msgqueue.tail }.fill g := by
        intro g
        have hf' : ((a.sendProver provers e m).fill g).fault = none := hf
        rw [hthen, andThen_of_none hf']
        rfl
      have hfields : (a.sendProver provers e m).fields = a.fields :=
        (congrArg fields (hsend.fill a.fields)).trans rfl
      have hi := hsend.idle
      exact .of_eq he hfields
        ⟨hi.fault, hi.crashed, hi.failed, hi.procendmsg, hi.txrxstat, hi.scheduled⟩

/-- **A step that spares the fields** goes the same way whatever they hold. -/
theorem step_fill (h : Idle a) (hok : a.Spares provers e) (hs : a.step provers e = some a') :
    Idle a' ∧ ∀ g, (a.fill g).step provers e = some (a'.fill g) := by
  unfold step at hs
  split at hs
  · cases hs
  next hgo =>
  have hfill : ∀ g, (a.fill g).step provers e = ((a.atTime e.time).fill g).act provers e :=
    fun _ => if_neg hgo
  have hidle : Idle (a.atTime e.time) :=
    ⟨h.fault, h.crashed, h.failed, h.procendmsg, h.txrxstat, h.scheduled⟩
  have hok' : (a.atTime e.time).Spares provers e := hok
  suffices hact : Idle a' ∧
      ∀ g, ((a.atTime e.time).fill g).act provers e = some (a'.fill g) from
    ⟨hact.1, fun g => (hfill g).trans (hact.2 g)⟩
  clear hfill hok h
  generalize a.atTime e.time = b at hs hidle hok'
  -- a handler that is called
  have called : ∀ {f : CollectorApp → CollectorApp} {b₁ : CollectorApp}, b₁.crashed = false →
      Blind f b₁ → b₁.handleMessage f = a' →
      Idle a' ∧ ∀ g, (b₁.fill g).handleMessage f = a'.fill g := by
    intro f b₁ hc hb he
    have hcall : ∀ g, (b₁.fill g).handleMessage f = f (b₁.fill g) := fun g => by
      unfold handleMessage
      exact if_neg (show ¬ b₁.crashed = true by rw [hc]; exact Bool.false_ne_true)
    have hcall0 : f b₁ = a' := (hcall b₁.fields).symm.trans he
    refine ⟨hcall0 ▸ hb.idle, fun g => ?_⟩
    rw [hcall, hb.fill, hcall0]
  unfold Spares at hok'
  unfold act at hs ⊢
  cases hact : e.act with
  | joinReq m =>
    rw [hact] at hs hok'
    have hblind : Blind (·.handleJoinReq m) b := by
      refine .of_eq (b := b) (fun g => ?_) rfl hidle
      unfold handleJoinReq
      split
      · rfl
      next hdest =>
      have hmac : b.checkMAC m (b.proverKeys m.source) = false := by
        rcases hok' with hno | hno
        · exact absurd hno hdest
        · exact hno
      exact if_pos (show ¬ b.checkMAC m (b.proverKeys m.source) = true by
        rw [hmac]
        exact Bool.false_ne_true)
    obtain ⟨hi, hf⟩ := called hidle.crashed hblind (Option.some.inj hs)
    exact ⟨hi, fun g => congrArg some (hf g)⟩
  | updateReq m =>
    rw [hact] at hok'
    exact hok'.elim
  | revokeReq m =>
    rw [hact] at hs
    have hblind : Blind (·.handleRevReq provers m) b :=
      .of_eq (b := b.handleRevReq provers m) (fun _ => rfl) rfl
        ⟨hidle.fault, hidle.crashed, hidle.failed, hidle.procendmsg, hidle.txrxstat,
          hidle.scheduled⟩
    obtain ⟨hi, hf⟩ := called hidle.crashed hblind (Option.some.inj hs)
    exact ⟨hi, fun g => congrArg some (hf g)⟩
  | outgoing k =>
    rw [hact] at hs hok'
    dsimp only at hs hok' ⊢
    cases hk : b.outbox[k]? with
    | none =>
      rw [hk] at hs
      cases hs
    | some m =>
      rw [hk] at hs
      have hpop : Idle (b.popOutbox k) :=
        ⟨hidle.fault, hidle.crashed, hidle.failed, hidle.procendmsg, hidle.txrxstat,
          hidle.scheduled⟩
      have hblind := blind_sendProver (a := b.popOutbox k) hpop
        (hok' m (by rw [hk]; exact Option.mem_some_self m))
      obtain ⟨hi, hf⟩ := called hpop.crashed hblind (Option.some.inj hs)
      refine ⟨hi, fun g => ?_⟩
      have hk' : (b.fill g).outbox[k]? = some m := hk
      rw [hk']
      exact congrArg some (hf g)
  | selfMsg t depleted =>
    rw [hact] at hs hok'
    dsimp only at hs hok' ⊢
    split at hs
    · next hsched =>
      obtain rfl := hidle.scheduled t hsched
      have hpop : Idle (b.pop .cbusymsg) := by
        refine ⟨hidle.fault, hidle.crashed, hidle.failed, hidle.procendmsg, hidle.txrxstat,
          fun t ht => ?_⟩
        by_contra hne
        have hold : Function.update b.scheduled .cbusymsg false t = b.scheduled t :=
          Function.update_of_ne hne _ _
        exact hne (hidle.scheduled t (hold ▸ ht))
      have hdrain := @blind_drain provers e { b.pop .cbusymsg with chanstat := .CIDLE }
        ⟨hpop.fault, hpop.crashed, hpop.failed, hpop.procendmsg, hpop.txrxstat, hpop.scheduled⟩
        hok'
      have hblind : Blind (·.onSelfMsg provers e .cbusymsg depleted) (b.pop .cbusymsg) :=
        ⟨hdrain.idle, hdrain.fill⟩
      obtain ⟨hi, hf⟩ := called hpop.crashed hblind (Option.some.inj hs)
      refine ⟨hi, fun g => ?_⟩
      rw [if_pos (show (b.fill g).scheduled .cbusymsg = true from hsched)]
      exact congrArg some (hf g)
    · cases hs
  | procDone =>
    rw [hact] at hs
    dsimp only at hs
    rw [if_neg (by rw [hidle.procendmsg]; exact Bool.false_ne_true)] at hs
    cases hs

/-! ## The steps that read a field -/

theorem absent_transmit {m : ServMsg} (h : a.energy = none) (hm : a.Transmits provers e m) :
    (a.sendProver provers e m).fault = some (.absent .energy) := by
  obtain ⟨htx, hch, hmod, hbusy⟩ := hm
  unfold sendProver
  rw [if_neg (not_or.mpr ⟨htx, hch⟩), if_neg (not_not.mpr hmod),
    if_neg (by rw [hbusy]; exact Bool.false_ne_true)]
  unfold transmit
  dsimp only
  rw [h]
  rfl

theorem absent_drain {m : ServMsg} (h : a.energy = none) (hq : m ∈ a.msgqueue.head?)
    (hm : a.Transmits provers e m) : (a.drain provers e).fault = some (.absent .energy) := by
  have hfault := absent_transmit h hm
  unfold drain
  cases hqueue : a.msgqueue with
  | nil =>
    rw [hqueue] at hq
    cases hq
  | cons m' rest =>
    rw [hqueue] at hq
    obtain rfl : m' = m := Option.some.inj hq
    dsimp only
    rw [andThen_of_some hfault]
    exact hfault

theorem absent_joinReq {m : JoinReq} (h : a.maxdepth = none) (hd : m.destination = a.CId)
    (hmac : a.checkMAC m (a.proverKeys m.source) = true) :
    (a.handleJoinReq m).fault = some (.absent .maxdepth) := by
  unfold handleJoinReq
  rw [if_neg (not_not.mpr hd), if_neg (not_not.mpr hmac)]
  unfold sendJoinResp
  rw [show (a.enrol m).maxdepth = none from h]
  rfl

theorem absent_updateReq {m : UpdateReq} (h : a.deltah = none) (hfail : a.failed = false)
    (hproc : a.procendmsg = false) : (a.handleUpReq m).fault = some (.absent .deltah) := by
  have hup : (a.toCollector.handleUpReq m).failed = false := by
    unfold Collector.handleUpReq
    rw [if_neg (by rw [hproc]; exact Bool.false_ne_true)]
    exact hfail
  unfold handleUpReq
  dsimp only
  rw [if_neg (by rw [hup]; exact Bool.false_ne_true)]
  unfold recordSize
  dsimp only
  rw [h]
  rfl

/-- What a run reaches from `init`. -/
def Reached (provers : List KeyHolder) (index : Nat) (a : CollectorApp) : Prop :=
  Runs.Reaches (step provers) (Spares provers) (init index) a

theorem idle_init (index : Nat) : Idle (init index) :=
  ⟨fun f => (Option.some_ne_none (ServFault.absent f)).symm, rfl, rfl, rfl, rfl,
    fun _ ht => absurd ht Bool.false_ne_true⟩

/-- The run with other values in the fields is the same run. -/
theorem reached_fill {index : Nat} (h : Reached provers index a) :
    Idle a ∧ ∀ g, Runs.Reaches (step provers) (Spares provers) ((init index).fill g) (a.fill g) := by
  induction h with
  | refl => exact ⟨idle_init index, fun _ => .refl⟩
  | @tail s s' e _ hok hs ih =>
    obtain ⟨hidle, hfill⟩ := step_fill ih.1 hok hs
    exact ⟨hidle, fun g => .tail (ih.2 g) hok (hfill g)⟩

/-- The fields stay absent. -/
theorem reached_absent {index : Nat} (h : Reached provers index a) : a.fields = {} := by
  induction h with
  | refl => rfl
  | @tail s s' e hrun hok hs ih =>
    have hself : s.fill {} = s := by
      rw [← ih]
      rfl
    have hnext := (step_fill (reached_fill hrun).1 hok hs).2 {}
    rw [hself, hs] at hnext
    exact (congrArg fields (Option.some.inj hnext)).trans rfl

theorem absent_of_not_spares (h : Idle a) (hblank : a.fields = {}) (hno : ¬ a.Spares provers e)
    (hs : a.step provers e = some a') : ∃ f, a'.fault = some (.absent f) := by
  have hdeltah : a.deltah = none := congrArg Fields.deltah hblank
  have hmaxdepth : a.maxdepth = none := congrArg Fields.maxdepth hblank
  have henergy : a.energy = none := congrArg Fields.energy hblank
  unfold step at hs
  split at hs
  · cases hs
  have called : ∀ (f : CollectorApp → CollectorApp) (b : CollectorApp), b.crashed = false →
      b.handleMessage f = a' → f b = a' := by
    intro f b hc he
    unfold handleMessage at he
    rw [if_neg (by rw [hc]; exact Bool.false_ne_true)] at he
    exact he
  unfold Spares at hno
  unfold act at hs
  cases hact : e.act with
  | joinReq m =>
    rw [hact] at hs hno
    obtain ⟨hdest, hmac⟩ := not_or.mp hno
    rw [← called (·.handleJoinReq m) (a.atTime e.time) h.crashed (Option.some.inj hs)]
    exact ⟨_, absent_joinReq (a := a.atTime e.time) hmaxdepth (not_not.mp hdest)
      (Bool.of_not_eq_false hmac)⟩
  | updateReq m =>
    rw [hact] at hs
    rw [← called (·.handleUpReq m) (a.atTime e.time) h.crashed (Option.some.inj hs)]
    exact ⟨_, absent_updateReq (a := a.atTime e.time) hdeltah h.failed h.procendmsg⟩
  | revokeReq m =>
    rw [hact] at hno
    exact (hno trivial).elim
  | outgoing k =>
    rw [hact] at hs hno
    dsimp only at hs hno
    push Not at hno
    obtain ⟨m, hm, htransmits⟩ := hno
    have hk : (a.atTime e.time).outbox[k]? = some m := hm
    rw [hk] at hs
    rw [← called (·.sendProver provers e m) ((a.atTime e.time).popOutbox k) h.crashed
      (Option.some.inj hs)]
    exact ⟨_, absent_transmit (a := (a.atTime e.time).popOutbox k) henergy htransmits⟩
  | selfMsg t depleted =>
    rw [hact] at hs hno
    dsimp only at hs hno
    split at hs
    · next hsched =>
      obtain rfl := h.scheduled t hsched
      dsimp only at hno
      push Not at hno
      obtain ⟨m, hm, htransmits⟩ := hno
      rw [← called (·.onSelfMsg provers e .cbusymsg depleted) ((a.atTime e.time).pop .cbusymsg)
        h.crashed (Option.some.inj hs)]
      exact ⟨_, absent_drain (a := { (a.atTime e.time).pop .cbusymsg with chanstat := .CIDLE })
        henergy hm htransmits⟩
    · cases hs
  | procDone =>
    rw [hact] at hno
    exact (hno trivial).elim

end

/-- **The collector reads no absent field** in a run of steps that spare them: such a run is
the same whatever the fields hold, and every other step that continues it reads one. -/
theorem reads_nothing_absent (provers : List KeyHolder) (index : Nat) :
    (∀ a, Runs.Reaches (step provers) (Spares provers) (init index) a →
      a.ReadsNothingAbsent ∧ ∀ g,
        Runs.Reaches (step provers) (Spares provers) ((init index).fill g) (a.fill g)) ∧
    ∀ a, Runs.Reaches (step provers) (Spares provers) (init index) a → ∀ e a',
      step provers e a = some a' → (a'.ReadsNothingAbsent ↔ a.Spares provers e) := by
  refine ⟨fun a h => ⟨(reached_fill h).1.fault, (reached_fill h).2⟩, fun a h e a' hs => ?_⟩
  have hidle := (reached_fill h).1
  constructor
  · intro hreads
    by_contra hno
    obtain ⟨f, hf⟩ := absent_of_not_spares hidle (reached_absent h) hno hs
    exact hreads f hf
  · exact fun hok => (step_fill hidle hok hs).1.fault

/-- The only prover, with key 5. -/
def oneHolder : List KeyHolder := [⟨1, ⟨[(5, 50)], by simp⟩⟩]

/-- The prover has its key revoked; the collector's request for it finds the channel busy, and
does once more when the wait ends. -/
def busyRevocation : List ServEvent :=
  [⟨second, fun _ => true, .revokeReq ⟨1, [5], 0⟩⟩,
    ⟨second, fun _ => true, .outgoing 0⟩,
    ⟨2 * second, fun _ => true, .selfMsg .cbusymsg false⟩]

/-- In `busyRevocation` no field is read, and a collector with a period and a depth does
the same. -/
theorem reads_nothing_absent_busy : ∃ a : CollectorApp, a.ReadsNothingAbsent ∧
    a.scheduled .cbusymsg = true ∧ Runs.Reaches (step oneHolder) (Spares oneHolder)
      ((init 0).fill ⟨some (28 * second), some 1, none⟩)
      (a.fill ⟨some (28 * second), some 1, none⟩) := by
  obtain ⟨a, hr, ht⟩ := Runs.exists_of_run (step oneHolder) (Spares oneHolder) busyRevocation
    (init 0) (fun a => a.scheduled .cbusymsg = true) (by decide +kernel)
  obtain ⟨hreads, hfill⟩ := (reads_nothing_absent oneHolder 0).1 a hr
  exact ⟨a, hreads, of_decide_eq_true ht, hfill _⟩

/-- A root reports its own record. -/
def firstReport : ServEvent :=
  ⟨5 * second, fun _ => false, .updateReq ⟨.UPRQC, 1, 1, [1], [1], 7, 0, 5, [0]⟩⟩

/-- The first report reads a period that was never assigned. -/
theorem firstReport_reads_absent :
    ¬ ∀ (provers : List KeyHolder) (index : Nat) (a : CollectorApp),
      Runs.Reaches (step provers) (fun _ _ => True) (init index) a → a.ReadsNothingAbsent := by
  intro h
  obtain ⟨a, hr, ht⟩ := Runs.exists_of_run (step oneHolder) (fun _ _ => True) [firstReport]
    (init 0) (fun a => a.fault = some (.absent .deltah)) (by decide +kernel)
  exact h oneHolder 0 a hr .deltah (of_decide_eq_true ht)

end CollectorApp

end Fadia
