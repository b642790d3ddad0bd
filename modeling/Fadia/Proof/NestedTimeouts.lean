import Fadia.Proof.Chronicles
import Fadia.Proof.OneReport
import Mathlib

/-!
# Update timers nest along the tree

The update timer of an inner prover is `timeoutack` longer than what its child may wait for, so
the report of the child arrives in time if the ack and the report together take no longer
(`Nests.le_due`).  A root has the depth of its children, and its timer is too short for a child
that waits for one of its own: in `lateChild` the report is late.  Where no child of a root waits
so long (`Early`), the timers nest in every run (`update_timers_nest`).
-/

namespace Fadia

namespace Net

open Prover

variable {D : Deployment}

namespace Chronicle

/-- At time `t` the ack to each child and the report of the child have taken no longer than
`timeoutack` together.  Their ways begin where they are prepared, so the MAC delays count. -/
def Prompt (D : Deployment) (t : Nat) (C : Chronicle) : Prop :=
  ∀ q ∈ D.ids, ∀ p ∈ D.ids, .child q ∈ C.history.roles p → ∀ a ∈ C.acks q p, ∀ T ∈ C.accepted p,
    T ≤ a.1 + timeoutack ∧ ∀ r ∈ C.reported p, C.arrived q p = none → InTransit q p C.net →
      T + t ≤ a.1 + r + timeoutack

/-- At time `t` a child of a root that has an open session of a child of its own accepted its ack
no longer ago than the length of the root's update timer less `timeoutack`.  A root is a prover
that broadcasts `maxdepth`. -/
def Early (D : Deployment) (t : Nat) (C : Chronicle) : Prop :=
  ∀ q ∈ D.ids, ∀ p ∈ D.ids, .child q ∈ C.history.roles p →
    (C.net.prover q).creqDepth = (D.cfg q).maxdepth → (C.net.prover p).crashed = false →
      (C.net.prover p).HasChild → ∀ T ∈ C.accepted p,
        t + timeoutack ≤ T + updateTime (D.cfg q).maxdepth

instance (D : Deployment) (t : Nat) (C : Chronicle) : Decidable (C.Prompt D t) :=
  inferInstanceAs (Decidable (∀ q ∈ D.ids, ∀ p ∈ D.ids, .child q ∈ C.history.roles p →
    ∀ a ∈ C.acks q p, ∀ T ∈ C.accepted p, T ≤ a.1 + timeoutack ∧ ∀ r ∈ C.reported p,
      C.arrived q p = none → InTransit q p C.net → T + t ≤ a.1 + r + timeoutack))

instance (D : Deployment) (t : Nat) (C : Chronicle) : Decidable (C.Early D t) :=
  inferInstanceAs (Decidable (∀ q ∈ D.ids, ∀ p ∈ D.ids, .child q ∈ C.history.roles p →
    (C.net.prover q).creqDepth = (D.cfg q).maxdepth → (C.net.prover p).crashed = false →
      (C.net.prover p).HasChild → ∀ T ∈ C.accepted p,
        t + timeoutack ≤ T + updateTime (D.cfg q).maxdepth))

/-- The condition holds at the time of the event. -/
def At (P : Nat → Chronicle → Prop) (e : NetEvent) (C : Chronicle) : Prop :=
  ∀ t ∈ e.time, P t C

instance (P : Nat → Chronicle → Prop) [∀ t C, Decidable (P t C)] (e : NetEvent) (C : Chronicle) :
    Decidable (At P e C) :=
  inferInstanceAs (Decidable (∀ t ∈ e.time, P t C))

/-! ## The invariant -/

/-- What the first ack of `q` to a prover says about `q`. -/
structure AckedBy (M : Nat) (q : Uid) (C : Chronicle) (x : Nat × Nat) : Prop where
  le : x.1 ≤ C.net.now
  broadcast : .broadcast ∈ (C.net.prover q).log
  due : x.2 = x.1 + updateTime ((C.net.prover q).creqDepth + 1) ∨
    (C.net.prover q).creqDepth = M ∧ x.2 = x.1 + updateTime M

/-- A child `p` of `q` that lives; it accepted the ack of `x` at `T`. -/
structure Pair (q p : Uid) (C : Chronicle) (x : Nat × Nat) (T : Nat) : Prop where
  ack : C.acks q p = some x
  accepted : C.accepted p = some T
  le : x.1 ≤ T
  serves : ¬ SentIn (C.net.prover p).log →
    Serves q (T + treeTime (C.net.prover q).creqDepth + 1) (C.net.prover p)
  sent : SentIn (C.net.prover p).log → ∃ r, C.reported p = some r ∧ x.1 + r + timeoutack ≤ T + x.2
  transit : SentIn (C.net.prover p).log → C.lost p = false → C.arrived q p = none →
    InTransit q p C.net
  arrived : C.lost p = false → ∀ t ∈ C.arrived q p, t ≤ x.2

structure Nests (D : Deployment) (M : Nat) (C : Chronicle) : Prop where
  shallow : Shallow D M C.net
  sound : ∀ u ∈ D.ids, OneReport (C.net.prover u).log ∧ Alive Sound (C.net.prover u)
  ordered : ∀ u ∈ D.ids, Alive (fun p => Schedule.Ordered p.schedule) (C.net.prover u)
  acks : ∀ q ∈ D.ids, ∀ p x, C.acks q p = some x → AckedBy M q C x
  mail : ∀ q ∈ D.ids, ∀ m, .commitAck m ∈ (C.net.prover q).mail → (C.acks q m.destination).isSome
  air : ∀ v m, (v, .commitAck m) ∈ C.net.air → (C.acks m.source v).isSome
  arrivals : ∀ q p, (C.arrived q p).isSome → .child q ∈ C.history.roles p
  pair : ∀ q ∈ D.ids, ∀ p ∈ D.ids, .child q ∈ C.history.roles p →
    (C.net.prover p).crashed = false → ∃ x T, Pair q p C x T

section
variable {M : Nat} {C C' : Chronicle} {e : NetEvent} {q p u : Uid} {x : Nat × Nat} {T t : Nat}

theorem treeTime_add {d : Nat} (hd : 1 ≤ d) : treeTime d + timeoutack = updateTime (d + 1) := by
  unfold treeTime updateTime timeoutack timeoutresp timeoutup second
  omega

/-- A child that has started its attestation. -/
theorem start_of_child (hpaid : Paid D C.history) (hh : C.net.halted = false) (hp : p ∈ D.ids)
    (hchild : .child q ∈ C.history.roles p) (hc : (C.net.prover p).crashed = false) :
    .start ∈ (C.net.prover p).log ∧ (C.net.prover p).Decided := by
  have hch := hpaid.chosen hh p hp ((hpaid.fits hh).fault p hp) hc
  have hne : C.history.roles p ≠ [] := List.ne_nil_of_mem hchild
  constructor
  · by_contra hno
    exact hne (hch.fresh hno).1
  · by_contra hno
    exact hne (hch.undecided hno)

theorem active_of_child (hpaid : Paid D C.history) (hh : C.net.halted = false) (hp : p ∈ D.ids)
    (hchild : .child q ∈ C.history.roles p) (hc : (C.net.prover p).crashed = false) :
    (C.net.prover p).Active True ∧ (C.net.prover p).Linked := by
  have hfits := hpaid.fits hh
  have honce := hfits.once p hp (hfits.fault p hp) hc
  have hst := (start_of_child hpaid hh hp hchild hc).1
  exact ⟨(honce.phase.resolve_left fun hi => hi.log _ hst).2, honce.linked⟩

/-- The session of a child has the depth that the parent broadcast. -/
theorem Pair.depth (hpaid : Paid D C.history) (hh : C.net.halted = false) (hp : p ∈ D.ids)
    (hq : q ∈ D.ids) {A : Nat} (h : Serves q A (C.net.prover p)) {parent : Session}
    (hparent : (C.net.prover p).psessions.second = some parent) :
    parent.depth = (C.net.prover q).creqDepth := by
  have hfits : Prover.Fits _ (Announced D C.net) (C.net.prover p) := (hpaid.fits hh).sessions p hp
  have hfirst : (C.net.prover p).psessions.first ≠ NOID := by
    rw [h.parent]
    exact D.ne_of_mem hq
  have hA := (hfits.parent parent hparent hfirst).1
  rw [h.parent] at hA
  exact hA.2.2.1.symm

/-- **While a child has not reported** there is time left for the way to its parent. -/
theorem Nests.unsent (h : Nests D M C) (hpaid : Paid D C.history) (hh : C.net.halted = false)
    (hM : 2 ≤ M) (hmax : ∀ u, (D.cfg u).maxdepth = M) (hq : q ∈ D.ids) (hp : p ∈ D.ids)
    (hchild : .child q ∈ C.history.roles p) (hc : (C.net.prover p).crashed = false)
    (hpair : Pair q p C x T) (hunsent : ¬ SentIn (C.net.prover p).log) (hdue : C.net.Due D t)
    (hearly : C.Early D t) : x.1 + t + timeoutack ≤ T + x.2 := by
  have hserves := hpair.serves hunsent
  obtain ⟨hact, hlink⟩ := active_of_child hpaid hh hp hchild hc
  obtain ⟨s, hs, hlt, hmore⟩ := hserves.waits hact hlink
  have hle : t ≤ s.due := hdue.2 p hp s hs
  have hack := h.acks q hq p x hpair.ack
  have hpos : 1 ≤ (C.net.prover q).creqDepth := by
    exact (h.shallow q _ (C.net.prover q).creqTreeID ⟨hq, hack.broadcast, rfl, rfl⟩).1
  rcases hack.due with hinner | ⟨hroot, hdue'⟩
  · rw [hinner, ← treeTime_add hpos]
    omega
  · -- the timer of a root is no longer than those of its child
    rw [hdue']
    rcases hmore with hkid | hmore
    · have := hearly q hq p hp hchild (by rw [hmax, hroot]) hc hkid T hpair.accepted
      rw [hmax] at this
      omega
    · have hsome : (C.net.prover p).psessions.second.isSome := by
        refine ((hpaid.fits hh).sessions p hp).present ?_
        change (C.net.prover p).psessions.first ≠ NOID
        rw [hserves.parent]
        exact D.ne_of_mem hq
      obtain ⟨parent, hparent⟩ := Option.isSome_iff_exists.mp hsome
      have hwin := hmore parent hparent
      rw [Pair.depth hpaid hh hp hq hserves hparent, hroot] at hwin
      unfold treeTime at hwin
      have hlong : timeoutresp + timeoutack ≤ updateTime M := by
        refine le_trans ?_ (updateTime_mono hM)
        decide
      omega

/-- **The update timer leaves time** until the report of a child has arrived. -/
theorem Nests.le_due (h : Nests D M C) (hpaid : Paid D C.history) (hh : C.net.halted = false)
    (hM : 2 ≤ M) (hmax : ∀ u, (D.cfg u).maxdepth = M) (hq : q ∈ D.ids) (hp : p ∈ D.ids)
    (hchild : .child q ∈ C.history.roles p) (hc : (C.net.prover p).crashed = false)
    (hpair : Pair q p C x T) (hlost : C.lost p = false) (harr : C.arrived q p = none)
    (hdue : C.net.Due D t) (hprompt : C.Prompt D t) (hearly : C.Early D t) : t ≤ x.2 := by
  obtain ⟨hT, hreport⟩ := hprompt q hq p hp hchild x hpair.ack T hpair.accepted
  by_cases hsent : SentIn (C.net.prover p).log
  · obtain ⟨r, hr, hle⟩ := hpair.sent hsent
    have := hreport r hr harr (hpair.transit hsent hlost harr)
    omega
  · have := h.unsent hpaid hh hM hmax hq hp hchild hc hpair hsent hdue hearly
    omega

/-! ## A prover takes an event -/

section Event
variable {ev : Prover.Event} {p' : Prover} {air : List (Uid × Msg)}

variable (ho : Occurs D u ev p' air C C')

include ho

theorem Occurs.ackedBy (hfits : Net.Fits D C.net) (hq : q ∈ D.ids) (h : AckedBy M q C x) :
    AckedBy M q C' x := by
  have hsaid : (C'.net.prover q).Says (C.net.prover q).creqDepth (C.net.prover q).creqTreeID :=
    ho.announced hfits hq ⟨h.broadcast, rfl, rfl⟩
  refine ⟨?_, hsaid.1, ?_⟩
  · rw [ho.net]
    exact h.le.trans ho.due.1
  · rw [hsaid.2.1]
    exact h.due

/-- A new update timer. -/
theorem Occurs.newAck (h : Nests D M C) (hfits : Net.Fits D C.net)
    (hmax : ∀ u, (D.cfg u).maxdepth = M) {c : Uid} {due : Nat}
    (htimer : timerFor c (C.net.prover u) p' = some due) : AckedBy M u C' (ev.time, due) := by
  have hu := ho.mem
  obtain ⟨hf, -, ⟨-, hdrop⟩ | ⟨hc, hlive⟩⟩ := Prover.step_cases ho.step
  · obtain ⟨now, timers, uptos, outbox, hpops, rfl⟩ := hdrop
    cases (timerFor_of_sublist hpops.2.1).symm.trans htimer
  rcases acks_live hf hlive ho.fault with hno | ⟨c', parent, hst, hparent, hacks⟩
  · cases (timerFor_of_sublist hno.uptos).symm.trans htimer
  have hs := hfits.sessions u hu
  have hopen : (C.net.prover u).Opened := by
    rcases (hfits.once u hu hf hc).phase with hi | ⟨-, ha⟩
    · cases hi.status.symm.trans hst
    · exact (ha.of_creating hst).1
  obtain ⟨hb, -⟩ := hs.opened NOID hopen.window
  have hsaid : p'.Says (C.net.prover u).creqDepth (C.net.prover u).creqTreeID :=
    (hfits.local hu ho.step ho.ok ho.heard ho.fault).2.2.2 _ _ ⟨hb, rfl, rfl⟩
  obtain ⟨w, hw, -, hdue⟩ := hacks.uptos
  have hdelay : due = ev.time + upTimeOutDelay parent := by
    rw [timerFor, hw, List.drop_left] at htimer
    rw [List.find?_singleton] at htimer
    split at htimer
    · rw [← hdue]
      exact (Option.some.inj htimer).symm
    · cases htimer
  have hlong : 1 ≤ parent.depth → upTimeOutDelay parent = updateTime parent.depth := by
    intro hd
    unfold upTimeOutDelay updateTime subUnsigned
    rw [if_pos hd]
  have hcfg : (C.net.prover u).cfg.maxdepth = M := by rw [hfits.cfg, hmax]
  have hbound := h.shallow u _ (C.net.prover u).creqTreeID ⟨hu, hb, rfl, rfl⟩
  obtain ⟨-, hroot, hinner⟩ := hs.own hb parent hparent
  refine ⟨?_, ?_, ?_⟩
  · rw [ho.net]
  · rw [ho.prover_self]
    exact hsaid.1
  · rw [ho.prover_self, hsaid.2.1]
    show due = ev.time + _ ∨ _ ∧ due = ev.time + _
    by_cases hfirst : (C.net.prover u).psessions.first = NOID
    · have hdepth := hs.root parent hparent hfirst
      have hcreq := hroot hfirst
      rw [hcfg] at hdepth hcreq
      refine .inr ⟨hcreq, ?_⟩
      rw [hdelay, hlong (by omega), hdepth]
    · have hA := (hs.parent parent hparent hfirst).1
      have hpos := (h.shallow _ _ _ hA).1
      have hcreq := (hinner hfirst).2
      have := subUnsigned_of_pos hpos
      refine .inl ?_
      rw [hdelay, hlong hpos, hcreq, this]

theorem Occurs.acks (h : Nests D M C) (hfits : Net.Fits D C.net)
    (hmax : ∀ u, (D.cfg u).maxdepth = M) (hq : q ∈ D.ids) (hack : C'.acks q p = some x) :
    AckedBy M q C' x := by
  rw [ho.record] at hack
  by_cases he : q = u
  · subst he
    simp only [recordEvent, Function.update_self] at hack
    cases hold : C.acks q p with
    | some y =>
      rw [hold, Option.some_or] at hack
      obtain rfl := Option.some.inj hack
      exact ho.ackedBy hfits hq (h.acks q hq p _ hold)
    | none =>
      rw [hold, Option.none_or] at hack
      obtain ⟨due, htimer, rfl⟩ := Option.map_eq_some_iff.mp hack
      change timerFor p (C.net.prover q) (C'.net.prover q) = some due at htimer
      rw [ho.prover_self] at htimer
      exact ho.newAck h hfits hmax htimer
  · simp only [recordEvent, Function.update_of_ne he] at hack
    exact ho.ackedBy hfits hq (h.acks q hq p x hack)

/-- An ack that is prepared is one of those recorded. -/
theorem Occurs.mail (h : Nests D M C) (hq : q ∈ D.ids) {m : CommitAck}
    (hm : .commitAck m ∈ (C'.net.prover q).mail) : (C'.acks q m.destination).isSome := by
  have hold : .commitAck m ∈ (C.net.prover q).mail → (C'.acks q m.destination).isSome := fun hm =>
    ho.acks_isSome (h.mail q hq m hm)
  by_cases he : q = u
  · subst he
    rw [ho.prover_self] at hm
    obtain ⟨hf, -, ⟨-, hdrop⟩ | ⟨hc, hlive⟩⟩ := Prover.step_cases ho.step
    · obtain ⟨now, timers, uptos, outbox, hpops, rfl⟩ := hdrop
      refine hold ?_
      rcases List.mem_append.mp hm with hm | hm
      · exact List.mem_append_left _ ((hpops.2.2.map Prod.snd).mem hm)
      · exact List.mem_append_right _ hm
    · rcases acks_live hf hlive ho.fault with hno | ⟨c, parent, -, -, hacks⟩
      · exact hold (hno.acks m hm)
      · rcases hacks.acks m hm with hm | rfl
        · exact hold hm
        · obtain ⟨w, hw, hdev, -⟩ := hacks.uptos
          have htimer : timerFor m.destination (C.net.prover q) p' = some w.1.due := by
            rw [timerFor, hw, List.drop_left, List.find?_singleton]
            simp [hdev]
          rw [ho.record]
          simp only [recordEvent, Function.update_self, Option.isSome_or]
          change (_ || (Option.map _ (timerFor m.destination (C.net.prover q)
            (C'.net.prover q))).isSome) = true
          rw [ho.prover_self, htimer]
          exact Bool.or_true _
  · rw [ho.prover_of_ne he] at hm
    exact hold hm

theorem Occurs.arrivals (h : Nests D M C) (harr : (C'.arrived q p).isSome) :
    .child q ∈ C'.history.roles p := by
  obtain ⟨t, ht⟩ := Option.isSome_iff_exists.mp harr
  rw [ho.record] at ht
  refine ho.child ?_
  rcases arrived_cases ht with hold | ⟨-, rfl, hd, -⟩
  · exact h.arrivals q p (Option.isSome_of_eq_some hold)
  · unfold delivers at hd
    split at hd
    · simp only [Bool.and_eq_true, decide_eq_true_eq] at hd
      exact hd.2
    · cases hd

/-- A prover that accepts an ack has no children. -/
theorem Occurs.leavesNone (hpaid : Paid D C.history) (hh : C.net.halted = false)
    (hc : (C.net.prover u).crashed = false) : ¬ (C.net.prover u).LeavesChildren ev := by
  rintro ⟨m, c, parent, hact, hacked, -, k, -, hk⟩
  have hfits := hpaid.fits hh
  have hundec : ¬ (C.net.prover u).Decided := by
    refine hpaid.free hh ho.mem ho.step ho.heard ?_
    change (C.net.prover u).accepted ev ≠ []
    rw [Prover.accepted, hact, hacked.second]
    simp [hc, hacked]
  have hno : (C.net.prover u).csessions.keys = [] := by
    rcases (hfits.once u ho.mem (hfits.fault u ho.mem) hc).phase with hi | ⟨-, ha⟩
    · exact hi.sessions.children
    · cases ha with
      | checking _ hn => exact hn.children
      | ready _ hn => exact hn.children
      | attesting _ hn => exact hn.children
      | attestingCreating _ hn => exact hn.children
      | creating hs => exact absurd (.inl hs) hundec
      | collecting hs => exact absurd (.inr (.inl hs)) hundec
      | done _ hn => exact hn.children
      | ghost _ _ hn => exact hn.children
  exact not_mem_of_keys_nil hno k hk

theorem Occurs.sound (h : Nests D M C) (hpaid : Paid D C.history) (hh : C.net.halted = false)
    {v : Uid} (hv : v ∈ D.ids) :
    OneReport (C'.net.prover v).log ∧ Alive Sound (C'.net.prover v) := by
  by_cases he : v = u
  · subst he
    obtain ⟨hr, hsound⟩ := h.sound v hv
    rw [ho.prover_self]
    obtain ⟨hf, -, ⟨-, hdrop⟩ | ⟨hc, hlive⟩⟩ := Prover.step_cases ho.step
    · obtain ⟨now, timers, uptos, outbox, -, rfl⟩ := hdrop
      exact ⟨hr, fun _ hc => by cases hc⟩
    · have honce := (hpaid.fits hh).onceOk ho.ok ho.heard
      obtain ⟨hr', hs'⟩ := (hsound hf hc).step hf hr honce.2 (ho.leavesNone hpaid hh hc) hlive
      exact ⟨hr', fun hok _ => hs' hok⟩
  · rw [ho.prover_of_ne he]
    exact h.sound v hv

theorem Occurs.ordered (h : Nests D M C) {v : Uid} (hv : v ∈ D.ids) :
    Alive (fun p => Schedule.Ordered p.schedule) (C'.net.prover v) := by
  by_cases he : v = u
  · subst he
    rw [ho.prover_self]
    exact Prover.ordered_step ho.step (h.ordered v hv)
  · rw [ho.prover_of_ne he]
    exact h.ordered v hv

/-! ## The pairs of parent and child -/

theorem Occurs.creqDepth (hfits : Net.Fits D C.net) (hq : q ∈ D.ids)
    (hb : .broadcast ∈ (C.net.prover q).log) :
    (C'.net.prover q).creqDepth = (C.net.prover q).creqDepth :=
  (ho.announced hfits hq ⟨hb, rfl, rfl⟩).2.1

/-- The report of a child arrives before the update timer runs out. -/
theorem Occurs.inTime (h : Nests D M C) (hpaid : Paid D C.history) (hh : C.net.halted = false)
    (hM : 2 ≤ M) (hmax : ∀ u, (D.cfg u).maxdepth = M) (hprompt : C.Prompt D ev.time)
    (hearly : C.Early D ev.time) (hq : q ∈ D.ids) (hp : p ∈ D.ids)
    (hchild : .child q ∈ C.history.roles p) (hc : (C.net.prover p).crashed = false)
    (hpair : Pair q p C x T) (hlost : C'.lost p = false) : ∀ t ∈ C'.arrived q p, t ≤ x.2 := by
  intro t ht
  rw [ho.record] at ht hlost
  have hold := (lost_of_not hlost).1
  rcases arrived_cases ht with ht | ⟨hnone, -, -, rfl⟩
  · exact hpair.arrived hold t ht
  · exact h.le_due hpaid hh hM hmax hq hp hchild hc hpair hold hnone ho.due hprompt hearly

/-- A child that takes no event. -/
theorem Occurs.pair_other (hne : p ≠ u) (h : Nests D M C) (hfits : Net.Fits D C.net)
    (hq : q ∈ D.ids) (hchild : .child q ∈ C.history.roles p) (hpair : Pair q p C x T)
    (htime : C'.lost p = false → ∀ t ∈ C'.arrived q p, t ≤ x.2) : Pair q p C' x T := by
  have hsame := ho.prover_of_ne hne
  have hdepth := ho.creqDepth hfits hq (h.acks q hq p x hpair.ack).broadcast
  have hreport : C'.reported p = C.reported p := by
    rw [ho.record]
    simp only [recordEvent]
    split
    · exact Function.update_of_ne hne ..
    · rfl
  refine ⟨?_, ?_, hpair.le, ?_, ?_, ?_, htime⟩
  · rw [ho.record]
    exact acks_of_some hpair.ack
  · rw [ho.record]
    simp only [recordEvent]
    split
    · exact hpair.accepted
    · rw [Function.update_of_ne hne]
      exact hpair.accepted
  · rw [hsame, hdepth]
    exact hpair.serves
  · rw [hsame, hreport]
    exact hpair.sent
  · rw [hsame]
    intro hsent hlost harr
    have hin : InTransit q p C.net := by
      rw [ho.record] at hlost harr
      exact hpair.transit hsent (lost_of_not hlost).1 (not_arrived harr).1
    rcases hin with hpost | hair
    · refine .inl ?_
      rwa [hsame]
    · exact .inr (ho.inAir hchild harr hair)

/-- A child that takes an event. -/
theorem Occurs.pair_self (h : Nests D M C) (hpaid : Paid D C.history) (hh : C.net.halted = false)
    (hM : 2 ≤ M) (hmax : ∀ u, (D.cfg u).maxdepth = M) (hearly : C.Early D ev.time)
    (hq : q ∈ D.ids) (hchild : .child q ∈ C.history.roles u) (hc' : p'.crashed = false)
    (hpair : Pair q u C x T) (htime : C'.lost u = false → ∀ t ∈ C'.arrived q u, t ≤ x.2) :
    Pair q u C' x T := by
  have hu := ho.mem
  have hfits : Net.Fits D C.net := hpaid.fits hh
  obtain ⟨hf, hc⟩ := Prover.step_alive ho.step hc'
  have hlive : (C.net.prover u).Live ev p' := by
    obtain ⟨-, -, ⟨-, hdrop⟩ | ⟨-, hlive⟩⟩ := Prover.step_cases ho.step
    · obtain ⟨_, _, _, _, -, rfl⟩ := hdrop
      cases hc'
    · exact hlive
  obtain ⟨hst, hdec⟩ := start_of_child hpaid hh hu hchild hc
  have hno : (C.net.prover u).accepted ev = [] := by
    by_contra hacc
    exact hpaid.free hh hu ho.step ho.heard hacc hdec
  have honce := hfits.onceOk ho.ok ho.heard
  have hgoes : ¬ SentIn (C.net.prover u).log →
      Serves q (T + treeTime (C.net.prover q).creqDepth + 1) p' ∨ Reported q p' := fun hunsent =>
    (hpair.serves hunsent).live (D.ne_of_mem hq) (hfits.once u hu hf hc) hst honce hno hc hf hlive
      ho.fault
  have hmono : SentIn (C.net.prover u).log → SentIn p'.log :=
    sentIn_live hf hlive fun hstart => ho.ok hstart hst
  have hdepth := ho.creqDepth hfits hq (h.acks q hq u x hpair.ack).broadcast
  have hself := ho.prover_self
  refine ⟨?_, ?_, hpair.le, ?_, ?_, ?_, htime⟩
  · rw [ho.record]
    exact acks_of_some hpair.ack
  · rw [ho.record]
    simp only [recordEvent, if_pos hno]
    exact hpair.accepted
  · rw [hself, hdepth]
    intro hunsent
    exact (hgoes fun hs => hunsent (hmono hs)).resolve_right fun hr => hunsent hr.1
  · rw [hself, ho.reported]
    intro hsent
    by_cases hs : SentIn (C.net.prover u).log
    · rw [if_neg fun hn => hn.2 hs]
      exact hpair.sent hs
    · rw [if_pos ⟨hsent, hs⟩]
      have hleft := h.unsent hpaid hh hM hmax hq hu hchild hc hpair hs ho.due hearly
      exact ⟨ev.time, rfl, hleft⟩
  · rw [hself]
    intro hsent hlost harr
    by_cases hs : SentIn (C.net.prover u).log
    · have hlost' := hlost
      rw [ho.record] at hlost'
      obtain ⟨hold, hstay⟩ := lost_of_not hlost'
      have harr' := harr
      rw [ho.record] at harr'
      rcases hpair.transit hs hold (not_arrived harr').1 with ⟨-, hpost⟩ | hair
      · refine .inl ?_
        rw [hself]
        refine ⟨hc', ?_⟩
        refine (posted_live (h.ordered u hu hf hc) hf hlive ho.fault hpost).resolve_right fun hs => ?_
        cases (hstay rfl).symm.trans hs
      · exact .inr (ho.inAir hchild harr hair)
    · refine .inl ?_
      rw [hself]
      exact ⟨hc', .inl ((hgoes hs).resolve_left fun hserve => hserve.unsent hsent).2⟩

/-- A prover becomes a child. -/
theorem Occurs.pair_new (h : Nests D M C) (hpaid : Paid D C.history) (hh : C.net.halted = false)
    (hq : q ∈ D.ids) (hacc : (C.net.prover u).accepted ev ≠ []) (hc' : p'.crashed = false)
    (hchild : .child q ∈ C'.history.roles u) : ∃ x, Pair q u C' x ev.time := by
  have hu := ho.mem
  have hfits : Net.Fits D C.net := hpaid.fits hh
  obtain ⟨hf, hc⟩ := Prover.step_alive ho.step hc'
  have hundec := hpaid.free hh hu ho.step ho.heard hacc
  have hnone : C.history.roles u = [] := (hpaid.chosen hh u hu hf hc).undecided hundec
  obtain ⟨m, c, parent, hact, hacked⟩ : ∃ m c parent, ev.act = .recv (.commitAck m) c ∧
      (C.net.prover u).Acked m parent := by
    unfold Prover.accepted at hacc
    split at hacc
    · next m c parent hact _ =>
      split at hacc
      · next hok => exact ⟨m, c, parent, hact, hok.2⟩
      · exact absurd rfl hacc
    · exact absurd rfl hacc
  have hair : (u, .commitAck m) ∈ C.net.air := by
    rcases ho.heard with ⟨hown, -⟩ | ⟨m', c', hact', hm, -⟩
    · rw [hact] at hown
      exact hown.elim
    · cases hact.symm.trans hact'
      exact hm
  have hsrc : m.source ≠ NOID := D.ne_of_mem (hfits.air u _ hair).source
  -- the role is that of a child of the source
  obtain rfl : m.source = q := by
    rw [ho.roles, Function.update_self, hnone, List.append_nil, takes, List.mem_append] at hchild
    rcases hchild with hroot | hmem
    · cases List.eq_of_mem_replicate hroot
    · rw [Prover.accepted, hact, hacked.second] at hmem
      simp only [hc, hacked, and_self, if_true, List.map_cons, List.map_nil,
        List.mem_singleton] at hmem
      exact (Role.child.inj hmem).symm
  obtain ⟨x, hx⟩ := Option.isSome_iff_exists.mp (h.air u m hair)
  have hfirst : (C.net.prover u).psessions.first ≠ NOID := by
    rw [hacked.source]
    exact hsrc
  have hunsent : ¬ SentIn (C.net.prover u).log := ((h.sound u hu).2 hf hc).not_sent (.inl hfirst)
  have hsession := (hfits.sessions u hu).parent parent hacked.second hfirst
  rw [hacked.source] at hsession
  have hpos : 1 ≤ parent.depth := (h.shallow _ _ _ hsession.1).1
  have hdepth : (C'.net.prover m.source).creqDepth = parent.depth :=
    (ho.announced hfits hq hsession.1.2).2.1
  have hp' : p' = ((C.net.prover u).atTime ev.time).handleCommitAck c m := by
    obtain ⟨-, -, ⟨-, hdrop⟩ | ⟨-, hlive⟩⟩ := Prover.step_cases ho.step
    · obtain ⟨_, _, _, _, -, rfl⟩ := hdrop
      cases hc'
    · cases hlive with
      | recv hact' =>
        cases hact.symm.trans hact'
        rfl
      | timer hact' => cases hact.symm.trans hact'
      | upto hact' => cases hact.symm.trans hact'
      | self hact' => cases hact.symm.trans hact'
  have hok' : (((C.net.prover u).atTime ev.time).handleCommitAck c m).fault = none := by
    rw [← hp']
    exact ho.fault
  have honce : ((C.net.prover u).atTime ev.time).Once True :=
    (hfits.once u hu hf hc).congr rfl rfl rfl rfl rfl rfl rfl (Nat.le_refl _) rfl
  have hserve := serves_ack (p := (C.net.prover u).atTime ev.time) c honce { hacked with } hundec
    hunsent hf hsrc hpos hok'
  rw [← hp'] at hserve
  have hself := ho.prover_self
  have hack := h.acks m.source hq u x hx
  have hlong : x.1 + timeoutack ≤ x.2 := by
    have hbound : ∀ d, timeoutack ≤ updateTime d := fun d => by
      unfold updateTime timeoutup timeoutack second
      omega
    rcases hack.due with he | ⟨-, he⟩
    · rw [he]
      exact Nat.add_le_add_left (hbound _) _
    · rw [he]
      exact Nat.add_le_add_left (hbound _) _
  refine ⟨x, ?_, ?_, hack.le.trans ho.due.1, ?_, ?_, ?_, ?_⟩
  · rw [ho.record]
    exact acks_of_some hx
  · rw [ho.record]
    simp only [recordEvent, if_neg hacc]
    exact Function.update_self ..
  · rw [hself, hdepth]
    exact fun hno => hserve.resolve_right fun hr => hno hr.1
  · rw [hself]
    intro hsent
    exact ⟨ev.time, by rw [ho.reported, if_pos ⟨hsent, hunsent⟩], by omega⟩
  · rw [hself]
    intro hsent _ _
    refine .inl ?_
    rw [hself]
    exact ⟨hc', .inl (hserve.resolve_left fun hs => hs.unsent hsent).2⟩
  · intro _ t ht
    rw [ho.record] at ht
    rcases arrived_cases ht with hold | ⟨-, -, hd, -⟩
    · have := h.arrivals _ _ (Option.isSome_of_eq_some hold)
      rw [hnone] at this
      cases this
    · unfold delivers at hd
      rw [hact] at hd
      cases hd

/-- **One event of a prover.** -/
theorem Occurs.nests (h : Nests D M C) (hpaid : Paid D C.history) (hh : C.net.halted = false)
    (hM : 2 ≤ M) (hmax : ∀ u, (D.cfg u).maxdepth = M) (hshallow : Shallow D M C'.net)
    (hprompt : C.Prompt D ev.time) (hearly : C.Early D ev.time) : Nests D M C' := by
  have hfits : Net.Fits D C.net := hpaid.fits hh
  refine ⟨hshallow, fun v hv => ho.sound h hpaid hh hv, fun v hv => ho.ordered h hv,
    fun q hq p x => ho.acks h hfits hmax hq, fun q hq m => ho.mail h hq, fun v m hm => ?_,
    fun q p => ho.arrivals h, fun q hq p hp hchild hc => ?_⟩
  · exact ho.acks_isSome (h.air v m (ho.air_subset _ hm))
  · by_cases hne : p = u
    · subst hne
      rw [ho.prover_self] at hc
      by_cases hacc : (C.net.prover p).accepted ev = []
      · have hold : .child q ∈ C.history.roles p := by
          rw [ho.roles, Function.update_self, takes, hacc, List.map_nil, List.append_nil] at hchild
          exact (List.mem_append.mp hchild).resolve_left fun hr => by
            cases List.eq_of_mem_replicate hr
        have hc₀ := (Prover.step_alive ho.step hc).2
        obtain ⟨x, T, hpair⟩ := h.pair q hq p hp hold hc₀
        exact ⟨x, T, ho.pair_self h hpaid hh hM hmax hearly hq hold hc hpair
          (ho.inTime h hpaid hh hM hmax hprompt hearly hq hp hold hc₀ hpair)⟩
      · obtain ⟨x, hpair⟩ := ho.pair_new h hpaid hh hq hacc hc hchild
        exact ⟨x, _, hpair⟩
    · have hold : .child q ∈ C.history.roles p := by
        rwa [ho.roles, Function.update_of_ne hne] at hchild
      rw [ho.prover_of_ne hne] at hc
      obtain ⟨x, T, hpair⟩ := h.pair q hq p hp hold hc
      exact ⟨x, T, ho.pair_other hne h hfits hq hold hpair
        (ho.inTime h hpaid hh hM hmax hprompt hearly hq hp hold hc hpair)⟩

end Event

/-! ## A packet goes on the air -/

theorem serves_out {q : Uid} {A : Nat} {p : Prover} (out : List Packet) (h : Serves q A p) :
    Serves q A { p with out := out } :=
  ⟨⟨h.decided, h.first, h.mktree, h.cackto⟩, h.parent, h.unsent, h.depth,
    h.budget.congr rfl rfl rfl (fun _ _ h => h) (fun _ h => h) id⟩

theorem nests_transmit {pkt : Packet} {targets : List Uid} {inRange : Bool} (h : Nests D M C)
    (hfits : Net.Fits D C.net) (hu : u ∈ D.ids) (hpkt : pkt ∈ (C.net.prover u).out)
    (hs : C'.net = (C.net.takePacket u pkt).radiate (C.net.prover u) targets inRange pkt)
    (hroles : C'.history.roles = C.history.roles)
    (he : C' = { C with
      history := C'.history
      lost := Function.update C.lost u (C.lost u || (!inRange && pkt.isReport)) })
    (hshallow : Shallow D M C'.net) : Nests D M C' := by
  have hsame : ∀ v, ∃ out, out.Sublist (C.net.prover v).out ∧
      C'.net.prover v = { C.net.prover v with out := out } := by
    intro v
    obtain ⟨out, hout, hv⟩ := takePacket_prover (s := C.net) u pkt v
    exact ⟨out, hout, by rw [hs, radiate_prover, hv]⟩
  have hacks : C'.acks = C.acks := by rw [he]
  have harr : C'.arrived = C.arrived := by rw [he]
  have hlost : ∀ v, C'.lost v = false → C.lost v = false ∧
      (v = u → (!inRange && pkt.isReport) = false) := by
    intro v hv
    rw [he] at hv
    by_cases hvu : v = u
    · subst hvu
      simp only [Function.update_self, Bool.or_eq_false_iff] at hv
      exact ⟨hv.1, fun _ => hv.2⟩
    · simp only [Function.update_of_ne hvu] at hv
      exact ⟨hv, fun he => absurd he hvu⟩
  have hnow : C'.net.now = C.net.now := by
    rw [hs, radiate_now]
    rfl
  refine ⟨hshallow, fun v hv => ?_, fun v hv => ?_, fun q hq p x hack => ?_, fun q hq m hm => ?_,
    fun v m hm => ?_, fun q p hsome => ?_, fun q hq p hp hchild hc => ?_⟩
  · obtain ⟨out, -, hv'⟩ := hsame v
    obtain ⟨hr, hsound⟩ := h.sound v hv
    rw [hv']
    exact ⟨hr, fun hf hc => (hsound hf hc).congr rfl rfl rfl rfl rfl (hsound hf hc).cackto rfl
      (List.Sublist.refl _) Iff.rfl⟩
  · obtain ⟨out, -, hv'⟩ := hsame v
    rw [hv']
    exact h.ordered v hv
  · rw [hacks] at hack
    have hold := h.acks q hq p x hack
    obtain ⟨out, -, hv'⟩ := hsame q
    refine ⟨by rw [hnow]; exact hold.le, ?_, ?_⟩
    · rw [hv']
      exact hold.broadcast
    · rw [hv']
      exact hold.due
  · obtain ⟨out, hout, hv⟩ := hsame q
    rw [hv] at hm
    rw [hacks]
    refine h.mail q hq m ((List.mem_append.mp hm).elim (List.mem_append_left _) fun hm => ?_)
    exact List.mem_append_right _ ((hout.filterMap _).mem hm)
  · rw [hs] at hm
    rw [hacks]
    rcases ack_of_radiate hm with hm | ⟨rfl, rfl⟩
    · exact h.air v m hm
    · -- the ack was handed over by `u`
      have hmem : .commitAck m ∈ (C.net.prover u).mail :=
        List.mem_append_right _ (List.mem_filterMap.mpr ⟨_, hpkt, rfl⟩)
      have hsrc : m.source = u := ((hfits.sessions u hu).mail _ hmem).1.trans (uid_eq hfits.cfg)
      rw [hsrc]
      exact h.mail u hu m hmem
  · rw [harr] at hsome
    rw [hroles]
    exact h.arrivals q p hsome
  · rw [hroles] at hchild
    obtain ⟨out, -, hp'⟩ := hsame p
    obtain ⟨out', -, hq'⟩ := hsame q
    rw [hp'] at hc
    obtain ⟨x, T, hpair⟩ := h.pair q hq p hp hchild hc
    refine ⟨x, T, by rw [hacks]; exact hpair.ack, by rw [he]; exact hpair.accepted, hpair.le, ?_,
      ?_, ?_, ?_⟩
    · rw [hp', hq']
      exact fun hno => serves_out out (hpair.serves hno)
    · rw [hp', show C'.reported = C.reported by rw [he]]
      exact hpair.sent
    · rw [hp', harr]
      intro hsent hl hnone
      obtain ⟨hl, hkeep⟩ := hlost p hl
      rw [hs]
      exact inTransit_radiate hfits.cfg hkeep (hpair.transit hsent hl hnone)
    · rw [harr]
      exact fun hl => hpair.arrived (hlost p hl).1

/-- The collector handles a report. -/
theorem nests_collect {m : UpdateReq} (h : Nests D M C) (hs : C'.net =
      { C.net with toColl := C.net.toColl.erase m, handled := C.net.handled ++ [m] })
    (hroles : C'.history.roles = C.history.roles) (he : C' = { C with history := C'.history })
    (hshallow : Shallow D M C'.net) : Nests D M C' := by
  have hpr : C'.net.prover = C.net.prover := by rw [hs]
  have hair : C'.net.air = C.net.air := by rw [hs]
  have hnow : C'.net.now = C.net.now := by rw [hs]
  have hacks : C'.acks = C.acks := by rw [he]
  have harr : C'.arrived = C.arrived := by rw [he]
  have hlost : C'.lost = C.lost := by rw [he]
  refine ⟨hshallow, hpr ▸ h.sound, hpr ▸ h.ordered, fun q hq p x hack => ?_, ?_, ?_, ?_,
    fun q hq p hp hchild hc => ?_⟩
  · rw [hacks] at hack
    have hold := h.acks q hq p x hack
    exact ⟨hnow ▸ hold.le, hpr ▸ hold.broadcast, hpr ▸ hold.due⟩
  · rw [hpr, hacks]
    exact h.mail
  · rw [hair, hacks]
    exact h.air
  · rw [harr, hroles]
    exact h.arrivals
  · rw [hroles] at hchild
    rw [hpr] at hc
    obtain ⟨x, T, hpair⟩ := h.pair q hq p hp hchild hc
    have hin : InTransit q p C'.net ↔ InTransit q p C.net := by rw [InTransit, hpr, hair, InTransit]
    refine ⟨x, T, by rw [hacks]; exact hpair.ack, by rw [he]; exact hpair.accepted, hpair.le, ?_,
      ?_, ?_, ?_⟩
    · rw [hpr]
      exact hpair.serves
    · rw [hpr, show C'.reported = C.reported by rw [he]]
      exact hpair.sent
    · rw [hpr, harr, hlost, hin]
      exact hpair.transit
    · rw [harr, hlost]
      exact hpair.arrived

/-! ## Runs -/

/-- **One event.** -/
theorem Nests.step {e : NetEvent} (h : Nests D M C) (hpaid : Paid D C.history) (hM : 2 ≤ M)
    (hmax : ∀ u, (D.cfg u).maxdepth = M) (hone : C.OneAttestation e) (hprompt : At (Prompt D) e C)
    (hearly : At (Early D) e C) (hs : Chronicle.step D e C = some C')
    (hh' : C'.net.halted = false) : Nests D M C' := by
  obtain ⟨hh, hmoves, hgrows⟩ := grows_of_step hs hone hh'
  have hfits : Net.Fits D C.net := hpaid.fits hh
  have hshallow := h.shallow.step (by omega) hmax hfits hone hmoves hh'
  cases hgrows with
  | @event u ev p' air hloc ho =>
    have htime : e.time = some ev.time := by rw [NetEvent.time, hloc]; rfl
    exact ho.nests h hpaid hh hM hmax hshallow (hprompt _ htime) (hearly _ htime)
  | transmit hu hpkt hnet hroles he => exact nests_transmit h hfits hu hpkt hnet hroles he hshallow
  | collect hnet hroles he => exact nests_collect h hnet hroles he hshallow

theorem nests_init : Nests D M (Chronicle.init D) := by
  refine ⟨fun q d tid hq => absurd hq.2.1 List.not_mem_nil, fun u _ => ⟨Traces.atEach_nil, ?_⟩,
    fun u _ _ _ => Prover.ordered_init _ _, nofun, fun q _ m hm => ?_, nofun, nofun, nofun⟩
  · exact fun _ _ => sound_init _ _
  · cases hm

theorem nests_of_reaches (hM : 2 ≤ M) (hmax : ∀ u, (D.cfg u).maxdepth = M)
    (h : Runs.Reaches (Chronicle.step D)
      (fun e C => C.OneAttestation e ∧ At (Prompt D) e C ∧ At (Early D) e C) (Chronicle.init D) C) :
    Paid D C.history ∧ (C.net.halted = false → Nests D M C) := by
  refine h.invariant (I := fun C => Paid D C.history ∧ (C.net.halted = false → Nests D M C))
    ⟨paid_init, fun _ => nests_init⟩ ?_
  rintro e C C' ⟨hpaid, hnests⟩ ⟨hone, hprompt, hearly⟩ hs
  refine ⟨hpaid.step hone (history_step hs), fun hh' => ?_⟩
  obtain ⟨hh, -⟩ := grows_of_step hs hone hh'
  exact (hnests hh).step hpaid hM hmax hone hprompt hearly hs hh'

/-- **Update timers nest along the tree**, as long as no child of a root waits for a child of its
own too long.  The report of a child that lives and stays in range arrives no later than its
parent's update timer for it goes off, if the ack and the report together take no longer than
`timeoutack`. -/
theorem update_timers_nest (hM : 2 ≤ M) (hmax : ∀ u, (D.cfg u).maxdepth = M)
    (h : Runs.Reaches (Chronicle.step D)
      (fun e C => C.OneAttestation e ∧ At (Prompt D) e C ∧ At (Early D) e C) (Chronicle.init D) C)
    (hh : C.net.halted = false) :
    ∀ q ∈ D.ids, ∀ p ∈ D.ids, .child q ∈ C.history.roles p → (C.net.prover p).crashed = false →
      C.lost p = false → ∃ x, C.acks q p = some x ∧ (∀ t ∈ C.arrived q p, t ≤ x.2) ∧
        (C.arrived q p = none → ∀ t, C.net.Due D t → C.Prompt D t → C.Early D t → t ≤ x.2) := by
  obtain ⟨hpaid, hnests⟩ := nests_of_reaches hM hmax h
  intro q hq p hp hchild hc hlost
  obtain ⟨x, T, hpair⟩ := (hnests hh).pair q hq p hp hchild hc
  exact ⟨x, hpair.ack, hpair.arrived hlost, fun hnone t hdue hprompt hearly =>
    (hnests hh).le_due hpaid hh hM hmax hq hp hchild hc hpair hlost hnone hdue hprompt hearly⟩

end

/-! ## A child of a root -/

theorem four_lt_maxuid : 4 < MAXUID := by
  decide

/-- Key 5 in common, `maxdepth` 3, rounds of 64 s; `deltag` is 4 s. -/
def chainCfg (u : Uid) : Config :=
  ⟨u, [5], 3, 64 * second, 2, .SKY, fun m _ => m.mac == 0, fun _ _ _ => 0⟩

theorem chainCfg_UId (u : Uid) : (chainCfg u).UId = u := rfl

def chainOfFour : Deployment where
  size := 4
  cfg := chainCfg
  start := fun u =>
    if u = 1 then 0 else if u = 2 then 2 * second else if u = 3 then 3 * second else 3500 * 10 ^ 9
  size_lt := four_lt_maxuid
  uid_eq := chainCfg_UId

/-- Prover 1 becomes root, 2 becomes its child and acknowledges 3. -/
def joinedChain : List NetEvent :=
  [.prover 1 ⟨0, .timer .startmsg { delay := 4 * second }⟩,
   .prover 1 ⟨1960 * 10 ^ 9, .timer .checkdelaymsg {}⟩,
   .prover 2 ⟨2 * second, .timer .startmsg { delay := 4 * second }⟩,
   .prover 3 ⟨3 * second, .timer .startmsg { delay := 4 * second }⟩,
   .prover 4 ⟨3500 * 10 ^ 9, .timer .startmsg { delay := 4 * second }⟩,
   .prover 2 ⟨3960 * 10 ^ 9, .timer .checkdelaymsg {}⟩,
   .prover 3 ⟨4960 * 10 ^ 9, .timer .checkdelaymsg {}⟩,
   .prover 4 ⟨5460 * 10 ^ 9, .timer .checkdelaymsg {}⟩,
   .prover 1 ⟨5960 * 10 ^ 9, .timer .mktreetimer { treeID := 7 }⟩,
   .prover 1 ⟨5960 * 10 ^ 9, .timer .creqmsg {}⟩,
   .transmit 1 .creqmsg [2] true,
   .deliver 2 (askMsg 1 3 7) 5960000000000 {},
   .prover 2 ⟨6027073604000, .self 4 {}⟩,
   .transmit 2 (.prover (respMsg 2 1 7)) [] true,
   .deliver 1 (respMsg 2 1 7) 6027073604000 {},
   .prover 1 ⟨6160272420000, .self 6 {}⟩,
   .transmit 1 (.prover (ackMsg 1 2 7)) [] true,
   .deliver 2 (ackMsg 1 2 7) 6160272420000 {},
   .prover 2 ⟨6160272420000, .timer .creqmsg {}⟩,
   .transmit 2 .creqmsg [3] true,
   .deliver 3 (askMsg 2 2 7) 6160272420000 {},
   .prover 3 ⟨6227346024000, .self 4 {}⟩,
   .transmit 3 (.prover (respMsg 3 2 7)) [] true,
   .deliver 2 (respMsg 3 2 7) 6227346024000 {}]

/-- Prover 3 waits for 4, which has crashed, until its update timer for it runs out. -/
def waitingChild : List NetEvent :=
  joinedChain ++
    [.prover 2 ⟨6426670052000, .self 8 {}⟩,
     .transmit 2 (.prover (ackMsg 2 3 7)) [] true,
     .deliver 3 (ackMsg 2 3 7) 6426670052000 {},
     .prover 3 ⟨6426670052000, .timer .creqmsg {}⟩,
     .transmit 3 .creqmsg [4] true,
     .deliver 4 (askMsg 3 1 7) 6426670052000 {},
     .prover 4 ⟨6493743656000, .self 4 {}⟩,
     .transmit 4 (.prover (respMsg 4 3 7)) [] true,
     .deliver 3 (respMsg 4 3 7) 6493743656000 {},
     .prover 4 ⟨6493743656000, .crash⟩,
     .prover 3 ⟨6693067684000, .self 8 {}⟩,
     .transmit 3 (.prover (ackMsg 3 4 7)) [] true,
     .deliver 4 (ackMsg 3 4 7) 6693067684000 {},
     .prover 4 ⟨9460 * 10 ^ 9, .timer .mktreetimer {}⟩,
     .prover 4 ⟨10426670052000, .timer .cacktomsg {}⟩,
     .prover 1 ⟨17960 * 10 ^ 9, .timer .cresptomsg {}⟩,
     .prover 2 ⟨18160272420000, .timer .cresptomsg {}⟩,
     .prover 3 ⟨18426670052000, .timer .cresptomsg {}⟩,
     .prover 3 ⟨34493743656000, .upto 9⟩,
     .prover 3 ⟨34567456004000, .self 10 {}⟩,
     .transmit 3 (.prover (.updateReq ⟨.UPRQ, 3, 2, [3], [1], 7, 0, 5, [0]⟩)) [] true,
     .deliver 2 (.updateReq ⟨.UPRQ, 3, 2, [3], [1], 7, 0, 5, [0]⟩) 34567456004000 {},
     .prover 2 ⟨34714880700000, .self 10 {}⟩,
     .transmit 2 (.prover (.updateReq ⟨.UPRQ, 2, 1, [3, 2, 0], [1, 1, 0], 7, 0, 5, [0]⟩)) [] true,
     .deliver 1 (.updateReq ⟨.UPRQ, 2, 1, [3, 2, 0], [1, 1, 0], 7, 0, 5, [0]⟩) 34714880700000 {}]

/-- In `waitingChild` the report of prover 3 arrives in time all the same, and that of 2 too. -/
theorem update_timers_nest_waiting : ∃ C : Chronicle,
    (C.arrived 2 3 = some 34567456004000 ∧ ∃ x, C.acks 2 3 = some x ∧ 34567456004000 ≤ x.2) ∧
      C.arrived 1 2 = some 34714880700000 ∧ ∃ x, C.acks 1 2 = some x ∧ 34714880700000 ≤ x.2 := by
  obtain ⟨C, hr, ht⟩ := Runs.exists_of_run (Chronicle.step chainOfFour)
    (fun e C => C.OneAttestation e ∧ At (Prompt chainOfFour) e C ∧ At (Early chainOfFour) e C)
    waitingChild (Chronicle.init chainOfFour)
    (fun C => C.net.halted = false ∧ .child 2 ∈ C.history.roles 3 ∧ .child 1 ∈ C.history.roles 2 ∧
      (C.net.prover 3).crashed = false ∧ (C.net.prover 2).crashed = false ∧ C.lost 3 = false ∧
      C.lost 2 = false ∧ C.arrived 2 3 = some 34567456004000 ∧
      C.arrived 1 2 = some 34714880700000) (by decide +kernel)
  obtain ⟨hh, h3, h2, hc3, hc2, hl3, hl2, ha3, ha2⟩ := of_decide_eq_true ht
  have h := update_timers_nest (M := 3) (by decide) (fun _ => rfl) hr hh
  obtain ⟨x, hx, harr, -⟩ := h 2 (by decide) 3 (by decide) h3 hc3 hl3
  obtain ⟨y, hy, harr', -⟩ := h 1 (by decide) 2 (by decide) h2 hc2 hl2
  exact ⟨C, ⟨ha3, x, hx, harr _ ha3⟩, ha2, y, hy, harr' _ ha2⟩

/-- Prover 3 crashes behind its answer, and the root's timer for 2 runs out before that of 2
for 3 does. -/
def lateChild : List NetEvent :=
  joinedChain ++
    [.prover 3 ⟨6227346024000, .crash⟩,
     .prover 4 ⟨6227346024000, .crash⟩,
     .prover 2 ⟨6426670052000, .self 8 {}⟩,
     .transmit 2 (.prover (ackMsg 2 3 7)) [] true,
     .deliver 3 (ackMsg 2 3 7) 6426670052000 {},
     .prover 3 ⟨8960 * 10 ^ 9, .timer .mktreetimer {}⟩,
     .prover 4 ⟨9460 * 10 ^ 9, .timer .mktreetimer {}⟩,
     .prover 3 ⟨10160272420000, .timer .cacktomsg {}⟩,
     .prover 1 ⟨17960 * 10 ^ 9, .timer .cresptomsg {}⟩,
     .prover 2 ⟨18160272420000, .timer .cresptomsg {}⟩,
     .prover 1 ⟨50027073604000, .upto 7⟩,
     .prover 1 ⟨50100785952000, .self 8 {}⟩,
     .prover 2 ⟨50227346024000, .upto 9⟩,
     .prover 2 ⟨50301058372000, .self 10 {}⟩,
     .transmit 2 (.prover (.updateReq ⟨.UPRQ, 2, 1, [2], [1], 7, 0, 5, [0]⟩)) [] true,
     .deliver 1 (.updateReq ⟨.UPRQ, 2, 1, [2], [1], 7, 0, 5, [0]⟩) 50301058372000 {}]

/-- **The timer of a root is too short.**  In `lateChild` the report of prover 2 arrives at the
root 274 ms behind its update timer, although the ack and the report together took 207 ms. -/
theorem lateChild_late : ¬ ∀ (M : Nat) (D : Deployment), 2 ≤ M → (∀ u, (D.cfg u).maxdepth = M) →
    ∀ C, Runs.Reaches (Chronicle.step D) (fun e C => C.OneAttestation e ∧ At (Prompt D) e C)
      (Chronicle.init D) C → C.net.halted = false →
      ∀ q ∈ D.ids, ∀ p ∈ D.ids, .child q ∈ C.history.roles p → (C.net.prover p).crashed = false →
        C.lost p = false → ∃ x, C.acks q p = some x ∧ (∀ t ∈ C.arrived q p, t ≤ x.2) ∧
          (C.arrived q p = none → ∀ t, C.net.Due D t → C.Prompt D t → t ≤ x.2) := by
  intro h
  obtain ⟨C, hr, ht⟩ := Runs.exists_of_run (Chronicle.step chainOfFour)
    (fun e C => C.OneAttestation e ∧ At (Prompt chainOfFour) e C) lateChild
    (Chronicle.init chainOfFour)
    (fun C => C.net.halted = false ∧ .child 1 ∈ C.history.roles 2 ∧
      (C.net.prover 2).crashed = false ∧ C.lost 2 = false ∧ C.arrived 1 2 = some 50301058372000 ∧
      C.acks 1 2 = some (6027073604000, 50027073604000)) (by decide +kernel)
  obtain ⟨hh, hchild, hc, hl, harr, hack⟩ := of_decide_eq_true ht
  obtain ⟨x, hx, hle, -⟩ := h 3 chainOfFour (by decide) (fun _ => rfl) C hr hh 1 (by decide) 2
    (by decide) hchild hc hl
  obtain rfl := Option.some.inj (hack.symm.trans hx)
  exact absurd (hle _ harr) (by decide)

end Chronicle

end Net

end Fadia
