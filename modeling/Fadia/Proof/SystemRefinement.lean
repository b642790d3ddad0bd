import Fadia.Devices.System
import Fadia.Lib.Taken
import Fadia.Proof.CountedOnce
import Fadia.Proof.OutFrame
import Fadia.Proof.Transmissions

/-!
# The system refines its network and its devices

`Matches` relates a state of the system to a state of `Net`: the same messages are under way and
handled, and each prover is the same but for its clock and for what it has handed over, which in
`Net` is what its device has not transmitted.

Every event of the system is followed by `Net` (`tracks_step`): an event of a prover by the same
event, a transmission by `transmit`, the depletion of a battery by the prover's crash.  Every state
of the devices is reached by their events alone (`fieldRun_of_reaches`), and what they have
transmitted are packets that their provers handed over, none of them twice (`Honest`).
-/

namespace Fadia

namespace Prover

section
variable {p q : Prover} {e : Event}

/-! ## The clock and the hand-overs -/

theorem step_at {t : Nat} (ht : t ≤ e.time) (hp : p.now ≤ e.time) :
    step e { p with now := t } = step e p := by
  have h1 : ¬ e.time < t := Nat.not_lt.mpr ht
  have h2 : ¬ e.time < p.now := Nat.not_lt.mpr hp
  unfold step
  simp only [h1, h2, or_false]
  rfl

/-- A step adds to what was handed over before, whatever that is and whatever the clock shows. -/
theorem step_resumed (hs : step e p = some q) : ∃ new, q.out = p.out ++ new ∧
    ∀ out t, t ≤ e.time →
      step e { p with out := out, now := t } = some { q with out := out ++ new } := by
  obtain ⟨-, hnow, -⟩ := step_cases hs
  let p₀ : Prover := { p with out := [] }
  have hbehind : ∀ out, step e { p with out := out } =
      (step e p₀).map fun r => behind out r.crashed r := by
    intro out
    have h : behind out p₀.crashed p₀ = { p with out := out } := by
      unfold behind
      rw [List.append_nil]
    rw [← h]
    exact step_behind e
  have hself := hbehind p.out
  rw [hs] at hself
  obtain ⟨r, hr, rfl⟩ := Option.map_eq_some_iff.mp hself.symm
  refine ⟨r.out, rfl, fun out t ht => ?_⟩
  have hclock : step e { p with out := out, now := t } = step e { p with out := out } :=
    step_at (p := { p with out := out }) ht hnow
  rw [hclock, hbehind out, hr]
  rfl

theorem now_of_step (hs : step e p = some q) : q.now = e.time := by
  obtain ⟨hf, -, ⟨hc, -⟩ | ⟨-, hlive⟩⟩ := step_cases hs
  · by_cases hdead : p.crashed = true
    · obtain ⟨timers, uptos, rfl⟩ := step_of_crashed hs hdead
      rfl
    · have hact := hc.resolve_left hdead
      unfold step at hs
      rw [hact] at hs
      dsimp only at hs
      split at hs
      · cases hs
      · split at hs
        · cases hs
          rfl
        · cases hs
  · obtain ⟨-, _, _, _, -, -, hadds⟩ := hlive.adds hf
    exact hadds.now

/-- What a step schedules is not due before the event. -/
theorem noneBefore_of_step (hn : p.NoneBefore e.time) (hs : step e p = some q) :
    q.NoneBefore e.time := by
  have hpop : ∀ {timers uptos outbox}, p.Pops timers uptos outbox →
      (∀ t s, timers t = some s → e.time ≤ s.due) ∧ (∀ u ∈ uptos, e.time ≤ u.1.due) ∧
        ∀ o ∈ outbox, e.time ≤ o.1.due := by
    rintro timers uptos outbox ⟨ht, hu, ho⟩
    refine ⟨fun t s hs => ?_, fun u hmem => ?_, fun o hmem => ?_⟩
    · rcases ht t with h | h
      · rw [h] at hs
        cases hs
      · exact hn s (mem_pending_timer (h.symm.trans hs))
    · exact hn _ (mem_pending_upto (hu.subset hmem))
    · exact hn _ (mem_pending_outbox (ho.subset hmem))
  intro s hmem
  obtain ⟨hf, -, ⟨-, now, timers, uptos, outbox, hpops, rfl⟩ | ⟨-, hlive⟩⟩ := step_cases hs
  · obtain ⟨ht, hu, ho⟩ := hpop hpops
    rcases mem_pending.mp hmem with ⟨t, hs⟩ | ⟨u, hu', rfl⟩ | ⟨o, ho', rfl⟩
    · exact ht t s hs
    · exact hu u hu'
    · exact ho o ho'
  · obtain ⟨-, timers, uptos, outbox, hpops, -, hadds⟩ := hlive.adds hf
    obtain ⟨ht, hu, ho⟩ := hpop hpops
    rcases mem_pending.mp hmem with ⟨t, hs⟩ | ⟨u, hu', rfl⟩ | ⟨o, ho', rfl⟩
    · exact (hadds.timer t s hs).elim (ht t s) fun h => h.1
    · exact (hadds.upto.mem hu').elim (hu u) fun h => h.1
    · exact (hadds.outbox.mem ho').elim (ho o) fun h => h.1

/-- The packets are proper and the messages prepared behind an event, unless it is a run-time
error. -/
theorem mail_of_step (hs : step e p = some q) (hact : e.act ≠ .crash) (hf : q.fault = none)
    (hout : ∀ pkt ∈ p.out, pkt.Proper) (hbox : ∀ o ∈ p.outbox, o.2.Prepared) :
    (∀ pkt ∈ q.out, pkt.Proper) ∧ ∀ o ∈ q.outbox, o.2.Prepared := by
  obtain ⟨hpf, -, ⟨hc, -⟩ | ⟨-, hlive⟩⟩ := step_cases hs
  · obtain ⟨ho, hb⟩ := mail_of_crashed hs (hc.resolve_right hact)
    rw [ho]
    exact ⟨hout, fun o hmem => hbox o (hb o hmem)⟩
  have hstores : ∀ {r : Prover}, Stores e.report p r →
      (∀ pkt ∈ r.out, pkt.Proper) ∧ ∀ o ∈ r.outbox, o.2.Prepared := fun h =>
    ⟨fun pkt hp => (h.proper pkt hp).elim (hout pkt) Packet.PassedOn.proper,
      fun o ho => (h.prepared o ho).elim (hbox o) Msg.Answer.prepared⟩
  rcases posts_live hpf hlive with h | ⟨k, c, o, -, hfind, rfl⟩
  · cases h with
    | stays h => exact hstores h
    | @sends r tid parent h hp he =>
      obtain ⟨h1, h2⟩ := hstores h
      rw [he, sendUpReq_of_some tid hp]
      refine ⟨h1, fun o ho => ?_⟩
      rcases List.mem_append.mp ho with ho | ho
      · exact h2 o ho
      · rw [List.mem_singleton.mp ho]
        trivial
    | fails h => exact absurd hf h
  · have hprep : o.2.Prepared := hbox o (List.mem_of_find?_eq_some hfind)
    refine ⟨proper_onSelf (p := (p.atTime e.time).popOutbox k) c hprep hout, fun x hx => ?_⟩
    obtain ⟨out, he⟩ := onSelf_eq (p := (p.atTime e.time).popOutbox k) o.2 c
    rw [he] at hx
    exact hbox x (List.mem_of_mem_filter hx)

end

end Prover

/-! ## Devices -/

namespace Device

section
variable {w : Surroundings} {d d' : Device} {e : DeviceEvent}

/-- A crashed device stays so. -/
theorem crashed_step (hc : d.crashed = true) (hs : d.step w e = some d') : d'.crashed = true := by
  by_contra hno
  have halive := alive_of_step hs (Bool.eq_false_iff.mpr hno)
  rw [hc] at halive
  cases halive

/-- A packet that is handed over does not deplete a battery. -/
theorem crashed_handOver {pkt : Packet} (hs : d.step w (.handOver pkt) = some d') :
    d'.crashed = d.crashed := by
  obtain ⟨-, ht⟩ := step_cases hs
  cases ht with
  | dropped => rfl
  | handOver => exact crashed_dispatch

/-- What an event does to what a device has transmitted and to whether it has crashed. -/
inductive Shows (d d' : Device) : Prop
  | quiet (hsent : d'.sent = d.sent) (hc : d'.crashed = d.crashed)
  | dies (hsent : d'.sent = d.sent) (hc : d.crashed = false) (hc' : d'.crashed = true)
  | transmits (x : Outgoing × Route) (hsent : d'.sent = d.sent ++ [x]) (hc : d.crashed = false)
      (hc' : d'.crashed = false)

theorem shows_of_step (hw : w.build = .wireless) (hs : d.step w e = some d') : Shows d d' := by
  rcases step_sent hw hs with hsent | ⟨x, hsent, hc, hc'⟩
  · cases hc : d.crashed with
    | true => exact .quiet hsent ((crashed_step hc hs).trans hc.symm)
    | false =>
      cases hc' : d'.crashed with
      | true => exact .dies hsent hc hc'
      | false => exact .quiet hsent (hc'.trans hc.symm)
  · exact .transmits x hsent hc hc'

end

end Device

namespace System

open Prover (Event)
open Fadia.Field (FieldEvent)

/-- The places of the packets that the device of `u` has transmitted. -/
def places (s : System) (u : Uid) : List Nat := (s.field.device u).sent.map (·.1.serial)

/-- The packets of prover `u` that its device has not transmitted. -/
def waiting (s : System) (u : Uid) : List Packet := Taken.rest (s.prover u).out (s.places u)

/-- The network that the system is, the packets that wait in any order. -/
structure Matches (D : Deployment) (s : System) (n : Net) : Prop where
  now : n.now = s.now
  halted : n.halted = s.halted
  air : n.air = s.air
  toColl : n.toColl = s.field.inFlight
  handled : n.handled = s.handled
  prover : ∀ u ∈ D.ids, ∃ out t, n.prover u = { s.handler u with out := out, now := t } ∧
    t ≤ s.now ∧ (s.halted = false → out.Perm (s.waiting u))

/-- The condition on the events that provers take. -/
def Locally (ok : Event → Prover → Prop) (e : SystemEvent) (s : System) : Prop :=
  ∀ u ev, e.localEvent = some (u, ev) → ok ev (s.handler u)

instance (ok : Event → Prover → Prop) [∀ e p, Decidable (ok e p)] (e : SystemEvent) (s : System) :
    Decidable (Locally ok e s) :=
  match h : e.localEvent with
  | none => .isTrue fun u ev he => by rw [h] at he; cases he
  | some (u, ev) =>
    decidable_of_iff (ok ev (s.handler u)) ⟨fun hk u' ev' he => by rw [h] at he; cases he; exact hk,
      fun hk => hk u ev h⟩

/-- The provers and their devices, while the simulation runs; the device of `u` has been given
the first of the packets that `u` hands over. -/
structure Linked (D : Deployment) (s : System) : Prop where
  pipeline : ∀ u ∈ D.ids,
    (s.field.device u).Pipeline ((s.prover u).out.take (s.field.device u).handed)
  proper : ∀ u ∈ D.ids, ∀ pkt ∈ (s.prover u).out, pkt.Proper
  prepared : ∀ u ∈ D.ids, ∀ o ∈ (s.prover u).outbox, o.2.Prepared
  timely : ∀ u ∈ D.ids, (s.prover u).now ≤ s.now ∧ (s.prover u).NoneBefore s.now
  faultless : ∀ u ∈ D.ids, (s.prover u).fault = none

/-- All that was handed over is with the devices. -/
def Settled (D : Deployment) (s : System) : Prop :=
  ∀ u ∈ D.ids, (s.field.device u).handed = (s.prover u).out.length

/-- The device of `u` has transmitted no packet twice, and only packets that `u` has handed over
or the redirected reports of such, each where its kind goes. -/
structure Honest (s : System) (u : Uid) : Prop where
  once : (s.places u).Nodup
  copies : ∀ x ∈ (s.field.device u).sent,
    Copies (s.prover u).out x.1 ∧ x.2.Fits x.1.pkt

/-- A run of the network in which provers take no event of their own but crashes. -/
def CrashesOnly (D : Deployment) (n n' : Net) : Prop :=
  Runs.Reaches (Net.step D) (Net.Locally fun ev _ => ev.act = .crash) n n'

/-- The network takes the prover's event within an event of the system, if there is one. -/
inductive Follows (D : Deployment) (e : SystemEvent) (n : Net) : Net → Prop
  | stays (h : e.localEvent = none) : Follows D e n n
  | takes {n₁ : Net} (e₁ : NetEvent) (hs : Net.step D e₁ n = some n₁)
      (h : e₁.localEvent = e.localEvent) : Follows D e n n₁

section
variable {D : Deployment} {range : Rat} {s s' : System} {n : Net} {u v : Uid}
  {ok : Event → Prover → Prop}

/-- A field event with its effect on the field. -/
theorem fieldEvent_cases {e : FieldEvent} (h : s.fieldEvent D range e = some s') :
    ∃ f, Field.step (D.site range) e s.field = some f ∧ s' = { s with field := f } := by
  obtain ⟨f, hf, he⟩ := Option.map_eq_some_iff.mp h
  exact ⟨f, hf, he.symm⟩

/-- What an event of a device does to the system. -/
theorem deviceEvent_cases {e : DeviceEvent} (h : s.deviceEvent D range u e = some s') :
    u ∈ D.ids ∧ ∃ d, (s.field.device u).step (s.field.surroundings (D.site range) u) e = some d ∧
      s' = { s with
        field := s.field.setDevice (D.site range) u d
        air := s.air ++ (d.sent.drop (s.field.device u).sent.length).flatMap (s.onAir D range u) } := by
  obtain ⟨s₁, hs₁, rfl⟩ := Option.map_eq_some_iff.mp h
  obtain ⟨f, hf, rfl⟩ := fieldEvent_cases hs₁
  rw [Field.step] at hf
  split at hf
  · cases hf
  split at hf
  · next hu =>
    obtain ⟨d, hd, rfl⟩ := Option.map_eq_some_iff.mp hf
    refine ⟨hu, d, hd, ?_⟩
    simp [Field.setDevice]
  · cases hf

/-- An event of a device keeps the provers and their devices linked, whether or not the next
packet is handed over with it. -/
theorem linked_device {e : DeviceEvent} (h : Linked D s)
    (hpkt : ∀ pkt, e = .handOver pkt →
      (s.prover u).out[(s.field.device u).handed]? = some pkt ∧ (s.field.device u).crashed = false)
    (hs : s.deviceEvent D range u e = some s') :
    Linked D s' ∧ s'.prover = s.prover ∧ s'.now = s.now ∧ s'.halted = s.halted ∧
      s'.handled = s.handled ∧
      (∀ v, v ≠ u → s'.field.device v = s.field.device v) ∧
      (s'.field.device u).handed =
        (Device.handedOver e ((s.prover u).out.take (s.field.device u).handed)).length ∧
      ((∃ pkt, e = .handOver pkt) →
        (s'.field.device u).crashed = (s.field.device u).crashed) := by
  obtain ⟨hu, d, hd, rfl⟩ := deviceEvent_cases hs
  have hold := h.pipeline u hu
  have hmem : ∀ pkt ∈ Device.handedOver e ((s.prover u).out.take (s.field.device u).handed),
      pkt ∈ (s.prover u).out := by
    intro pkt hp
    unfold Device.handedOver at hp
    split at hp
    · next pkt' =>
      rcases List.mem_append.mp hp with hp | hp
      · exact List.mem_of_mem_take hp
      · rw [List.mem_singleton.mp hp]
        exact List.mem_of_getElem? (hpkt pkt' rfl).1
    · exact List.mem_of_mem_take hp
  have hnew := Device.pipeline_step rfl hold (fun pkt hp => h.proper u hu pkt (hmem pkt hp))
    (fun pkt he => (hpkt pkt he).2) hd
  have htake : Device.handedOver e ((s.prover u).out.take (s.field.device u).handed) =
      (s.prover u).out.take d.handed := by
    rw [hnew.handed]
    have hlen := hold.handed
    unfold Device.handedOver
    split
    · next pkt' =>
      rw [List.length_append, ← hlen, List.length_singleton, List.take_add_one,
        (hpkt pkt' rfl).1]
      rfl
    · rw [← hlen]
  have hself : (s.field.setDevice (D.site range) u d).device u = d := Function.update_self ..
  have hother : ∀ v, v ≠ u →
      (s.field.setDevice (D.site range) u d).device v = s.field.device v := fun v hv =>
    Function.update_of_ne hv ..
  refine ⟨⟨fun v hv => ?_, h.proper, h.prepared, h.timely, h.faultless⟩, rfl, rfl, rfl, rfl, hother,
    ?_, ?_⟩
  · dsimp only
    by_cases he : v = u
    · subst he
      rw [hself, ← htake]
      exact hnew
    · rw [hother v he]
      exact h.pipeline v hv
  · dsimp only
    rw [hself, hnew.handed]
  · rintro ⟨pkt, rfl⟩
    dsimp only
    rw [hself]
    exact Device.crashed_handOver hd

/-! ## What goes on the air -/

/-- The report among what is transmitted, if it goes to the collector. -/
def toCollector (x : Outgoing × Route) : List UpdateReq :=
  [x].filterMap fun x => if x.2 = .collector then x.1.pkt.report else none

theorem nodup_inRange (f : Field) (u : Uid) : (f.inRange (D.site range) range u).Nodup :=
  List.Nodup.filter _ List.nodup_range'

theorem mem_inRange {f : Field} (h : v ∈ f.inRange (D.site range) range u) : v ∈ D.ids ∧ v ≠ u := by
  obtain ⟨hv, hne⟩ := List.mem_filter.mp h
  exact ⟨hv, (of_decide_eq_true hne).1⟩

variable (D range s u) in
/-- A transmission is one of a packet that was handed over, in `Net`. -/
theorem radiate_of_transmission {pkts : List Packet} {x : Outgoing × Route}
    (hcopy : Copies pkts x.1) (hfit : x.2.Fits x.1.pkt) :
    ∃ pkt targets inRange, pkts[x.1.serial]? = some pkt ∧ targets.Nodup ∧
      (∀ v ∈ targets, v ∈ D.ids ∧ v ≠ u) ∧
      ∀ (n : Net) (p : Prover), p.creqmsg = (s.prover u).creqmsg →
        n.radiate p targets inRange pkt =
          { n with air := n.air ++ s.onAir D range u x, toColl := n.toColl ++ toCollector x } := by
  obtain ⟨⟨k, pkt⟩, route⟩ := x
  cases hcopy with
  | same h =>
    cases pkt with
    | creqmsg =>
      cases route with
      | broadcast =>
        refine ⟨_, s.field.inRange (D.site range) range u, true, h, nodup_inRange _ _,
          fun v hv => mem_inRange hv, fun n p hp => ?_⟩
        simp [Net.radiate, onAir, toCollector, hp]
      | prover => exact hfit.elim
      | collector => exact hfit.elim
    | prover m =>
      cases route with
      | prover =>
        refine ⟨_, [], true, h, List.nodup_nil, by simp, fun n p _ => ?_⟩
        cases m with
        | updateReq r => simp [Net.radiate, onAir, toCollector, Msg.destination]
        | commitReq r => simp [Net.radiate, onAir, toCollector]
        | commitResp r => simp [Net.radiate, onAir, toCollector]
        | commitAck r => simp [Net.radiate, onAir, toCollector]
      | broadcast => exact hfit.elim
      | collector => exact hfit.elim
    | collector r =>
      cases route with
      | collector =>
        refine ⟨_, [], true, h, List.nodup_nil, by simp, fun n p _ => ?_⟩
        simp [Net.radiate, onAir, toCollector, Packet.report]
      | broadcast => exact hfit.elim
      | prover => exact hfit.elim
  | @redirected r h hk hm =>
    dsimp only at hm h
    subst hm
    cases route with
    | collector =>
      refine ⟨_, [], false, h, List.nodup_nil, by simp, fun n p _ => ?_⟩
      simp [Net.radiate, onAir, toCollector, Packet.report, hk]
    | broadcast => exact hfit.elim
    | prover => exact hfit.elim

/-! ## The events of a device, matched -/

/-- `Net` takes a packet that waits. -/
theorem net_transmit {pkt : Packet} {targets : List Uid} (inRange : Bool) (hh : n.halted = false)
    (hu : u ∈ D.ids) (hc : (n.prover u).crashed = false) (hpkt : pkt ∈ (n.prover u).out)
    (hnodup : targets.Nodup) (htargets : ∀ v ∈ targets, v ∈ D.ids ∧ v ≠ u) :
    Net.step D (.transmit u pkt targets inRange) n =
      some ((n.takePacket u pkt).radiate (n.prover u) targets inRange pkt) := by
  unfold Net.step
  rw [if_neg (by rw [hh]; decide)]
  dsimp only
  rw [if_pos ⟨hu, by rw [hc]; decide, hpkt, hnodup, htargets⟩]

/-- A prover whose battery is empty crashes in `Net`. -/
theorem net_crash (hm : Matches D s n) (h : Linked D s) (hrun : s.halted = false) (hu : u ∈ D.ids) :
    Net.step D (.prover u ⟨s.now, .crash⟩) n =
      some { n.setProver u { n.prover u with now := s.now, crashed := true } with now := s.now } := by
  have hnone : ∀ v ∈ D.ids, (n.prover v).NoneBefore s.now ∧ (n.prover v).now ≤ s.now ∧
      (n.prover v).fault = none := by
    intro v hv
    obtain ⟨out, t, he, ht, -⟩ := hm.prover v hv
    rw [he]
    exact ⟨(h.timely v hv).2, ht, h.faultless v hv⟩
  obtain ⟨hself, hnow, hf⟩ := hnone u hu
  have hdue : n.Due D s.now := ⟨Nat.le_of_eq hm.now, fun v hv => (hnone v hv).1⟩
  have hstep : Prover.step ⟨s.now, .crash⟩ (n.prover u) =
      some { n.prover u with now := s.now, crashed := true } := by
    unfold Prover.step
    rw [if_neg (by rw [hf]; simp [hnow])]
    exact if_pos hself
  unfold Net.step
  rw [if_neg (by rw [hm.halted, hrun]; decide)]
  dsimp only
  rw [if_pos (by trivial), Net.event, if_pos ⟨hu, hdue⟩, hstep]
  rfl

/-- What an event of a device leaves of the match, once the prover of the device is matched. -/
theorem Matches.device {d : Device} {n' : Net} {air : List (Uid × Msg)} (hm : Matches D s n)
    (hnow : n'.now = n.now) (hhalted : n'.halted = n.halted) (hair : n'.air = air)
    (hcoll : n'.toColl = s.field.inFlight ++ Field.reportsSent (s.field.device u) d)
    (hhandled : n'.handled = n.handled) (hother : ∀ v, v ≠ u → n'.prover v = n.prover v)
    (hself : u ∈ D.ids → ∃ out t,
      n'.prover u = { s.prover u with crashed := d.crashed, out := out, now := t } ∧ t ≤ s.now ∧
      (s.halted = false → out.Perm (Taken.rest (s.prover u).out (d.sent.map (·.1.serial))))) :
    Matches D { s with field := s.field.setDevice (D.site range) u d, air := air } n' := by
  refine ⟨hnow.trans hm.now, hhalted.trans hm.halted, hair, hcoll, hhandled.trans hm.handled,
    fun v hv => ?_⟩
  by_cases he : v = u
  · subst he
    have hdev : (s.field.setDevice (D.site range) v d).device v = d := Function.update_self ..
    obtain ⟨out, t, hp, ht, hperm⟩ := hself hv
    refine ⟨out, t, ?_, ht, ?_⟩
    · simp only [handler, hdev]
      exact hp
    · simp only [waiting, places, hdev]
      exact hperm
  · have hdev : (s.field.setDevice (D.site range) u d).device v = s.field.device v :=
      Function.update_of_ne he ..
    obtain ⟨out, t, hp, ht, hperm⟩ := hm.prover v hv
    refine ⟨out, t, ?_, ht, ?_⟩
    · simp only [handler, hdev]
      rw [hother v he]
      exact hp
    · simp only [waiting, places, hdev]
      exact hperm

/-- **An event of a device** is matched by a transmission, by a crash or by nothing. -/
theorem matches_device {e : DeviceEvent} (hm : Matches D s n) (h : Linked D s) (h' : Linked D s')
    (hrun : s.halted = false) (hs : s.deviceEvent D range u e = some s') :
    ∃ n', CrashesOnly D n n' ∧ Matches D s' n' := by
  obtain ⟨hu, d, hd, rfl⟩ := deviceEvent_cases hs
  have hpipe := h'.pipeline u hu
  rw [show (s.field.setDevice (D.site range) u d).device u = d from Function.update_self ..] at hpipe
  obtain ⟨out, t, hp, ht, hperm⟩ := hm.prover u hu
  have hwait := hperm hrun
  have hsame : d.sent = (s.field.device u).sent → Field.reportsSent (s.field.device u) d = [] ∧
      (d.sent.drop (s.field.device u).sent.length).flatMap (s.onAir D range u) = [] := fun he => by
    simp [Field.reportsSent, he]
  cases Device.shows_of_step rfl hd with
  | quiet hsent hc =>
    obtain ⟨hflight, hair⟩ := hsame hsent
    refine ⟨n, .refl, ?_⟩
    rw [hair, List.append_nil]
    refine hm.device rfl rfl hm.air (by rw [hflight, List.append_nil, hm.toColl]) rfl
      (fun _ _ => rfl) fun _ => ⟨out, t, ?_, ht, fun _ => ?_⟩
    · rw [hp, hc]
      rfl
    · rw [hsent]
      exact hwait
  | dies hsent hc hc' =>
    obtain ⟨hflight, hair⟩ := hsame hsent
    refine ⟨_, .tail .refl (fun v ev he => ?_) (net_crash hm h hrun hu), ?_⟩
    · obtain ⟨-, rfl⟩ := Prod.mk.inj (Option.some.inj he)
      rfl
    rw [hair, List.append_nil]
    refine hm.device hm.now.symm ?_ hm.air ?_ rfl (fun v hv => Net.setProver_of_ne hv) fun _ =>
      ⟨out, s.now, ?_, Nat.le_refl _, fun _ => ?_⟩
    · change (n.prover u).fault.isSome = _
      rw [hp, hm.halted, hrun]
      change (s.prover u).fault.isSome = _
      rw [h.faultless u hu]
      rfl
    · rw [hflight, List.append_nil]
      exact hm.toColl
    · change (n.setProver u _).prover u = _
      rw [Net.setProver_self, hp, hc']
      rfl
    · rw [hsent]
      exact hwait
  | transmits x hsent hc hc' =>
    obtain ⟨hcopy, hfit⟩ := hpipe.sent x (by rw [hsent]; simp)
    obtain ⟨pkt, targets, inRange, hget, hnodup, htargets, hradiate⟩ :=
      radiate_of_transmission D range s u hcopy hfit
    have hplace : (s.prover u).out[x.1.serial]? = some pkt := by
      rw [List.getElem?_take] at hget
      split at hget
      · exact hget
      · cases hget
    -- no packet is transmitted twice
    have hfresh : x.1.serial ∉ s.places u := by
      have hserials := hpipe.nodup
      simp only [Device.serials, hsent, List.map_append, List.append_assoc] at hserials
      exact fun hin => (List.nodup_append.mp hserials).2.2 _ hin _ (by simp) rfl
    have htaken := Taken.rest_concat hplace hfresh
    have hmem : pkt ∈ (n.prover u).out := by
      rw [hp]
      exact (hwait.trans htaken).mem_iff.mpr List.mem_cons_self
    have hdead : (n.prover u).crashed = false := by
      rw [hp]
      exact hc
    refine ⟨_, .tail .refl (fun v ev he => by cases he)
      (net_transmit inRange (hm.halted.trans hrun) hu hdead hmem hnodup htargets), ?_⟩
    rw [hradiate _ _ (by rw [hp]; rfl)]
    have hdrop : d.sent.drop (s.field.device u).sent.length = [x] := by
      rw [hsent, List.drop_left]
    rw [hdrop, List.flatMap_singleton]
    refine hm.device rfl rfl (by rw [← hm.air]; rfl) ?_ rfl
      (fun v hv => Function.update_of_ne hv ..) fun _ => ⟨out.erase pkt, t, ?_, ht, fun _ => ?_⟩
    · rw [Field.reportsSent, hdrop, ← hm.toColl]
      rfl
    · have hself : (n.takePacket u pkt).prover u =
          { n.prover u with out := (n.prover u).out.erase pkt } := Function.update_self ..
      refine hself.trans ?_
      rw [hp, hc', ← hc]
      rfl
    · have herase := (hwait.trans htaken).erase pkt
      rw [List.erase_cons_head] at herase
      rw [hsent, List.map_append]
      exact herase

/-! ## The events of a prover, matched -/

theorem handed_le (h : Linked D s) (hu : u ∈ D.ids) :
    (s.field.device u).handed ≤ (s.prover u).out.length := by
  have hlen := (h.pipeline u hu).handed
  rw [List.length_take] at hlen
  omega

theorem places_lt (h : Linked D s) (hu : u ∈ D.ids) :
    ∀ k ∈ s.places u, k < (s.prover u).out.length := by
  intro k hk
  have hserial : k ∈ (s.field.device u).serials := List.mem_append_left _ hk
  have hlt := Device.serials_lt (h.pipeline u hu) k hserial
  exact Nat.lt_of_lt_of_le hlt (List.length_take_le' ..)

/-- **What a handler has handed over goes to the device**, packet by packet. -/
theorem matches_handOver (pkts : List Packet) :
    ∀ s n, Linked D s → Matches D s n → s.halted = false →
      (s.prover u).out.drop (s.field.device u).handed = pkts →
      (pkts ≠ [] → (s.field.device u).crashed = false) →
      (∀ v ∈ D.ids, v ≠ u → (s.field.device v).handed = (s.prover v).out.length) →
      s.handOver D range u pkts = some s' →
      ∃ n', CrashesOnly D n n' ∧ Matches D s' n' ∧ Linked D s' ∧ Settled D s' ∧
        s'.halted = false := by
  induction pkts with
  | nil =>
    intro s n h hm hrun hdrop _ hrest hs
    cases hs
    refine ⟨n, .refl, hm, h, fun v hv => ?_, hrun⟩
    by_cases he : v = u
    · subst he
      have hge := List.drop_eq_nil_iff.mp hdrop
      exact Nat.le_antisymm (handed_le h hv) hge
    · exact hrest v hv he
  | cons pkt pkts ih =>
    intro s n h hm hrun hdrop hlive hrest hs
    obtain ⟨s₁, hs₁, hs⟩ := Option.bind_eq_some_iff.mp hs
    have hu := (deviceEvent_cases hs₁).1
    have hnext : (s.prover u).out[(s.field.device u).handed]? = some pkt := by
      have h0 : ((s.prover u).out.drop (s.field.device u).handed)[0]? = some pkt := by rw [hdrop]; rfl
      rwa [List.getElem?_drop] at h0
    have hcr : (s.field.device u).crashed = false := hlive (by simp)
    obtain ⟨h₁, hprover, -, hhalt, -, hother, hhanded, hkeep⟩ :=
      linked_device h (fun pkt' he => by cases he; exact ⟨hnext, hcr⟩) hs₁
    obtain ⟨n₁, hn₁, hm₁⟩ := matches_device hm h h₁ hrun hs₁
    have hsucc : (s₁.field.device u).handed = (s.field.device u).handed + 1 := by
      have hlen := (h.pipeline u hu).handed
      rw [hhanded, Device.handedOver, List.length_append, ← hlen]
      rfl
    obtain ⟨n', hn', hfinal⟩ := ih s₁ n₁ h₁ hm₁ (hhalt.trans hrun)
      (by rw [hprover, hsucc, ← List.tail_drop, hdrop]; rfl)
      (fun _ => (hkeep ⟨pkt, rfl⟩).trans hcr)
      (fun v hv hne => by rw [hprover, hother v hne]; exact hrest v hv hne) hs
    exact ⟨n', hn₁.trans hn', hfinal⟩

/-- What an event of prover `u` does to the system, up to what it hands over. -/
theorem proverEvent_cases {e : Event} (hs : s.proverEvent D range u e = some s') :
    u ∈ D.ids ∧ s.Due D e.time ∧ ∃ p, Prover.step e (s.handler u) = some p ∧
      (p.fault ≠ none ∧ s' = s.setProver u e.time p ∨ p.fault = none ∧
        handOver D range u (p.out.drop (s.prover u).out.length) (s.setProver u e.time p) = some s') := by
  unfold proverEvent at hs
  split at hs
  · next hok =>
    obtain ⟨p, hp, hs⟩ := Option.bind_eq_some_iff.mp hs
    refine ⟨hok.1, hok.2, p, hp, ?_⟩
    split at hs
    · next hf => exact .inl ⟨Option.isSome_iff_ne_none.mp hf, (Option.some.inj hs).symm⟩
    · next hf => exact .inr ⟨Option.not_isSome_iff_eq_none.mp hf, hs⟩
  · cases hs

/-- Behind an event of prover `u` all provers are linked to their devices; what it has handed over
is still to be given to its device. -/
theorem linked_prover {e : Event} {p : Prover} (h : Linked D s) (hset : Settled D s) (hu : u ∈ D.ids)
    (hdue : s.Due D e.time) (hact : e.act ≠ .crash) (hp : Prover.step e (s.handler u) = some p)
    (hf : p.fault = none) : Linked D (s.setProver u e.time p) := by
  obtain ⟨new, hout, -⟩ := Prover.step_resumed hp
  have hmail := Prover.mail_of_step hp hact hf (h.proper u hu) (h.prepared u hu)
  have hall : ∀ {P : Uid → Prover → Prop}, P u p → (∀ v ∈ D.ids, P v (s.prover v)) →
      ∀ v ∈ D.ids, P v ((s.setProver u e.time p).prover v) := by
    intro P hself hrest v hv
    by_cases he : v = u
    · subst he
      rw [show (s.setProver v e.time p).prover v = p from Function.update_self ..]
      exact hself
    · rw [show (s.setProver u e.time p).prover v = s.prover v from Function.update_of_ne he ..]
      exact hrest v hv
  have htake : p.out.take (s.field.device u).handed =
      (s.prover u).out.take (s.field.device u).handed := by
    rw [hout, hset u hu]
    exact List.take_append_of_le_length (Nat.le_refl _)
  refine ⟨hall (P := fun v q =>
      (s.field.device v).Pipeline (q.out.take (s.field.device v).handed)) ?_ h.pipeline,
    hall (P := fun _ q => ∀ pkt ∈ q.out, pkt.Proper) hmail.1 h.proper,
    hall (P := fun _ q => ∀ o ∈ q.outbox, o.2.Prepared) hmail.2 h.prepared,
    hall (P := fun _ q => q.now ≤ e.time ∧ q.NoneBefore e.time) ⟨?_, ?_⟩ fun v hv =>
      ⟨(h.timely v hv).1.trans hdue.1, hdue.2 v hv⟩,
    hall (P := fun _ q => q.fault = none) hf h.faultless⟩
  · rw [htake]
    exact h.pipeline u hu
  · exact Nat.le_of_eq (Prover.now_of_step hp)
  · have hnone : (s.handler u).NoneBefore e.time := hdue.2 u hu
    exact Prover.noneBefore_of_step hnone hp

/-! ## Runs -/

/-- A match, and what it rests on while the simulation runs. -/
structure Tracks (D : Deployment) (s : System) (n : Net) : Prop where
  same : Matches D s n
  linked : s.halted = false → Linked D s ∧ Settled D s
  honest : ∀ u ∈ D.ids, s.Honest u

theorem honest_of_linked (h : Linked D s) (hset : Settled D s) (hu : u ∈ D.ids) : s.Honest u := by
  have hpipe := h.pipeline u hu
  rw [hset u hu, List.take_length] at hpipe
  exact ⟨(List.nodup_append.mp hpipe.nodup).1, hpipe.sent⟩

theorem tracks_of_linked (hm : Matches D s n) (h : Linked D s) (hset : Settled D s) :
    Tracks D s n :=
  ⟨hm, fun _ => ⟨h, hset⟩, fun _ hu => honest_of_linked h hset hu⟩

/-- **An event of a prover** is matched by the same event. -/
theorem tracks_prover {e : Event} (hm : Matches D s n) (h : Linked D s) (hset : Settled D s)
    (hrun : s.halted = false) (hact : e.act ≠ .crash)
    (hs : s.proverEvent D range u e = some s') :
    ∃ n₁ n', n.event D u e = some n₁ ∧ CrashesOnly D n₁ n' ∧ Tracks D s' n' := by
  obtain ⟨hu, hdue, p, hp, hrest⟩ := proverEvent_cases hs
  obtain ⟨new, hout, hresume⟩ := Prover.step_resumed hp
  obtain ⟨out, t, hn, ht, hperm⟩ := hm.prover u hu
  have hdue' : n.Due D e.time := by
    refine ⟨hm.now ▸ hdue.1, fun v hv => ?_⟩
    obtain ⟨_, _, hv', -⟩ := hm.prover v hv
    rw [hv']
    exact hdue.2 v hv
  have hstep : Prover.step e (n.prover u) = some { p with out := out ++ new } := by
    rw [hn, hresume out t (ht.trans hdue.1)]
  have hevent : n.event D u e =
      some { n.setProver u { p with out := out ++ new } with now := e.time } := by
    rw [Net.event, if_pos ⟨hu, hdue'⟩, hstep]
    rfl
  have hcrashed : p.crashed = (s.field.device u).crashed := Prover.crashed_of_step hp hact
  have hmatch : Matches D (s.setProver u e.time p)
      { n.setProver u { p with out := out ++ new } with now := e.time } := by
    refine ⟨rfl, rfl, hm.air, hm.toColl, hm.handled, fun v hv => ?_⟩
    by_cases he : v = u
    · subst he
      have hself : (s.setProver v e.time p).prover v = p := Function.update_self ..
      refine ⟨out ++ new, e.time, ?_, Nat.le_refl _, fun _ => ?_⟩
      · refine (Net.setProver_self ..).trans ?_
        simp only [handler, hself]
        rw [← Prover.now_of_step hp]
        change _ = { p with crashed := (s.field.device v).crashed, out := out ++ new }
        rw [← hcrashed]
      · have hwait : (s.setProver v e.time p).waiting v = s.waiting v ++ new := by
          unfold waiting
          rw [hself, hout]
          exact Taken.rest_append (places_lt h hv)
        rw [hwait]
        exact (hperm hrun).append_right new
    · have hother : (s.setProver u e.time p).prover v = s.prover v := Function.update_of_ne he ..
      obtain ⟨out', t', hv', ht', hperm'⟩ := hm.prover v hv
      refine ⟨out', t', ?_, ht'.trans hdue.1, fun _ => ?_⟩
      · refine (Net.setProver_of_ne he).trans (hv'.trans ?_)
        simp only [handler, hother]
        rfl
      · unfold waiting
        rw [hother]
        exact hperm' hrun
  rcases hrest with ⟨hf, rfl⟩ | ⟨hf, hs⟩
  · refine ⟨_, _, hevent, .refl, hmatch, fun hh => ?_, fun v hv => ?_⟩
    · exact absurd hh (by simpa [setProver, Option.isSome_iff_ne_none] using hf)
    · obtain ⟨honce, hcopies⟩ := honest_of_linked h hset hv
      refine ⟨honce, fun x hx => ?_⟩
      by_cases he : v = u
      · subst he
        have hself : (s.setProver v e.time p).prover v = p := Function.update_self ..
        rw [hself, hout]
        exact ⟨Device.Copies.append (hcopies x hx).1 new, (hcopies x hx).2⟩
      · rw [show (s.setProver u e.time p).prover v = s.prover v from Function.update_of_ne he ..]
        exact hcopies x hx
  · have hself : (s.setProver u e.time p).prover u = p := Function.update_self ..
    have hrun' : (s.setProver u e.time p).halted = false := by simp [setProver, hf]
    obtain ⟨n', hn', hm', h', hset', hrun''⟩ := matches_handOver
      (p.out.drop (s.prover u).out.length) _ _
      (linked_prover h hset hu hdue hact hp hf) hmatch hrun'
      (by rw [hself]; exact congrArg (p.out.drop ·) (hset u hu))
      (fun hne => by
        by_contra hc
        have hdead : (s.handler u).crashed = true := Bool.eq_true_of_not_eq_false hc
        have hsame : p.out = (s.prover u).out := (Prover.mail_of_crashed hp hdead).1
        exact hne (by rw [hsame, List.drop_length]))
      (fun v hv hne => by
        rw [show (s.setProver u e.time p).prover v = s.prover v from Function.update_of_ne hne ..]
        exact hset v hv) hs
    exact ⟨_, n', hevent, hn', tracks_of_linked hm' h' hset'⟩

/-- Only the devices and the reports under way count of a field. -/
theorem Tracks.field {f : Field} (h : Tracks D s n) (hd : f.device = s.field.device)
    (hc : f.inFlight = s.field.inFlight) : Tracks D { s with field := f } n := by
  obtain ⟨hm, hrun, hhonest⟩ := h
  refine ⟨⟨hm.now, hm.halted, hm.air, hm.toColl.trans hc.symm, hm.handled, fun v hv => ?_⟩,
    fun hh => ⟨⟨fun v hv => ?_, (hrun hh).1.proper, (hrun hh).1.prepared, (hrun hh).1.timely,
      (hrun hh).1.faultless⟩, fun v hv => ?_⟩, fun v hv => ⟨?_, ?_⟩⟩
  · simp only [handler, waiting, places, hd]
    exact hm.prover v hv
  · simp only [hd]
    exact (hrun hh).1.pipeline v hv
  · simp only [hd]
    exact (hrun hh).2 v hv
  · simp only [places, hd]
    exact (hhonest v hv).once
  · simp only [hd]
    exact (hhonest v hv).copies

theorem tracks_init (pos : Uid → Coord) : Tracks D (init D pos) (Net.init D) := by
  refine tracks_of_linked ⟨rfl, rfl, rfl, rfl, rfl, fun u _ => ⟨[], 0, rfl, Nat.le_refl _,
    fun _ => List.Perm.refl _⟩⟩ ⟨fun u _ => Device.pipeline_init, ?_, ?_,
      fun u _ => ⟨Nat.le_refl _, fun _ _ => Nat.zero_le _⟩, ?_⟩ fun u _ => rfl
  · simp [init, Prover.init]
  · simp [init, Prover.init]
  · simp [init, Prover.init]

/-- **Every event of the system is followed** by the network. -/
theorem tracks_step {e : SystemEvent} (h : Tracks D s n) (hs : step D range e s = some s') :
    ∃ n₁ n', Follows D e n n₁ ∧ CrashesOnly D n₁ n' ∧ Tracks D s' n' := by
  obtain ⟨hm, hlinked, hhonest⟩ := h
  unfold step at hs
  split at hs
  · cases hs
  next hend =>
  have hrun : s.halted = false := Bool.eq_false_iff.mpr fun hh => hend (.inl hh)
  obtain ⟨hl, hset⟩ := hlinked hrun
  have hnrun : ¬ (n.halted = true) := by rw [hm.halted, hrun]; decide
  cases e with
  | prover u ev =>
    dsimp only at hs
    split at hs
    · next hplain =>
      have hown : ev.act.Own ∧ ev.act ≠ .crash := by
        cases hact : ev.act <;> rw [hact] at hplain <;> simp_all [Prover.Act.Plain, Prover.Act.Own]
      obtain ⟨n₁, n', hn₁, hn', ht⟩ := tracks_prover hm hl hset hrun hown.2 hs
      have hstep : Net.step D (.prover u ev) n = some n₁ := by
        rw [Net.step, if_neg hnrun]
        exact (if_pos hown.1).trans hn₁
      exact ⟨n₁, n', .takes _ hstep rfl, hn', ht⟩
    · cases hs
  | deliver u m time c =>
    dsimp only at hs
    split at hs
    · next hin =>
      have hm₀ : Matches D { s with air := s.air.erase (u, m) } { n with air := n.air.erase (u, m) } :=
        ⟨hm.now, hm.halted, by rw [hm.air], hm.toColl, hm.handled, hm.prover⟩
      have hl₀ : Linked D { s with air := s.air.erase (u, m) } :=
        ⟨hl.pipeline, hl.proper, hl.prepared, hl.timely, hl.faultless⟩
      obtain ⟨n₁, n', hn₁, hn', ht⟩ := tracks_prover hm₀ hl₀ hset hrun (by simp) hs
      have hstep : Net.step D (.deliver u m time c) n = some n₁ := by
        rw [Net.step, if_neg hnrun]
        exact (if_pos (hm.air ▸ List.contains_iff_mem.mp hin)).trans hn₁
      exact ⟨n₁, n', .takes _ hstep rfl, hn', ht⟩
    · cases hs
  | device u e =>
    dsimp only at hs
    split at hs
    · next hown =>
      obtain ⟨hl', hprover, -, -, -, hother, hhanded, -⟩ :=
        linked_device hl (fun pkt he => by subst he; exact hown.elim) hs
      obtain ⟨n', hn', hm'⟩ := matches_device hm hl hl' hrun hs
      have hsame : Device.handedOver e ((s.prover u).out.take (s.field.device u).handed) =
          (s.prover u).out.take (s.field.device u).handed := by
        cases e with
        | handOver => exact hown.elim
        | selfMsg => rfl
        | energyDone => rfl
      refine ⟨n, n', .stays rfl, hn', tracks_of_linked hm' hl' fun v hv => ?_⟩
      rw [hprover]
      by_cases he : v = u
      · subst he
        rw [hhanded, hsame, ← (hl.pipeline v hv).handed]
        exact hset v hv
      · rw [hother v he]
        exact hset v hv
    · cases hs
  | arrive m =>
    obtain ⟨s₁, hs₁, rfl⟩ := Option.map_eq_some_iff.mp hs
    obtain ⟨f, hf, rfl⟩ := fieldEvent_cases hs₁
    rw [Field.step] at hf
    split at hf
    · cases hf
    split at hf
    · next hin =>
      obtain rfl := Option.some.inj hf
      have hstep : Net.step D (.collect m) n = some { n with
          toColl := n.toColl.erase m, handled := n.handled ++ [m] } := by
        rw [Net.step, if_neg hnrun]
        exact if_pos (hm.toColl ▸ hin)
      refine ⟨_, _, .takes _ hstep rfl, .refl, ⟨hm.now, hm.halted, hm.air, ?_, ?_, hm.prover⟩,
        fun _ => ⟨⟨hl.pipeline, hl.proper, hl.prepared, hl.timely, hl.faultless⟩, hset⟩,
        fun v hv => ⟨(hhonest v hv).once, (hhonest v hv).copies⟩⟩
      · rw [hm.toColl]
      · rw [hm.handled]
    · cases hf
  | procDone =>
    obtain ⟨f, hf, rfl⟩ := fieldEvent_cases hs
    rw [Field.step] at hf
    split at hf
    · cases hf
    split at hf
    · obtain rfl := Option.some.inj hf
      exact ⟨n, n, .stays rfl, .refl, Tracks.field ⟨hm, hlinked, hhonest⟩ rfl rfl⟩
    · cases hf
  | move u c =>
    obtain ⟨f, hf, rfl⟩ := fieldEvent_cases hs
    rw [Field.step] at hf
    split at hf
    · cases hf
    obtain rfl := Option.some.inj hf
    exact ⟨n, n, .stays rfl, .refl, Tracks.field ⟨hm, hlinked, hhonest⟩ rfl rfl⟩

/-- What a condition allows in the system it allows in the network. -/
theorem Tracks.locally {e : SystemEvent} {e₁ : NetEvent} {n₁ : Net} (ht : Tracks D s n)
    (hs : Net.step D e₁ n = some n₁) (he : e₁.localEvent = e.localEvent)
    (hins : ∀ e p out t, ok e p → ok e { p with out := out, now := t }) (hok : Locally ok e s) :
    Net.Locally ok e₁ n := by
  intro u ev hloc
  obtain ⟨-, hmoves⟩ := Net.moves_of_step hs
  cases hmoves with
  | event hu hloc' =>
    obtain ⟨rfl, rfl⟩ := Prod.mk.inj (Option.some.inj (hloc'.symm.trans hloc))
    obtain ⟨out, t, hp, -⟩ := ht.same.prover _ hu
    rw [hp]
    exact hins _ _ out t (hok _ _ (he.symm.trans hloc))
  | transmit _ hloc' => cases hloc'.symm.trans hloc
  | collect hloc' => cases hloc'.symm.trans hloc

/-- Every run of the system is one of the network. -/
theorem simulates {pos : Uid → Coord} (hcrash : ∀ time p, ok ⟨time, .crash⟩ p)
    (hins : ∀ e p out t, ok e p → ok e { p with out := out, now := t })
    (h : Runs.Reaches (step D range) (Locally ok) (init D pos) s) :
    ∃ n, Runs.Reaches (Net.step D) (Net.Locally ok) (Net.init D) n ∧ Tracks D s n :=
  h.simulate (tracks_init pos) fun _ _ _ _ ht hok hs => by
    obtain ⟨n₁, n', hfollows, hcrashes, ht'⟩ := tracks_step ht hs
    have hquiet : Runs.Reaches (Net.step D) (Net.Locally ok) n₁ n' := by
      refine hcrashes.weaken ?_
      rintro e n hact u ⟨time, act⟩ hloc
      obtain rfl : act = .crash := hact u _ hloc
      exact hcrash time _
    cases hfollows with
    | stays => exact ⟨n', hquiet, ht'⟩
    | takes e₁ hs₁ he =>
      exact ⟨n', (Runs.Reaches.tail .refl (ht.locally hs₁ he hins hok) hs₁).trans hquiet, ht'⟩

/-! ## The devices and the collector -/

/-- Events of the devices and of the collector lead from `f` to `f'`; provers move as `moves`
says. -/
def FieldRun (D : Deployment) (range : Rat) (moves : Uid → Coord → Prop) (f f' : Field) : Prop :=
  Runs.Reaches (Field.step (D.site range)) (fun e _ => ∀ u c, e = .move u c → moves u c) f f'

variable {moves : Uid → Coord → Prop}

theorem fieldRun_fieldEvent {e : FieldEvent} (hmove : ∀ u c, e = .move u c → moves u c)
    (h : s.fieldEvent D range e = some s') : FieldRun D range moves s.field s'.field := by
  obtain ⟨f, hf, rfl⟩ := fieldEvent_cases h
  exact .tail .refl hmove hf

theorem fieldRun_deviceEvent {e : DeviceEvent} (h : s.deviceEvent D range u e = some s') :
    FieldRun D range moves s.field s'.field := by
  obtain ⟨s₁, hs₁, rfl⟩ := Option.map_eq_some_iff.mp h
  exact (fieldRun_fieldEvent (fun _ _ he => by cases he) hs₁ : FieldRun D range moves s.field s₁.field)

theorem fieldRun_handOver (pkts : List Packet) :
    ∀ s : System, s.handOver D range u pkts = some s' → FieldRun D range moves s.field s'.field := by
  induction pkts with
  | nil =>
    intro s h
    cases h
    exact .refl
  | cons pkt pkts ih =>
    intro s h
    obtain ⟨s₁, hs₁, h⟩ := Option.bind_eq_some_iff.mp h
    exact Runs.Reaches.trans (fieldRun_deviceEvent hs₁) (ih s₁ h)

theorem fieldRun_proverEvent {e : Event} (h : s.proverEvent D range u e = some s') :
    FieldRun D range moves s.field s'.field := by
  obtain ⟨-, -, p, -, ⟨-, rfl⟩ | ⟨-, h⟩⟩ := proverEvent_cases h
  · exact .refl
  · exact fieldRun_handOver _ (s.setProver u e.time p) h

/-- An event of the system is a run of its devices. -/
theorem fieldRun_step {e : SystemEvent} (hmove : ∀ u c, e = .move u c → moves u c)
    (hs : step D range e s = some s') : FieldRun D range moves s.field s'.field := by
  unfold step at hs
  split at hs
  · cases hs
  cases e with
  | prover u ev =>
    dsimp only at hs
    split at hs
    · exact fieldRun_proverEvent hs
    · cases hs
  | deliver u m time c =>
    dsimp only at hs
    split at hs
    · exact fieldRun_proverEvent (s := { s with air := s.air.erase (u, m) }) hs
    · cases hs
  | device u e =>
    dsimp only at hs
    split at hs
    · exact fieldRun_deviceEvent hs
    · cases hs
  | arrive m =>
    obtain ⟨s₁, hs₁, rfl⟩ := Option.map_eq_some_iff.mp hs
    exact (fieldRun_fieldEvent (fun _ _ he => by cases he) hs₁ :
      FieldRun D range moves s.field s₁.field)
  | procDone => exact fieldRun_fieldEvent (fun _ _ he => by cases he) hs
  | move u c =>
    refine fieldRun_fieldEvent (fun u' c' he => ?_) hs
    cases he
    exact hmove u c rfl

theorem fieldRun_of_reaches {s₀ : System}
    (h : Runs.Reaches (step D range) (fun e _ => ∀ u c, e = .move u c → moves u c) s₀ s) :
    FieldRun D range moves s₀.field s.field := by
  induction h with
  | refl => exact .refl
  | tail _ hok hs ih => exact Runs.Reaches.trans ih (fieldRun_step hok hs)

/-- Where nobody moves, what depends on the positions alone stays. -/
theorem positioned_of_fixed {Q : Field → Prop} (hQ : ∀ f f' : Field, f'.pos = f.pos → Q f → Q f')
    {f f' : Field} (h : FieldRun D range (fun _ _ => False) f f') (hq : Q f) :
    Runs.Reaches (Field.step (D.site range)) (fun _ f => Q f) f f' ∧ f'.pos = f.pos := by
  induction h with
  | refl => exact ⟨.refl, rfl⟩
  | @tail f₁ f₂ e _ hok hs ih =>
    obtain ⟨hrun, hpos⟩ := ih
    refine ⟨hrun.tail (hQ _ _ hpos hq) hs, ?_⟩
    rw [← hpos]
    obtain ⟨-, ht⟩ := Field.step_cases hs
    cases ht with
    | device => rfl
    | arrive => rfl
    | procDone => rfl
    | move => exact (hok _ _ rfl).elim

/-- A run whose positions meet a condition is one of the devices whose positions meet it. -/
theorem positioned_of_reaches {Q : Field → Prop} {s₀ : System}
    (hQ : ∀ f f' : Field, f'.pos = f.pos → Q f → Q f')
    (h : Runs.Reaches (step D range) (fun _ s => Q s.field) s₀ s) :
    Runs.Reaches (Field.step (D.site range)) (fun _ f => Q f) s₀.field s.field := by
  induction h with
  | refl => exact .refl
  | @tail s₁ s₂ e _ hok hs ih =>
    refine ih.trans ?_
    by_cases hmove : ∃ u c, e = .move u c
    · obtain ⟨u, c, rfl⟩ := hmove
      unfold step at hs
      split at hs
      · cases hs
      obtain ⟨f, hf, rfl⟩ := fieldEvent_cases hs
      exact .tail .refl hok hf
    · exact (positioned_of_fixed hQ (fieldRun_step (fun u c he => hmove ⟨u, c, he⟩) hs) hok).1

/-! ## Refinement -/

/-- **The system refines the network and the field of devices.**  Take any run of the system, with
any range and any positions, whose provers meet a condition that allows crashes and asks neither
for the clock nor for what was handed over.  The provers and the messages under way are as in
some run of `Net` under the same condition, where what waits to be transmitted is what the devices
have not transmitted, and the devices and the collector are as in some run of their own.  No device
transmits a packet twice, or one that its prover did not hand over. -/
theorem refines {pos : Uid → Coord} (hcrash : ∀ time p, ok ⟨time, .crash⟩ p)
    (hins : ∀ e p out t, ok e p → ok e { p with out := out, now := t })
    (h : Runs.Reaches (step D range)
      (fun e s => Locally ok e s ∧ ∀ u c, e = .move u c → moves u c) (init D pos) s) :
    (∃ n, Runs.Reaches (Net.step D) (Net.Locally ok) (Net.init D) n ∧ Matches D s n) ∧
      FieldRun D range moves (Field.init pos) s.field ∧ ∀ u ∈ D.ids, s.Honest u := by
  obtain ⟨n, hn, ht⟩ := simulates hcrash hins (h.weaken fun _ _ hok => hok.1)
  exact ⟨⟨n, hn, ht.same⟩, fieldRun_of_reaches (h.weaken fun _ _ hok => hok.2), ht.honest⟩

end

theorem two_lt_maxuid : 2 < MAXUID := Nat.lt_of_lt_of_le (Nat.lt_succ_self 2) (by decide)

/-- Provers 1 and 2 with key 5 in common in rounds of 48 s; `deltag` is 4 s. -/
def rootAndChild : Deployment where
  size := 2
  cfg := fun u => ⟨u, [5], 2, 48 * second, 2, .SKY, fun m _ => m.mac == 0, fun _ _ _ => 0⟩
  start := fun u => if u = 2 then 3 * second else 0
  size_lt := two_lt_maxuid
  uid_eq := fun _ => rfl

/-- Prover 2 answers while prover 1 still transmits, so its device postpones the answer.  Its
battery is empty behind its report, which prover 1 merges and sends on. -/
def relayedReport : List SystemEvent :=
  [.prover 1 ⟨0, .timer .startmsg { delay := 4 * second }⟩,
   .prover 1 ⟨1960 * 10 ^ 9, .timer .checkdelaymsg {}⟩,
   .prover 2 ⟨3 * second, .timer .startmsg { delay := 4 * second }⟩,
   .prover 2 ⟨4960 * 10 ^ 9, .timer .checkdelaymsg {}⟩,
   .prover 1 ⟨5960 * 10 ^ 9, .timer .mktreetimer { treeID := 7 }⟩,
   .prover 1 ⟨5960 * 10 ^ 9, .timer .creqmsg {}⟩,
   .deliver 2 (Net.askMsg 1 2 7) (5960 * 10 ^ 9) {},
   .prover 2 ⟨6027073604000, .self 4 {}⟩,
   .device 1 (.selfMsg .entxmsg false),
   .device 1 (.selfMsg .txmsg false),
   .device 2 (.selfMsg .cbusymsg false),
   .deliver 1 (Net.respMsg 2 1 7) 6027073604000 {},
   .device 2 (.selfMsg .entxmsg false),
   .device 2 (.selfMsg .txmsg false),
   .prover 1 ⟨6160272420000, .self 6 {}⟩,
   .deliver 2 (Net.ackMsg 1 2 7) 6160272420000 {},
   .device 1 (.selfMsg .entxmsg false),
   .device 1 (.selfMsg .txmsg false),
   .prover 2 ⟨6160272420000, .timer .creqmsg {}⟩,
   .device 2 (.selfMsg .entxmsg false),
   .device 2 (.selfMsg .txmsg false),
   .prover 1 ⟨17960 * 10 ^ 9, .timer .cresptomsg {}⟩,
   .prover 2 ⟨18160272420000, .timer .cresptomsg {}⟩,
   .prover 2 ⟨18300109980000, .self 8 {}⟩,
   .deliver 1 (.updateReq ⟨.UPRQ, 2, 1, [2], [1], 7, 0, 5, [0]⟩) 18300109980000 {},
   .device 2 (.selfMsg .entxmsg false),
   .device 2 (.selfMsg .txmsg false),
   .device 2 (.energyDone true),
   .prover 1 ⟨18447534676000, .self 8 {}⟩,
   .arrive ⟨.UPRQC, 1, 1, [2, 1, 0], [1, 1, 0], 7, 0, ckey, [0]⟩]

/-- At the end of `relayedReport` prover 2 has crashed, in the network as in the system, and the
device of prover 1 has transmitted three packets. -/
theorem refines_relayed : ∃ (s : System) (n : Net), (s.field.device 2).crashed = true ∧
    (n.prover 2).crashed = true ∧ n.handled = s.handled ∧ s.handled.length = 1 ∧
    Runs.Reaches (Net.step rootAndChild) (Net.Locally fun ev _ => Prover.RealSource ev.act)
      (Net.init rootAndChild) n ∧
    (s.places 1).length = 3 ∧ (s.places 1).Nodup := by
  obtain ⟨s, hs, ht⟩ := Runs.exists_of_run (step rootAndChild 50)
    (fun e s => Locally (fun ev _ => Prover.RealSource ev.act) e s ∧ e ∈ relayedReport) relayedReport
    (init rootAndChild fun _ => ⟨0, 0, 0⟩)
    (fun s => (s.field.device 2).crashed = true ∧ s.handled.length = 1 ∧ (s.places 1).length = 3)
    (by decide +kernel)
  obtain ⟨hdead, hlen, hsent⟩ := of_decide_eq_true ht
  have hrun : Runs.Reaches (step rootAndChild 50)
      (fun e s => Locally (fun ev _ => Prover.RealSource ev.act) e s ∧
        ∀ u c, e = .move u c → False) (init rootAndChild fun _ => ⟨0, 0, 0⟩) s :=
    hs.weaken fun e s ⟨hok, hmem⟩ => ⟨hok, fun u c he => by simp [he, relayedReport] at hmem⟩
  obtain ⟨⟨n, hn, hm⟩, -, hhonest⟩ := refines (fun _ _ => trivial) (fun _ _ _ _ h => h) hrun
  obtain ⟨out, t, hp, -⟩ := hm.prover 2 (by decide)
  exact ⟨s, n, hdead, by rw [hp]; exact hdead, hm.handled, hlen, hn, hsent,
    (hhonest 1 (by decide)).once⟩

end System

end Fadia
