import Fadia.Devices.Node
import Fadia.Proof.WakeUp
import Fadia.Proof.RadioRange
import Fadia.Proof.SessionsAgree

/-!
# What a transmission is charged

While `entxmsg` is scheduled a transmission is under way, and the power should be that of a
transmission (`Charged`).  Send functions see to it (`energy_dispatch`, `charged_send`); a
reception, the end of another consumption, a new round and the retry of a parked report set
the power without a look at the transmission.  So it is charged as it should exactly as long
as none of these comes in between (`charged_of_undisturbed`), and in `respWhileSending` a
CommitResp does.
-/

namespace Fadia

namespace Device

section
variable {w : Surroundings} {m : Outgoing} {d d₀ d' : Device} {route : Route}

theorem begins_iff : d.begins d' = true ↔
    d.sent.length < d'.sent.length ∧ d'.txrxstat = .TRANSMITING := by
  simp [begins, isTransmiting]

theorem scheduleAt_other {t x : SelfMsg} (h : x ≠ t) :
    (d.scheduleAt t).scheduled x = d.scheduled x := by
  unfold scheduleAt
  split
  · rfl
  · exact Function.update_of_ne h _ _

/-- `entxmsg` is scheduled where a transmission begins, and nowhere else. -/
theorem Sent.energy (h : Sent w m route d d') (hw : w.build = .wireless) :
    d'.scheduled .entxmsg = true ↔ d.scheduled .entxmsg = true ∨ d.begins d' = true := by
  have hquiet : ∀ {x : Device}, x.scheduled .entxmsg = d.scheduled .entxmsg →
      (d.sent.length < x.sent.length → x.txrxstat ≠ .TRANSMITING) →
      (x.scheduled .entxmsg = true ↔ d.scheduled .entxmsg = true ∨ d.begins x = true) := by
    intro x he hno
    rw [he, begins_iff]
    exact ⟨.inl, fun h => h.elim id fun h => absurd h.2 (hno h.1)⟩
  cases h with
  | queued => exact hquiet rfl fun hlt => absurd hlt (Nat.lt_irrefl _)
  | postponed =>
    refine hquiet (scheduleAt_other (by decide)) fun hlt => ?_
    rw [(scheduleAt_fields .cbusymsg _).2.2.1] at hlt
    exact absurd hlt (Nat.lt_irrefl _)
  | parked =>
    unfold postponeUp
    dsimp only
    split
    · exact hquiet rfl fun hlt => absurd hlt (Nat.lt_irrefl _)
    · refine hquiet (scheduleAt_other (by decide)) fun hlt => ?_
      rw [(scheduleAt_fields .collbusymsg _).2.2.1] at hlt
      exact absurd hlt (Nat.lt_irrefl _)
  | unheard hi => exact hquiet rfl fun _ ht => hi (.inl ht)
  | transmitted =>
    have hbegins : d.begins (d.transmit w m route) = true := by
      refine begins_iff.mpr ⟨?_, ?_⟩
      · rw [(transmit_fields m route d).2.2.1]
        simp
      · unfold transmit
        rw [hw]
        simp only [scheduleAt_txrxstat]
    have hon : (d.transmit w m route).scheduled .entxmsg = true := by
      unfold transmit
      rw [hw]
      exact scheduleAt_keeps (scheduled_scheduleAt _ _)
    exact ⟨fun _ => .inr hbegins, fun _ => hon⟩

theorem energy_dispatch (hw : w.build = .wireless) : (d.dispatch w m).scheduled .entxmsg = true ↔
    d.scheduled .entxmsg = true ∨ d.begins (d.dispatch w m) = true := by
  obtain ⟨m', route, -, ⟨-, -, hs⟩ | ⟨-, -, -, hs⟩⟩ := dispatch_cases (w := w) (m := m) (d := d)
  · exact hs.energy hw
  · exact hs.energy hw

theorem energy_drain (hw : w.build = .wireless) : (d.drain w).scheduled .entxmsg = true ↔
    d.scheduled .entxmsg = true ∨ d.begins (d.drain w) = true := by
  rcases drain_cases w d with ⟨-, he⟩ | ⟨m, rest, -, he⟩
  · rw [he, begins_iff]
    exact ⟨.inl, fun h => h.elim id fun h => absurd h.1 (Nat.lt_irrefl _)⟩
  · rw [he]
    exact energy_dispatch (d := d) (m := m) hw

/-- A device that transmits lets messages wait. -/
theorem dispatch_waits (ht : d.txrxstat = .TRANSMITING) :
    d.begins (d.dispatch w m) = false ∧ (d.dispatch w m).txrxstat = .TRANSMITING := by
  have hquiet : ∀ {d₁ d' : Device} {m' : Outgoing} {route : Route}, d₁.txrxstat = .TRANSMITING →
      d₁.sent = d.sent → Sent w m' route d₁ d' →
        d.begins d' = false ∧ d'.txrxstat = .TRANSMITING := by
    intro d₁ d' m' route ht₁ he hs
    cases hs with
    | queued => exact ⟨by simp [begins, push, he], ht₁⟩
    | postponed hi => exact absurd (.inl ht₁) hi
    | parked hi => exact absurd (.inl ht₁) hi
    | unheard hi => exact absurd (.inl ht₁) hi
    | transmitted hi => exact absurd (.inl ht₁) hi
  obtain ⟨m', route, -, ⟨-, -, hs⟩ | ⟨-, -, -, hs⟩⟩ := dispatch_cases (w := w) (m := m) (d := d)
  · exact hquiet ht rfl hs
  · have hcleared : ({ d with pupmsg := none } : Device).txrxstat = .TRANSMITING := ht
    exact hquiet hcleared rfl hs

theorem scheduleAt_crashed (t : SelfMsg) (d : Device) : (d.scheduleAt t).crashed = d.crashed := by
  unfold scheduleAt
  split <;> rfl

theorem Sent.crashed (h : Sent w m route d d') : d'.crashed = d.crashed := by
  cases h with
  | queued => rfl
  | postponed => exact scheduleAt_crashed _ _
  | parked =>
    unfold postponeUp
    dsimp only
    split
    · rfl
    · exact scheduleAt_crashed _ _
  | unheard => rfl
  | transmitted =>
    unfold transmit
    dsimp only
    split
    · exact (scheduleAt_crashed _ _).trans (scheduleAt_crashed _ _)
    · exact scheduleAt_crashed _ _

theorem crashed_dispatch : (d.dispatch w m).crashed = d.crashed := by
  obtain ⟨m', route, -, ⟨-, -, hs⟩ | ⟨-, -, -, hs⟩⟩ := dispatch_cases (w := w) (m := m) (d := d)
  · exact hs.crashed
  · exact hs.crashed

/-- A parked report is transmitted where the device, the channel and the collector are free. -/
theorem redirected_begins (hw : w.build = .wireless) (hm : Redirected m.pkt) :
    d.begins (d.dispatch w m) = true ↔
      d.Free ∧ w.channelBusy = false ∧ w.collectorBusy = false := by
  obtain ⟨r, hr, hk⟩ := hm
  have he : d.dispatch w m = d.sendCollector w m := by
    have hreport : d.dispatchReport w m r = d.sendCollector w m := by
      unfold dispatchReport
      split <;> simp_all
    unfold dispatch
    split <;> simp_all [Packet.report]
  rw [he]
  constructor
  · intro hb
    obtain ⟨hlt, ht⟩ := begins_iff.mp hb
    have hs := sendCollector_cases (w := w) (m := m) (d := d)
    generalize d.sendCollector w m = d' at hs hlt ht
    cases hs with
    | queued => exact absurd hlt (Nat.lt_irrefl _)
    | postponed =>
      rw [(scheduleAt_fields .cbusymsg _).2.2.1] at hlt
      exact absurd hlt (Nat.lt_irrefl _)
    | parked hi =>
      refine absurd ht fun ht => hi (.inl ?_)
      unfold postponeUp at ht
      dsimp only at ht
      split at ht
      · exact ht
      · rw [scheduleAt_txrxstat] at ht
        exact ht
    | unheard hi => exact absurd (.inl ht) hi
    | transmitted hi hch hco => exact ⟨hi, hch, hco rfl⟩
  · rintro ⟨hfree, hch, hco⟩
    have hsend : d.sendCollector w m = { d with pupmsg := none }.transmit w m .collector := by
      unfold sendCollector whenFree
      rw [if_neg (show ¬ _ from hfree), hch, hco]
      rfl
    rw [hsend, begins_iff]
    refine ⟨?_, ?_⟩
    · rw [(transmit_fields m .collector { d with pupmsg := none }).2.2.1]
      simp
    · unfold transmit
      rw [hw]
      simp only [scheduleAt_txrxstat]

theorem parksReports_step {e : DeviceEvent} (h : d.ParksReports) (hs : d.step w e = some d') :
    d'.ParksReports := by
  obtain ⟨-, ht⟩ := step_cases hs
  cases ht with
  | dropped => exact h
  | popped => exact h
  | handOver => exact parksReports_dispatch (d := { d with handed := d.handed + 1 }) h
  | @selfMsg t depleted =>
    cases t with
    | txmsg => exact parksReports_drain (d := { d.pop .txmsg with txrxstat := .DIDLE }) h
    | cbusymsg => exact parksReports_drain (d := { d.pop .cbusymsg with chanstat := .CIDLE }) h
    | entxmsg => exact h
    | collbusymsg =>
      unfold onSelfMsg handlePostponeUpMsg
      dsimp only
      split
      · exact parksReports_dispatch (d := d.pop .collbusymsg) h
      · exact h
  | energyDone => exact h

end

end Device

namespace Node

/-- While a transmission is under way, the power is that of a transmission. -/
def Charged (n : Node) : Prop := n.device.scheduled .entxmsg = true → n.power = .TRANSMITION

/-- No event sets another power while a transmission is under way, and the retry of a parked
report does not begin one. -/
def Undisturbed (i : Surroundings × NodeEvent) (n : Node) : Prop :=
  n.device.crashed = false →
    match i.2 with
    | .prover e => n.device.scheduled .entxmsg = true → handlerPower e.act n.prover = none
    | .energyDone _ => n.device.scheduled .entxmsg = false
    | .selfMsg .collbusymsg _ => n.device.pupmsg ≠ none → n.device.scheduled .entxmsg = false ∧
        ¬ (n.device.Free ∧ i.1.channelBusy = false ∧ i.1.collectorBusy = false)
    | .selfMsg _ _ => True

instance (i : Surroundings × NodeEvent) (n : Node) : Decidable (Undisturbed i n) := by
  unfold Undisturbed
  split
  · exact inferInstanceAs (Decidable (_ → _ → _))
  · exact inferInstanceAs (Decidable (_ → _))
  · exact inferInstanceAs (Decidable (_ → _ → _))
  · exact inferInstanceAs (Decidable (_ → True))

/-- A step of a node in the surroundings that it finds. -/
def stepIn (i : Surroundings × NodeEvent) (n : Node) : Option Node := n.step i.1 i.2

section
variable {w : Surroundings} {i : Surroundings × NodeEvent} {n n' : Node}

theorem restingPower_ne (p : Prover) (d : Device) : restingPower p d ≠ .TRANSMITION := by
  unfold restingPower
  split <;> decide

theorem handlerPower_ne {act : Prover.Act} {p : Prover} {x : Power}
    (h : handlerPower act p = some x) : x ≠ .TRANSMITION := by
  unfold handlerPower at h
  split at h
  · cases h
    decide
  · cases h
    decide
  · split at h
    · cases h
      decide
    · cases h
  · cases h

/-! ## Sending -/

/-- What is handed over keeps the charge right. -/
theorem charged_sendAll (hw : w.build = .wireless) (pkts : List Packet) (h : n.Charged) :
    (n.sendAll w pkts).Charged := by
  induction pkts generalizing n with
  | nil => exact h
  | cons pkt pkts ih =>
    refine ih fun hon => ?_
    have henergy := (Device.energy_dispatch (d := { n.device with handed := n.device.handed + 1 })
      (m := ⟨n.device.handed, pkt⟩) hw).mp hon
    unfold send
    dsimp only
    split
    · rfl
    · next hno =>
      rcases henergy with hon | hb
      · exact h hon
      · exact absurd hb hno

/-- Behind the start of a transmission it all waits, and the power stays. -/
theorem sendAll_waits (pkts : List Packet) (hs : n.device.Sound)
    (hon : n.device.scheduled .entxmsg = true) (hw : w.build = .wireless) :
    (n.sendAll w pkts).device.scheduled .entxmsg = true ∧ (n.sendAll w pkts).power = n.power := by
  induction pkts generalizing n with
  | nil => exact ⟨hon, rfl⟩
  | cons pkt pkts ih =>
    have ht : n.device.txrxstat = .TRANSMITING := hs.transmiting.mpr (hs.energy hon)
    obtain ⟨hno, -⟩ := Device.dispatch_waits (w := w) (m := ⟨n.device.handed, pkt⟩)
      (d := { n.device with handed := n.device.handed + 1 }) ht
    have hon' : (n.send w pkt).device.scheduled .entxmsg = true :=
      (Device.energy_dispatch (d := { n.device with handed := n.device.handed + 1 }) hw).mpr
        (.inl hon)
    have hs' : (n.send w pkt).device.Sound :=
      Device.sound_dispatch (d := { n.device with handed := n.device.handed + 1 })
        ⟨⟨hs.transmiting, hs.busy, hs.exclusive⟩, hs.postponed, hs.energy, hs.fault⟩
    have hpower : (n.send w pkt).power = n.power := if_neg (by
      rw [show n.device.begins (n.device.handOver w pkt) = false from hno]
      decide)
    obtain ⟨h1, h2⟩ := ih hs' hon'
    exact ⟨h1, h2.trans hpower⟩

/-! ## Steps -/

/-- What a live device keeps. -/
def Intact (n : Node) : Prop :=
  n.device.crashed = false → n.device.Sound ∧ n.device.ParksReports

theorem intact_init (cfg : Config) (start : Nat) : (init cfg start).Intact := by
  refine fun _ => ⟨⟨⟨?_, ?_, ?_⟩, ?_, ?_, rfl⟩, fun m hm => by cases hm⟩
  all_goals simp [init]

theorem intact_sendAll (pkts : List Packet) (h : n.Intact) : (n.sendAll w pkts).Intact := by
  induction pkts generalizing n with
  | nil => exact h
  | cons pkt pkts ih =>
    refine ih fun hc => ?_
    have hcrashed : (n.send w pkt).device.crashed = n.device.crashed :=
      Device.crashed_dispatch (d := { n.device with handed := n.device.handed + 1 })
    obtain ⟨hs, hp⟩ := h (hcrashed.symm.trans hc)
    exact ⟨Device.sound_dispatch (d := { n.device with handed := n.device.handed + 1 })
        ⟨⟨hs.transmiting, hs.busy, hs.exclusive⟩, hs.postponed, hs.energy, hs.fault⟩,
      Device.parksReports_dispatch (d := { n.device with handed := n.device.handed + 1 }) hp⟩

/-- How an event leads to `n'`. -/
inductive Takes (w : Surroundings) (n : Node) : NodeEvent → Node → Prop
  | prover {e : Prover.Event} {p' : Prover} (hact : e.act ≠ .crash)
      (hs : Prover.step e n.handler = some p') : Takes w n (.prover e) (n.onProver w e p')
  | selfMsg {t : SelfMsg} {depleted : Bool} {d : Device}
      (hs : n.device.step w (.selfMsg t depleted) = some d) :
      Takes w n (.selfMsg t depleted) (n.onSelfMsg t d)
  | energyDone {depleted : Bool} {d : Device} (hpos : n.energyMsgs ≠ 0)
      (hs : n.device.step w (.energyDone depleted) = some d) :
      Takes w n (.energyDone depleted) (n.onEnergyDone d)

theorem step_cases {e : NodeEvent} (h : n.step w e = some n') :
    (n.prover.fault = none ∧ n.device.fault = false) ∧ Takes w n e n' := by
  unfold step at h
  split at h
  · cases h
  next hguard =>
  rw [not_or, Option.not_isSome_iff_eq_none, Bool.not_eq_true] at hguard
  refine ⟨hguard, ?_⟩
  cases e with
  | prover e =>
    dsimp only at h
    split at h
    · cases h
    next hact =>
    obtain ⟨p', hs, rfl⟩ := Option.map_eq_some_iff.mp h
    exact .prover hact hs
  | selfMsg t depleted =>
    obtain ⟨d, hs, rfl⟩ := Option.map_eq_some_iff.mp h
    exact .selfMsg hs
  | energyDone depleted =>
    dsimp only at h
    split at h
    · cases h
    next hpos =>
    obtain ⟨d, hs, rfl⟩ := Option.map_eq_some_iff.mp h
    exact .energyDone hpos hs

theorem intact_step (h : n.Intact) (hs : n.stepIn i = some n') : n'.Intact := by
  obtain ⟨w, e⟩ := i
  have hdevice : ∀ {e : DeviceEvent} {d : Device}, n.device.step w e = some d →
      d.crashed = false → d.Sound ∧ d.ParksReports := by
    intro e d hd hc
    have halive := Device.alive_of_step hd hc
    obtain ⟨hsound, hparks⟩ := h halive
    exact ⟨Device.sound_step hsound (fun hcr => by cases hcr.symm.trans halive) hd,
      Device.parksReports_step hparks hd⟩
  obtain ⟨-, ht⟩ := step_cases hs
  cases ht with
  | prover => exact intact_sendAll _ h
  | selfMsg hd => exact hdevice hd
  | energyDone _ hd => exact hdevice hd

/-- A crashed device only loses self messages. -/
theorem crashed_step {e : DeviceEvent} {d d' : Device} (hc : d.crashed = true)
    (hs : d.step w e = some d') :
    d'.scheduled .entxmsg = true → d.scheduled .entxmsg = true := by
  obtain ⟨-, ht⟩ := Device.step_cases hs
  cases ht with
  | dropped => exact id
  | @popped t depleted =>
    intro hon
    by_cases ht : SelfMsg.entxmsg = t
    · simp [Device.pop, ← ht] at hon
    · exact (Device.pop_keeps ht).symm.trans hon
  | handOver halive => cases hc.symm.trans halive
  | selfMsg halive => cases hc.symm.trans halive
  | energyDone halive => cases hc.symm.trans halive

/-- The state in which the handler of an event begins to send. -/
def onAir (p' : Prover) (set : Option Power) (n : Node) : Node :=
  { n with
    prover := p'
    power := set.getD n.power
    energyMsgs := n.energyMsgs + ((p'.outbox.length - n.prover.outbox.length) +
      if set = some .RECEPTION then 1 else 0) }

theorem onProver_of_alive {e : Prover.Event} {p' : Prover} (hc : n.device.crashed = false) :
    n.onProver w e p' = (n.onAir p' (handlerPower e.act n.prover)).sendAll w
      (p'.out.drop n.prover.out.length) := by
  unfold onProver
  rw [hc]
  rfl

/-- A drain schedules `entxmsg` only where it begins a transmission. -/
theorem charged_drain {d₁ : Device} (h : n.Charged) (hw : w.build = .wireless)
    (hsent : d₁.sent = n.device.sent)
    (hkeep : d₁.scheduled .entxmsg = n.device.scheduled .entxmsg)
    (hon : (d₁.drain w).scheduled .entxmsg = true) :
    (if n.device.begins (d₁.drain w) then .TRANSMITION else n.power) = Power.TRANSMITION := by
  split
  · rfl
  · next hno =>
    rcases (Device.energy_drain hw).mp hon with hon | hb
    · exact h (hkeep ▸ hon)
    · unfold Device.begins at hb hno
      rw [hsent] at hb
      exact absurd hb hno

/-- The self messages of a device that lives. -/
theorem charged_selfMsg {t : SelfMsg} {depleted : Bool}
    (hp : n.device.ParksReports) (h : n.Charged) (hc : n.device.crashed = false)
    (hw : w.build = .wireless) (hdue : n.device.Due t) :
    (n.onSelfMsg t ((n.device.pop t).onSelfMsg w t depleted)).Charged ↔
      Undisturbed (w, .selfMsg t depleted) n := by
  cases t with
  | txmsg =>
    refine ⟨fun _ _ => trivial, fun _ hon => ?_⟩
    unfold onSelfMsg
    rw [hc]
    exact @charged_drain w n { n.device.pop .txmsg with txrxstat := .DIDLE } h hw rfl
      (Device.pop_keeps (t := .txmsg) (x := .entxmsg) (by decide)) hon
  | cbusymsg =>
    refine ⟨fun _ _ => trivial, fun _ hon => ?_⟩
    unfold onSelfMsg
    rw [hc]
    exact @charged_drain w n { n.device.pop .cbusymsg with chanstat := .CIDLE } h hw rfl
      (Device.pop_keeps (t := .cbusymsg) (x := .entxmsg) (by decide)) hon
  | entxmsg =>
    refine ⟨fun _ _ => trivial, fun _ hon => ?_⟩
    simp [onSelfMsg, Device.onSelfMsg, Device.handleDoneEnMsg, Device.pop] at hon
  | collbusymsg =>
    have hkeep : (n.device.pop .collbusymsg).scheduled .entxmsg = n.device.scheduled .entxmsg :=
      Device.pop_keeps (by decide)
    cases hpup : n.device.pupmsg with
    | none =>
      have he : (n.device.pop .collbusymsg).onSelfMsg w .collbusymsg depleted =
          n.device.pop .collbusymsg := by
        unfold Device.onSelfMsg Device.handlePostponeUpMsg
        simp [Device.pop, hpup]
      refine ⟨fun _ _ hne => absurd hpup hne, fun _ hon => ?_⟩
      rw [he] at hon ⊢
      unfold onSelfMsg
      rw [hc, hpup]
      exact h (hkeep ▸ hon)
    | some m =>
      have he : (n.device.pop .collbusymsg).onSelfMsg w .collbusymsg depleted =
          (n.device.pop .collbusymsg).dispatch w m := by
        unfold Device.onSelfMsg Device.handlePostponeUpMsg
        simp [Device.pop, hpup, hw]
      have hrest : (n.onSelfMsg .collbusymsg ((n.device.pop .collbusymsg).dispatch w m)).power ≠
          .TRANSMITION := by
        unfold onSelfMsg
        rw [hc, hpup]
        exact restingPower_ne _ _
      have henergy := Device.energy_dispatch (d := n.device.pop .collbusymsg) (m := m) hw
      rw [Device.redirected_begins hw (hp m hpup), hkeep] at henergy
      rw [he]
      constructor
      · intro hcharged _ _
        have hoff : ¬ ((n.device.pop .collbusymsg).dispatch w m).scheduled .entxmsg = true :=
          fun hon => hrest (hcharged hon)
        rw [henergy, not_or] at hoff
        exact ⟨Bool.eq_false_iff.mpr hoff.1, hoff.2⟩
      · intro hok hon
        obtain ⟨hoff, hno⟩ := hok hc (by rw [hpup]; exact Option.some_ne_none _)
        rcases henergy.mp hon with hon | hb
        · cases hoff.symm.trans hon
        · exact absurd hb hno

/-- **Step lemma**: an event keeps the charge right exactly if it disturbs no transmission. -/
theorem charged_step (hi : n.Intact) (h : n.Charged) (hw : i.1.build = .wireless)
    (hs : n.stepIn i = some n') : n'.Charged ↔ Undisturbed i n := by
  obtain ⟨w, e⟩ := i
  have hbuild : w.build = .wireless := hw
  obtain ⟨-, ht⟩ := step_cases hs
  cases hc : n.device.crashed with
  | true =>
    refine ⟨fun _ halive => by (cases hc.symm.trans halive), fun _ => ?_⟩
    cases ht with
    | prover =>
      unfold onProver
      rw [hc, if_pos rfl]
      exact charged_sendAll hbuild _ h
    | selfMsg hd =>
      intro hon
      unfold onSelfMsg at hon ⊢
      dsimp only
      rw [hc, if_pos rfl]
      exact h (crashed_step hc hd hon)
    | energyDone _ hd =>
      intro hon
      unfold onEnergyDone at hon ⊢
      dsimp only
      rw [hc, if_pos rfl]
      exact h (crashed_step hc hd hon)
  | false =>
    obtain ⟨hsound, hparks⟩ := hi hc
    cases ht with
    | @prover e p' =>
      rw [onProver_of_alive hc]
      constructor
      · intro hcharged _ hon
        cases hset : handlerPower e.act n.prover with
        | none => rfl
        | some x =>
          rw [hset] at hcharged
          obtain ⟨hon', hpower⟩ := sendAll_waits (w := w) (n := n.onAir p' (some x))
            (p'.out.drop n.prover.out.length) hsound hon hbuild
          exact absurd (hpower.symm.trans (hcharged hon')) (handlerPower_ne hset)
      · intro hok
        refine charged_sendAll hbuild _ fun hon => ?_
        show (handlerPower e.act n.prover).getD n.power = .TRANSMITION
        rw [hok hc hon]
        exact h hon
    | @selfMsg t depleted d hd =>
      obtain ⟨-, hcase⟩ := Device.step_cases hd
      cases hcase with
      | dropped hcr => cases hc.symm.trans hcr
      | popped hcr => cases hc.symm.trans hcr
      | selfMsg _ hdue => exact charged_selfMsg hparks h hc hbuild hdue
    | @energyDone depleted d _ hd =>
      obtain ⟨-, hcase⟩ := Device.step_cases hd
      cases hcase with
      | dropped hcr => cases hc.symm.trans hcr
      | energyDone =>
        have hrest : (n.onEnergyDone (n.device.handleDoneEnMsg depleted)).power ≠ .TRANSMITION := by
          unfold onEnergyDone
          rw [hc]
          exact restingPower_ne _ _
        constructor
        · intro hcharged _
          exact Bool.eq_false_iff.mpr fun hon => hrest (hcharged hon)
        · intro hok hon
          cases (hok hc).symm.trans hon

/-- **Every transmission is charged as one** in every run in which no event disturbs one; one
that does ends it. -/
theorem charged_of_undisturbed {cfg : Config} {start : Nat}
    (h : Runs.Reaches stepIn (fun i n => i.1.build = .wireless ∧ Undisturbed i n)
      (init cfg start) n) :
    n.Charged ∧ ∀ i n', i.1.build = .wireless → n.stepIn i = some n' →
      (n'.Charged ↔ Undisturbed i n) := by
  have hinv := h.invariant (I := fun n => n.Intact ∧ n.Charged)
    ⟨intact_init cfg start, fun hon => by cases hon⟩ fun i n n' ih hok hs =>
      ⟨intact_step ih.1 hs, (charged_step ih.1 ih.2 hok.1 hs).mpr hok.2⟩
  exact ⟨hinv.2, fun i n' hw hs => charged_step hinv.1 hinv.2 hw hs⟩

end

/-- A root acknowledges its first child; before the transmission ends, the answer of a second
one arrives. -/
def respWhileSending : List (Surroundings × NodeEvent) :=
  [NodeEvent.prover ⟨0, .timer .startmsg {}⟩,
    .prover ⟨1960 * 10 ^ 9, .timer .checkdelaymsg {}⟩,
    .prover ⟨1960 * 10 ^ 9, .timer .mktreetimer { treeID := 7 }⟩,
    .prover ⟨1960 * 10 ^ 9, .timer .creqmsg {}⟩,
    .selfMsg .entxmsg false,
    .selfMsg .txmsg false,
    .prover ⟨3 * second, .recv (.commitResp ⟨2, 1, 5, 7, 0, 5⟩) {}⟩,
    .energyDone false,
    .energyDone false,
    .prover ⟨3133198816000, .self 6 {}⟩,
    .prover ⟨3134 * 10 ^ 9, .recv (.commitResp ⟨3, 1, 5, 7, 0, 5⟩) {}⟩].map
      fun e => (Device.idleChannel false, e)

/-- In `respWhileSending` the transmission is charged as a reception. -/
theorem respWhileSending_disturbs : ¬ ∀ (cfg : Config) (start : Nat) (n : Node),
    Runs.Reaches stepIn (fun i _ => i.1.build = .wireless) (init cfg start) n → n.Charged := by
  intro h
  obtain ⟨n, hr, ht⟩ := Runs.exists_of_run stepIn (fun i _ => i.1.build = .wireless)
    respWhileSending (init Prover.rootConfig 0)
    (fun n => n.device.scheduled .entxmsg = true ∧ n.power = .RECEPTION) (by decide +kernel)
  obtain ⟨hon, hpower⟩ := of_decide_eq_true ht
  cases hpower.symm.trans (h _ _ n hr hon)

/-- Until then it is charged as a transmission. -/
theorem charged_of_undisturbed_root :
    ∃ n : Node, n.device.scheduled .entxmsg = true ∧ n.power.mW = 58.5 := by
  obtain ⟨n, hr, ht⟩ := Runs.exists_of_run stepIn
    (fun i n => i.1.build = .wireless ∧ Undisturbed i n) (respWhileSending.take 10)
    (init Prover.rootConfig 0) (fun n => n.device.scheduled .entxmsg = true) (by decide +kernel)
  have hon := of_decide_eq_true ht
  refine ⟨n, hon, ?_⟩
  rw [(charged_of_undisturbed hr).1 hon]
  rfl

end Node

end Fadia
