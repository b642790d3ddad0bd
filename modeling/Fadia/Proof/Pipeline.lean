import Fadia.Devices.Device
import Fadia.Lib.Runs

/-!
# A device's send pipeline neither loses nor duplicates a message

`step_cases` says what an event can do to a device, `dispatch_cases` what its send
functions can do with a message (`Sent`).  `Held` says that the serial numbers of
the messages transmitted, queued and parked are those of all hand-overs, each once.
`sendCollector` clears `pupmsg` first, so `Held` lasts where no message goes to the
collector while another one is parked (`held_of_reaches`); in `parkedLost` one does.
-/

namespace Fadia

namespace Device

/-! ## What a send function can do -/

/-- What becomes of a message `m` on its way to `route`. -/
inductive Sent (w : Surroundings) (m : Outgoing) (route : Route) (d : Device) : Device → Prop
  | queued (h : d.txrxstat = .TRANSMITING ∨ d.chanstat = .BUSY) : Sent w m route d (d.push m)
  | postponed (hi : ¬ (d.txrxstat = .TRANSMITING ∨ d.chanstat = .BUSY)) (hb : w.channelBusy = true) :
      Sent w m route d (({ d with chanstat := .BUSY }.push m).scheduleAt .cbusymsg)
  | parked (hi : ¬ (d.txrxstat = .TRANSMITING ∨ d.chanstat = .BUSY)) (hr : route = .collector)
      (hb : w.collectorBusy = true) : Sent w m route d (d.postponeUp m)
  | unheard (hi : ¬ (d.txrxstat = .TRANSMITING ∨ d.chanstat = .BUSY)) (hr : route = .broadcast) :
      Sent w m route d { d with sent := d.sent ++ [(m, route)] }
  | transmitted (hi : ¬ (d.txrxstat = .TRANSMITING ∨ d.chanstat = .BUSY))
      (hb : w.channelBusy = false) (hr : route = .collector → w.collectorBusy = false) :
      Sent w m route d (d.transmit w m route)

/-- The message is one for `sendCollector`: a report that is no `UPRQ` in range. -/
def ToCollector (w : Surroundings) (pkt : Packet) : Prop :=
  ∃ r, pkt.report = some r ∧
    (r.kind = .UPRQ → w.build = .wireless ∧ w.withinRange r.destination = false)

/-- A report that `handleMessage` gives to `sendCollector` wherever the device is. -/
def Redirected (pkt : Packet) : Prop := ∃ r, pkt.report = some r ∧ r.kind ≠ .UPRQ

section
variable {w : Surroundings} {m : Outgoing} {d d' : Device} {route : Route}

theorem whenFree_cases {transmit : Device → Device}
    (h : ¬ (d.txrxstat = .TRANSMITING ∨ d.chanstat = .BUSY) → w.channelBusy = false →
      Sent w m route d (transmit d)) : Sent w m route d (d.whenFree w m transmit) := by
  unfold whenFree
  split
  · next hq => exact .queued hq
  next hq =>
  split
  · next hb => exact .postponed hq hb
  · next hb => exact h hq (Bool.eq_false_iff.mpr hb)

theorem sendProver_cases : Sent w m .prover d (d.sendProver w m) :=
  whenFree_cases fun hi hb => .transmitted hi hb fun h => by cases h

theorem sendProverBroadcast_cases : Sent w m .broadcast d (d.sendProverBroadcast w m) := by
  refine whenFree_cases fun hi hb => ?_
  split
  · exact .transmitted hi hb fun h => by cases h
  · exact .unheard hi rfl

theorem sendCollector_cases :
    Sent w m .collector { d with pupmsg := none } (d.sendCollector w m) := by
  refine whenFree_cases fun hi hb => ?_
  split
  · next hcb => exact .parked hi rfl hcb
  · next hcb => exact .transmitted hi hb fun _ => Bool.eq_false_iff.mpr hcb

/-- **What `handleMessage` does with a message to be sent**: it goes to a prover, or, with
`pupmsg` cleared, to the collector. -/
theorem dispatch_cases : ∃ m' route, m'.serial = m.serial ∧
    (route ≠ .collector ∧ ¬ ToCollector w m.pkt ∧ Sent w m' route d (d.dispatch w m) ∨
      route = .collector ∧ ToCollector w m.pkt ∧ Redirected m'.pkt ∧
        Sent w m' route { d with pupmsg := none } (d.dispatch w m)) := by
  have hreport : ∀ r, m.pkt.report = some r → d.dispatch w m = d.dispatchReport w m r →
      ∃ m' route, m'.serial = m.serial ∧
        (route ≠ .collector ∧ ¬ ToCollector w m.pkt ∧ Sent w m' route d (d.dispatch w m) ∨
          route = .collector ∧ ToCollector w m.pkt ∧ Redirected m'.pkt ∧
            Sent w m' route { d with pupmsg := none } (d.dispatch w m)) := by
    intro r hr he
    have hprover : r.kind = .UPRQ → (w.build = .wireless → w.withinRange r.destination = true) →
        ¬ ToCollector w m.pkt := by
      rintro hk hin ⟨r', hr', hout⟩
      obtain rfl := Option.some.inj (hr.symm.trans hr')
      obtain ⟨hw, hno⟩ := hout hk
      rw [hin hw] at hno
      cases hno
    rw [he, dispatchReport]
    cases hk : r.kind with
    | UPRQ =>
      dsimp only
      cases hw : w.build with
      | wireless =>
        dsimp only
        split
        · next hin =>
          exact ⟨m, .prover, rfl, .inl ⟨by decide, hprover hk fun _ => hin, sendProver_cases⟩⟩
        · next hout =>
          refine ⟨{ m with pkt := .collector r.redirected }, .collector, rfl,
            .inr ⟨rfl, ⟨r, hr, fun _ => ⟨hw, Bool.eq_false_iff.mpr hout⟩⟩,
              ⟨r.redirected, rfl, by simp [UpdateReq.redirected]⟩, sendCollector_cases⟩⟩
      | wired =>
        have hno : ¬ ToCollector w m.pkt := hprover hk fun h => by cases hw.symm.trans h
        exact ⟨m, .prover, rfl, .inl ⟨by decide, hno, sendProver_cases⟩⟩
    | UPRQC =>
      exact ⟨m, .collector, rfl, .inr ⟨rfl, ⟨r, hr, fun h => by cases hk.symm.trans h⟩,
        ⟨r, hr, by simp [hk]⟩, sendCollector_cases⟩⟩
    | UPRQF =>
      exact ⟨m, .collector, rfl, .inr ⟨rfl, ⟨r, hr, fun h => by cases hk.symm.trans h⟩,
        ⟨r, hr, by simp [hk]⟩, sendCollector_cases⟩⟩
  have hnone : m.pkt.report = none → ¬ ToCollector w m.pkt := by
    rintro h ⟨r, hr, -⟩
    cases h.symm.trans hr
  cases hm : m.pkt with
  | creqmsg =>
    refine ⟨m, .broadcast, rfl, .inl ⟨by decide, hm ▸ hnone (by rw [hm]; rfl), ?_⟩⟩
    rw [dispatch, hm]
    exact sendProverBroadcast_cases
  | collector r =>
    rw [← hm]
    exact hreport r (by rw [hm]; rfl) (by rw [dispatch, hm])
  | prover msg =>
    cases msg with
    | updateReq r =>
      rw [← hm]
      exact hreport r (by rw [hm]; rfl) (by rw [dispatch, hm])
    | commitReq r =>
      refine ⟨m, .broadcast, rfl, .inl ⟨by decide, hm ▸ hnone (by rw [hm]; rfl), ?_⟩⟩
      rw [dispatch, hm]
      exact sendProverBroadcast_cases
    | commitResp r =>
      refine ⟨m, .prover, rfl, .inl ⟨by decide, hm ▸ hnone (by rw [hm]; rfl), ?_⟩⟩
      rw [dispatch, hm]
      exact sendProver_cases
    | commitAck r =>
      refine ⟨m, .prover, rfl, .inl ⟨by decide, hm ▸ hnone (by rw [hm]; rfl), ?_⟩⟩
      rw [dispatch, hm]
      exact sendProver_cases

end

/-! ## What an event can do -/

inductive Takes (w : Surroundings) (d : Device) : DeviceEvent → Device → Prop
  | dropped {e : DeviceEvent} (hc : d.crashed = true) (hno : ∀ t depleted, e ≠ .selfMsg t depleted) :
      Takes w d e d
  | popped {t : SelfMsg} {depleted : Bool} (hc : d.crashed = true) (hdue : d.Due t) :
      Takes w d (.selfMsg t depleted) (d.pop t)
  | handOver {pkt : Packet} (hc : d.crashed = false) : Takes w d (.handOver pkt) (d.handOver w pkt)
  | selfMsg {t : SelfMsg} {depleted : Bool} (hc : d.crashed = false) (hdue : d.Due t) :
      Takes w d (.selfMsg t depleted) ((d.pop t).onSelfMsg w t depleted)
  | energyDone {depleted : Bool} (hc : d.crashed = false) (hw : w.build = .wireless) :
      Takes w d (.energyDone depleted) (d.handleDoneEnMsg depleted)

section
variable {w : Surroundings} {e : DeviceEvent} {m : Outgoing} {d d' : Device} {route : Route}

theorem step_cases (h : d.step w e = some d') : d.fault = false ∧ Takes w d e d' := by
  unfold step at h
  split at h
  · cases h
  next hf =>
  refine ⟨Bool.eq_false_iff.mpr hf, ?_⟩
  cases e with
  | handOver pkt =>
    obtain rfl := Option.some.inj h
    cases hc : d.crashed with
    | true => rw [handleMessage, hc]; exact .dropped hc fun _ _ h => by cases h
    | false => rw [handleMessage, hc]; exact .handOver hc
  | selfMsg t depleted =>
    dsimp only at h
    split at h
    · next hdue =>
      obtain rfl := Option.some.inj h
      cases hc : d.crashed with
      | true => rw [handleMessage, if_pos (show (d.pop t).crashed = true from hc)]; exact .popped hc hdue
      | false =>
        rw [handleMessage, if_neg (by rw [pop, hc]; decide)]
        exact .selfMsg hc hdue
    · cases h
  | energyDone depleted =>
    dsimp only at h
    split at h
    · next hw =>
      obtain rfl := Option.some.inj h
      cases hc : d.crashed with
      | true => rw [handleMessage, hc]; exact .dropped hc fun _ _ h => by cases h
      | false => rw [handleMessage, hc]; exact .energyDone hc hw
    · cases h

/-- Draining the queue dispatches its head, if there is one. -/
theorem drain_cases (w : Surroundings) (d : Device) : d.msgqueue = [] ∧ d.drain w = d ∨
    ∃ m rest, d.msgqueue = m :: rest ∧
      d.drain w = { d.dispatch w m with msgqueue := (d.dispatch w m).msgqueue.tail } := by
  unfold drain
  split
  · next h => exact .inl ⟨h, rfl⟩
  · next m rest h => exact .inr ⟨m, rest, h, rfl⟩

/-! ## Serial numbers -/

@[simp] theorem scheduleAt_fields (t : SelfMsg) (d : Device) :
    (d.scheduleAt t).msgqueue = d.msgqueue ∧ (d.scheduleAt t).pupmsg = d.pupmsg ∧
      (d.scheduleAt t).sent = d.sent ∧ (d.scheduleAt t).handed = d.handed := by
  unfold scheduleAt
  split <;> exact ⟨rfl, rfl, rfl, rfl⟩

theorem transmit_fields (m : Outgoing) (route : Route) (d : Device) :
    (d.transmit w m route).msgqueue = d.msgqueue ∧ (d.transmit w m route).pupmsg = d.pupmsg ∧
      (d.transmit w m route).sent = d.sent ++ [(m, route)] ∧
        (d.transmit w m route).handed = d.handed := by
  unfold transmit
  dsimp only
  split <;> simp

/-- Serial numbers of the messages transmitted, queued and parked. -/
def serials (d : Device) : List Nat :=
  d.sent.map (·.1.serial) ++ (d.msgqueue.map (·.serial) ++ d.pupmsg.toList.map (·.serial))

/-- A send function puts its message into one place, at the end of the queue if it queues. -/
theorem Sent.serials (h : Sent w m route d d') (hp : route = .collector → d.pupmsg = none) :
    d'.serials.Perm (m.serial :: d.serials) ∧ d'.handed = d.handed ∧
      (d'.msgqueue = d.msgqueue ∨ d'.msgqueue = d.msgqueue ++ [m]) := by
  have hpush : ∀ (a b c : List Nat), (a ++ (b ++ [m.serial] ++ c)).Perm (m.serial :: (a ++ (b ++ c))) := by
    intro a b c
    have hmiddle : (a ++ b ++ m.serial :: c).Perm (m.serial :: (a ++ b ++ c)) := List.perm_middle
    simpa using hmiddle
  have hsend : ∀ (a b : List Nat), (a ++ [m.serial] ++ b).Perm (m.serial :: (a ++ b)) := by
    intro a b
    simp
  cases h with
  | queued =>
    refine ⟨?_, rfl, .inr rfl⟩
    simp only [Device.serials, push, List.map_append, List.map_cons, List.map_nil]
    exact hpush _ _ _
  | postponed =>
    obtain ⟨h1, h2, h3, h4⟩ := scheduleAt_fields .cbusymsg ({ d with chanstat := .BUSY }.push m)
    refine ⟨?_, h4, .inr h1⟩
    rw [Device.serials, h1, h2, h3]
    simp only [push, List.map_append, List.map_cons, List.map_nil]
    exact hpush _ _ _
  | parked _ hr =>
    have hnone := hp hr
    have hfields : (d.postponeUp m).msgqueue = d.msgqueue ∧ (d.postponeUp m).pupmsg = some m ∧
        (d.postponeUp m).sent = d.sent ∧ (d.postponeUp m).handed = d.handed := by
      unfold postponeUp
      dsimp only
      split <;> simp
    obtain ⟨h1, h2, h3, h4⟩ := hfields
    refine ⟨?_, h4, .inl h1⟩
    simp only [Device.serials, h1, h2, h3, hnone, Option.toList_some, Option.toList_none,
      List.map_cons, List.map_nil, List.append_nil]
    rw [← List.append_assoc]
    exact List.perm_append_singleton _ _
  | unheard =>
    refine ⟨?_, rfl, .inl rfl⟩
    simp only [Device.serials, List.map_append, List.map_cons, List.map_nil]
    exact hsend _ _
  | transmitted =>
    obtain ⟨h1, h2, h3, h4⟩ := transmit_fields (w := w) m route d
    refine ⟨?_, h4, .inl h1⟩
    simp only [Device.serials, h1, h2, h3, List.map_append, List.map_cons, List.map_nil]
    exact hsend _ _

/-- No send function touches a parked report; only a message for the collector is parked. -/
theorem Sent.pupmsg (h : Sent w m route d d') :
    d'.pupmsg = d.pupmsg ∨ route = .collector ∧ d'.pupmsg = some m := by
  cases h with
  | queued => exact .inl rfl
  | postponed => exact .inl (scheduleAt_fields .cbusymsg _).2.1
  | parked _ hr =>
    refine .inr ⟨hr, ?_⟩
    unfold postponeUp
    dsimp only
    split <;> simp
  | unheard => exact .inl rfl
  | transmitted => exact .inl (transmit_fields m route d).2.1

/-- Every hand-over is transmitted or held in exactly one place. -/
def Held (d : Device) : Prop := d.serials.Perm (List.range d.handed)

/-- What lies in `pupmsg` is for the collector. -/
def ParksReports (d : Device) : Prop := ∀ m, d.pupmsg = some m → Redirected m.pkt

/-- No message goes to the collector while another one is parked. -/
def SlotFree (i : Surroundings × DeviceEvent) (d : Device) : Prop :=
  match i.2 with
  | .handOver pkt => ToCollector i.1 pkt → d.pupmsg = none
  | .selfMsg .txmsg _ | .selfMsg .cbusymsg _ =>
    ∀ m ∈ d.msgqueue.head?, ToCollector i.1 m.pkt → d.pupmsg = none
  | .selfMsg .entxmsg _ | .selfMsg .collbusymsg _ | .energyDone _ => True

theorem Redirected.toCollector {pkt : Packet} (h : Redirected pkt) : ToCollector w pkt := by
  obtain ⟨r, hr, hk⟩ := h
  exact ⟨r, hr, fun he => absurd he hk⟩

theorem parksReports_dispatch (h : d.ParksReports) : (d.dispatch w m).ParksReports := by
  obtain ⟨m', route, -, ⟨hr, -, hs⟩ | ⟨-, -, hred, hs⟩⟩ := dispatch_cases (w := w) (m := m) (d := d)
  · rcases hs.pupmsg with he | ⟨hc, -⟩
    · intro x hx
      exact h x (he ▸ hx)
    · exact absurd hc hr
  · intro x hx
    rcases hs.pupmsg with he | ⟨-, he⟩
    · rw [he] at hx
      cases hx
    · obtain rfl : m' = x := Option.some.inj (he.symm.trans hx)
      exact hred

/-- A message for the collector takes the place of what is parked. -/
theorem dispatch_parked (hc : ToCollector w m.pkt) :
    (d.dispatch w m).serials.Perm (m.serial :: { d with pupmsg := none }.serials) ∧
      (d.dispatch w m).handed = d.handed := by
  obtain ⟨m', route, hm, ⟨-, hno, -⟩ | ⟨-, -, -, hs⟩⟩ := dispatch_cases (w := w) (m := m) (d := d)
  · exact absurd hc hno
  · obtain ⟨hp, hh, -⟩ := hs.serials fun _ => rfl
    exact ⟨hm ▸ hp, hh⟩

/-- With the slot free a message is put into one place. -/
theorem dispatch_serials (hfree : ToCollector w m.pkt → d.pupmsg = none) :
    (d.dispatch w m).serials.Perm (m.serial :: d.serials) ∧ (d.dispatch w m).handed = d.handed ∧
      ∃ back, (d.dispatch w m).msgqueue = d.msgqueue ++ back := by
  obtain ⟨m', route, hm, ⟨hr, -, hs⟩ | ⟨-, hc, -, hs⟩⟩ := dispatch_cases (w := w) (m := m) (d := d)
  · obtain ⟨hp, hh, hq⟩ := hs.serials fun h => absurd h hr
    refine ⟨hm ▸ hp, hh, ?_⟩
    rcases hq with hq | hq
    · exact ⟨[], by rw [hq, List.append_nil]⟩
    · exact ⟨_, hq⟩
  · have hd : { d with pupmsg := none } = d := by rw [← hfree hc]
    rw [hd] at hs
    obtain ⟨hp, hh, hq⟩ := hs.serials fun _ => hfree hc
    refine ⟨hm ▸ hp, hh, ?_⟩
    rcases hq with hq | hq
    · exact ⟨[], by rw [hq, List.append_nil]⟩
    · exact ⟨_, hq⟩

/-- A drain moves the head of the queue to another place. -/
theorem drain_serials (hfree : ∀ m ∈ d.msgqueue.head?, ToCollector w m.pkt → d.pupmsg = none) :
    (d.drain w).serials.Perm d.serials ∧ (d.drain w).handed = d.handed := by
  rcases drain_cases w d with ⟨-, he⟩ | ⟨m, rest, hq, he⟩
  · rw [he]
    exact ⟨.refl _, rfl⟩
  · rw [he]
    obtain ⟨hp, hh, back, hb⟩ := dispatch_serials (w := w) (m := m) (d := d)
      (hfree m (by rw [hq]; rfl))
    refine ⟨?_, hh⟩
    have hhead : (d.dispatch w m).msgqueue = m :: (rest ++ back) := by rw [hb, hq, List.cons_append]
    have hout : (d.dispatch w m).serials.Perm (m.serial ::
        { d.dispatch w m with msgqueue := (d.dispatch w m).msgqueue.tail }.serials) := by
      simp only [serials, hhead, List.tail_cons, List.map_cons, List.cons_append]
      exact List.perm_middle
    exact (hout.symm.trans hp).cons_inv

theorem parksReports_drain (h : d.ParksReports) : (d.drain w).ParksReports := by
  rcases drain_cases w d with ⟨-, he⟩ | ⟨m, rest, -, he⟩
  · rwa [he]
  · rw [he]
    exact parksReports_dispatch (w := w) (m := m) h

/-- What one event changes in the places of the messages. -/
theorem serials_onSelfMsg {t : SelfMsg} {depleted : Bool} (hp : d.ParksReports)
    (hfree : SlotFree (w, .selfMsg t depleted) d) :
    (d.onSelfMsg w t depleted).serials.Perm d.serials ∧
      (d.onSelfMsg w t depleted).handed = d.handed ∧ (d.onSelfMsg w t depleted).ParksReports := by
  cases t with
  | txmsg =>
    obtain ⟨h1, h2⟩ := drain_serials (w := w) (d := { d with txrxstat := .DIDLE }) hfree
    exact ⟨h1, h2, parksReports_drain (d := { d with txrxstat := .DIDLE }) hp⟩
  | entxmsg => exact ⟨.refl _, rfl, hp⟩
  | cbusymsg =>
    obtain ⟨h1, h2⟩ := drain_serials (w := w) (d := { d with chanstat := .CIDLE }) hfree
    exact ⟨h1, h2, parksReports_drain (d := { d with chanstat := .CIDLE }) hp⟩
  | collbusymsg =>
    unfold onSelfMsg handlePostponeUpMsg
    dsimp only
    split
    · next m _ hm =>
      obtain ⟨h1, h2⟩ := dispatch_parked (d := d) (hp m hm).toCollector
      refine ⟨h1.trans ?_, h2, parksReports_dispatch hp⟩
      simp only [serials, hm, Option.toList_none, Option.toList_some, List.map_nil, List.map_cons,
        List.append_nil]
      rw [← List.append_assoc]
      exact (List.perm_append_singleton _ _).symm
    · exact ⟨.refl _, rfl, hp⟩

/-- A step of a device in the surroundings that it finds. -/
def stepIn (i : Surroundings × DeviceEvent) (d : Device) : Option Device := d.step i.1 i.2

theorem held_step {i : Surroundings × DeviceEvent} (h : d.Held ∧ d.ParksReports)
    (hfree : SlotFree i d) (hs : d.stepIn i = some d') :
    (d'.Held ∧ d'.ParksReports) ∧ d.handed ≤ d'.handed := by
  obtain ⟨hheld, hp⟩ := h
  obtain ⟨w, e⟩ := i
  obtain ⟨-, ht⟩ := step_cases hs
  cases ht with
  | dropped => exact ⟨⟨hheld, hp⟩, Nat.le_refl _⟩
  | popped => exact ⟨⟨hheld, hp⟩, Nat.le_refl _⟩
  | @handOver pkt _ =>
    obtain ⟨h1, h2, -⟩ := dispatch_serials (w := w) (m := ⟨d.handed, pkt⟩)
      (d := { d with handed := d.handed + 1 }) hfree
    refine ⟨⟨?_, parksReports_dispatch (d := { d with handed := d.handed + 1 }) hp⟩,
      h2.symm ▸ Nat.le_succ _⟩
    unfold Held handOver
    rw [h2, List.range_succ]
    exact h1.trans ((hheld.cons _).trans (List.perm_append_singleton _ _).symm)
  | selfMsg =>
    obtain ⟨h1, h2, h3⟩ := serials_onSelfMsg (d := d.pop _) hp hfree
    refine ⟨⟨?_, h3⟩, h2.symm ▸ Nat.le_refl _⟩
    unfold Held
    rw [h2]
    exact h1.trans hheld
  | energyDone => exact ⟨⟨hheld, hp⟩, Nat.le_refl _⟩

end

/-! ## Runs of a device -/

/-- **Each message is transmitted at most once and held in exactly one place until then**,
and no event loses one, in every run in which no message goes to the collector while
another one is parked. -/
theorem held_of_reaches {d : Device}
    (h : Runs.Reaches stepIn SlotFree {} d) :
    d.Held ∧ ∀ i d', SlotFree i d → d.stepIn i = some d' →
      ∀ n ∈ d.serials, n ∈ d'.serials := by
  have hinv := h.invariant (I := fun d => d.Held ∧ d.ParksReports)
    ⟨List.Perm.nil, fun m hm => by cases hm⟩ fun i d d' ih hfree hs => (held_step ih hfree hs).1
  refine ⟨hinv.1, fun i d' hfree hs n hn => ?_⟩
  obtain ⟨⟨hheld, -⟩, hle⟩ := held_step hinv hfree hs
  have hlt : n < d.handed := List.mem_range.mp (hinv.1.mem_iff.mp hn)
  exact hheld.mem_iff.mpr (List.mem_range.mpr (by omega))

/-- The report of a prover for the collector. -/
def collectorReport (kind : UpKind) : Packet :=
  .collector { kind := kind, source := 1, destination := 0, report1 := [1, 0], report2 := [1, 0],
               treeID := 7, mac := 0, macKid := 0, proof := [5] }

/-- Surroundings with an idle channel. -/
def idleChannel (collectorBusy : Bool) : Surroundings :=
  ⟨.wireless, false, collectorBusy, fun _ => true, true⟩

/-- While the collector is busy the prover's own report is parked; then comes the report
of a late child, which is redirected to the collector. -/
def parkedLost : List (Surroundings × DeviceEvent) :=
  [(idleChannel true, .handOver (collectorReport .UPRQC)),
    (idleChannel true, .handOver (collectorReport .UPRQF))]

/-- The parked report is lost in `parkedLost`. -/
theorem parkedLost_loses :
    ¬ ∀ d : Device, Runs.Reaches stepIn (fun _ _ => True) {} d → d.Held := by
  intro h
  obtain ⟨d, hr, ht⟩ := Runs.exists_of_run stepIn (fun _ _ => True)
    parkedLost {} (fun d => d.handed = 2 ∧ d.serials = [1]) (by decide +kernel)
  obtain ⟨hn, hs⟩ := of_decide_eq_true ht
  have hlen := (h d hr).length_eq
  rw [hn, hs] at hlen
  cases hlen

/-- The first report is parked, and transmitted when the collector is free. -/
theorem held_of_reaches_parked : ∃ d : Device, d.pupmsg.isSome ∧ d.Held ∧
    ∀ d', d.stepIn (idleChannel false, .selfMsg .collbusymsg false) = some d' →
      ∀ n ∈ d.serials, n ∈ d'.serials := by
  obtain ⟨d, hr, ht⟩ := Runs.exists_of_run stepIn (fun _ d => d.pupmsg = none)
    (parkedLost.take 1) {} (fun d => d.pupmsg.isSome) (by decide +kernel)
  have hfree : ∀ (i : Surroundings × DeviceEvent) (d : Device), d.pupmsg = none → SlotFree i d := by
    intro i d hd
    unfold SlotFree
    split <;> first | exact fun _ => hd | exact fun _ _ _ => hd | trivial
  obtain ⟨hheld, hnext⟩ := held_of_reaches (hr.weaken hfree)
  exact ⟨d, ht, hheld, fun d' hs =>
    hnext (idleChannel false, .selfMsg .collbusymsg false) d' trivial hs⟩

end Device

end Fadia
