import Fadia.Proof.CollectorLock
import Fadia.Proof.SystemRefinement
import Fadia.Proof.WakeUp

/-!
# The send pipelines come to rest in any order

While no battery fails, no prover is alone and nothing more is handed over, each self message of a
device and each event of the collector brings the system nearer to rest, in whatever order they
come, but for those that try again what was postponed or parked (`work_step`).  And no state is a
dead end: what is scheduled has an order that ends at rest (`comes_to_rest`).

`work` counts what is still to be done.  A message that waits weighs most: it has a transmission
before it, and as a report a flight and the collector's time.
-/

namespace Fadia

namespace Device

/-- Nothing is transmitted, postponed, queued or parked. -/
structure AtRest (d : Device) : Prop where
  txrxstat : d.txrxstat = .DIDLE
  chanstat : d.chanstat = .CIDLE
  msgqueue : d.msgqueue = []
  pupmsg : d.pupmsg = none

/-- What is still to be done. -/
def work (d : Device) : Nat :=
  9 * (d.msgqueue.length + d.pupmsg.toList.length) +
    (if d.txrxstat = .TRANSMITING then 4 else 0) + if d.scheduled .entxmsg then 1 else 0

/-- A device that has postponed has what it postponed. -/
def Stocked (d : Device) : Prop := d.chanstat = .BUSY → d.msgqueue ≠ []

section
variable {w : Surroundings} {e : DeviceEvent} {m : Outgoing} {d d' : Device} {route : Route}

/-! ## What a message that is dispatched adds -/

theorem work_scheduleAt_le (t : SelfMsg) (d : Device) : (d.scheduleAt t).work ≤ d.work + 1 := by
  have hone : (if (d.scheduleAt t).scheduled .entxmsg then 1 else 0) ≤ 1 := by split <;> omega
  obtain ⟨hq, hp, -, -⟩ := scheduleAt_fields t d
  unfold work
  rw [hq, hp, scheduleAt_txrxstat]
  omega

theorem work_scheduleAt {t : SelfMsg} (ht : t ≠ .entxmsg) : (d.scheduleAt t).work = d.work := by
  obtain ⟨hq, hp, -, -⟩ := scheduleAt_fields t d
  have hen : (d.scheduleAt t).scheduled .entxmsg = d.scheduled .entxmsg := by
    unfold scheduleAt
    split
    · rfl
    · exact Function.update_of_ne ht.symm _ _
  unfold work
  rw [hq, hp, scheduleAt_txrxstat, hen]

theorem work_push : (d.push m).work = d.work + 9 := by
  unfold work push
  dsimp only
  rw [List.length_append, List.length_singleton]
  omega

theorem work_transmit : (d.transmit w m route).work ≤ d.work + 5 := by
  have hflag : work { d with sent := d.sent ++ [(m, route)], txrxstat := .TRANSMITING } ≤
      d.work + 4 := by
    unfold work
    dsimp only
    rw [if_pos rfl]
    omega
  unfold transmit
  dsimp only
  split
  · have hen := work_scheduleAt_le .entxmsg
      { d with sent := d.sent ++ [(m, route)], txrxstat := .TRANSMITING }
    rw [work_scheduleAt (by decide)]
    omega
  · rw [work_scheduleAt (by decide)]
    omega

/-- A message that is sent becomes work, less if it goes on the air. -/
theorem Sent.work (h : Sent w m route d d') (hp : route = .collector → d.pupmsg = none) :
    d'.work + 4 * (d'.sent.length - d.sent.length) ≤ d.work + 9 := by
  cases h with
  | queued =>
    rw [work_push]
    simp [push]
  | postponed =>
    rw [work_scheduleAt (by decide), (scheduleAt_fields .cbusymsg _).2.2.1, work_push]
    simp [push, Device.work]
  | parked _ hr =>
    have hnone := hp hr
    have hslot : Device.work { d with pupmsg := some m } = d.work + 9 := by
      unfold Device.work
      rw [hnone]
      simp only [Option.toList_some, Option.toList_none, List.length_singleton, List.length_nil]
      omega
    unfold postponeUp
    dsimp only
    split
    · rw [hslot]
      simp
    · rw [work_scheduleAt (by decide), (scheduleAt_fields .collbusymsg _).2.2.1, hslot]
      simp
  | unheard =>
    simp [Device.work]
  | transmitted =>
    have hone : (d.transmit w m route).work ≤ d.work + 5 := work_transmit
    rw [(transmit_fields m route d).2.2.1, List.length_append, List.length_singleton]
    omega

theorem work_clear : work { d with pupmsg := none } + 9 * d.pupmsg.toList.length = d.work := by
  unfold work
  simp only [Option.toList_none, List.length_nil]
  omega

/-- What is parked goes from `pupmsg` when a message goes to the collector. -/
theorem work_dispatch : (d.dispatch w m).work + 4 * ((d.dispatch w m).sent.length - d.sent.length) +
    (if ToCollector w m.pkt then 9 * d.pupmsg.toList.length else 0) ≤ d.work + 9 := by
  obtain ⟨m', route, -, ⟨hr, hno, hs⟩ | ⟨-, hyes, -, hs⟩⟩ :=
    dispatch_cases (w := w) (m := m) (d := d)
  · rw [if_neg hno]
    exact hs.work fun h => absurd h hr
  · have hone := hs.work fun _ => rfl
    have hclear := work_clear (d := d)
    rw [if_pos hyes]
    dsimp only at hone
    omega

theorem Sent.queue (h : Sent w m route d d') : d.msgqueue.length ≤ d'.msgqueue.length := by
  cases h with
  | queued => simp [push]
  | postponed =>
    rw [(scheduleAt_fields .cbusymsg _).1]
    simp [push]
  | parked =>
    unfold postponeUp
    dsimp only
    split <;> simp
  | unheard => exact Nat.le_refl _
  | transmitted => rw [(transmit_fields m route d).1]

theorem queue_dispatch : d.msgqueue.length ≤ (d.dispatch w m).msgqueue.length := by
  obtain ⟨m', route, -, ⟨-, -, hs⟩ | ⟨-, -, -, hs⟩⟩ := dispatch_cases (w := w) (m := m) (d := d)
  · exact hs.queue
  · exact hs.queue

/-- What is taken from the queue makes room for itself. -/
theorem work_drain : (d.drain w).work + 4 * ((d.drain w).sent.length - d.sent.length) ≤ d.work := by
  rcases drain_cases w d with ⟨-, he⟩ | ⟨m, rest, hq, he⟩
  · rw [he, Nat.sub_self]
    exact Nat.le_refl _
  · have hone := work_dispatch (w := w) (m := m) (d := d)
    have hqueue := queue_dispatch (w := w) (m := m) (d := d)
    rw [hq, List.length_cons] at hqueue
    rw [he]
    unfold work at hone ⊢
    simp only [List.length_tail]
    omega

/-! ## A device's self messages -/

theorem step_selfMsg {t : SelfMsg} (hf : d.fault = false) (hc : d.crashed = false) (hdue : d.Due t)
    (depleted : Bool) : d.step w (.selfMsg t depleted) = some ((d.pop t).onSelfMsg w t depleted) := by
  unfold step
  rw [if_neg (by rw [hf]; decide)]
  dsimp only
  rw [if_pos hdue, handleMessage, if_neg (by rw [pop, hc]; decide)]

theorem crashed_onSelfMsg (t : SelfMsg) : (d.onSelfMsg w t false).crashed = d.crashed := by
  cases t with
  | txmsg => exact crashed_drain (d := { d with txrxstat := .DIDLE })
  | entxmsg => exact Bool.or_false _
  | cbusymsg => exact crashed_drain (d := { d with chanstat := .CIDLE })
  | collbusymsg =>
    unfold onSelfMsg handlePostponeUpMsg
    dsimp only
    split
    · exact crashed_dispatch
    · rfl

theorem onSelfMsg_parked (hw : w.build = .wireless) (hp : d.pupmsg = some m) :
    (d.pop .collbusymsg).onSelfMsg w .collbusymsg false = (d.pop .collbusymsg).dispatch w m := by
  unfold onSelfMsg handlePostponeUpMsg
  simp [pop, hp, hw]

/-- **A self message** never makes work, and the end of a transmission is one piece less. -/
theorem work_onSelfMsg (h : Waits d) (hw : w.build = .wireless) {t : SelfMsg} (hdue : d.Due t) :
    ((d.pop t).onSelfMsg w t false).work +
      4 * (((d.pop t).onSelfMsg w t false).sent.length - d.sent.length) +
        (if t = .txmsg ∨ t = .entxmsg then 1 else 0) ≤ d.work := by
  cases t with
  | txmsg =>
    have ht := h.sound.transmiting.mpr hdue.1
    have hpop : work { d.pop .txmsg with txrxstat := .DIDLE } + 4 = d.work := by
      unfold work
      rw [ht, if_pos rfl, show (d.pop .txmsg).scheduled .entxmsg = _ from pop_keeps (by decide)]
      simp only [pop, reduceCtorEq, if_false]
      omega
    have hdrain : ((d.pop .txmsg).onSelfMsg w .txmsg false).work +
        4 * (((d.pop .txmsg).onSelfMsg w .txmsg false).sent.length - d.sent.length) ≤
          work { d.pop .txmsg with txrxstat := .DIDLE } := work_drain
    rw [if_pos (.inl rfl)]
    omega
  | entxmsg =>
    have hpop : (d.pop .entxmsg).work + 1 = d.work := by
      have hoff : (d.pop .entxmsg).scheduled .entxmsg = false := by simp [pop]
      unfold work
      rw [hoff, hdue.1]
      rfl
    change (d.pop .entxmsg).work + 4 * (d.sent.length - d.sent.length) + 1 ≤ _
    omega
  | cbusymsg =>
    have hpop : work { d.pop .cbusymsg with chanstat := .CIDLE } = d.work := by
      unfold work
      rw [show (d.pop .cbusymsg).scheduled .entxmsg = _ from pop_keeps (by decide)]
      rfl
    exact (work_drain (w := w) (d := { d.pop .cbusymsg with chanstat := .CIDLE })).trans_eq hpop
  | collbusymsg =>
    have hpop : (d.pop .collbusymsg).work = d.work := by
      unfold work
      rw [pop_keeps (by decide)]
      rfl
    rw [if_neg (by decide)]
    cases hp : d.pupmsg with
    | none =>
      have he : (d.pop .collbusymsg).onSelfMsg w .collbusymsg false = d.pop .collbusymsg := by
        unfold onSelfMsg handlePostponeUpMsg
        simp [pop, hp]
      rw [he, hpop, show (d.pop .collbusymsg).sent = d.sent from rfl, Nat.sub_self]
      exact Nat.le_refl _
    | some m =>
      have he := onSelfMsg_parked hw hp
      have hone := work_dispatch (w := w) (m := m) (d := d.pop .collbusymsg)
      rw [← he, hpop, if_pos (h.parks m hp).toCollector,
        show (d.pop .collbusymsg).pupmsg = some m from hp] at hone
      exact Nat.le_of_add_le_add_right hone

/-! ## What is tried on an idle channel -/

theorem scheduleAt_chanstat (t : SelfMsg) (d : Device) : (d.scheduleAt t).chanstat = d.chanstat := by
  unfold scheduleAt
  split <;> rfl

/-- An idle device that finds the channel and the collector idle transmits. -/
theorem Sent.onAir (h : Sent w m route d d') (ht : d.txrxstat = .DIDLE)
    (hc : d.chanstat = .CIDLE) (hfree : w.channelBusy = false) (hcoll : w.collectorBusy = false) :
    d'.sent = d.sent ++ [(m, route)] := by
  cases h with
  | queued hno =>
    rcases hno with hno | hno
    · cases ht.symm.trans hno
    · cases hc.symm.trans hno
  | postponed _ hb => cases hfree.symm.trans hb
  | parked _ _ hb => cases hcoll.symm.trans hb
  | unheard => rfl
  | transmitted => exact (transmit_fields m route d).2.2.1

theorem onAir_dispatch (ht : d.txrxstat = .DIDLE) (hc : d.chanstat = .CIDLE)
    (hfree : w.channelBusy = false) (hcoll : w.collectorBusy = false) :
    (d.dispatch w m).sent.length = d.sent.length + 1 := by
  obtain ⟨m', route, -, ⟨-, -, hs⟩ | ⟨-, -, -, hs⟩⟩ := dispatch_cases (w := w) (m := m) (d := d)
  · rw [hs.onAir ht hc hfree hcoll, List.length_append, List.length_singleton]
  · rw [hs.onAir ht hc hfree hcoll, List.length_append, List.length_singleton]

/-- A device that transmits takes an end of its transmission. -/
theorem work_lt_transmiting (h : Waits d) (hw : w.build = .wireless)
    (ht : d.txrxstat = .TRANSMITING) :
    ∃ t, d.Due t ∧ ((d.pop t).onSelfMsg w t false).work +
      2 * (((d.pop t).onSelfMsg w t false).sent.length - d.sent.length) < d.work := by
  have hend : ∀ t, d.Due t → t = .txmsg ∨ t = .entxmsg →
      ((d.pop t).onSelfMsg w t false).work +
        2 * (((d.pop t).onSelfMsg w t false).sent.length - d.sent.length) < d.work := by
    intro t hdue hor
    have hone := work_onSelfMsg h hw hdue
    rw [if_pos hor] at hone
    omega
  cases hen : d.scheduled .entxmsg with
  | true =>
    have hdue : d.Due .entxmsg := ⟨hen, fun he => by cases he⟩
    exact ⟨.entxmsg, hdue, hend _ hdue (.inr rfl)⟩
  | false =>
    have hdue : d.Due .txmsg := ⟨h.sound.transmiting.mp ht, fun _ => hen⟩
    exact ⟨.txmsg, hdue, hend _ hdue (.inl rfl)⟩

/-- Where the channel and the collector are idle, a device transmits what it has postponed or
parked when it tries again. -/
theorem work_lt_waiting (h : Waits d) (hstock : d.Stocked) (hw : w.build = .wireless)
    (ht : d.txrxstat = .DIDLE) (hwait : d.chanstat = .BUSY ∨ d.chanstat = .CIDLE ∧ d.pupmsg ≠ none)
    (hfree : w.channelBusy = false) (hcoll : w.collectorBusy = false) :
    ∃ t, d.Due t ∧ ((d.pop t).onSelfMsg w t false).work +
      2 * (((d.pop t).onSelfMsg w t false).sent.length - d.sent.length) < d.work := by
  have htransmits : ∀ t, d.Due t →
      ((d.pop t).onSelfMsg w t false).sent.length = d.sent.length + 1 →
        ((d.pop t).onSelfMsg w t false).work +
          2 * (((d.pop t).onSelfMsg w t false).sent.length - d.sent.length) < d.work := by
    intro t hdue hsent
    have hone := work_onSelfMsg h hw hdue
    omega
  rcases hwait with hb | ⟨hc, hp⟩
  · have hdue : d.Due .cbusymsg := ⟨h.sound.busy hb, fun he => by cases he⟩
    refine ⟨.cbusymsg, hdue, htransmits _ hdue ?_⟩
    rcases drain_cases w { d.pop .cbusymsg with chanstat := .CIDLE } with ⟨hnil, -⟩ | ⟨m, rest, -, he⟩
    · exact absurd hnil (hstock hb)
    · change (drain w { d.pop .cbusymsg with chanstat := .CIDLE }).sent.length = _
      rw [he]
      exact onAir_dispatch (d := { d.pop .cbusymsg with chanstat := .CIDLE }) ht rfl hfree hcoll
  · obtain ⟨m, hp⟩ := Option.ne_none_iff_exists'.mp hp
    have hdue : d.Due .collbusymsg :=
      ⟨h.retried (by rw [hp]; exact Option.some_ne_none m), fun he => by cases he⟩
    refine ⟨.collbusymsg, hdue, htransmits _ hdue ?_⟩
    rw [onSelfMsg_parked hw hp]
    exact onAir_dispatch (d := d.pop .collbusymsg) ht hc hfree hcoll

/-! ## What a device has postponed is in its queue -/

/-- A message behind which the channel is marked as busy is in the queue. -/
theorem Sent.postpones (h : Sent w m route d d') (hb : d'.chanstat = .BUSY) :
    d'.msgqueue = d.msgqueue ++ [m] := by
  cases h with
  | queued => rfl
  | postponed => exact (scheduleAt_fields .cbusymsg _).1
  | parked hi =>
    have hsame : (d.postponeUp m).chanstat = d.chanstat := by
      unfold postponeUp
      dsimp only
      split
      · rfl
      · exact scheduleAt_chanstat ..
    exact absurd (.inr (hsame.symm.trans hb)) hi
  | unheard hi => exact absurd (.inr hb) hi
  | transmitted hi =>
    have hsame : (d.transmit w m route).chanstat = d.chanstat := by
      unfold transmit
      dsimp only
      split
      · rw [scheduleAt_chanstat, scheduleAt_chanstat]
      · rw [scheduleAt_chanstat]
    exact absurd (.inr (hsame.symm.trans hb)) hi

theorem postpones_dispatch (hb : (d.dispatch w m).chanstat = .BUSY) :
    ∃ m', (d.dispatch w m).msgqueue = d.msgqueue ++ [m'] := by
  obtain ⟨m', route, -, ⟨-, -, hs⟩ | ⟨-, -, -, hs⟩⟩ := dispatch_cases (w := w) (m := m) (d := d)
  · exact ⟨m', hs.postpones hb⟩
  · exact ⟨m', hs.postpones hb⟩

theorem stocked_dispatch : (d.dispatch w m).Stocked := by
  intro hb
  obtain ⟨m', he⟩ := postpones_dispatch hb
  rw [he]
  exact List.append_ne_nil_of_right_ne_nil _ (List.cons_ne_nil _ _)

/-- What is postponed when the queue is drained goes behind what was taken. -/
theorem stocked_drain (hc : d.chanstat = .CIDLE) : (d.drain w).Stocked := by
  rcases drain_cases w d with ⟨-, he⟩ | ⟨m, rest, hq, he⟩
  · rw [he]
    intro hb
    cases hc.symm.trans hb
  · rw [he]
    intro hb
    obtain ⟨m', hq'⟩ := postpones_dispatch (w := w) (m := m) (d := d) hb
    dsimp only
    rw [hq', hq, List.cons_append, List.tail_cons]
    exact List.append_ne_nil_of_right_ne_nil _ (List.cons_ne_nil _ _)

theorem stocked_step (h : Sound d) (hd : d.Stocked) (hs : d.step w e = some d') : d'.Stocked := by
  obtain ⟨-, ht⟩ := step_cases hs
  cases ht with
  | dropped => exact hd
  | popped => exact hd
  | @handOver pkt => exact stocked_dispatch
  | energyDone => exact hd
  | @selfMsg t depleted _ hdue =>
    cases t with
    | txmsg =>
      have hidle : d.chanstat = .CIDLE := by
        cases hc : d.chanstat with
        | BUSY => exact absurd ⟨h.transmiting.mpr hdue.1, hc⟩ h.exclusive
        | CIDLE => rfl
      exact stocked_drain (d := { d.pop .txmsg with txrxstat := .DIDLE }) hidle
    | entxmsg => exact hd
    | cbusymsg => exact stocked_drain (d := { d.pop .cbusymsg with chanstat := .CIDLE }) rfl
    | collbusymsg =>
      unfold onSelfMsg handlePostponeUpMsg
      dsimp only
      split
      · exact stocked_dispatch
      · exact hd

end

end Device

namespace Field

/-- An event that is scheduled already: no battery is found empty, nothing is handed over and no
prover moves. -/
def FieldEvent.Gentle : FieldEvent → Prop
  | .device _ (.selfMsg _ depleted) => depleted = false
  | .device _ (.handOver _) => False
  | .device _ (.energyDone _) => False
  | .arrive _ => True
  | .procDone => True
  | .move _ _ => False

/-- A device tries again what it has postponed or parked. -/
def FieldEvent.retry : FieldEvent → Bool
  | .device _ (.selfMsg .cbusymsg _) => true
  | .device _ (.selfMsg .collbusymsg _) => true
  | _ => false

/-- No prover is alone. -/
def Company (site : Site) (range : Rat) (f : Field) : Prop :=
  ∀ u ∈ site.ids, f.inRange site range u ≠ []

instance (site : Site) (range : Rat) (f : Field) : Decidable (Company site range f) :=
  inferInstanceAs (Decidable (∀ u ∈ site.ids, _))

/-- Nothing waits to be transmitted or is under way to the collector. -/
structure AtRest (site : Site) (f : Field) : Prop where
  device : ∀ u ∈ site.ids, (f.device u).AtRest
  collector : f.collector.isProcessing = false
  inFlight : f.inFlight = []

/-- What is still to be done. -/
def work (site : Site) (f : Field) : Nat :=
  (site.ids.map fun u => (f.device u).work).sum + 2 * f.inFlight.length +
    if f.collector.procendmsg then 1 else 0

/-- Every prover lives and has company, and whatever waits has a wake-up. -/
structure Lively (site : Site) (range : Rat) (f : Field) : Prop where
  alive : ∀ u ∈ site.ids, (f.device u).crashed = false
  waits : ∀ u ∈ site.ids, (f.device u).Waits
  stocked : ∀ u ∈ site.ids, (f.device u).Stocked
  locked : Locked f
  company : Company site range f

section
variable {site : Site} {range : Rat} {f f' : Field} {e : FieldEvent} {u : Uid} {d : Device}

theorem company_of_pos (hpos : f'.pos = f.pos) (h : Company site range f) :
    Company site range f' := by
  intro u hu
  unfold inRange
  rw [hpos]
  exact h u hu

/-- Where nobody transmits, nobody finds the channel busy. -/
theorem channelBusy_of_idle (hsite : site.medium = .wireless range)
    (h : ∀ v ∈ site.ids, (f.device v).txrxstat ≠ .TRANSMITING) (u : Uid) :
    (f.surroundings site u).channelBusy = false := by
  have hno : ∀ v ∈ f.inRange site range u, (v != u && (f.device v).isTransmiting) = false := by
    intro v hv
    have hidle : (f.device v).isTransmiting = false :=
      beq_eq_false_iff_ne.mpr (h v (List.mem_of_mem_filter hv))
    rw [hidle, Bool.and_false]
  unfold surroundings channelBusy
  rw [hsite]
  dsimp only
  rw [Bool.or_eq_false_iff]
  refine ⟨by simp, List.any_eq_false.mpr fun v hv => ?_⟩
  rw [hno v hv]
  decide

/-- The reports that a device sends are among its transmissions. -/
theorem length_reportsSent (d d' : Device) :
    (reportsSent d d').length ≤ d'.sent.length - d.sent.length := by
  unfold reportsSent
  rw [← List.length_drop]
  exact List.length_filterMap_le _ _

/-- A broadcast of a prover that is not alone is heard. -/
theorem heard_of_company {e : DeviceEvent} (hsite : site.medium = .wireless range)
    (h : Company site range f) (hu : u ∈ site.ids) :
    Device.Heard (f.surroundings site u, e) (f.device u) := by
  have hyes : (f.surroundings site u).heard = true := by
    unfold surroundings
    rw [hsite]
    dsimp only
    rw [Bool.not_eq_true', List.isEmpty_eq_false_iff]
    exact h u hu
  unfold Device.Heard
  split
  · intro m _ _ _ hno
    cases hyes.symm.trans hno
  · intro m _ _ _ hno
    cases hyes.symm.trans hno
  · trivial

/-! ## An event that is scheduled -/

/-- The work of a field changes with that of one device. -/
theorem work_setDevice (hu : u ∈ site.ids) (d : Device) :
    (f.setDevice site u d).work site + (f.device u).work ≤
      f.work site + d.work + 2 * (d.sent.length - (f.device u).sent.length) := by
  have hsum := Counting.sum_map_of_ne (l := site.ids) (a := u)
    (f := fun v => ((f.setDevice site u d).device v).work) (g := fun v => (f.device v).work)
    List.nodup_range' hu fun v _ hne => by rw [device_setDevice, if_neg hne]
  have hself : ((f.setDevice site u d).device u).work = d.work := by rw [device_setDevice, if_pos rfl]
  have hflight : (f.setDevice site u d).inFlight.length =
      f.inFlight.length + (reportsSent (f.device u) d).length := List.length_append
  have hproc : (f.setDevice site u d).collector.procendmsg = f.collector.procendmsg := by
    unfold setDevice
    dsimp only
    split
    · rfl
    · rfl
  have hsent := length_reportsSent (f.device u) d
  rw [hself] at hsum
  unfold work
  rw [hflight, hproc]
  omega

theorem build_surroundings (hsite : site.medium = .wireless range) :
    (f.surroundings site u).build = .wireless := by
  change site.build = .wireless
  rw [Site.build, hsite]

/-- **No event that is scheduled makes work**, and but for what is tried again each is one piece
less. -/
theorem work_step (hsite : site.medium = .wireless range) (h : Lively site range f)
    (hg : e.Gentle) (hs : step site e f = some f') :
    f'.work site + (if e.retry then 0 else 1) ≤ f.work site := by
  obtain ⟨hok, ht⟩ := step_cases hs
  cases ht with
  | @device u e d hu hd =>
    cases e with
    | handOver => exact hg.elim
    | energyDone => exact hg.elim
    | selfMsg t depleted =>
      obtain rfl : depleted = false := hg
      obtain ⟨-, htakes⟩ := Device.step_cases hd
      cases htakes with
      | dropped _ hno => exact absurd rfl (hno _ _)
      | popped hc => cases (h.alive u hu).symm.trans hc
      | selfMsg hc hdue =>
        have hone := Device.work_onSelfMsg (w := f.surroundings site u) (h.waits u hu)
          (build_surroundings hsite) hdue
        have hfield := work_setDevice (f := f) hu
          (((f.device u).pop t).onSelfMsg (f.surroundings site u) t false)
        have hretry : (if (FieldEvent.device u (.selfMsg t false)).retry then 0 else 1) =
            if t = .txmsg ∨ t = .entxmsg then 1 else 0 := by
          cases t <;> rfl
        rw [hretry]
        omega
  | @arrive m hm =>
    have hflight := List.length_erase_of_mem hm
    have hpos := List.length_pos_of_mem hm
    have hproc : (if (f.collector.handleUpReq m).procendmsg then 1 else 0) ≤ 1 := by split <;> omega
    simp only [work, hflight, FieldEvent.retry, Bool.false_eq_true, if_false]
    omega
  | procDone hp =>
    simp [work, hp, Collector.handleProcDoneMsg, FieldEvent.retry]
  | move => exact hg.elim

/-- What is scheduled leaves a field lively. -/
theorem lively_step (hsite : site.medium = .wireless range) (h : Lively site range f)
    (hg : e.Gentle) (hs : step site e f = some f') : Lively site range f' := by
  have hlocked := locked_step (by rw [Site.build, hsite]) h.locked hs
  obtain ⟨hok, ht⟩ := step_cases hs
  cases ht with
  | @device u e d hu hd =>
    cases e with
    | handOver => exact hg.elim
    | energyDone => exact hg.elim
    | selfMsg t depleted =>
      obtain rfl : depleted = false := hg
      have hcrashed : d.crashed = false := by
        obtain ⟨-, htakes⟩ := Device.step_cases hd
        cases htakes with
        | dropped _ hno => exact absurd rfl (hno _ _)
        | popped hc => exact h.alive u hu
        | selfMsg hc hdue => exact (Device.crashed_onSelfMsg (d := (f.device u).pop t) t).trans hc
      obtain ⟨⟨hs', hr', hp'⟩, hwake⟩ := Device.wakeUp_step
        (i := (f.surroundings site u, .selfMsg t false)) (h.waits u hu) (build_surroundings hsite) hd
        hcrashed
      have hstock := Device.stocked_step (h.waits u hu).sound (h.stocked u hu) hd
      have hall : ∀ {P : Device → Prop}, P d → (∀ v ∈ site.ids, P (f.device v)) →
          ∀ v ∈ site.ids, P ((f.setDevice site u d).device v) := by
        intro P hself hrest v hv
        rw [device_setDevice]
        split
        · exact hself
        · exact hrest v hv
      exact ⟨hall (P := fun d => d.crashed = false) hcrashed h.alive,
        hall ⟨hs', hr', hp', hwake.mpr (heard_of_company hsite h.company hu)⟩ h.waits,
        hall hstock h.stocked, hlocked, h.company⟩
  | arrive => exact ⟨h.alive, h.waits, h.stocked, hlocked, h.company⟩
  | procDone => exact ⟨h.alive, h.waits, h.stocked, hlocked, h.company⟩
  | move => exact hg.elim

/-! ## No state is a dead end -/

/-- A field in which everything is sound takes events. -/
theorem Lively.running (h : Lively site range f) :
    ¬ (f.collector.failed = true ∨ ∃ v ∈ site.ids, (f.device v).fault = true) := by
  rintro (hf | ⟨v, hv, hf⟩)
  · cases h.locked.failed.symm.trans hf
  · cases (h.waits v hv).sound.fault.symm.trans hf

/-- A self message that is due can come. -/
theorem descent_device {t : SelfMsg} (h : Lively site range f) (hu : u ∈ site.ids)
    (hdue : (f.device u).Due t)
    (hlt : (((f.device u).pop t).onSelfMsg (f.surroundings site u) t false).work +
      2 * ((((f.device u).pop t).onSelfMsg (f.surroundings site u) t false).sent.length -
        (f.device u).sent.length) < (f.device u).work) :
    ∃ e f', FieldEvent.Gentle e ∧ step site e f = some f' ∧ f'.work site < f.work site := by
  have hd := Device.step_selfMsg (w := f.surroundings site u) (h.waits u hu).sound.fault
    (h.alive u hu) hdue false
  have hfield := work_setDevice (f := f) hu
    (((f.device u).pop t).onSelfMsg (f.surroundings site u) t false)
  refine ⟨.device u (.selfMsg t false), _, rfl, ?_, Nat.lt_of_add_lt_add_right
    (Nat.lt_of_le_of_lt hfield ?_)⟩
  · unfold step
    rw [if_neg h.running]
    dsimp only
    rw [if_pos hu, hd]
    rfl
  · omega

/-- A busy collector takes the report in flight, or ends its processing. -/
theorem descent_collector (hsite : site.medium = .wireless range) (h : Lively site range f)
    (hp : f.collector.isProcessing = true) :
    ∃ e f', FieldEvent.Gentle e ∧ step site e f = some f' ∧ f'.work site < f.work site := by
  have hone := h.locked.busy.mp (beq_iff_eq.mp hp)
  have hexists : ∃ e f', FieldEvent.Gentle e ∧ e.retry = false ∧ step site e f = some f' := by
    cases hproc : f.collector.procendmsg with
    | true =>
      refine ⟨.procDone, { f with collector := f.collector.handleProcDoneMsg }, trivial, rfl, ?_⟩
      unfold step
      rw [if_neg h.running]
      exact if_pos hproc
    | false =>
      rw [underWay, hproc] at hone
      obtain ⟨m, hm⟩ := List.length_eq_one_iff.mp hone
      refine ⟨.arrive m, { f with
        inFlight := f.inFlight.erase m
        collector := f.collector.handleUpReq m }, trivial, rfl, ?_⟩
      unfold step
      rw [if_neg h.running]
      exact if_pos (by rw [hm]; exact List.mem_singleton_self m)
  obtain ⟨e, f', hg, hretry, hs⟩ := hexists
  have hwork := work_step hsite h hg hs
  rw [hretry] at hwork
  exact ⟨e, f', hg, hs, hwork⟩

/-- **No lively field is a dead end**: where it is not at rest, an event that is scheduled brings it
nearer to rest. -/
theorem exists_descent (hsite : site.medium = .wireless range) (h : Lively site range f)
    (hno : ¬ AtRest site f) :
    ∃ e f', FieldEvent.Gentle e ∧ step site e f = some f' ∧ f'.work site < f.work site := by
  -- first the transmissions end
  by_cases htx : ∃ u ∈ site.ids, (f.device u).txrxstat = .TRANSMITING
  · obtain ⟨u, hu, ht⟩ := htx
    obtain ⟨t, hdue, hlt⟩ := Device.work_lt_transmiting (h.waits u hu) (build_surroundings hsite) ht
    exact descent_device h hu hdue hlt
  have hidle : ∀ v ∈ site.ids, (f.device v).txrxstat ≠ .TRANSMITING := fun v hv he => htx ⟨v, hv, he⟩
  have hfree := channelBusy_of_idle hsite hidle
  -- then the collector is free for what was postponed or parked
  cases hproc : f.collector.isProcessing with
  | true => exact descent_collector hsite h hproc
  | false =>
    have htxrx : ∀ u ∈ site.ids, (f.device u).txrxstat = .DIDLE := fun u hu => by
      cases ht : (f.device u).txrxstat with
      | TRANSMITING => exact absurd ht (hidle u hu)
      | DIDLE => rfl
    by_cases hwait : ∃ u ∈ site.ids, (f.device u).chanstat = .BUSY ∨
        (f.device u).chanstat = .CIDLE ∧ (f.device u).pupmsg ≠ none
    · obtain ⟨u, hu, hwait⟩ := hwait
      obtain ⟨t, hdue, hlt⟩ := Device.work_lt_waiting (h.waits u hu) (h.stocked u hu)
        (build_surroundings hsite) (htxrx u hu) hwait (hfree u) hproc
      exact descent_device h hu hdue hlt
    · -- nothing is left: a queue that is not empty would have a wake-up
      refine absurd ⟨fun u hu => ?_, hproc, ?_⟩ hno
      · have hchan : (f.device u).chanstat = .CIDLE := by
          cases hc : (f.device u).chanstat with
          | BUSY => exact absurd ⟨u, hu, .inl hc⟩ hwait
          | CIDLE => rfl
        have hnone : (f.device u).pupmsg = none := by
          by_contra hp
          exact hwait ⟨u, hu, .inr ⟨hchan, hp⟩⟩
        refine ⟨htxrx u hu, hchan, ?_, hnone⟩
        by_contra hq
        have hsound := (h.waits u hu).sound
        rcases (h.waits u hu).wakeUp hq with ht | hc | ⟨hp, -⟩
        · exact hidle u hu (hsound.transmiting.mpr ht)
        · cases hchan.symm.trans (hsound.postponed hc)
        · exact hp hnone
      · have h0 := h.locked.idle hproc
        unfold underWay at h0
        exact List.length_eq_zero_iff.mp (by omega)

end

end Field

/-- An event of the devices or of the collector in the system. -/
def SystemEvent.ofField : Field.FieldEvent → SystemEvent
  | .device u e => .device u e
  | .arrive m => .arrive m
  | .procDone => .procDone
  | .move u c => .move u c

namespace System

open Fadia.Field (FieldEvent)

section
variable {D : Deployment} {range : Rat} {s s' s₁ : System} {u : Uid} {f f' : Field} {e : FieldEvent}

/-! ## Runs in which no prover is alone -/

/-- The device of a prover that lives waits for something only if there is a wake-up. -/
theorem waits_of_company {pos : Uid → Coord}
    (h : Runs.Reaches (Field.step (D.site range)) (fun _ f => Field.Company (D.site range) range f)
      (Field.init pos) f) (hu : u ∈ D.ids) (hc : (f.device u).crashed = false) :
    (f.device u).Waits ∧ (f.device u).Stocked := by
  have hinit : ∀ v, ((Field.init pos).device v).Waits ∧ ((Field.init pos).device v).Stocked :=
    fun v => ⟨⟨⟨⟨⟨fun h => (by cases h), fun h => (by cases h)⟩, fun h => (by cases h),
      fun h => (by cases h.1)⟩, fun h => (by cases h), fun h => (by cases h), rfl⟩,
      fun h => absurd rfl h, (fun m hm => by cases hm), fun h => absurd rfl h⟩,
      fun h => (by cases h)⟩
  refine h.invariant (I := fun f => ∀ u ∈ D.ids, (f.device u).crashed = false →
    (f.device u).Waits ∧ (f.device u).Stocked) (fun v _ _ => hinit v) ?_ u hu hc
  intro e f f' ih hcompany hs v hv hc'
  obtain ⟨-, ht⟩ := Field.step_cases hs
  cases ht with
  | @device u e d hu hd =>
    rw [Field.device_setDevice] at hc' ⊢
    split
    · next he =>
      subst he
      rw [if_pos rfl] at hc'
      obtain ⟨hwaits, hstock⟩ := ih v hu (Device.alive_of_step hd hc')
      obtain ⟨⟨hs', hr', hp'⟩, hwake⟩ := Device.wakeUp_step
        (i := (f.surroundings (D.site range) v, e)) hwaits rfl hd hc'
      exact ⟨⟨hs', hr', hp', hwake.mpr (Field.heard_of_company rfl hcompany hu)⟩,
        Device.stocked_step hwaits.sound hstock hd⟩
    · next he =>
      rw [if_neg he] at hc'
      exact ih v hv hc'
  | arrive => exact ih v hv hc'
  | procDone => exact ih v hv hc'
  | move => exact ih v hv hc'

/-! ## What is scheduled in the devices and the collector -/

/-- An event of the field is one of the system. -/
theorem step_ofField (hg : e.Gentle) (hrun : s.halted = false)
    (hl : Field.Lively (D.site range) range s.field)
    (hf : Field.step (D.site range) e s.field = some f) :
    ∃ s', step D range (.ofField e) s = some s' ∧ s'.field = f := by
  have hend : ¬ s.Ended D := by
    rintro (h | h | h | h)
    · cases hrun.symm.trans h
    · exact hl.running (.inl h)
    · exact hl.running (.inr h)
    · have hzero : s.crashes D = 0 := List.countP_eq_zero.mpr fun u hu => by
        rw [hl.alive u hu]
        decide
      rw [hzero] at h
      exact absurd h (by decide)
  have hevent : s.fieldEvent D range e = some { s with field := f } := by
    unfold fieldEvent
    rw [hf]
    rfl
  unfold step
  rw [if_neg hend]
  cases e with
  | device u e =>
    cases e with
    | handOver pkt => exact hg.elim
    | energyDone d => exact hg.elim
    | selfMsg t depleted =>
      have hdevice : ∃ s', s.deviceEvent D range u (.selfMsg t depleted) = some s' ∧ s'.field = f := by
        unfold deviceEvent
        rw [show s.fieldEvent D range (.device u (.selfMsg t depleted)) = _ from hevent]
        exact ⟨_, rfl, rfl⟩
      obtain ⟨s', hs', hrest⟩ := hdevice
      exact ⟨s', (if_pos trivial).trans hs', hrest⟩
  | arrive m =>
    refine ⟨{ s with field := f, handled := s.handled ++ [m] }, ?_, rfl⟩
    change (s.fieldEvent D range (.arrive m)).map _ = _
    rw [hevent]
    rfl
  | procDone => exact ⟨_, hevent, rfl⟩
  | move u c => exact hg.elim

/-- It is one of the field only. -/
theorem field_of_gentle (hg : e.Gentle) (hs : step D range (.ofField e) s = some s') :
    Field.step (D.site range) e s.field = some s'.field ∧ s'.halted = s.halted ∧
      s'.prover = s.prover := by
  unfold step at hs
  split at hs
  · cases hs
  cases e with
  | device u e =>
    dsimp only [SystemEvent.ofField] at hs
    split at hs
    · obtain ⟨s₁, hs₁, rfl⟩ := Option.map_eq_some_iff.mp hs
      obtain ⟨f, hf, rfl⟩ := fieldEvent_cases hs₁
      exact ⟨hf, rfl, rfl⟩
    · cases hs
  | arrive m =>
    obtain ⟨s₁, hs₁, rfl⟩ := Option.map_eq_some_iff.mp hs
    obtain ⟨f, hf, rfl⟩ := fieldEvent_cases hs₁
    exact ⟨hf, rfl, rfl⟩
  | procDone =>
    obtain ⟨f, hf, rfl⟩ := fieldEvent_cases hs
    exact ⟨hf, rfl, rfl⟩
  | move u c => exact hg.elim

/-- The system runs and its field is lively. -/
def Lively (D : Deployment) (range : Rat) (s : System) : Prop :=
  s.halted = false ∧ Field.Lively (D.site range) range s.field

/-- One event that is scheduled. -/
theorem lively_step (h : Lively D range s) (hg : e.Gentle)
    (hs : step D range (.ofField e) s = some s') : Lively D range s' ∧ s'.prover = s.prover ∧
      s'.field.work (D.site range) + (if e.retry then 0 else 1) ≤ s.field.work (D.site range) := by
  obtain ⟨hf, hhalt, hprover⟩ := field_of_gentle hg hs
  exact ⟨⟨hhalt.trans h.1, Field.lively_step rfl h.2 hg hf⟩, hprover, Field.work_step rfl h.2 hg hf⟩

/-- Any number of them, in any order. -/
theorem lively_run (events : List FieldEvent) : ∀ s, Lively D range s → (∀ e ∈ events, e.Gentle) →
    Runs.run (step D range) (events.map .ofField) s = some s₁ →
      Lively D range s₁ ∧ s₁.prover = s.prover ∧
        events.countP (!·.retry) + s₁.field.work (D.site range) ≤ s.field.work (D.site range) := by
  induction events with
  | nil =>
    intro s h _ hs
    obtain rfl := Option.some.inj hs
    exact ⟨h, rfl, Nat.le_of_eq (Nat.zero_add _)⟩
  | cons e events ih =>
    intro s h hg hs
    rw [List.map_cons, Runs.run] at hs
    split at hs
    · next s₂ hs₂ =>
      obtain ⟨h₂, hprover, hwork⟩ := lively_step h (hg e List.mem_cons_self) hs₂
      obtain ⟨h₁, hprover₁, hwork₁⟩ := ih s₂ h₂ (fun e he => hg e (List.mem_cons_of_mem _ he)) hs
      refine ⟨h₁, hprover₁.trans hprover, ?_⟩
      have hcount : (e :: events).countP (!·.retry) =
          events.countP (!·.retry) + if e.retry then 0 else 1 := by
        rw [List.countP_cons]
        cases e.retry <;> rfl
      omega
    · cases hs

/-- **The send pipelines come to rest.**  In every run in which no prover is alone, as long as all
provers live: of what is scheduled in the devices and the collector only so many events as there is
work can come in any order, but for those with which a device tries again what it has postponed or
parked; and at any point it can still come in an order after which no device transmits, postpones,
queues or parks anything and the collector is idle. -/
theorem comes_to_rest {pos : Uid → Coord}
    (h : Runs.Reaches (step D range) (fun _ s => Field.Company (D.site range) range s.field)
      (init D pos) s)
    (hcompany : Field.Company (D.site range) range s.field) (hrun : s.halted = false)
    (halive : ∀ u ∈ D.ids, (s.field.device u).crashed = false)
    (events : List FieldEvent) (hgentle : ∀ e ∈ events, e.Gentle)
    (hs : Runs.run (step D range) (events.map .ofField) s = some s₁) :
    events.countP (!·.retry) + s₁.field.work (D.site range) ≤ s.field.work (D.site range) ∧
      ∃ s', Runs.Reaches (step D range) (fun e _ => ∃ fe : FieldEvent, fe.Gentle ∧ e = .ofField fe)
        s₁ s' ∧ s'.prover = s.prover ∧ Field.AtRest (D.site range) s'.field := by
  have hfield := positioned_of_reaches (fun _ _ => Field.company_of_pos) h
  have hlocked : Field.Locked s.field := hfield.invariant
    ⟨⟨fun hp => (by cases hp), fun hp => (by cases hp)⟩, Nat.zero_le _, rfl⟩
    fun _ _ _ ih _ hs => Field.locked_step rfl ih hs
  have hlively : Lively D range s := ⟨hrun, halive,
    fun u hu => (waits_of_company hfield hu (halive u hu)).1,
    fun u hu => (waits_of_company hfield hu (halive u hu)).2, hlocked, hcompany⟩
  obtain ⟨hlively₁, hprover₁, hwork⟩ := lively_run events s hlively hgentle hs
  have hfinal : ∃ s', Runs.Reaches (step D range) (fun e _ => ∃ fe : FieldEvent, fe.Gentle ∧
      e = .ofField fe) s₁ s' ∧ (Lively D range s' ∧ s'.prover = s.prover) ∧
        Field.AtRest (D.site range) s'.field := by
    refine Runs.exists_final (fun s' => s'.field.work (D.site range)) ?_ ⟨hlively₁, hprover₁⟩
    rintro s₂ ⟨hl, hprover⟩ hno
    obtain ⟨e, f, hg, hf, hlt⟩ := Field.exists_descent rfl hl.2 hno
    obtain ⟨s₃, hs₃, rfl⟩ := step_ofField hg hl.1 hl.2 hf
    obtain ⟨hl', hprover', -⟩ := lively_step hl hg hs₃
    exact ⟨_, s₃, ⟨e, hg, rfl⟩, hs₃, ⟨hl', hprover'.trans hprover⟩, hlt⟩
  obtain ⟨s', hs', ⟨-, hprover⟩, hrest⟩ := hfinal
  exact ⟨hwork, s', hs', hprover, hrest⟩

end

/-- In `relayedReport` the answer of prover 2 has been postponed when prover 1 transmits: it tries
in vain before the end of the transmission, then with success. -/
theorem comes_to_rest_relayed : ∃ s s₁ s' : System, (s.field.device 2).msgqueue.length = 1 ∧
    (s₁.field.device 2).sent.length = 1 ∧
    s₁.field.work (rootAndChild.site 50) + 2 ≤ s.field.work (rootAndChild.site 50) ∧
    s'.prover = s.prover ∧ Field.AtRest (rootAndChild.site 50) s'.field := by
  obtain ⟨s, hs, ht⟩ := Runs.exists_of_run (step rootAndChild 50)
    (fun _ s => Field.Company (rootAndChild.site 50) 50 s.field) (relayedReport.take 8)
    (init rootAndChild fun _ => ⟨0, 0, 0⟩)
    (fun s => ((s.field.device 2).msgqueue.length = 1 ∧
      Field.Company (rootAndChild.site 50) 50 s.field ∧ s.halted = false ∧
      ∀ u ∈ rootAndChild.ids, (s.field.device u).crashed = false) ∧
      (Runs.run (step rootAndChild 50) (List.map .ofField
        [.device 2 (.selfMsg .cbusymsg false), .device 1 (.selfMsg .entxmsg false),
          .device 1 (.selfMsg .txmsg false), .device 2 (.selfMsg .cbusymsg false)]) s).any fun s₁ =>
        (s₁.field.device 2).sent.length = 1)
    (by decide +kernel)
  obtain ⟨⟨hq, hcompany, hrun, halive⟩, hany⟩ := of_decide_eq_true ht
  obtain ⟨s₁, hs₁, ht₁⟩ := Runs.exists_of_any hany
  obtain ⟨hwork, s', -, hprover, hrest⟩ := comes_to_rest hs hcompany hrun halive _
    (by simp [FieldEvent.Gentle]) hs₁
  refine ⟨s, s₁, s', hq, of_decide_eq_true ht₁, ?_, hprover, hrest⟩
  rw [Nat.add_comm]
  exact hwork

end System

end Fadia
