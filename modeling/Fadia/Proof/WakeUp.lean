import Fadia.Proof.Channel

/-!
# A waiting message has a wake-up

Each end of a transmission or of a postponement takes one message from `msgqueue`.
`dispatch_awake` says that what becomes of a message leaves another such end, or the retry
of a parked report, to come; only a broadcast that no prover hears is over at once.  So a
queue that is not empty always has a wake-up in the runs in which no such broadcast is taken
from the queue before other messages (`wakeUp_of_heard`), and in `deadAir` it has none.
-/

namespace Fadia

/-- The message is a `CommitReq`. -/
def Packet.IsBroadcast : Packet → Prop
  | .creqmsg | .prover (.commitReq _) => True
  | _ => False

instance : DecidablePred Packet.IsBroadcast
  | .creqmsg => .isTrue trivial
  | .prover (.commitReq _) => .isTrue trivial
  | .prover (.commitResp _) => .isFalse id
  | .prover (.commitAck _) => .isFalse id
  | .prover (.updateReq _) => .isFalse id
  | .collector _ => .isFalse id

namespace Device

/-- An event is to come that takes a message from the queue, or sends a parked report. -/
def Awake (d : Device) : Prop :=
  d.scheduled .txmsg = true ∨ d.scheduled .cbusymsg = true ∨
    d.pupmsg ≠ none ∧ d.scheduled .collbusymsg = true

def HasWakeUp (d : Device) : Prop := d.msgqueue ≠ [] → d.Awake

/-- A parked report will be tried again. -/
def Retried (d : Device) : Prop := d.pupmsg ≠ none → d.scheduled .collbusymsg = true

/-- A broadcast that is taken from the queue on an idle channel is heard, or the last message
there, or a report is parked. -/
def Heard (i : Surroundings × DeviceEvent) (d : Device) : Prop :=
  match i.2 with
  | .selfMsg .txmsg _ | .selfMsg .cbusymsg _ =>
    ∀ m ∈ d.msgqueue.head?, m.pkt.IsBroadcast → i.1.channelBusy = false → i.1.heard = false →
      d.msgqueue.tail ≠ [] → d.pupmsg ≠ none
  | _ => True

instance (i : Surroundings × DeviceEvent) (d : Device) : Decidable (Heard i d) := by
  unfold Heard
  split
  · exact inferInstanceAs (Decidable (∀ m ∈ d.msgqueue.head?, _ → _))
  · exact inferInstanceAs (Decidable (∀ m ∈ d.msgqueue.head?, _ → _))
  · exact .isTrue trivial

section
variable {w : Surroundings} {e : DeviceEvent} {m : Outgoing} {d d' : Device} {route : Route}

/-! ## What is scheduled behind a send function -/

theorem scheduled_scheduleAt (t : SelfMsg) (d : Device) : (d.scheduleAt t).scheduled t = true := by
  unfold scheduleAt
  split
  · next h => exact h
  · exact Function.update_self _ _ _

theorem scheduleAt_keeps {t x : SelfMsg} (h : d.scheduled x = true) :
    (d.scheduleAt t).scheduled x = true := by
  unfold scheduleAt
  split
  · exact h
  · by_cases hx : x = t
    · rw [hx]
      exact Function.update_self _ _ _
    · exact (Function.update_of_ne hx _ _).trans h

theorem scheduled_transmit : (d.transmit w m route).scheduled .txmsg = true := by
  unfold transmit
  dsimp only
  split
  · exact scheduled_scheduleAt _ _
  · exact scheduled_scheduleAt _ _

theorem transmit_keeps {x : SelfMsg} (h : d.scheduled x = true) :
    (d.transmit w m route).scheduled x = true := by
  unfold transmit
  dsimp only
  split
  · exact scheduleAt_keeps (scheduleAt_keeps h)
  · exact scheduleAt_keeps h

theorem postponeUp_parks :
    (d.postponeUp m).pupmsg = some m ∧ (d.postponeUp m).scheduled .collbusymsg = true := by
  unfold postponeUp
  dsimp only
  split
  · next h => exact ⟨rfl, h⟩
  · exact ⟨(scheduleAt_fields .collbusymsg _).2.1, scheduled_scheduleAt _ _⟩

/-- A message for one receiver leaves an event to come. -/
theorem Sent.awake (h : Sent w m route d d') (hf : Flags d) (hr : route ≠ .broadcast) :
    d'.Awake := by
  cases h with
  | queued h =>
    rcases h with h | h
    · exact .inl (hf.transmiting.mp h)
    · exact .inr (.inl (hf.busy h))
  | postponed => exact .inr (.inl (scheduled_scheduleAt _ _))
  | parked =>
    obtain ⟨hp, hs⟩ := postponeUp_parks (m := m) (d := d)
    exact .inr (.inr ⟨by rw [hp]; exact Option.some_ne_none _, hs⟩)
  | unheard _ hb => exact absurd hb hr
  | transmitted => exact .inl scheduled_transmit

theorem Sent.retried (h : Sent w m route d d') (hd : d.Retried) : d'.Retried := by
  intro hp
  cases h with
  | queued => exact hd hp
  | postponed =>
    rw [(scheduleAt_fields .cbusymsg _).2.1] at hp
    exact scheduleAt_keeps (hd hp)
  | parked => exact postponeUp_parks.2
  | unheard => exact hd hp
  | transmitted =>
    rw [(transmit_fields m route d).2.1] at hp
    exact transmit_keeps (hd hp)

theorem retried_dispatch (hd : d.Retried) : (d.dispatch w m).Retried := by
  obtain ⟨m', route, -, ⟨-, -, hs⟩ | ⟨-, -, -, hs⟩⟩ := dispatch_cases (w := w) (m := m) (d := d)
  · exact hs.retried hd
  · exact hs.retried fun h => absurd rfl h

/-- What `handleMessage` does with a message for one receiver. -/
theorem dispatch_unicast (hno : ¬ m.pkt.IsBroadcast) :
    ∃ m', Sent w m' .prover d (d.dispatch w m) ∨
      Sent w m' .collector { d with pupmsg := none } (d.dispatch w m) := by
  have hreport : ∀ r, ∃ m', Sent w m' .prover d (d.dispatchReport w m r) ∨
      Sent w m' .collector { d with pupmsg := none } (d.dispatchReport w m r) := by
    intro r
    unfold dispatchReport
    split
    · split
      · split
        · exact ⟨m, .inl sendProver_cases⟩
        · exact ⟨_, .inr sendCollector_cases⟩
      · exact ⟨m, .inl sendProver_cases⟩
    · exact ⟨m, .inr sendCollector_cases⟩
    · exact ⟨m, .inr sendCollector_cases⟩
  unfold dispatch
  split
  · next h => exact absurd (h ▸ trivial) hno
  · next h => exact absurd (h ▸ trivial) hno
  · exact hreport _
  · exact hreport _
  · exact ⟨m, .inl sendProver_cases⟩
  · exact ⟨m, .inl sendProver_cases⟩

theorem dispatch_broadcast (h : m.pkt.IsBroadcast) :
    d.dispatch w m = d.sendProverBroadcast w m := by
  unfold dispatch
  split <;> simp_all [Packet.IsBroadcast]

/-- **What becomes of a message** leaves an event to come, but for a broadcast that no prover
hears, which changes nothing else. -/
theorem dispatch_awake (hf : Flags d) : (d.dispatch w m).Awake ∨
    (m.pkt.IsBroadcast ∧ w.channelBusy = false ∧ w.heard = false) ∧
      d.dispatch w m = { d with sent := d.sent ++ [(m, .broadcast)] } := by
  by_cases hb : m.pkt.IsBroadcast
  · rw [dispatch_broadcast hb, sendProverBroadcast, whenFree]
    split
    · next h =>
      rcases h with h | h
      · exact .inl (.inl (hf.transmiting.mp h))
      · exact .inl (.inr (.inl (hf.busy h)))
    · split
      · exact .inl (.inr (.inl (scheduled_scheduleAt _ _)))
      · next hchannel =>
        split
        · exact .inl (.inl scheduled_transmit)
        · next hheard =>
          exact .inr ⟨⟨hb, Bool.eq_false_iff.mpr hchannel, Bool.eq_false_iff.mpr hheard⟩, rfl⟩
  · obtain ⟨m', hs | hs⟩ := dispatch_unicast (w := w) (d := d) hb
    · exact .inl (hs.awake hf (by decide))
    · exact .inl (hs.awake ⟨hf.transmiting, hf.busy, hf.exclusive⟩ (by decide))

/-! ## Draining the queue -/

/-- A drain by a device that neither transmits nor waits: there is a wake-up behind it exactly
if no broadcast is lost in front of other messages. -/
theorem drain_hasWakeUp (h : Sound d) (hi : d.txrxstat = .DIDLE) (hc : d.chanstat = .CIDLE)
    (hr : d.Retried) : (d.drain w).HasWakeUp ↔
      ∀ m ∈ d.msgqueue.head?, m.pkt.IsBroadcast → w.channelBusy = false → w.heard = false →
        d.msgqueue.tail ≠ [] → d.pupmsg ≠ none := by
  rcases drain_cases w d with ⟨hnil, he⟩ | ⟨m, rest, hq, he⟩
  · rw [he]
    exact ⟨fun _ m hm => by simp [hnil] at hm, fun _ hne => absurd hnil hne⟩
  · rw [he]
    have hhead : ∀ x, x ∈ d.msgqueue.head? ↔ m = x := by simp [hq]
    rcases dispatch_awake (w := w) (m := m) h.toFlags with hawake | ⟨⟨hb, hfree, hno⟩, hd⟩
    · refine ⟨fun _ x hx hb hfree hno htail hnone => ?_, fun _ _ => hawake⟩
      -- an unheard broadcast would leave the device as it is
      obtain rfl := (hhead x).mp hx
      have hd : d.dispatch w m = { d with sent := d.sent ++ [(m, .broadcast)] } := by
        rw [dispatch_broadcast hb, sendProverBroadcast, whenFree]
        simp [hi, hc, hfree, hno]
      rw [hd] at hawake
      rcases hawake with ht | hcb | ⟨hp, -⟩
      · cases hi.symm.trans (h.transmiting.mpr ht)
      · cases hc.symm.trans (h.postponed hcb)
      · exact hp hnone
    · rw [hd]
      constructor
      · intro hwake x _ _ _ _ htail
        rcases hwake htail with ht | hcb | ⟨hp, -⟩
        · cases hi.symm.trans (h.transmiting.mpr ht)
        · cases hc.symm.trans (h.postponed hcb)
        · exact hp
      · intro hok htail
        have hp := hok m ((hhead m).mpr rfl) hb hfree hno htail
        exact .inr (.inr ⟨hp, hr hp⟩)

theorem retried_drain (hd : d.Retried) : (d.drain w).Retried := by
  rcases drain_cases w d with ⟨-, he⟩ | ⟨m, rest, -, he⟩
  · rwa [he]
  · rw [he]
    exact retried_dispatch (w := w) (m := m) hd

/-- Only its own event takes a self message from the event queue. -/
theorem pop_keeps {t x : SelfMsg} (hx : x ≠ t) : (d.pop t).scheduled x = d.scheduled x :=
  Function.update_of_ne hx _ _

/-! ## Runs -/

theorem alive_of_step (hs : d.step w e = some d') (hc : d'.crashed = false) :
    d.crashed = false := by
  obtain ⟨-, ht⟩ := step_cases hs
  cases ht with
  | dropped => exact hc
  | popped => exact hc
  | handOver halive => exact halive
  | selfMsg halive => exact halive
  | energyDone halive => exact halive

/-- The invariant of a device that lives. -/
structure Waits (d : Device) : Prop where
  sound : Sound d
  retried : d.Retried
  parks : d.ParksReports
  wakeUp : d.HasWakeUp

/-- **Step lemma**: behind an event there is a wake-up exactly if no broadcast is lost in front
of other messages. -/
theorem wakeUp_step {i : Surroundings × DeviceEvent} (h : Waits d) (hw : i.1.build = .wireless)
    (hs : d.stepIn i = some d') (hc' : d'.crashed = false) :
    (Sound d' ∧ d'.Retried ∧ d'.ParksReports) ∧ (d'.HasWakeUp ↔ Heard i d) := by
  obtain ⟨w, e⟩ := i
  have halive : d.crashed = false := alive_of_step hs hc'
  have hsound : Sound d' :=
    sound_step h.sound (fun hc => by cases hc.symm.trans halive) hs
  obtain ⟨-, ht⟩ := step_cases hs
  cases ht with
  | dropped hc => cases hc.symm.trans halive
  | popped hc => cases hc.symm.trans halive
  | @handOver pkt =>
    have hflags : Flags { d with handed := d.handed + 1 } :=
      ⟨h.sound.transmiting, h.sound.busy, h.sound.exclusive⟩
    refine ⟨⟨hsound, retried_dispatch (d := { d with handed := d.handed + 1 }) h.retried,
      parksReports_dispatch (d := { d with handed := d.handed + 1 }) h.parks⟩,
      fun _ => trivial, fun _ => ?_⟩
    rcases dispatch_awake (w := w) (m := ⟨d.handed, pkt⟩) hflags with hawake | ⟨-, he⟩
    · exact fun _ => hawake
    · unfold handOver
      rw [he]
      exact h.wakeUp
  | @selfMsg t depleted _ hdue =>
    cases t with
    | txmsg =>
      have ht : d.txrxstat = .TRANSMITING := h.sound.transmiting.mpr hdue.1
      have hidle : d.chanstat = .CIDLE := by
        cases hc : d.chanstat with
        | BUSY => exact absurd ⟨ht, hc⟩ h.sound.exclusive
        | CIDLE => rfl
      have hretried : Retried { d.pop .txmsg with txrxstat := .DIDLE } := fun hp =>
        (pop_keeps (d := d) (t := .txmsg) (by decide)).trans (h.retried hp)
      exact ⟨⟨hsound, retried_drain hretried, parksReports_drain (d := { d.pop .txmsg with
        txrxstat := .DIDLE }) h.parks⟩, drain_hasWakeUp (sound_txmsg h.sound hdue) rfl hidle hretried⟩
    | cbusymsg =>
      have hb : d.chanstat = .BUSY := h.sound.postponed hdue.1
      have hidle : d.txrxstat = .DIDLE := by
        cases ht : d.txrxstat with
        | TRANSMITING => exact absurd ⟨ht, hb⟩ h.sound.exclusive
        | DIDLE => rfl
      have hretried : Retried { d.pop .cbusymsg with chanstat := .CIDLE } := fun hp =>
        (pop_keeps (d := d) (t := .cbusymsg) (by decide)).trans (h.retried hp)
      exact ⟨⟨hsound, retried_drain hretried, parksReports_drain (d := { d.pop .cbusymsg with
        chanstat := .CIDLE }) h.parks⟩, drain_hasWakeUp (sound_cbusymsg h.sound) hidle rfl hretried⟩
    | entxmsg =>
      have hkeep : ∀ x, x ≠ .entxmsg → (d.pop .entxmsg).scheduled x = d.scheduled x :=
        fun x hx => pop_keeps hx
      refine ⟨⟨hsound, fun hp => (hkeep _ (by decide)).trans (h.retried hp), h.parks⟩,
        fun _ => trivial, fun _ hne => ?_⟩
      rcases h.wakeUp hne with ht | hcb | ⟨hp, hcoll⟩
      · exact .inl ((hkeep _ (by decide)).trans ht)
      · exact .inr (.inl ((hkeep _ (by decide)).trans hcb))
      · exact .inr (.inr ⟨hp, (hkeep _ (by decide)).trans hcoll⟩)
    | collbusymsg =>
      have hkeep : ∀ x, x ≠ .collbusymsg → (d.pop .collbusymsg).scheduled x = d.scheduled x :=
        fun x hx => pop_keeps hx
      cases hp : d.pupmsg with
      | none =>
        have he : (d.pop .collbusymsg).onSelfMsg w .collbusymsg depleted = d.pop .collbusymsg := by
          unfold onSelfMsg handlePostponeUpMsg
          simp [pop, hp]
        rw [he] at hsound ⊢
        refine ⟨⟨hsound, fun hne => absurd hp hne, h.parks⟩, fun _ => trivial, fun _ hne => ?_⟩
        rcases h.wakeUp hne with ht | hcb | ⟨hp', -⟩
        · exact .inl ((hkeep _ (by decide)).trans ht)
        · exact .inr (.inl ((hkeep _ (by decide)).trans hcb))
        · exact absurd hp hp'
      | some m =>
        have he : (d.pop .collbusymsg).onSelfMsg w .collbusymsg depleted =
            (d.pop .collbusymsg).dispatch w m := by
          unfold onSelfMsg handlePostponeUpMsg
          simp [pop, hp, show w.build = .wireless from hw]
        have hflags := (sound_pop (t := .collbusymsg) h.sound (by decide) (by decide)).toFlags
        -- what is parked is a report, so the slot is cleared before it is sent
        obtain ⟨r, hr, -⟩ := h.parks m hp
        have hno : ¬ m.pkt.IsBroadcast := by
          intro hb
          unfold Packet.IsBroadcast at hb
          split at hb <;> simp_all [Packet.report]
        rw [he] at hsound ⊢
        have hretried : ((d.pop .collbusymsg).dispatch w m).Retried := by
          obtain ⟨m', route, -, ⟨-, hnot, -⟩ | ⟨-, -, -, hs⟩⟩ :=
            dispatch_cases (w := w) (m := m) (d := d.pop .collbusymsg)
          · exact absurd (h.parks m hp).toCollector hnot
          · exact hs.retried fun h => absurd rfl h
        refine ⟨⟨hsound, hretried, parksReports_dispatch (d := d.pop .collbusymsg) h.parks⟩,
          fun _ => trivial, fun _ => ?_⟩
        rcases dispatch_awake (w := w) (m := m) hflags with hawake | ⟨⟨hb, -⟩, -⟩
        · exact fun _ => hawake
        · exact absurd hb hno
  | energyDone =>
    exact ⟨⟨hsound, h.retried, h.parks⟩, fun _ => trivial, fun _ => h.wakeUp⟩

/-- **A waiting message has a wake-up** in every run of a device that lives in which no
broadcast is lost in front of other messages; and behind one that is, there is none. -/
theorem wakeUp_of_heard
    (h : Runs.Reaches stepIn (fun i d => i.1.build = .wireless ∧ Heard i d) {} d)
    (hc : d.crashed = false) :
    d.HasWakeUp ∧ ∀ i d', i.1.build = .wireless → d.stepIn i = some d' → d'.crashed = false →
      (d'.HasWakeUp ↔ Heard i d) := by
  have hinit : Waits {} :=
    ⟨⟨⟨by simp, by simp, by simp⟩, by simp, by simp, rfl⟩, fun h => absurd rfl h,
      (fun m hm => by cases hm), fun h => absurd rfl h⟩
  have hinv := h.invariant (I := fun d => d.crashed = false → Waits d) (fun _ => hinit) ?_ hc
  · exact ⟨hinv.wakeUp, fun i d' hw hs hc' => (wakeUp_step hinv hw hs hc').2⟩
  · rintro i d d' ih ⟨hw, hok⟩ hs hc'
    obtain ⟨⟨hsound, hretried, hparks⟩, hiff⟩ := wakeUp_step (ih (alive_of_step hs hc')) hw hs hc'
    exact ⟨hsound, hretried, hparks, hiff.mpr hok⟩

end

/-- A `CommitReq` and then an ack wait for a busy channel; when it is idle again, no prover is
in range. -/
def deadAir : List (Surroundings × DeviceEvent) :=
  [(⟨.wireless, true, false, fun _ => true, true⟩, .handOver .creqmsg),
    (⟨.wireless, true, false, fun _ => true, true⟩, .handOver (.prover (.commitAck ⟨1, 2, 7, 0, 5⟩))),
    (⟨.wireless, false, false, fun _ => false, false⟩, .selfMsg .cbusymsg false)]

/-- At the end of `deadAir` the ack waits for nothing. -/
theorem deadAir_sleeps : ¬ ∀ d : Device,
    Runs.Reaches stepIn (fun i _ => i.1.build = .wireless) {} d → d.crashed = false →
      d.HasWakeUp := by
  intro h
  obtain ⟨d, hr, ht⟩ := Runs.exists_of_run stepIn (fun i _ => i.1.build = .wireless) deadAir {}
    (fun d => d.crashed = false ∧ d.msgqueue ≠ [] ∧ d.scheduled .txmsg = false ∧
      d.scheduled .cbusymsg = false ∧ d.pupmsg = none) (by decide +kernel)
  obtain ⟨hc, hne, htx, hcb, hp⟩ := of_decide_eq_true ht
  rcases h d hr hc hne with h | h | ⟨h, -⟩
  · cases htx.symm.trans h
  · cases hcb.symm.trans h
  · exact h hp

/-- Before that `cbusymsg` is scheduled. -/
theorem wakeUp_of_heard_queued : ∃ d : Device, d.msgqueue.length = 2 ∧ d.HasWakeUp := by
  obtain ⟨d, hr, ht⟩ := Runs.exists_of_run stepIn
    (fun i d => i.1.build = .wireless ∧ Heard i d) (deadAir.take 2) {}
    (fun d => d.msgqueue.length = 2 ∧ d.crashed = false) (by decide +kernel)
  obtain ⟨hlen, hc⟩ := of_decide_eq_true ht
  exact ⟨d, hlen, (wakeUp_of_heard hr hc).1⟩

end Device

end Fadia
