import Fadia.Proof.Pipeline
import Fadia.Devices.Field

/-!
# The channel

`Flags` ties `txrxstat` and `chanstat` to the scheduled self messages.  Each event
keeps it (`flags_step`), but for the end of a transmission or of a postponement at a
crashed prover, which drops it: so a prover that crashed lets go of the channel
(`channel_released`) in the runs without such an event, and in `deadTransmitter` it
does not.  A transmission begins on an idle channel only (`transmits_cases`), which
gives mutual exclusion (`mutual_exclusion`).
-/

namespace Fadia

namespace Device

/-! ## The flags of a device -/

/-- The flags and the self messages that will reset them. -/
structure Flags (d : Device) : Prop where
  transmiting : d.txrxstat = .TRANSMITING ↔ d.scheduled .txmsg = true
  busy : d.chanstat = .BUSY → d.scheduled .cbusymsg = true
  exclusive : ¬ (d.txrxstat = .TRANSMITING ∧ d.chanstat = .BUSY)

/-- With it, what keeps a device from scheduling a message twice. -/
structure Sound (d : Device) : Prop extends Flags d where
  postponed : d.scheduled .cbusymsg = true → d.chanstat = .BUSY
  energy : d.scheduled .entxmsg = true → d.scheduled .txmsg = true
  fault : d.fault = false

/-- No transmission and no postponement ends at a crashed device. -/
def EndsHeard (e : DeviceEvent) (d : Device) : Prop :=
  d.crashed = true → ∀ depleted, e ≠ .selfMsg .txmsg depleted ∧ e ≠ .selfMsg .cbusymsg depleted

section
variable {w : Surroundings} {e : DeviceEvent} {m : Outgoing} {d d' : Device} {route : Route}

theorem scheduleAt_of_idle {t : SelfMsg} (h : d.scheduled t = false) :
    d.scheduleAt t = { d with scheduled := Function.update d.scheduled t true } := by
  rw [scheduleAt, if_neg (by rw [h]; decide)]

theorem Sound.transmit (h : Sound d) (hi : ¬ (d.txrxstat = .TRANSMITING ∨ d.chanstat = .BUSY)) :
    Sound (d.transmit w m route) := by
  obtain ⟨ht, hb⟩ := not_or.mp hi
  have htx : d.scheduled .txmsg = false := Bool.eq_false_iff.mpr fun he => ht (h.transmiting.mpr he)
  have hen : d.scheduled .entxmsg = false := by
    cases he : d.scheduled .entxmsg with
    | false => rfl
    | true => cases htx.symm.trans (h.energy he)
  have hcb : d.scheduled .cbusymsg = false := Bool.eq_false_iff.mpr fun he => hb (h.postponed he)
  have hchan : d.chanstat = .CIDLE := by
    cases hc : d.chanstat with
    | BUSY => exact absurd hc hb
    | CIDLE => rfl
  unfold Device.transmit
  dsimp only
  split
  · rw [scheduleAt_of_idle (t := .entxmsg) (by exact hen),
      scheduleAt_of_idle (by simpa using htx)]
    exact ⟨⟨by simp, by simp [hchan], by simp [hchan]⟩, by simp [hcb], by simp, h.fault⟩
  · rw [scheduleAt_of_idle (by exact htx)]
    exact ⟨⟨by simp, by simp [hchan], by simp [hchan]⟩, by simp [hcb], by simp, h.fault⟩

theorem Sent.sound (hs : Sent w m route d d') (h : Sound d) : Sound d' := by
  cases hs with
  | queued => exact ⟨⟨h.transmiting, h.busy, h.exclusive⟩, h.postponed, h.energy, h.fault⟩
  | postponed hi =>
    obtain ⟨ht, hb⟩ := not_or.mp hi
    have hcb : d.scheduled .cbusymsg = false := Bool.eq_false_iff.mpr fun he => hb (h.postponed he)
    rw [scheduleAt_of_idle (by exact hcb)]
    refine ⟨⟨?_, by simp [push], fun hboth => ht hboth.1⟩, by simp [push], ?_, h.fault⟩
    · simpa [push] using h.transmiting
    · simpa [push] using h.energy
  | parked hi =>
    unfold postponeUp
    dsimp only
    split
    · exact ⟨⟨h.transmiting, h.busy, h.exclusive⟩, h.postponed, h.energy, h.fault⟩
    next hno =>
    rw [scheduleAt_of_idle (by simpa using hno)]
    refine ⟨⟨?_, ?_, h.exclusive⟩, ?_, ?_, h.fault⟩
    · simpa using h.transmiting
    · simpa using h.busy
    · simpa using h.postponed
    · simpa using h.energy
  | unheard => exact ⟨⟨h.transmiting, h.busy, h.exclusive⟩, h.postponed, h.energy, h.fault⟩
  | transmitted hi => exact h.transmit hi

theorem sound_dispatch (h : Sound d) : Sound (d.dispatch w m) := by
  obtain ⟨m', route, -, ⟨-, -, hs⟩ | ⟨-, -, -, hs⟩⟩ := dispatch_cases (w := w) (m := m) (d := d)
  · exact hs.sound h
  · exact hs.sound ⟨⟨h.transmiting, h.busy, h.exclusive⟩, h.postponed, h.energy, h.fault⟩

theorem sound_drain (h : Sound d) : Sound (d.drain w) := by
  rcases drain_cases w d with ⟨-, he⟩ | ⟨m, rest, -, he⟩
  · rwa [he]
  · rw [he]
    have hd := sound_dispatch (w := w) (m := m) h
    exact ⟨⟨hd.transmiting, hd.busy, hd.exclusive⟩, hd.postponed, hd.energy, hd.fault⟩

/-- The end of a transmission lets go of the channel. -/
theorem sound_txmsg (h : Sound d) (hdue : d.Due .txmsg) :
    Sound { d.pop .txmsg with txrxstat := .DIDLE } := by
  have hen : d.scheduled .entxmsg = false := hdue.2 rfl
  refine ⟨⟨by simp [pop], ?_, by simp⟩, ?_, by simp [pop, hen], h.fault⟩
  · simpa [pop] using h.busy
  · simpa [pop] using h.postponed

theorem sound_cbusymsg (h : Sound d) : Sound { d.pop .cbusymsg with chanstat := .CIDLE } := by
  refine ⟨⟨?_, by simp, by simp⟩, by simp [pop], ?_, h.fault⟩
  · simpa [pop] using h.transmiting
  · simpa [pop] using h.energy

/-- The other self messages leave the flags alone. -/
theorem sound_pop {t : SelfMsg} (h : Sound d) (htx : t ≠ .txmsg) (hcb : t ≠ .cbusymsg) :
    Sound (d.pop t) := by
  have hsame : ∀ x, x ≠ t → (d.pop t).scheduled x = d.scheduled x := fun x hx =>
    Function.update_of_ne hx _ _
  refine ⟨⟨?_, ?_, h.exclusive⟩, ?_, ?_, h.fault⟩
  · rw [hsame _ htx.symm]
    exact h.transmiting
  · rw [hsame _ hcb.symm]
    exact h.busy
  · rw [hsame _ hcb.symm]
    exact h.postponed
  · rw [hsame _ htx.symm]
    by_cases hen : SelfMsg.entxmsg = t
    · rw [← hen]
      simp [pop]
    · rw [hsame _ hen]
      exact h.energy

theorem sound_onSelfMsg {t : SelfMsg} {depleted : Bool} (h : Sound d) (hdue : d.Due t) :
    Sound ((d.pop t).onSelfMsg w t depleted) := by
  cases t with
  | txmsg => exact sound_drain (sound_txmsg h hdue)
  | cbusymsg => exact sound_drain (sound_cbusymsg h)
  | entxmsg =>
    have hp := sound_pop (t := .entxmsg) h (by decide) (by decide)
    exact ⟨⟨hp.transmiting, hp.busy, hp.exclusive⟩, hp.postponed, hp.energy, hp.fault⟩
  | collbusymsg =>
    have hp := sound_pop (t := .collbusymsg) h (by decide) (by decide)
    unfold onSelfMsg handlePostponeUpMsg
    dsimp only
    split
    · exact sound_dispatch hp
    · exact hp

/-- **Step lemma** for the flags. -/
theorem sound_step (h : Sound d) (hok : EndsHeard e d) (hs : d.step w e = some d') : Sound d' := by
  obtain ⟨-, ht⟩ := step_cases hs
  cases ht with
  | dropped => exact h
  | popped hc =>
    exact sound_pop h (fun he => (hok hc _).1 (by rw [he])) fun he => (hok hc _).2 (by rw [he])
  | handOver =>
    exact sound_dispatch (d := { d with handed := d.handed + 1 })
      ⟨⟨h.transmiting, h.busy, h.exclusive⟩, h.postponed, h.energy, h.fault⟩
  | selfMsg _ hdue => exact sound_onSelfMsg h hdue
  | energyDone => exact ⟨⟨h.transmiting, h.busy, h.exclusive⟩, h.postponed, h.energy, h.fault⟩

/-- At a crashed device the end of a transmission or of a postponement breaks the flags. -/
theorem flags_lost (h : Sound d) (hno : ¬ EndsHeard e d) (hs : d.step w e = some d') :
    ¬ Flags d' := by
  obtain ⟨hc, hends⟩ := Classical.not_imp.mp hno
  obtain ⟨depleted, hend⟩ := not_forall.mp hends
  intro h'
  obtain ⟨-, ht⟩ := step_cases hs
  have hev : e = .selfMsg .txmsg depleted ∨ e = .selfMsg .cbusymsg depleted := by
    by_contra hne
    exact hend (not_or.mp hne)
  rcases hev with rfl | rfl
  · cases ht with
    | dropped _ hself => exact hself _ _ rfl
    | popped hc hdue =>
      have := h'.transmiting.mp (h.transmiting.mpr hdue.1)
      simp [pop] at this
    | selfMsg hf => cases hc.symm.trans hf
  · cases ht with
    | dropped _ hself => exact hself _ _ rfl
    | popped hc hdue =>
      have := h'.busy (h.postponed hdue.1)
      simp [pop] at this
    | selfMsg hf => cases hc.symm.trans hf

/-! ## When a transmission begins -/

theorem scheduleAt_txrxstat (t : SelfMsg) (d : Device) :
    (d.scheduleAt t).txrxstat = d.txrxstat := by
  unfold scheduleAt
  split <;> rfl

theorem Sent.transmits (hs : Sent w m route d d') :
    d'.txrxstat = d.txrxstat ∨ w.channelBusy = false := by
  cases hs with
  | queued => exact .inl rfl
  | postponed => exact .inl (scheduleAt_txrxstat _ _)
  | parked =>
    unfold postponeUp
    dsimp only
    split
    · exact .inl rfl
    · exact .inl (scheduleAt_txrxstat _ _)
  | unheard => exact .inl rfl
  | transmitted _ hb => exact .inr hb

theorem transmits_dispatch :
    (d.dispatch w m).txrxstat = d.txrxstat ∨ w.channelBusy = false := by
  obtain ⟨m', route, -, ⟨-, -, hs⟩ | ⟨-, -, -, hs⟩⟩ := dispatch_cases (w := w) (m := m) (d := d)
  · exact hs.transmits
  · exact hs.transmits

theorem transmits_drain : (d.drain w).txrxstat = d.txrxstat ∨ w.channelBusy = false := by
  rcases drain_cases w d with ⟨-, he⟩ | ⟨m, rest, -, he⟩
  · exact .inl (by rw [he])
  · rw [he]
    exact transmits_dispatch

theorem transmits_handlePostponeUpMsg :
    (d.handlePostponeUpMsg w).txrxstat = d.txrxstat ∨ w.channelBusy = false := by
  unfold handlePostponeUpMsg
  split
  · exact transmits_dispatch
  · exact .inl rfl

/-- **A device begins to transmit on an idle channel only**, whatever makes it. -/
theorem transmits_cases (hs : d.step w e = some d') (ht : d'.txrxstat = .TRANSMITING) :
    d.txrxstat = .TRANSMITING ∨ w.channelBusy = false := by
  have hkeep : ∀ d₀ : Device, d'.txrxstat = d₀.txrxstat ∨ w.channelBusy = false →
      (d₀.txrxstat = .TRANSMITING → d.txrxstat = .TRANSMITING) →
        d.txrxstat = .TRANSMITING ∨ w.channelBusy = false := by
    rintro d₀ (he | hb) h₀
    · exact .inl (h₀ (he.symm.trans ht))
    · exact .inr hb
  obtain ⟨-, hcase⟩ := step_cases hs
  cases hcase with
  | dropped => exact .inl ht
  | popped => exact .inl ht
  | handOver => exact hkeep { d with handed := d.handed + 1 } transmits_dispatch id
  | @selfMsg t depleted =>
    cases t with
    | txmsg =>
      exact hkeep { d.pop .txmsg with txrxstat := .DIDLE } transmits_drain fun h => by cases h
    | cbusymsg => exact hkeep { d.pop .cbusymsg with chanstat := .CIDLE } transmits_drain id
    | entxmsg => exact .inl ht
    | collbusymsg => exact hkeep (d.pop .collbusymsg) transmits_handlePostponeUpMsg id
  | energyDone => exact .inl ht

end

end Device

/-! ## Events of a field -/

namespace Field

/-- What an event can do. -/
inductive Takes (site : Site) (f : Field) : FieldEvent → Field → Prop
  | device {u : Uid} {e : DeviceEvent} {d : Device} (hu : u ∈ site.ids)
      (hs : (f.device u).step (f.surroundings site u) e = some d) :
      Takes site f (.device u e) (f.setDevice site u d)
  | arrive {m : UpdateReq} (hm : m ∈ f.inFlight) : Takes site f (.arrive m)
      { f with inFlight := f.inFlight.erase m, collector := f.collector.handleUpReq m }
  | procDone (hp : f.collector.procendmsg = true) : Takes site f .procDone
      { f with collector := f.collector.handleProcDoneMsg }
  | move {u : Uid} {c : Coord} : Takes site f (.move u c)
      { f with pos := Function.update f.pos u c }

section
variable {site : Site} {f f' : Field} {e : FieldEvent} {u v : Uid} {d : Device}

theorem step_cases (h : step site e f = some f') :
    f.collector.failed = false ∧ Takes site f e f' := by
  unfold step at h
  split at h
  · cases h
  next hf =>
  refine ⟨Bool.eq_false_iff.mpr fun he => hf (.inl he), ?_⟩
  cases e with
  | device u e =>
    dsimp only at h
    split at h
    · next hu =>
      obtain ⟨d, hs, rfl⟩ := Option.map_eq_some_iff.mp h
      exact .device hu hs
    · cases h
  | arrive m =>
    dsimp only at h
    split at h
    · next hm =>
      obtain rfl := Option.some.inj h
      exact .arrive hm
    · cases h
  | procDone =>
    dsimp only at h
    split at h
    · next hp =>
      obtain rfl := Option.some.inj h
      exact .procDone hp
    · cases h
  | move u c =>
    obtain rfl := Option.some.inj h
    exact .move

theorem device_setDevice : (f.setDevice site u d).device v = if v = u then d else f.device v := by
  unfold setDevice
  exact Function.update_apply _ _ _ _

/-- What a step of any device keeps, all devices keep. -/
theorem Takes.devices {P : Device → Prop} (ht : Takes site f e f') (h : ∀ v, P (f.device v))
    (hstep : ∀ u e' d, e = .device u e' → u ∈ site.ids →
      (f.device u).step (f.surroundings site u) e' = some d → P d) (v : Uid) : P (f'.device v) := by
  cases ht with
  | device hu hs =>
    rw [device_setDevice]
    split
    · exact hstep _ _ _ rfl hu hs
    · exact h v
  | arrive => exact h v
  | procDone => exact h v
  | move => exact h v

/-! ## A crashed prover lets go of the channel -/

/-- No transmission and no postponement ends at a crashed prover. -/
def EndsHeard (e : FieldEvent) (f : Field) : Prop :=
  ∀ u e', e = .device u e' → (f.device u).EndsHeard e'

theorem sound_of_reaches {pos : Uid → Coord}
    (h : Runs.Reaches (step site) EndsHeard (init pos) f) (v : Uid) : (f.device v).Sound := by
  have hinit : ∀ v, ((init pos).device v).Sound := fun v =>
    ⟨⟨⟨fun h => (by cases h), fun h => (by cases h)⟩, fun h => (by cases h), fun h => (by cases h.1)⟩,
      fun h => (by cases h), fun h => (by cases h), rfl⟩
  refine h.invariant (I := fun f => ∀ v, (f.device v).Sound) hinit (fun e f f' ih hok hs => ?_) v
  obtain ⟨-, ht⟩ := step_cases hs
  exact ht.devices ih fun u e' d he _ hd => Device.sound_step (ih u) (hok u e' he) hd

/-- Prover `v` has no part in what the others find on the channel. -/
def Silent (site : Site) (f : Field) (v : Uid) : Prop :=
  ∀ u, f.isChannelBusy site u =
    f.channelBusy site (fun x => x != v && (f.device x).isTransmiting) u

theorem silent_of_idle (h : (f.device v).txrxstat ≠ .TRANSMITING) : Silent site f v := by
  intro u
  have hsame : (fun x => (f.device x).isTransmiting) =
      fun x => x != v && (f.device x).isTransmiting := by
    funext x
    by_cases hx : x = v
    · rw [hx]
      simp [Device.isTransmiting, h]
    · simp [hx]
  rw [isChannelBusy, ← hsame]

/-- **No prover keeps the channel after its transmission**, crashed or not, in every run
in which no transmission and no postponement ends at a crashed prover; the flags outlast
no event that does so. -/
theorem channel_released {pos : Uid → Coord}
    (h : Runs.Reaches (step site) EndsHeard (init pos) f) :
    (∀ v, (f.device v).Flags ∧ ((f.device v).scheduled .txmsg = false → Silent site f v)) ∧
      ∀ e f', step site e f = some f' → ((∀ v, (f'.device v).Flags) ↔ EndsHeard e f) := by
  refine ⟨fun v => ?_, fun e f' hs => ⟨fun hflags u e' he => ?_, fun hok v => ?_⟩⟩
  · have hsound := sound_of_reaches h v
    refine ⟨hsound.toFlags, fun hno => silent_of_idle fun ht => ?_⟩
    rw [hsound.transmiting.mp ht] at hno
    cases hno
  · by_contra hlost
    obtain ⟨-, ht⟩ := step_cases hs
    subst he
    cases ht with
    | @device _ _ d hu hd =>
      have hv := hflags u
      rw [device_setDevice, if_pos rfl] at hv
      exact Device.flags_lost (sound_of_reaches h u) hlost hd hv
  · exact (sound_of_reaches (h.tail hok hs) v).toFlags

end

/-- Two provers side by side. -/
def pair : Site := ⟨2, .wireless 100⟩

/-- Prover 1 broadcasts, its battery is empty before the transmission ends. -/
def deadTransmitter (depleted : Bool) : List FieldEvent :=
  [.device 1 (.handOver .creqmsg), .device 1 (.selfMsg .entxmsg depleted),
    .device 1 (.selfMsg .txmsg false)]

/-- In `deadTransmitter` the crashed prover stays `TRANSMITING`, and the channel busy. -/
theorem deadTransmitter_keeps :
    ¬ ∀ (site : Site) (pos : Uid → Coord) (f : Field), site.build = .wireless →
      Runs.Reaches (step site) (fun _ _ => True) (init pos) f → ∀ v,
        (f.device v).Flags ∧ ((f.device v).scheduled .txmsg = false → Silent site f v) := by
  intro h
  obtain ⟨f, hr, ht⟩ := Runs.exists_of_run (step pair) (fun _ _ => True) (deadTransmitter true)
    (init fun _ => ⟨0, 0, 0⟩) (fun f => (f.device 1).txrxstat = .TRANSMITING ∧
      (f.device 1).scheduled .txmsg = false) (by decide +kernel)
  obtain ⟨hon, hno⟩ := of_decide_eq_true ht
  have hpending := (h pair _ f rfl hr 1).1.transmiting.mp hon
  rw [hno] at hpending
  cases hpending

/-- With some charge left the transmission ends, and prover 1 is silent. -/
theorem channel_released_pair : ∃ f : Field, (f.device 1).sent.length = 1 ∧ Silent pair f 1 := by
  obtain ⟨f, hr, ht⟩ := Runs.exists_of_run (step pair)
    (fun e f => e ∈ deadTransmitter false ∧ (f.device 1).crashed = false) (deadTransmitter false)
    (init fun _ => ⟨0, 0, 0⟩) (fun f => (f.device 1).sent.length = 1 ∧
      (f.device 1).scheduled .txmsg = false) (by decide +kernel)
  obtain ⟨hsent, hno⟩ := of_decide_eq_true ht
  have hheard : Runs.Reaches (step pair) EndsHeard (init fun _ => ⟨0, 0, 0⟩) f := by
    refine hr.weaken fun e f ⟨hmem, hc⟩ u e' he hcrashed => ?_
    have hu : u = 1 := by
      simp only [deadTransmitter, List.mem_cons, List.not_mem_nil, or_false, he,
        FieldEvent.device.injEq] at hmem
      rcases hmem with ⟨rfl, -⟩ | ⟨rfl, -⟩ | ⟨rfl, -⟩ <;> rfl
    rw [hu, hc] at hcrashed
    cases hcrashed
  exact ⟨f, hsent, ((channel_released hheard).1 1).2 hno⟩

end Field

end Fadia
