import Fadia.Proof.CollectorTotal

/-!
# What a crash at the end of a transmission does to the others

The end of a transmission takes two events: `entxmsg`, where the battery may be found empty, and
`txmsg`, which resets `txrxstat`.  A device that crashes at the first drops the second, so it stays
`TRANSMITING` (`jammed_step`) and every prover within range finds the channel busy whenever it asks
(`channelBusy_of_jammed`).

So these provers transmit nothing any more, in any run (`silenced`), and where they are all
provers the collector gets no more than what is in flight.
-/

namespace Fadia

namespace Device

section
variable {w : Surroundings} {m : Outgoing} {d d' : Device} {e : DeviceEvent}

/-! ## A device on a busy channel -/

theorem quiet_whenFree (hb : w.channelBusy = true) (transmit : Device → Device) :
    (d.whenFree w m transmit).sent = d.sent := by
  unfold whenFree
  rw [if_pos hb]
  split
  · rfl
  · exact (scheduleAt_fields .cbusymsg _).2.2.1

theorem quiet_dispatch (hb : w.channelBusy = true) : (d.dispatch w m).sent = d.sent := by
  have hreport : ∀ r, (d.dispatchReport w m r).sent = d.sent := by
    intro r
    unfold dispatchReport
    split
    · split
      · split
        · exact quiet_whenFree hb _
        · exact quiet_whenFree (d := { d with pupmsg := none }) hb _
      · exact quiet_whenFree hb _
    · exact quiet_whenFree (d := { d with pupmsg := none }) hb _
    · exact quiet_whenFree (d := { d with pupmsg := none }) hb _
  unfold dispatch
  split
  · exact quiet_whenFree hb _
  · exact quiet_whenFree hb _
  · exact hreport _
  · exact hreport _
  · exact quiet_whenFree hb _
  · exact quiet_whenFree hb _

theorem quiet_drain (hb : w.channelBusy = true) : (d.drain w).sent = d.sent := by
  rcases drain_cases w d with ⟨-, he⟩ | ⟨m, rest, -, he⟩
  · rw [he]
  · rw [he]
    exact quiet_dispatch hb

/-- **A device that finds the channel busy transmits nothing.** -/
theorem quiet_step (hb : w.channelBusy = true) (hs : d.step w e = some d') : d'.sent = d.sent := by
  obtain ⟨-, ht⟩ := step_cases hs
  cases ht with
  | dropped => rfl
  | popped => rfl
  | @handOver pkt => exact quiet_dispatch (d := { d with handed := d.handed + 1 }) hb
  | energyDone => rfl
  | @selfMsg t depleted =>
    cases t with
    | txmsg => exact quiet_drain (d := { d.pop .txmsg with txrxstat := .DIDLE }) hb
    | entxmsg => rfl
    | cbusymsg => exact quiet_drain (d := { d.pop .cbusymsg with chanstat := .CIDLE }) hb
    | collbusymsg =>
      unfold onSelfMsg handlePostponeUpMsg
      dsimp only
      split
      · exact quiet_dispatch (d := d.pop .collbusymsg) hb
      · rfl

/-! ## A device that crashes while it transmits -/

/-- The device crashed in the middle of a transmission. -/
def Jammed (d : Device) : Prop := d.crashed = true ∧ d.txrxstat = .TRANSMITING

theorem jammed_step (h : Jammed d) (hs : d.step w e = some d') :
    Jammed d' ∧ d'.sent = d.sent := by
  obtain ⟨-, ht⟩ := step_cases hs
  cases ht with
  | dropped => exact ⟨h, rfl⟩
  | popped => exact ⟨h, rfl⟩
  | handOver hc => cases h.1.symm.trans hc
  | selfMsg hc => cases h.1.symm.trans hc
  | energyDone hc => cases h.1.symm.trans hc

/-- A device that lives has its flags in order. -/
theorem sound_of_alive (h : d.crashed = false → Sound d) (hs : d.step w e = some d')
    (hc : d'.crashed = false) : Sound d' := by
  have halive := alive_of_step hs hc
  refine sound_step (h halive) (fun hdead => ?_) hs
  cases halive.symm.trans hdead

/-- A battery that is found empty behind a transmission leaves the device transmitting. -/
theorem jammed_of_depleted (h : Sound d) (hc : d.crashed = false)
    (hs : d.step w (.selfMsg .entxmsg true) = some d') : Jammed d' := by
  obtain ⟨-, ht⟩ := step_cases hs
  cases ht with
  | dropped hdead => cases hc.symm.trans hdead
  | popped hdead => cases hc.symm.trans hdead
  | selfMsg _ hdue => exact ⟨by simp [onSelfMsg, handleDoneEnMsg], h.transmiting.mpr (h.energy hdue.1)⟩

end

end Device

namespace Field

section
variable {range : Rat} {site : Site} {f f' : Field} {e : FieldEvent} {u v : Uid}

theorem sound_of_alive {pos : Uid → Coord}
    (h : Runs.Reaches (step site) (fun _ _ => True) (init pos) f) (v : Uid)
    (hc : (f.device v).crashed = false) : (f.device v).Sound := by
  have hinit : ∀ v, ((init pos).device v).crashed = false → ((init pos).device v).Sound := fun v _ =>
    ⟨⟨⟨fun h => (by cases h), fun h => (by cases h)⟩, fun h => (by cases h), fun h => (by cases h.1)⟩,
      fun h => (by cases h), fun h => (by cases h), rfl⟩
  refine h.invariant (I := fun f => ∀ v, (f.device v).crashed = false → (f.device v).Sound) hinit
    (fun e f f' ih _ hs => ?_) v hc
  obtain ⟨-, ht⟩ := step_cases hs
  exact ht.devices ih fun u e' d _ _ hd => Device.sound_of_alive (ih u) hd

/-- Provers hear a prover that is jammed within their range. -/
theorem channelBusy_of_jammed (hu : u ∈ site.ids) (hne : u ≠ v) (hsite : site.medium = .wireless range)
    (hnear : (f.pos v).sqrdist (f.pos u) ≤ range * range) (h : (f.device u).Jammed) :
    (f.surroundings site v).channelBusy = true := by
  unfold surroundings channelBusy
  rw [hsite]
  dsimp only
  rw [Bool.or_eq_true, List.any_eq_true]
  refine .inr ⟨u, List.mem_filter.mpr ⟨hu, decide_eq_true ⟨hne, hnear⟩⟩, ?_⟩
  simp [hne, Device.isTransmiting, h.2]

/-- The provers of `near` are others than `u` and within range of it. -/
def Surround (range : Rat) (near : Uid → Prop) (u : Uid) (f : Field) : Prop :=
  ∀ v, near v → v ≠ u ∧ (f.pos v).sqrdist (f.pos u) ≤ range * range

/-- One event: the prover stays jammed, those near it and it itself transmit nothing. -/
theorem mutes_step {near : Uid → Prop} (hsite : site.medium = .wireless range) (hu : u ∈ site.ids)
    (h : (f.device u).Jammed) (hnear : Surround range near u f) (hs : step site e f = some f') :
    (f'.device u).Jammed ∧ ∀ v, v = u ∨ near v → (f'.device v).sent = (f.device v).sent := by
  obtain ⟨-, ht⟩ := step_cases hs
  cases ht with
  | @device x e' d hx hd =>
    have hself : x = u → d.Jammed ∧ d.sent = (f.device x).sent := by
      rintro rfl
      exact Device.jammed_step h hd
    refine ⟨?_, fun v hv => ?_⟩
    · rw [device_setDevice]
      split
      · next he => exact (hself he.symm).1
      · exact h
    · rw [device_setDevice]
      split
      · next he =>
        subst he
        rcases hv with rfl | hv
        · exact (hself rfl).2
        · obtain ⟨hne, hclose⟩ := hnear v hv
          exact Device.quiet_step (channelBusy_of_jammed hu hne.symm hsite hclose h) hd
      · rfl
  | arrive => exact ⟨h, fun _ _ => rfl⟩
  | procDone => exact ⟨h, fun _ _ => rfl⟩
  | move => exact ⟨h, fun _ _ => rfl⟩

/-- What the collector has counted and what it will count of the reports in flight. -/
def promised (f : Field) : Nat := f.collector.sum + (f.inFlight.map UpdateReq.size).sum

/-- Where nothing is transmitted, nothing is promised. -/
theorem promised_step (hs : step site e f = some f')
    (hquiet : ∀ v ∈ site.ids, (f'.device v).sent = (f.device v).sent) : f'.promised ≤ f.promised := by
  obtain ⟨-, ht⟩ := step_cases hs
  cases ht with
  | @device x e' d hx hd =>
    have hsent : d.sent = (f.device x).sent := by
      have := hquiet x hx
      rwa [device_setDevice, if_pos rfl] at this
    have hnone : reportsSent (f.device x) d = [] := by simp [reportsSent, hsent]
    simp [promised, setDevice, hnone]
  | @arrive m hm =>
    have hsum : (f.inFlight.map UpdateReq.size).sum =
        m.size + ((f.inFlight.erase m).map UpdateReq.size).sum := by
      rw [← List.sum_cons, ← List.map_cons]
      exact ((List.perm_cons_erase hm).map UpdateReq.size).sum_eq
    simp only [promised, Collector.handleUpReq]
    split
    · show f.collector.sum + _ ≤ _
      omega
    · show f.collector.sum + m.size + _ ≤ _
      omega
  | procDone => exact Nat.le_refl _
  | move => exact Nat.le_refl _

end

end Field

namespace System

section
variable {D : Deployment} {range : Rat} {s s₁ s' : System} {u v : Uid}

/-- **A crash at the end of a transmission silences all within range, for good.**  When the battery
of a prover is found empty at the end of its transmission, other provers find the channel busy
whenever they ask within its range, and transmit nothing in any run from there on, as long as they
are within its range when something happens.  If these are all the other provers, the collector
counts no more than what it has counted and what is in flight. -/
theorem silenced {pos : Uid → Coord} (near : Uid → Prop)
    (h : Runs.Reaches (step D range) (fun _ _ => True) (init D pos) s)
    (hlive : (s.field.device u).crashed = false)
    (hs : step D range (.device u (.selfMsg .entxmsg true)) s = some s₁)
    (hrun : Runs.Reaches (step D range) (fun _ s => s.field.Surround range near u) s₁ s') :
    (∀ v, v ≠ u → (s'.field.pos v).sqrdist (s'.field.pos u) ≤ range * range →
        (s'.field.surroundings (D.site range) v).channelBusy = true) ∧
      (∀ v, near v → (s'.field.device v).sent = (s₁.field.device v).sent) ∧
      ((∀ v ∈ D.ids, v = u ∨ near v) → s'.field.collector.sum ≤
        s₁.field.collector.sum + (s₁.field.inFlight.map UpdateReq.size).sum) := by
  have hfield : FieldRun D range (fun _ _ => True) (Field.init pos) s.field :=
    fieldRun_of_reaches (h.weaken fun _ _ _ _ _ _ => trivial)
  have hsound := Field.sound_of_alive (Runs.Reaches.weaken (fun _ _ _ => trivial) hfield) u hlive
  have hdev : s.deviceEvent D range u (.selfMsg .entxmsg true) = some s₁ := by
    unfold step at hs
    split at hs
    · cases hs
    · exact (if_pos trivial).symm.trans hs
  obtain ⟨hu, d, hd, rfl⟩ := deviceEvent_cases hdev
  have hjammed : ((s.field.setDevice (D.site range) u d).device u).Jammed := by
    rw [Field.device_setDevice, if_pos rfl]
    exact Device.jammed_of_depleted hsound hlive hd
  have hrest := positioned_of_reaches (Q := Field.Surround range near u)
    (fun f f' hpos hnear v hv => by rw [hpos]; exact hnear v hv) hrun
  have hall : (s'.field.device u).Jammed ∧
      (∀ v, v = u ∨ near v → (s'.field.device v).sent =
        ((s.field.setDevice (D.site range) u d).device v).sent) ∧
      ((∀ v ∈ D.ids, v = u ∨ near v) →
        s'.field.promised ≤ (s.field.setDevice (D.site range) u d).promised) := by
    refine Runs.Reaches.invariant (I := fun f => (f.device u).Jammed ∧
      (∀ v, v = u ∨ near v → (f.device v).sent =
        ((s.field.setDevice (D.site range) u d).device v).sent) ∧
      ((∀ v ∈ D.ids, v = u ∨ near v) →
        f.promised ≤ (s.field.setDevice (D.site range) u d).promised))
      ⟨hjammed, fun _ _ => rfl, fun _ => Nat.le_refl _⟩ ?_ hrest
    rintro e f f' ⟨hj, hsame, hprom⟩ hnear hf
    obtain ⟨hj', hquiet⟩ := Field.mutes_step rfl hu hj hnear hf
    refine ⟨hj', fun v hv => (hquiet v hv).trans (hsame v hv), fun hevery => ?_⟩
    exact (Field.promised_step hf fun v hv => hquiet v (hevery v hv)).trans (hprom hevery)
  obtain ⟨hj, hsame, hprom⟩ := hall
  refine ⟨fun v hne hclose => Field.channelBusy_of_jammed hu hne.symm rfl hclose hj,
    fun v hv => hsame v (.inr hv), fun hevery => ?_⟩
  exact (Nat.le_add_right _ _).trans (hprom hevery)

end

/-- In `relayedReport`, had the battery of prover 2 been empty at the end of the transmission of its
report: prover 1 merges it and reports, but the collector counts nothing. -/
theorem silenced_relayed : ∃ s s₁ s' : System,
    step rootAndChild 50 (.device 2 (.selfMsg .entxmsg true)) s = some s₁ ∧
    (s'.prover 1).attestcount = 1 ∧ (s'.prover 1).out.length = 3 ∧
    (s'.field.surroundings (rootAndChild.site 50) 1).channelBusy = true ∧
    (s'.field.device 1).sent = (s₁.field.device 1).sent ∧ s'.field.collector.sum = 0 := by
  obtain ⟨s, hs, ht⟩ := Runs.exists_of_run (step rootAndChild 50) (fun _ _ => True)
    (relayedReport.take 25) (init rootAndChild fun _ => ⟨0, 0, 0⟩)
    (fun s => (s.field.device 2).crashed = false ∧
      (step rootAndChild 50 (.device 2 (.selfMsg .entxmsg true)) s).any fun s₁ =>
        (s₁.field.collector.sum = 0 ∧ s₁.field.inFlight = [] ∧
          (s₁.field.pos 1).sqrdist (s₁.field.pos 2) ≤ 50 * 50) ∧
        (step rootAndChild 50 (.prover 1 ⟨18447534676000, .self 8 {}⟩) s₁).any fun s' =>
          (s'.prover 1).attestcount = 1 ∧ (s'.prover 1).out.length = 3 ∧
            (s'.field.pos 1).sqrdist (s'.field.pos 2) ≤ 50 * 50)
    (by decide +kernel)
  obtain ⟨hlive, hany⟩ := of_decide_eq_true ht
  obtain ⟨s₁, hs₁, ht₁⟩ := Runs.exists_of_any hany
  obtain ⟨⟨hsum, hflight, hclose⟩, hany'⟩ := of_decide_eq_true ht₁
  obtain ⟨s', hs', ht'⟩ := Runs.exists_of_any hany'
  obtain ⟨hattest, hout, hclose'⟩ := of_decide_eq_true ht'
  obtain ⟨hbusy, hsent, hcoll⟩ := silenced (fun v => v = 1) hs hlive hs₁
    (.tail .refl (fun v hv => by subst hv; exact ⟨by decide, hclose⟩) hs')
  have hle := hcoll (show ∀ v ∈ rootAndChild.ids, v = 2 ∨ v = 1 by decide)
  rw [hsum, hflight] at hle
  exact ⟨s, s₁, s', hs₁, hattest, hout, hbusy 1 (by decide) hclose', hsent 1 rfl,
    Nat.eq_zero_of_le_zero hle⟩

end System

end Fadia
