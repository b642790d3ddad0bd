import Fadia.Proof.Channel

/-!
# The collector is given one report at a time

In the wireless build a prover sets `procstat` when it transmits a report, and tests it
before (`Device.sends_cases`).  `Locked` says what it stands for: one report is in flight
or being processed.  Every event keeps it (`locked_step`), so `handleUpReq` never meets
its timer (`collector_locked`).
-/

namespace Fadia

namespace Device

section
variable {w : Surroundings} {e : DeviceEvent} {m : Outgoing} {d d' : Device} {route : Route}

/-- At most one message goes on the air, and one for the collector only if that is idle. -/
inductive Sends (w : Surroundings) (d : Device) : Device → Prop
  | nothing {d' : Device} (h : d'.sent = d.sent) : Sends w d d'
  | one {d' : Device} {m : Outgoing} {route : Route} (h : d'.sent = d.sent ++ [(m, route)])
      (hr : route = .collector → w.collectorBusy = false) : Sends w d d'

theorem Sent.sends (hs : Sent w m route d d') : Sends w d d' := by
  cases hs with
  | queued => exact .nothing rfl
  | postponed => exact .nothing (scheduleAt_fields .cbusymsg _).2.2.1
  | parked =>
    refine .nothing ?_
    unfold postponeUp
    dsimp only
    split
    · rfl
    · exact (scheduleAt_fields .collbusymsg _).2.2.1
  | unheard _ hr => exact .one rfl fun h => by cases hr.symm.trans h
  | transmitted _ _ hr => exact .one (transmit_fields m route d).2.2.1 hr

theorem Sends.of_sent (d₀ : Device) (h : Sends w d₀ d') (h₀ : d₀.sent = d.sent) :
    Sends w d d' := by
  cases h with
  | nothing h => exact .nothing (h.trans h₀)
  | one h hr => exact .one (h₀ ▸ h) hr

theorem sends_dispatch : Sends w d (d.dispatch w m) := by
  obtain ⟨m', route, -, ⟨-, -, hs⟩ | ⟨-, -, -, hs⟩⟩ := dispatch_cases (w := w) (m := m) (d := d)
  · exact hs.sends
  · exact hs.sends.of_sent _ rfl

theorem sends_drain : Sends w d (d.drain w) := by
  rcases drain_cases w d with ⟨-, he⟩ | ⟨m, rest, -, he⟩
  · rw [he]
    exact .nothing rfl
  · rw [he]
    have h := sends_dispatch (w := w) (m := m) (d := d)
    cases h with
    | nothing h => exact .nothing h
    | one h hr => exact .one h hr

/-- **What one event sends.** -/
theorem sends_cases (hs : d.step w e = some d') : Sends w d d' := by
  obtain ⟨-, ht⟩ := step_cases hs
  cases ht with
  | dropped => exact .nothing rfl
  | popped => exact .nothing rfl
  | handOver => exact sends_dispatch.of_sent { d with handed := d.handed + 1 } rfl
  | @selfMsg t depleted =>
    cases t with
    | txmsg => exact sends_drain.of_sent { d.pop .txmsg with txrxstat := .DIDLE } rfl
    | cbusymsg => exact sends_drain.of_sent { d.pop .cbusymsg with chanstat := .CIDLE } rfl
    | entxmsg => exact .nothing rfl
    | collbusymsg =>
      unfold onSelfMsg handlePostponeUpMsg
      dsimp only
      split
      · exact sends_dispatch.of_sent (d.pop .collbusymsg) rfl
      · exact .nothing rfl
  | energyDone => exact .nothing rfl

end

end Device

namespace Field

/-- The reports that one event sends: at most one, to an idle collector. -/
theorem reportsSent_cases {w : Surroundings} {e : DeviceEvent} {d d' : Device}
    (hs : d.step w e = some d') :
    reportsSent d d' = [] ∨ ∃ r, reportsSent d d' = [r] ∧ w.collectorBusy = false := by
  unfold reportsSent
  cases Device.sends_cases hs with
  | nothing h =>
    rw [h, List.drop_length]
    exact .inl rfl
  | @one m route h hr =>
    rw [h, List.drop_left]
    by_cases hc : route = .collector
    · cases hm : m.pkt.report with
      | none => exact .inl (by simp [hc, hm])
      | some r => exact .inr ⟨r, by simp [hc, hm], hr hc⟩
    · exact .inl (by simp [hc])

/-- The reports in flight to the collector and the one that it processes. -/
def underWay (f : Field) : Nat := f.inFlight.length + if f.collector.procendmsg then 1 else 0

/-- What `procstat` of the collector stands for. -/
structure Locked (f : Field) : Prop where
  busy : f.collector.procstat = .PBUSY ↔ f.underWay = 1
  one : f.underWay ≤ 1
  failed : f.collector.failed = false

section
variable {site : Site} {f f' : Field} {e : FieldEvent}

theorem Locked.idle (h : Locked f) (hidle : f.collector.isProcessing = false) :
    f.underWay = 0 := by
  have hne : f.underWay ≠ 1 := by
    intro h1
    rw [Collector.isProcessing, h.busy.mpr h1] at hidle
    cases hidle
  have := h.one
  omega

/-- **Step lemma** for the lock. -/
theorem locked_step (hb : site.build = .wireless) (h : Locked f) (hs : step site e f = some f') :
    Locked f' := by
  obtain ⟨-, ht⟩ := step_cases hs
  cases ht with
  | @device u e d hu hd =>
    rcases reportsSent_cases hd with hnone | ⟨r, hone, hidle⟩
    · -- no report: the collector and what is under way stay as they are
      have hsame : (f.setDevice site u d).collector = f.collector ∧
          (f.setDevice site u d).inFlight = f.inFlight := by
        simp [setDevice, hnone]
      refine ⟨?_, ?_, ?_⟩
      · rw [underWay, hsame.1, hsame.2]
        exact h.busy
      · rw [underWay, hsame.1, hsame.2]
        exact h.one
      · rw [hsame.1]
        exact h.failed
    · -- one report, and nothing was under way: the sender takes the lock
      have hzero : f.inFlight = [] ∧ f.collector.procendmsg = false := by
        have h0 := h.idle hidle
        unfold underWay at h0
        refine ⟨List.length_eq_zero_iff.mp (by omega), ?_⟩
        cases hp : f.collector.procendmsg with
        | false => rfl
        | true => simp [hp] at h0
      have hset : (f.setDevice site u d).collector = f.collector.setProcessing ∧
          (f.setDevice site u d).inFlight = [r] := by
        simp [setDevice, hone, hb, hzero.1]
      have hone' : (f.setDevice site u d).underWay = 1 := by
        rw [underWay, hset.1, hset.2]
        simp [Collector.setProcessing, hzero.2]
      refine ⟨?_, by omega, ?_⟩
      · rw [hset.1, hone']
        exact ⟨fun _ => rfl, fun _ => rfl⟩
      · rw [hset.1]
        exact h.failed
  | @arrive m hm =>
    -- the report in flight was the one under way, so no processing is scheduled
    have hpos : 0 < f.inFlight.length := List.length_pos_of_mem hm
    have hle := h.one
    have hp : f.collector.procendmsg = false := by
      cases hp : f.collector.procendmsg with
      | false => rfl
      | true =>
        simp only [underWay, hp, if_true] at hle
        omega
    have h1 : f.underWay = 1 := by
      simp only [underWay, hp] at hle ⊢
      simp at hle ⊢
      omega
    have hlen : (f.inFlight.erase m).length = 0 := by
      rw [List.length_erase_of_mem hm]
      simp [underWay, hp] at h1
      omega
    have hc : f.collector.handleUpReq m =
        { f.collector with procendmsg := true, sum := f.collector.sum + m.size } := by
      rw [Collector.handleUpReq, if_neg (by rw [hp]; decide)]
    refine ⟨?_, ?_, ?_⟩
    · simp only [underWay, hc, hlen]
      exact ⟨fun _ => rfl, fun _ => h.busy.mpr h1⟩
    · simp [underWay, hc, hlen]
    · simp only [hc]
      exact h.failed
  | procDone hp =>
    have hle := h.one
    have hlen : f.inFlight.length = 0 := by
      simp only [underWay, hp, if_true] at hle
      omega
    refine ⟨?_, ?_, h.failed⟩
    · simp [underWay, Collector.handleProcDoneMsg, hlen]
    · simp [underWay, Collector.handleProcDoneMsg, hlen]
  | move => exact ⟨h.busy, h.one, h.failed⟩

/-- **The collector is given one report at a time**: `PBUSY` says that one is in flight or
being processed, and `handleUpReq` never meets a scheduled `procendmsg`. -/
theorem collector_locked {pos : Uid → Coord} (hb : site.build = .wireless)
    (h : Runs.Reaches (step site) (fun _ _ => True) (init pos) f) : Locked f := by
  have hinit : Locked (init pos) :=
    ⟨⟨fun h => (by cases h), fun h => (by cases h)⟩, Nat.zero_le _, rfl⟩
  exact h.invariant hinit fun _ _ _ ih _ hs => locked_step hb ih hs

end

/-- A report of prover 1 is in flight. -/
theorem collector_locked_pair : ∃ f : Field, f.inFlight.length = 1 ∧ Locked f := by
  obtain ⟨f, hr, ht⟩ := Runs.exists_of_run (step pair) (fun _ _ => True)
    [.device 1 (.handOver (Device.collectorReport .UPRQC))] (init fun _ => ⟨0, 0, 0⟩)
    (fun f => f.inFlight.length = 1) (by decide +kernel)
  exact ⟨f, of_decide_eq_true ht, collector_locked rfl hr⟩

end Field

end Fadia
