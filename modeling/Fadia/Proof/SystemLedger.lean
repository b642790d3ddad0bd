import Fadia.Proof.CollectorTotal
import Fadia.Proof.RecordLedger

/-!
# Every record of the system is in one place or was lost once

In the system a record can be lost in one way more than in `Net`: a device overwrites a report
that it has parked (`overwritten`).  Such a report still waits in the network that the system
follows, for ever: it is `destroyed` (`destroyed_deviceEvent`).

So the ledger of the system is that of the network with the destroyed reports
(`agrees_of_reaches`), and each record that was made is held by a prover or its device, under way,
handled or lost, exactly once (`accounting`).
-/

namespace Fadia

/-- The packets that wait in a device. -/
def Device.pending (d : Device) : List Packet := (d.msgqueue ++ d.pupmsg.toList).map (·.pkt)

theorem Prover.held_resumed (p : Prover) (out : List Packet) (t : Nat) (x : Uid × Nat) :
    Prover.held x { p with out := out, now := t } =
      Prover.held x { p with out := [] } + (out.flatMap Packet.entries).count x := by
  simp only [Prover.held, Prover.carried, List.count_append, List.flatMap_nil, List.count_nil,
    Nat.add_assoc, Nat.add_zero]

namespace Net

/-- Crashes and transmissions lose nothing. -/
theorem lost_of_crashesOnly {D : Deployment} {n n' : Net} (lost : Uid × Nat → Nat)
    (h : System.CrashesOnly D n n') :
    Runs.Reaches (Ledger.step D) (fun e L => Locally (fun ev _ => ev.act = .crash) e L.net)
      ⟨n, lost⟩ ⟨n', lost⟩ := by
  induction h with
  | refl => exact .refl
  | @tail n₁ n₂ e _ hok hs ih =>
    refine .tail ih hok ?_
    have hzero : ∀ x, losses e n₁ x = 0 := by
      intro x
      unfold losses
      split
      · next u ev hloc =>
        unfold Prover.losses
        rw [hok u ev hloc]
      · rfl
    simp only [Ledger.step, hs, hzero, Option.map_some, Nat.add_zero]

end Net

namespace System

open Prover (Event)

section
variable (D : Deployment) (range : Rat)

/-- The system as a network: a prover still has to send what its device holds. -/
def view (s : System) : Net where
  now := s.now
  prover := fun u => { s.handler u with out := (s.field.device u).pending }
  air := s.air
  toColl := s.field.inFlight
  handled := s.handled
  halted := s.halted

/-- The parked reports that the device of `u` overwrites while packets are handed over to it. -/
def overwrittenBy (u : Uid) : List Packet → System → List Outgoing
  | [], _ => []
  | pkt :: pkts, s =>
    let w := s.field.surroundings (D.site range) u
    ((s.field.device u).overwritten w (.handOver pkt)).toList ++
      ((s.deviceEvent D range u (.handOver pkt)).map (overwrittenBy u pkts)).getD []

/-- The parked reports that are overwritten as prover `u` takes an event. -/
def overwrittenWith (u : Uid) (e : Event) (s : System) : List Outgoing :=
  ((Prover.step e (s.handler u)).map fun p =>
    if p.fault.isSome then []
    else overwrittenBy D range u (p.out.drop (s.prover u).out.length)
      (s.setProver u e.time p)).getD []

/-- The parked reports that an event makes the devices overwrite. -/
def overwritten (e : SystemEvent) (s : System) : List Outgoing :=
  match e with
  | .prover u e => s.overwrittenWith D range u e
  | .deliver u m time c =>
    { s with air := s.air.erase (u, m) }.overwrittenWith D range u ⟨time, .recv m c⟩
  | .device u e =>
    let w := s.field.surroundings (D.site range) u
    ((s.field.device u).overwritten w e).toList
  | .arrive _ | .procDone | .move _ _ => []

/-- How often an event loses the record `x`: in the prover that takes it, or in a device. -/
def losses (e : SystemEvent) (s : System) (x : Uid × Nat) : Nat :=
  (e.localEvent.elim 0 fun a => Prover.losses a.2 (s.handler a.1) x) +
    ((overwritten D range e s).flatMap (·.pkt.entries)).count x

/-- The system and what was lost in it so far. -/
structure Ledger where
  system : System
  lost : Uid × Nat → Nat

namespace Ledger

def step (e : SystemEvent) (L : Ledger) : Option Ledger :=
  (System.step D range e L.system).map fun s =>
    ⟨s, fun x => L.lost x + losses D range e L.system x⟩

def init (pos : Uid → Coord) : Ledger := ⟨System.init D pos, fun _ => 0⟩

end Ledger

/-! ## Destroyed reports -/

/-- The packets given to the device of `u` that it has not transmitted and does not hold. -/
def destroyed (s : System) (u : Uid) : List Packet :=
  Taken.rest ((s.prover u).out.take (s.field.device u).handed) (s.field.device u).serials

/-- How often the record `x` was destroyed. -/
def destructions (x : Uid × Nat) (s : System) : Nat :=
  (D.ids.map fun u => ((s.destroyed u).flatMap Packet.entries).count x).sum

end

section
variable {D : Deployment} {range : Rat} {s s' : System} {n : Net} {u v : Uid} {x : Uid × Nat}
  {pkts : List Packet} {m : Outgoing} {L : Ledger}

theorem Copies.entries (h : Copies pkts m) :
    ∃ pkt, pkts[m.serial]? = some pkt ∧ pkt.entries = m.pkt.entries := by
  cases h with
  | same h => exact ⟨_, h, rfl⟩
  | @redirected r h hk hm => exact ⟨_, h, by rw [hm]; rfl⟩

/-- At all provers but `u` nothing is destroyed. -/
theorem destructions_of_ne (hu : u ∈ D.ids) (hprover : s'.prover = s.prover)
    (hother : ∀ v, v ≠ u → s'.field.device v = s.field.device v) :
    destructions D x s' + ((s.destroyed u).flatMap Packet.entries).count x =
      destructions D x s + ((s'.destroyed u).flatMap Packet.entries).count x :=
  Counting.sum_map_of_ne (f := fun v => ((s'.destroyed v).flatMap Packet.entries).count x)
    (g := fun v => ((s.destroyed v).flatMap Packet.entries).count x) Net.nodup_ids hu
    fun v _ hne => by
      unfold destroyed
      rw [hprover, hother v hne]

/-- In one device: what is overwritten is no longer in any place. -/
theorem destroyed_step {w : Surroundings} {d d' : Device} {e : DeviceEvent} {new : List Packet}
    (h : d.Pipeline pkts) (h' : d'.Pipeline (pkts ++ new)) (hs : d.step w e = some d')
    (x : Uid × Nat) :
    ((Taken.rest (pkts ++ new) d'.serials).flatMap Packet.entries).count x =
      ((Taken.rest pkts d.serials).flatMap Packet.entries).count x +
        ((d.overwritten w e).toList.flatMap (·.pkt.entries)).count x := by
  have hperm := Device.serials_step h.parks hs
  have hnew : d'.handed - d.handed = new.length := by
    rw [h.handed, h'.handed, List.length_append, Nat.add_sub_cancel_left]
  have hnodup := Device.nodup_range'_serials h new.length
  rw [hnew, h.handed] at hperm
  rw [h.handed] at hnodup
  have hcopies : ∀ m ∈ (d.overwritten w e).toList,
      ∃ pkt, (pkts ++ new)[m.serial]? = some pkt ∧ pkt.entries = m.pkt.entries := fun m hm =>
    Copies.entries (Device.Copies.append
      (h.parked m (Device.overwritten_parked (Option.mem_toList.mp hm))) new)
  rw [Taken.count_rest x hcopies (hperm.nodup_iff.mpr hnodup),
    Taken.rest_congr fun _ => hperm.mem_iff, Taken.rest_append_range, Nat.add_comm]

/-- **An event of a device** destroys what it overwrites, and nothing else. -/
theorem destroyed_deviceEvent {e : DeviceEvent} (h : Linked D s)
    (hpkt : ∀ pkt, e = .handOver pkt →
      (s.prover u).out[(s.field.device u).handed]? = some pkt ∧ (s.field.device u).crashed = false)
    (hs : s.deviceEvent D range u e = some s') (x : Uid × Nat) :
    destructions D x s' = destructions D x s +
      (((s.field.device u).overwritten (s.field.surroundings (D.site range) u) e).toList.flatMap
        (·.pkt.entries)).count x := by
  obtain ⟨h', hprover, -, -, -, hother, hhanded, -⟩ := linked_device h hpkt hs
  obtain ⟨hu, d, hd, rfl⟩ := deviceEvent_cases hs
  have hself : (s.field.setDevice (D.site range) u d).device u = d := Function.update_self ..
  have hpipe' := h'.pipeline u hu
  rw [hself] at hpipe' hhanded
  have hle : (s.field.device u).handed ≤ d.handed := by
    have hlen := (h.pipeline u hu).handed
    rw [hhanded]
    unfold Device.handedOver
    split
    · rw [List.length_append]
      omega
    · exact Nat.le_of_eq hlen
  have htake : (s.prover u).out.take d.handed = (s.prover u).out.take (s.field.device u).handed ++
      ((s.prover u).out.drop (s.field.device u).handed).take
        (d.handed - (s.field.device u).handed) := by
    rw [← List.take_add, Nat.add_sub_cancel' hle]
  have hone := destroyed_step (h.pipeline u hu) (htake ▸ hpipe') hd x
  rw [← htake] at hone
  have hsum := destructions_of_ne (x := x) hu hprover hother
  unfold destroyed at hsum
  dsimp only at hsum
  rw [hself] at hsum
  omega

/-- What is handed over destroys what it overwrites. -/
theorem destroyed_handOver (pkts : List Packet) (x : Uid × Nat) :
    ∀ s, Linked D s → (s.prover u).out.drop (s.field.device u).handed = pkts →
      (pkts ≠ [] → (s.field.device u).crashed = false) → s.handOver D range u pkts = some s' →
      destructions D x s' = destructions D x s +
        ((overwrittenBy D range u pkts s).flatMap (·.pkt.entries)).count x := by
  induction pkts with
  | nil =>
    intro s _ _ _ hs
    cases hs
    rfl
  | cons pkt pkts ih =>
    intro s h hdrop hlive hs
    obtain ⟨s₁, hs₁, hs⟩ := Option.bind_eq_some_iff.mp hs
    have hnext : (s.prover u).out[(s.field.device u).handed]? = some pkt := by
      have h0 : ((s.prover u).out.drop (s.field.device u).handed)[0]? = some pkt := by
        rw [hdrop]
        rfl
      rwa [List.getElem?_drop] at h0
    have hcr : (s.field.device u).crashed = false := hlive (by simp)
    have hpkt : ∀ pkt', DeviceEvent.handOver pkt = .handOver pkt' →
        (s.prover u).out[(s.field.device u).handed]? = some pkt' ∧
          (s.field.device u).crashed = false := fun pkt' he => by
      cases he
      exact ⟨hnext, hcr⟩
    obtain ⟨h₁, hprover, -, -, -, -, hhanded, hkeep⟩ := linked_device h hpkt hs₁
    have hsucc : (s₁.field.device u).handed = (s.field.device u).handed + 1 := by
      have hlen := (h.pipeline u (deviceEvent_cases hs₁).1).handed
      rw [hhanded, Device.handedOver, List.length_append, ← hlen]
      rfl
    have hone := destroyed_deviceEvent h hpkt hs₁ x
    have hrest := ih s₁ h₁ (by rw [hprover, hsucc, ← List.tail_drop, hdrop]; rfl)
      (fun _ => (hkeep ⟨pkt, rfl⟩).trans hcr) hs
    simp only [overwrittenBy, hs₁, Option.map_some, Option.getD_some, List.flatMap_append,
      List.count_append]
    omega

theorem destroyed_proverEvent {e : Event} (h : Linked D s) (hset : Settled D s)
    (hact : e.act ≠ .crash) (hs : s.proverEvent D range u e = some s') (hrun : s'.halted = false)
    (x : Uid × Nat) :
    destructions D x s' = destructions D x s +
      ((overwrittenWith D range u e s).flatMap (·.pkt.entries)).count x := by
  obtain ⟨hu, hdue, p, hp, ⟨hf, rfl⟩ | ⟨hf, hs⟩⟩ := proverEvent_cases hs
  · exact absurd hrun (by simpa [setProver, Option.isSome_iff_ne_none] using hf)
  obtain ⟨new, hout, -⟩ := Prover.step_resumed hp
  have hself : (s.setProver u e.time p).prover u = p := Function.update_self ..
  have hlive : p.out.drop (s.prover u).out.length ≠ [] → (s.field.device u).crashed = false := by
    intro hne
    by_contra hc
    have hdead : (s.handler u).crashed = true := Bool.eq_true_of_not_eq_false hc
    have hsame : p.out = (s.prover u).out := (Prover.mail_of_crashed hp hdead).1
    exact hne (by rw [hsame, List.drop_length])
  have hbefore : destructions D x (s.setProver u e.time p) = destructions D x s := by
    refine congrArg List.sum (List.map_congr_left fun v hv => ?_)
    unfold destroyed
    by_cases he : v = u
    · -- what is handed over with the event is not yet given to the device
      subst he
      rw [hself, hout]
      have hlen : (s.field.device v).handed = (s.prover v).out.length := hset v hv
      change ((Taken.rest (((s.prover v).out ++ new).take (s.field.device v).handed) _).flatMap
        _).count x = _
      rw [hlen, List.take_append_of_le_length (Nat.le_refl _)]
      rfl
    · rw [show (s.setProver u e.time p).prover v = s.prover v from Function.update_of_ne he ..]
      rfl
  have hall := destroyed_handOver (p.out.drop (s.prover u).out.length) x (s.setProver u e.time p)
    (linked_prover h hset hu hdue hact hp hf)
    (by rw [hself]; exact congrArg (p.out.drop ·) (hset u hu)) hlive hs
  rw [hall, hbefore]
  simp [overwrittenWith, hp, hf]

/-- **An event of the system** destroys what it overwrites, and nothing else. -/
theorem destructions_step {e : SystemEvent} (h : Linked D s) (hset : Settled D s)
    (hs : step D range e s = some s') (hrun : s'.halted = false) (x : Uid × Nat) :
    destructions D x s' = destructions D x s +
      ((overwritten D range e s).flatMap (·.pkt.entries)).count x := by
  unfold step at hs
  split at hs
  · cases hs
  cases e with
  | prover u ev =>
    dsimp only at hs
    split at hs
    · next hplain =>
      have hact : ev.act ≠ .crash := fun hact => by rw [hact] at hplain; exact hplain
      exact destroyed_proverEvent h hset hact hs hrun x
    · cases hs
  | deliver u m time c =>
    dsimp only at hs
    split at hs
    · exact destroyed_proverEvent (s := { s with air := s.air.erase (u, m) })
        ⟨h.pipeline, h.proper, h.prepared, h.timely, h.faultless⟩ hset (by simp) hs hrun x
    · cases hs
  | device u e =>
    dsimp only at hs
    split at hs
    · next hown =>
      exact destroyed_deviceEvent h (fun pkt he => by subst he; exact hown.elim) hs x
    · cases hs
  | arrive m =>
    obtain ⟨s₁, hs₁, rfl⟩ := Option.map_eq_some_iff.mp hs
    obtain ⟨f, hf, rfl⟩ := fieldEvent_cases hs₁
    rw [Field.step] at hf
    split at hf
    · cases hf
    split at hf
    · obtain rfl := Option.some.inj hf
      rfl
    · cases hf
  | procDone =>
    obtain ⟨f, hf, rfl⟩ := fieldEvent_cases hs
    rw [Field.step] at hf
    split at hf
    · cases hf
    split at hf
    · obtain rfl := Option.some.inj hf
      rfl
    · cases hf
  | move u c =>
    obtain ⟨f, hf, rfl⟩ := fieldEvent_cases hs
    rw [Field.step] at hf
    split at hf
    · cases hf
    obtain rfl := Option.some.inj hf
    rfl

/-! ## The ledger of the network -/

/-- The ledgers agree but for what was destroyed. -/
structure Agrees (D : Deployment) (L : Ledger) (M : Net.Ledger) : Prop where
  tracks : Tracks D L.system M.net
  lost : L.system.halted = false → ∀ x, L.lost x = M.lost x + destructions D x L.system

/-- The network loses with an event what its prover loses in the system. -/
theorem net_losses {e : SystemEvent} {e₁ : NetEvent} {n₁ : Net} (ht : Tracks D s n)
    (hs : Net.step D e₁ n = some n₁) (he : e₁.localEvent = e.localEvent) (x : Uid × Nat) :
    Net.losses e₁ n x = e.localEvent.elim 0 fun a => Prover.losses a.2 (s.handler a.1) x := by
  rw [Net.losses, ← he]
  split
  · next u ev hloc =>
    rw [hloc]
    -- the prover in the network differs only in what no loss depends on
    have hsame : Net.Locally (fun ev p => Prover.losses ev p x =
        Prover.losses ev (s.handler u) x) e₁ n :=
      ht.locally hs he (fun _ _ _ _ h => h) fun u' ev' he' => by
        obtain ⟨rfl, -⟩ := Prod.mk.inj (Option.some.inj ((he.symm.trans hloc).symm.trans he'))
        rfl
    exact hsame u ev hloc
  · next hloc =>
    rw [hloc]
    rfl

variable {M : Net.Ledger} {ok : Event → Prover → Prop}

/-- **Every event keeps the ledgers in step.** -/
theorem agrees_step {e : SystemEvent} {L' : Ledger} (hcrash : ∀ time p, ok ⟨time, .crash⟩ p)
    (hins : ∀ e p out t, ok e p → ok e { p with out := out, now := t }) (h : Agrees D L M)
    (hok : Locally ok e L.system) (hs : Ledger.step D range e L = some L') :
    ∃ M', Runs.Reaches (Net.Ledger.step D) (fun e M => Net.Locally ok e M.net) M M' ∧
      Agrees D L' M' := by
  obtain ⟨s', hsys, rfl⟩ := Option.map_eq_some_iff.mp hs
  obtain ⟨n₁, n', hfollows, hcrashes, ht'⟩ := tracks_step h.tracks hsys
  have hrun : L.system.halted = false := by
    unfold step at hsys
    split at hsys
    · cases hsys
    · next hend => exact Bool.eq_false_iff.mpr fun hh => hend (.inl hh)
  obtain ⟨hl, hset⟩ := h.tracks.linked hrun
  have hquiet : ∀ lost, Runs.Reaches (Net.Ledger.step D) (fun e M => Net.Locally ok e M.net)
      ⟨n₁, lost⟩ ⟨n', lost⟩ := by
    intro lost
    refine (Net.lost_of_crashesOnly lost hcrashes).weaken ?_
    rintro e M hact u ⟨time, act⟩ hloc
    obtain rfl : act = .crash := hact u _ hloc
    exact hcrash time _
  have hagrees : ∀ lost : Uid × Nat → Nat, (∀ x, lost x = M.lost x +
      e.localEvent.elim 0 fun a => Prover.losses a.2 (L.system.handler a.1) x) →
      Agrees D ⟨s', fun x => L.lost x + losses D range e L.system x⟩ ⟨n', lost⟩ := by
    refine fun lost hlost => ⟨ht', fun hrun' x => ?_⟩
    have hdestroyed := destructions_step hl hset hsys hrun' x
    have hbefore := h.lost hrun x
    dsimp only [losses]
    rw [hlost, hdestroyed]
    omega
  cases hfollows with
  | stays he => exact ⟨⟨n', M.lost⟩, hquiet M.lost, hagrees M.lost fun x => by rw [he]; rfl⟩
  | takes e₁ hs₁ he =>
    refine ⟨⟨n', fun x => M.lost x + Net.losses e₁ M.net x⟩, Runs.Reaches.trans
      (.tail .refl (h.tracks.locally hs₁ he hins hok) ?_) (hquiet _), hagrees _ fun x => ?_⟩
    · simp only [Net.Ledger.step, hs₁, Option.map_some]
    · rw [net_losses h.tracks hs₁ he]

theorem agrees_init (pos : Uid → Coord) : Agrees D (Ledger.init D pos) (Net.Ledger.init D) := by
  refine ⟨tracks_init pos, fun _ x => ?_⟩
  have hzero : destructions D x (init D pos) = 0 := by
    refine List.sum_eq_zero fun k hk => ?_
    obtain ⟨u, -, rfl⟩ := List.mem_map.mp hk
    rfl
  exact hzero.symm ▸ rfl

/-! ## The records -/

/-- What the network holds is what the system shows and what was destroyed. -/
theorem total_of_tracks (ht : Tracks D s n) (hrun : s.halted = false) (x : Uid × Nat) :
    Net.total D x n = Net.total D x s.view + destructions D x s := by
  obtain ⟨hl, hset⟩ := ht.linked hrun
  have hone : ∀ u ∈ D.ids, (n.prover u).held x =
      (s.view.prover u).held x + ((s.destroyed u).flatMap Packet.entries).count x := by
    intro u hu
    obtain ⟨out, t, hp, -, hperm⟩ := ht.same.prover u hu
    have hpipe := hl.pipeline u hu
    rw [hset u hu, List.take_length] at hpipe
    have hcopies : ∀ m ∈ (s.field.device u).msgqueue ++ (s.field.device u).pupmsg.toList,
        ∃ pkt, (s.prover u).out[m.serial]? = some pkt ∧ pkt.entries = m.pkt.entries := by
      intro m hm
      rcases List.mem_append.mp hm with hm | hm
      · exact Copies.entries (hpipe.queue m hm)
      · exact Copies.entries (hpipe.parked m (Option.mem_toList.mp hm))
    have hserials : s.places u ++
        ((s.field.device u).msgqueue ++ (s.field.device u).pupmsg.toList).map Outgoing.serial =
          (s.field.device u).serials := by
      rw [List.map_append]
      rfl
    have hcount := Taken.count_rest x hcopies (hserials ▸ hpipe.nodup)
    have hout := ((hperm hrun).flatMap_right Packet.entries).count_eq x
    have hdestroyed : s.destroyed u = Taken.rest (s.prover u).out
        (s.places u ++ ((s.field.device u).msgqueue ++
          (s.field.device u).pupmsg.toList).map Outgoing.serial) := by
      unfold destroyed
      rw [hset u hu, List.take_length, hserials]
    have hpending : (s.field.device u).pending.flatMap Packet.entries =
        ((s.field.device u).msgqueue ++ (s.field.device u).pupmsg.toList).flatMap
          (·.pkt.entries) := List.flatMap_map ..
    have hnet := (congrArg (Prover.held x) hp).trans (Prover.held_resumed (s.handler u) out t x)
    have hview : (s.view.prover u).held x = _ :=
      Prover.held_resumed (s.handler u) (s.field.device u).pending (s.handler u).now x
    rw [hnet, hdestroyed, hview, hpending]
    unfold waiting at hout
    omega
  have hsum : (D.ids.map fun u => (n.prover u).held x).sum =
      (D.ids.map fun u => (s.view.prover u).held x).sum + destructions D x s := by
    rw [destructions, ← List.sum_map_add]
    exact congrArg List.sum (List.map_congr_left hone)
  rw [Net.total, Net.total, hsum, ht.same.air, ht.same.toColl, ht.same.handled]
  simp only [view]
  omega

/-- **Every record is in one place or was lost once.**  In every run in which no prover with
children is made a leaf, up to a run-time error: a record that its prover has made is held by
a prover or its device, on the air, under way to the collector, handled by it or counted as lost,
and exactly one of these, and nobody holds a record that was not made.  When nothing is under way
any more, the collector has handled each record once, but for those lost and those that a crashed
prover or its device holds. -/
theorem accounting {pos : Uid → Coord}
    (h : Runs.Reaches (Ledger.step D range) (fun e L => KeepsChildren e L.system)
      (Ledger.init D pos) L) (hrun : L.system.halted = false) (hx : x.1 ≠ NOID) :
    Net.total D x L.system.view + L.lost x =
        (if Net.Exists D x L.system.view then 1 else 0) ∧
      (Net.AtRest D L.system.view → Net.Exists D x L.system.view →
        (L.system.handled.flatMap UpdateReq.entries).count x + L.lost x +
          Net.stranded D x L.system.view = 1) := by
  let ok : Event → Prover → Prop := fun ev p =>
    (Prover.StartsAttestation ev.act → p.log.count .start + 1 < 2 ^ 31) ∧ ¬ p.LeavesChildren ev
  obtain ⟨M, hM, hagrees⟩ := h.simulate (agrees_init pos) fun _ _ _ _ ha hk hs =>
    agrees_step (fun _ _ => ⟨fun hst => hst.elim, not_leavesChildren_crash⟩)
      (fun _ _ _ _ hok => ⟨hok.1, hok.2 ∘ leavesChildren_resumed⟩) ha hk hs
  have hreal : Runs.Reaches (Net.Ledger.step D) (fun e M => Net.Locally ok e M.net ∧
      Net.Locally (fun ev _ => Prover.RealSource ev.act) e M.net) (Net.Ledger.init D) M :=
    hM.strengthen (I := fun M => Net.RealMail D M.net) Net.realMail_init fun _ _ _ hm hs => by
      obtain ⟨n', hnet, rfl⟩ := Option.map_eq_some_iff.mp hs
      exact hm.step hnet
  have hnet := Net.records_balance (hreal.weaken fun _ _ hok => ⟨fun u ev he =>
    ⟨hok.2 u ev he, (hok.1 u ev he).1⟩, fun u ev he => (hok.1 u ev he).2⟩)
    (hagrees.tracks.same.halted.trans hrun) hx
  have hexists : Net.Exists D x M.net ↔ Net.Exists D x L.system.view := by
    unfold Net.Exists
    refine and_congr_right fun hu => ?_
    obtain ⟨out, t, hp, -⟩ := hagrees.tracks.same.prover x.1 hu
    rw [hp]
    rfl
  have hrec : Net.total D x L.system.view + L.lost x =
      if Net.Exists D x L.system.view then 1 else 0 := by
    have htotal := total_of_tracks hagrees.tracks hrun x
    have hlost := hagrees.lost hrun x
    have hall := hnet.1
    simp only [hexists] at hall
    omega
  refine ⟨hrec, fun hrest hex => ?_⟩
  rw [hrest.total, if_pos hex] at hrec
  change _ + (L.system.handled.flatMap UpdateReq.entries).count x + _ = 1 at hrec
  omega

end

theorem four_lt_maxuid : 4 < MAXUID := by
  decide

/-- Key 5 in common, rounds of 48 s, two records a message. -/
def rowCfg (u : Uid) : Config :=
  ⟨u, [5], 2, 48 * second, 2, .SKY, fun m _ => m.mac == 0, fun _ _ _ => 0⟩

theorem rowCfg_UId (u : Uid) : (rowCfg u).UId = u := rfl

/-- Provers 1, 2 and 3 stand in a row, prover 4 is alone. -/
def rowAndLone : Deployment where
  size := 4
  cfg := rowCfg
  start := fun u =>
    if u = 1 then 0 else if u = 2 then 2 * second else if u = 3 then 3 * second else 28 * second
  size_lt := four_lt_maxuid
  uid_eq := rowCfg_UId

def rowPos (u : Uid) : Coord :=
  if u = 4 then ⟨1000, 0, 0⟩ else ⟨40 * u, 0, 0⟩

/-- Prover 3 is lost to prover 2, whose report then comes too late for prover 1.  That one has
parked its own report, since the collector is busy with the one of prover 4. -/
def lateReport : List SystemEvent :=
  [.prover 1 ⟨0, .timer .startmsg { delay := 4 * second }⟩,
   .prover 1 ⟨1960 * 10 ^ 9, .timer .checkdelaymsg {}⟩,
   .prover 2 ⟨2 * second, .timer .startmsg { delay := 4 * second }⟩,
   .prover 3 ⟨3 * second, .timer .startmsg { maxchildren := 0, delay := 4 * second }⟩,
   .prover 2 ⟨3960 * 10 ^ 9, .timer .checkdelaymsg {}⟩,
   .prover 3 ⟨4960 * 10 ^ 9, .timer .checkdelaymsg {}⟩,
   .prover 1 ⟨5960 * 10 ^ 9, .timer .mktreetimer { treeID := 7 }⟩,
   .prover 1 ⟨5960 * 10 ^ 9, .timer .creqmsg {}⟩,
   .deliver 2 (Net.askMsg 1 2 7) 5990725000000 {},
   .device 1 (.selfMsg .entxmsg false),
   .device 1 (.selfMsg .txmsg false),
   .prover 2 ⟨6057798604000, .self 4 {}⟩,
   .deliver 1 (Net.respMsg 2 1 7) 6088523604000 {},
   .device 2 (.selfMsg .entxmsg false),
   .device 2 (.selfMsg .txmsg false),
   .prover 1 ⟨6221722420000, .self 6 {}⟩,
   .deliver 2 (Net.ackMsg 1 2 7) 6252447420000 {},
   .device 1 (.selfMsg .entxmsg false),
   .prover 2 ⟨6252447420000, .timer .creqmsg {}⟩,
   .device 1 (.selfMsg .txmsg false),
   .device 2 (.selfMsg .cbusymsg false),
   .deliver 1 (Net.askMsg 2 1 7) 6333172420000 {},
   .deliver 3 (Net.askMsg 2 1 7) 6333172420000 {},
   .device 2 (.selfMsg .entxmsg false),
   .device 2 (.selfMsg .txmsg false),
   .prover 3 ⟨6400246024000, .self 4 {}⟩,
   .deliver 2 (Net.respMsg 3 2 7) 6430971024000 {},
   .device 3 (.selfMsg .entxmsg false),
   .device 3 (.selfMsg .txmsg false),
   .device 3 (.energyDone true),
   .prover 2 ⟨6630295052000, .self 8 {}⟩,
   .deliver 3 (Net.ackMsg 2 3 7) 6661020052000 {},
   .device 2 (.selfMsg .entxmsg false),
   .device 2 (.selfMsg .txmsg false),
   .prover 3 ⟨8960 * 10 ^ 9, .timer .mktreetimer { treeID := 9 }⟩,
   .prover 3 ⟨10333172420000, .timer .cacktomsg { treeID := 9 }⟩,
   .prover 1 ⟨17960 * 10 ^ 9, .timer .cresptomsg {}⟩,
   .prover 2 ⟨18252447420000, .timer .cresptomsg {}⟩,
   .prover 4 ⟨28 * second, .timer .startmsg { maxchildren := 0, delay := 4 * second }⟩,
   .prover 4 ⟨29960 * 10 ^ 9, .timer .checkdelaymsg {}⟩,
   .prover 4 ⟨33960 * 10 ^ 9, .timer .mktreetimer { treeID := 10 }⟩,
   .prover 4 ⟨34033712348000, .self 4 {}⟩,
   .arrive ⟨.UPRQC, 4, 1, [4], [1], 10, 0, ckey, [0]⟩,
   .device 4 (.selfMsg .entxmsg false),
   .prover 1 ⟨34088523604000, .upto 7⟩,
   .device 4 (.selfMsg .txmsg false),
   .prover 1 ⟨34162235952000, .self 8 {}⟩,
   .device 1 (.selfMsg .collbusymsg false),
   .prover 2 ⟨34430971024000, .upto 9⟩,
   .prover 2 ⟨34504683372000, .self 10 {}⟩,
   .deliver 1 (.updateReq ⟨.UPRQ, 2, 1, [2], [1], 7, 0, 5, [0]⟩) 34535408372000 {},
   .device 2 (.selfMsg .entxmsg false),
   .procDone,
   .device 2 (.selfMsg .txmsg false),
   .device 1 (.selfMsg .cbusymsg false),
   .arrive ⟨.UPRQF, 2, 1, [2], [1], 7, 0, 5, [0]⟩]

/-- In `relayedReport` both records reach the collector.  In `lateReport` the record of prover 1 is
lost as the report of prover 2 takes the place of the one that its device has parked. -/
theorem accounting_relayed : ∃ L L' : Ledger,
    ((L.system.handled.flatMap UpdateReq.entries).count (2, 1) = 1 ∧ L.lost (2, 1) = 0 ∧
      (L.system.handled.flatMap UpdateReq.entries).count (2, 1) + L.lost (2, 1) +
        Net.stranded rootAndChild (2, 1) L.system.view = 1) ∧
    (L'.system.handled.flatMap UpdateReq.entries).count (2, 1) = 1 ∧ L'.lost (1, 1) = 1 ∧
      Net.total rowAndLone (1, 1) L'.system.view + L'.lost (1, 1) = 1 := by
  have hrun (D : Deployment) := Runs.exists_of_run (Ledger.step D 50) fun e L =>
    Locally (fun ev p => (Prover.StartsAttestation ev.act → p.log.count .start + 1 < 2 ^ 31) ∧
      (ev.isAck = false ∨ ∀ k ∈ p.csessions.keys, k = NOID)) e L.system
  have hkeep : ∀ (e : SystemEvent) (L : Ledger),
      Locally (fun ev p => (Prover.StartsAttestation ev.act → p.log.count .start + 1 < 2 ^ 31) ∧
        (ev.isAck = false ∨ ∀ k ∈ p.csessions.keys, k = NOID)) e L.system →
      KeepsChildren e L.system := fun e L hok u ev hloc =>
    ⟨(hok u ev hloc).1, Net.not_leavesChildren (hok u ev hloc).2⟩
  obtain ⟨L, hs, ht⟩ := hrun rootAndChild relayedReport (Ledger.init rootAndChild fun _ => ⟨0, 0, 0⟩)
    (fun L => (L.system.handled.flatMap UpdateReq.entries).count (2, 1) = 1 ∧ L.lost (2, 1) = 0 ∧
      Net.AtRest rootAndChild L.system.view ∧ Net.Exists rootAndChild (2, 1) L.system.view ∧
      L.system.halted = false)
    (by decide +kernel)
  obtain ⟨L', hs', ht'⟩ := hrun rowAndLone lateReport (Ledger.init rowAndLone rowPos)
    (fun L => (L.system.handled.flatMap UpdateReq.entries).count (2, 1) = 1 ∧ L.lost (1, 1) = 1 ∧
      Net.Exists rowAndLone (1, 1) L.system.view ∧ L.system.halted = false)
    (by decide +kernel)
  obtain ⟨hone, hnone, hrest, hex, hhalt⟩ := of_decide_eq_true ht
  obtain ⟨hone', hlost, hex', hhalt'⟩ := of_decide_eq_true ht'
  have h := accounting (hs.weaken hkeep) hhalt (show (2, 1).1 ≠ NOID by decide)
  have h' := accounting (hs'.weaken hkeep) hhalt' (show (1, 1).1 ≠ NOID by decide)
  refine ⟨L, L', ⟨hone, hnone, h.2 hrest hex⟩, hone', hlost, ?_⟩
  rw [h'.1, if_pos hex']

end System

end Fadia
