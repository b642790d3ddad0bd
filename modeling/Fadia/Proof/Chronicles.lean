import Fadia.Proof.OneRole
import Fadia.Proof.Serving
import Mathlib

/-!
# The times of the joins and of the reports

A chronicle keeps, beside the roles of the provers, when each ack was prepared and when the
update timer that came with it is due, when a prover accepted its ack, when it sent its report
and when that arrived.  `Occurs` says what an event of a prover adds, and `Grows` what any event
does (`grows_of_step`).
-/

namespace Fadia

/-- The time of an event of a prover. -/
def NetEvent.time (e : NetEvent) : Option Nat := e.localEvent.map fun x => x.2.time

instance : DecidablePred Prover.HasChild := fun p =>
  inferInstanceAs (Decidable (∃ c ∈ p.csessions.keys, c ≠ NOID))

namespace Net

open Prover

variable {D : Deployment}

/-- A report of `p` to its parent `q` has been sent and has not arrived.  A prover that has
crashed sends nothing any more. -/
def InTransit (q p : Uid) (s : Net) : Prop :=
  (s.prover p).crashed = false ∧ Posted q (s.prover p) ∨
    ∃ a ∈ s.air, a.1 = q ∧ a.2.reportsTo p q = true

instance (q p : Uid) (s : Net) : Decidable (InTransit q p s) := inferInstanceAs (Decidable (_ ∨ _))

/-- A history with the times of the joins and of the reports. -/
structure Chronicle where
  history : History
  /-- When `q` first acknowledged `p`, and when the update timer it scheduled with that is due. -/
  acks : Uid → Uid → Option (Nat × Nat) := fun _ _ => none
  accepted : Uid → Option Nat := fun _ => none
  reported : Uid → Option Nat := fun _ => none
  /-- When the report of a child `p` of `q` arrived at `q`. -/
  arrived : Uid → Uid → Option Nat := fun _ _ => none
  /-- The report was sent out of range of the parent. -/
  lost : Uid → Bool := fun _ => false

namespace Chronicle

def net (C : Chronicle) : Net := C.history.net

/-- When the update timer for `c` is due that is new in `p'`. -/
def timerFor (c : Uid) (p p' : Prover) : Option Nat :=
  ((p'.uptos.drop p.uptos.length).find? (·.2.device = c)).map (·.1.due)

/-- The event delivers to `u` the report of its child `c`. -/
def delivers (u : Uid) (ev : Prover.Event) (h : History) (c : Uid) : Bool :=
  match ev.act with
  | .recv m _ => m.reportsTo c u && decide (.child u ∈ h.roles c)
  | _ => false

/-- What event `ev` of prover `u` adds, which leads to `h`. -/
def recordEvent (u : Uid) (ev : Prover.Event) (C : Chronicle) (h : History) : Chronicle :=
  let p := C.net.prover u
  let p' := h.net.prover u
  { history := h
    acks := Function.update C.acks u fun c =>
      (C.acks u c).or ((timerFor c p p').map fun due => (ev.time, due))
    accepted := if p.accepted ev = [] then C.accepted
      else Function.update C.accepted u (some ev.time)
    reported := if SentIn p'.log ∧ ¬ SentIn p.log then Function.update C.reported u (some ev.time)
      else C.reported
    arrived := Function.update C.arrived u fun c =>
      (C.arrived u c).or (if delivers u ev C.history c then some ev.time else none)
    lost := Function.update C.lost u (C.lost u || strays ev p) }

/-- What an event that leads to `h` adds. -/
def record (e : NetEvent) (C : Chronicle) (h : History) : Chronicle :=
  match e with
  | .prover u ev => C.recordEvent u ev h
  | .deliver u m time c => C.recordEvent u ⟨time, .recv m c⟩ h
  | .transmit u pkt _ inRange =>
    { C with
      history := h
      lost := Function.update C.lost u (C.lost u || (!inRange && pkt.isReport)) }
  | .collect _ => { C with history := h }

def step (D : Deployment) (e : NetEvent) (C : Chronicle) : Option Chronicle :=
  (History.step D e C.history).map (C.record e)

def init (D : Deployment) : Chronicle := { history := History.init D }

/-- Each prover starts one attestation. -/
def OneAttestation (e : NetEvent) (C : Chronicle) : Prop := C.history.OneAttestation e

instance (e : NetEvent) (C : Chronicle) : Decidable (OneAttestation e C) :=
  inferInstanceAs (Decidable (C.history.OneAttestation e))

/-! ## What an event adds -/

section
variable {C C' : Chronicle} {q p u : Uid} {x : Nat × Nat} {t : Nat} {ev : Prover.Event}
  {p' : Prover} {air : List (Uid × Msg)} {h' : History}

theorem acks_of_some (hack : C.acks q p = some x) : (C.recordEvent u ev h').acks q p = some x := by
  by_cases hq : q = u
  · subst hq
    simp [recordEvent, hack]
  · simp [recordEvent, hq, hack]

theorem lost_of_not (hlost : (C.recordEvent u ev h').lost p = false) :
    C.lost p = false ∧ (p = u → strays ev (C.net.prover p) = false) := by
  by_cases hp : p = u
  · subst hp
    simp only [recordEvent, Function.update_self, Bool.or_eq_false_iff] at hlost
    exact ⟨hlost.1, fun _ => hlost.2⟩
  · simp only [recordEvent, Function.update_of_ne hp] at hlost
    exact ⟨hlost, fun he => absurd he hp⟩

/-- The report of a child arrives once. -/
theorem arrived_cases (harr : t ∈ (C.recordEvent u ev h').arrived q p) : t ∈ C.arrived q p ∨
    C.arrived q p = none ∧ q = u ∧ delivers u ev C.history p = true ∧ t = ev.time := by
  by_cases hq : q = u
  · subst hq
    simp only [recordEvent, Function.update_self] at harr
    cases hold : C.arrived q p with
    | some r =>
      rw [hold] at harr
      exact .inl harr
    | none =>
      rw [hold, Option.none_or] at harr
      split at harr
      · next hd => exact .inr ⟨rfl, rfl, hd, (Option.some.inj harr).symm⟩
      · cases harr
  · simp only [recordEvent, Function.update_of_ne hq] at harr
    exact .inl harr

theorem not_arrived (harr : (C.recordEvent u ev h').arrived q p = none) :
    C.arrived q p = none ∧ (q = u → delivers u ev C.history p = false) := by
  by_cases hq : q = u
  · subst hq
    simp only [recordEvent, Function.update_self] at harr
    obtain ⟨hold, hnew⟩ := Option.or_eq_none_iff.mp harr
    refine ⟨hold, fun _ => ?_⟩
    split at hnew
    · cases hnew
    · next hd => simpa using hd
  · simp only [recordEvent, Function.update_of_ne hq] at harr
    exact ⟨harr, fun he => absurd he hq⟩

theorem timerFor_of_sublist {c : Uid} {a b : Prover} (h : b.uptos.Sublist a.uptos) :
    timerFor c a b = none := by
  rw [timerFor, List.drop_eq_nil_of_le h.length_le]
  rfl

/-- Prover `u` takes `ev`. -/
structure Occurs (D : Deployment) (u : Uid) (ev : Prover.Event) (p' : Prover)
    (air : List (Uid × Msg)) (C C' : Chronicle) : Prop where
  mem : u ∈ D.ids
  due : C.net.Due D ev.time
  step : Prover.step ev (C.net.prover u) = some p'
  heard : ev.act.Own ∧ air = C.net.air ∨
    ∃ m c, ev.act = .recv m c ∧ (u, m) ∈ C.net.air ∧ air = C.net.air.erase (u, m)
  net : C'.net = { C.net.setProver u p' with now := ev.time, air := air }
  roles : C'.history.roles =
    Function.update C.history.roles u (takes ev (C.net.prover u) p' ++ C.history.roles u)
  record : C' = C.recordEvent u ev C'.history
  ok : Prover.StartsAttestation ev.act → .start ∉ (C.net.prover u).log
  fault : p'.fault = none

section Event
variable (ho : Occurs D u ev p' air C C')

include ho

theorem Occurs.prover_self : C'.net.prover u = p' := by
  rw [ho.net]
  exact setProver_self

theorem Occurs.prover_of_ne {v : Uid} (hv : v ≠ u) : C'.net.prover v = C.net.prover v := by
  rw [ho.net]
  exact setProver_of_ne hv

theorem Occurs.child (hchild : .child q ∈ C.history.roles p) : .child q ∈ C'.history.roles p := by
  rw [ho.roles]
  by_cases hp : p = u
  · subst hp
    rw [Function.update_self]
    exact List.mem_append_right _ hchild
  · rwa [Function.update_of_ne hp]

/-- What the prover has broadcast stays. -/
theorem Occurs.announced (hfits : Net.Fits D C.net) {d : Nat} {tid : TreeId} (hq : q ∈ D.ids)
    (hsaid : (C.net.prover q).Says d tid) : (C'.net.prover q).Says d tid := by
  by_cases he : q = u
  · subst he
    rw [ho.prover_self]
    exact (hfits.local hq ho.step ho.ok ho.heard ho.fault).2.2.2 d tid hsaid
  · rwa [ho.prover_of_ne he]

theorem Occurs.acks_isSome (hsome : (C.acks q p).isSome) : (C'.acks q p).isSome := by
  obtain ⟨x, hx⟩ := Option.isSome_iff_exists.mp hsome
  rw [ho.record, acks_of_some hx]
  rfl

theorem Occurs.air_subset : ∀ a ∈ C'.net.air, a ∈ C.net.air := by
  rw [ho.net]
  rcases ho.heard with ⟨-, rfl⟩ | ⟨m, c, -, -, rfl⟩
  · exact fun _ => id
  · exact fun _ => List.mem_of_mem_erase

/-- A report on the air stays there until it arrives. -/
theorem Occurs.inAir (hchild : .child q ∈ C.history.roles p) (harr : C'.arrived q p = none)
    (h : ∃ a ∈ C.net.air, a.1 = q ∧ a.2.reportsTo p q = true) :
    ∃ a ∈ C'.net.air, a.1 = q ∧ a.2.reportsTo p q = true := by
  obtain ⟨⟨v, m⟩, hm, rfl, hr⟩ := h
  rw [ho.record] at harr
  have hno := (not_arrived harr).2
  rw [ho.net]
  refine ⟨(v, m), ?_, rfl, hr⟩
  rcases ho.heard with ⟨-, rfl⟩ | ⟨m', c, hact, -, rfl⟩
  · exact hm
  · refine (List.mem_erase_of_ne fun he => ?_).mpr hm
    obtain ⟨rfl, rfl⟩ := Prod.mk.inj he
    have := hno rfl
    unfold delivers at this
    rw [hact] at this
    simp [hr, hchild] at this

/-- The report of the prover is recorded when it is sent. -/
theorem Occurs.reported : C'.reported u =
    if SentIn p'.log ∧ ¬ SentIn (C.net.prover u).log then some ev.time else C.reported u := by
  have hself : C'.history.net.prover u = p' := ho.prover_self
  rw [ho.record]
  simp only [recordEvent, hself]
  split
  · exact Function.update_self ..
  · rfl

end Event

/-- How an event leads from `C` to `C'`. -/
inductive Grows (D : Deployment) (e : NetEvent) (C C' : Chronicle) : Prop
  | event {u : Uid} {ev : Prover.Event} {p' : Prover} {air : List (Uid × Msg)}
      (hloc : e.localEvent = some (u, ev)) (ho : Occurs D u ev p' air C C')
  | transmit {u : Uid} {pkt : Packet} {targets : List Uid} {inRange : Bool} (hu : u ∈ D.ids)
      (hpkt : pkt ∈ (C.net.prover u).out)
      (hs : C'.net = (C.net.takePacket u pkt).radiate (C.net.prover u) targets inRange pkt)
      (hroles : C'.history.roles = C.history.roles)
      (he : C' = { C with
        history := C'.history
        lost := Function.update C.lost u (C.lost u || (!inRange && pkt.isReport)) })
  | collect {m : UpdateReq} (hs : C'.net =
        { C.net with toColl := C.net.toColl.erase m, handled := C.net.handled ++ [m] })
      (hroles : C'.history.roles = C.history.roles) (he : C' = { C with history := C'.history })

theorem history_step {e : NetEvent} {C C' : Chronicle} (h : step D e C = some C') :
    History.step D e C.history = some C'.history := by
  obtain ⟨H', hH, rfl⟩ := Option.map_eq_some_iff.mp h
  rw [hH]
  cases e <;> rfl

theorem grows_of_step {e : NetEvent} {C C' : Chronicle} (h : step D e C = some C')
    (hone : C.OneAttestation e) (hh' : C'.net.halted = false) :
    C.net.halted = false ∧ Moves D e C.net C'.net ∧ Grows D e C C' := by
  obtain ⟨H', hH, rfl⟩ := Option.map_eq_some_iff.mp h
  obtain ⟨s', hs, rfl⟩ := Option.map_eq_some_iff.mp hH
  have hrec : (C.record e (C.history.record e s')).history = C.history.record e s' := by
    cases e <;> rfl
  have hnet : (C.record e (C.history.record e s')).net = s' := by
    rw [net, hrec]
    exact History.record_net e C.history s'
  obtain ⟨hh, hmoves⟩ := moves_of_step hs
  refine ⟨hh, by rw [hnet]; exact hmoves, ?_⟩
  rw [hnet] at hh'
  have hevent : ∀ {u : Uid} {ev : Prover.Event} {air : List (Uid × Msg)},
      e.localEvent = some (u, ev) →
      (ev.act.Own ∧ air = C.net.air ∨
        ∃ m c, ev.act = .recv m c ∧ (u, m) ∈ C.net.air ∧ air = C.net.air.erase (u, m)) →
      ({ C.net with air := air }.event D u ev = some s') →
      C.record e (C.history.record e s') = C.recordEvent u ev (C.history.record e s') →
      Grows D e C (C.record e (C.history.record e s')) := by
    intro u ev air hloc hair hev he
    unfold Net.event at hev
    split at hev
    · next hok =>
      obtain ⟨p', hp, rfl⟩ := Option.map_eq_some_iff.mp hev
      change p'.fault.isSome = false at hh'
      refine .event hloc ⟨hok.1, hok.2, hp, hair, hnet, ?_, by rw [hrec]; exact he, hone u ev hloc,
        Option.not_isSome_iff_eq_none.mp (by simp [hh'])⟩
      rw [hrec]
      have hself : ({ C.net with air := air }.setProver u p').prover u = p' := setProver_self
      simp only [History.record, hloc, hself]
      rfl
    · cases hev
  have hroles : e.localEvent = none → (C.history.record e s').roles = C.history.roles := by
    intro hloc
    simp only [History.record, hloc]
  unfold Net.step at hs
  split at hs
  · cases hs
  cases e with
  | prover u ev =>
    dsimp only at hs
    split at hs
    · next hown => exact hevent rfl (.inl ⟨hown, rfl⟩) hs rfl
    · cases hs
  | deliver u m time c =>
    dsimp only at hs
    split at hs
    · next hm => exact hevent rfl (.inr ⟨m, c, rfl, hm, rfl⟩) hs rfl
    · cases hs
  | transmit u pkt targets inRange =>
    dsimp only at hs
    split at hs
    · next hok =>
      cases hs
      exact .transmit hok.1 hok.2.2.1 hnet (hroles rfl) rfl
    · cases hs
  | collect m =>
    dsimp only at hs
    split at hs
    · cases hs
      exact .collect hnet (hroles rfl) rfl
    · cases hs

/-! ## A packet goes on the air -/

section
variable {s : Net} {targets : List Uid} {inRange : Bool} {pkt : Packet} {sender : Prover}

theorem radiate_now : (s.radiate sender targets inRange pkt).now = s.now := by
  unfold radiate
  split
  · rfl
  · split <;> rfl
  · rfl
  · rfl

/-- What is on the air stays there. -/
theorem mem_radiate {a : Uid × Msg} (ha : a ∈ s.air) :
    a ∈ (s.radiate sender targets inRange pkt).air := by
  unfold radiate
  split
  · exact List.mem_append_left _ ha
  · split
    · exact ha
    · exact List.mem_append_left _ ha
  · exact List.mem_append_left _ ha
  · exact ha

/-- An ack on the air was there or is the packet. -/
theorem ack_of_radiate {v : Uid} {m : CommitAck}
    (hm : (v, .commitAck m) ∈ (s.radiate sender targets inRange pkt).air) :
    (v, .commitAck m) ∈ s.air ∨ pkt = .prover (.commitAck m) ∧ v = m.destination := by
  unfold radiate at hm
  split at hm
  · refine (List.mem_append.mp hm).imp_right fun hm => ?_
    obtain ⟨w, -, hw⟩ := List.mem_map.mp hm
    cases hw
  · split at hm
    · exact .inl hm
    · refine (List.mem_append.mp hm).imp_right fun hm => ?_
      cases List.mem_singleton.mp hm
  · refine (List.mem_append.mp hm).imp_right fun hm => ?_
    cases List.mem_singleton.mp hm
    exact ⟨rfl, rfl⟩
  · exact .inl hm

end

/-- A report that is handed over goes on the air, unless it is lost. -/
theorem inTransit_radiate {s : Net} {pkt : Packet} {targets : List Uid} {inRange : Bool}
    (hcfg : ∀ v, (s.prover v).cfg = D.cfg v)
    (hkeep : p = u → (!inRange && pkt.isReport) = false) (h : InTransit q p s) :
    InTransit q p ((s.takePacket u pkt).radiate (s.prover u) targets inRange pkt) := by
  rcases h with ⟨hc, hpost⟩ | ⟨a, ha, hq, hr⟩
  · by_cases hp : p = u
    · subst hp
      have hself : ((s.takePacket p pkt).radiate (s.prover p) targets inRange pkt).prover p =
          { s.prover p with out := (s.prover p).out.erase pkt } := by
        rw [radiate_prover]
        exact Function.update_self ..
      rcases hpost with ⟨o, ho, hr⟩ | ⟨pkt', hmem, hr⟩
      · refine .inl ?_
        rw [hself]
        exact ⟨hc, .inl ⟨o, ho, hr⟩⟩
      · by_cases he : pkt' = pkt
        · -- the report itself
          subst he
          rw [hcfg, D.uid_eq] at hr
          cases pkt' with
          | creqmsg => cases hr
          | collector m => cases hr
          | prover m =>
            cases m with
            | commitReq m => cases hr
            | commitResp m => cases hr
            | commitAck m => cases hr
            | updateReq m =>
              have hm := hr
              simp only [Packet.reportsTo, Msg.reportsTo, Bool.and_eq_true, beq_iff_eq] at hm
              have hin : inRange = true := by
                have := hkeep rfl
                simpa [Packet.isReport, Msg.isReport, hm.1.1] using this
              refine .inr ⟨(m.destination, .updateReq m), ?_, hm.2, hr⟩
              simp only [radiate, hin, not_true, and_false, if_false]
              exact List.mem_append_right _ (List.mem_singleton_self _)
        · refine .inl ?_
          rw [hself]
          exact ⟨hc, .inr ⟨pkt', (List.mem_erase_of_ne he).mpr hmem, hr⟩⟩
    · refine .inl ?_
      rw [radiate_prover]
      rw [show (s.takePacket u pkt).prover p = s.prover p from Function.update_of_ne hp ..]
      exact ⟨hc, hpost⟩
  · exact .inr ⟨a, mem_radiate ha, hq, hr⟩

end

end Chronicle

end Net

end Fadia
