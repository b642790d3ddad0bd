import Fadia.Devices.Network
import Fadia.Lib.Counting
import Fadia.Lib.Runs
import Fadia.Proof.ProverSteps

/-!
# What one event does to the network

A prover takes an event, which a message may have caused, a prover's packet goes on
the air, or the collector handles a report (`moves_of_step`).
-/

namespace Fadia

theorem Deployment.mem_ids {D : Deployment} {u : Uid} (h : u ∈ D.ids) : 1 ≤ u ∧ u < MAXUID := by
  have hsize := D.size_lt
  obtain ⟨i, hi, rfl⟩ := List.mem_range'.mp h
  have hle : (1 + 1 * i : Nat) ≤ D.size := by omega
  exact ⟨Nat.le_add_right 1 _, Nat.lt_of_le_of_lt hle hsize⟩

theorem Deployment.ne_of_mem {D : Deployment} {u : Uid} (h : u ∈ D.ids) : u ≠ NOID := fun he => by
  have := (D.mem_ids h).1
  rw [he] at this
  cases this

namespace Net

variable {D : Deployment}

/-- The condition on the events that provers take. -/
def Locally (ok : Prover.Event → Prover → Prop) (e : NetEvent) (s : Net) : Prop :=
  ∀ u ev, e.localEvent = some (u, ev) → ok ev (s.prover u)

instance (ok : Prover.Event → Prover → Prop) [∀ e p, Decidable (ok e p)] (e : NetEvent) (s : Net) :
    Decidable (Locally ok e s) :=
  match h : e.localEvent with
  | none => .isTrue fun u ev he => by rw [h] at he; cases he
  | some (u, ev) =>
    decidable_of_iff (ok ev (s.prover u)) ⟨fun hk u' ev' he => by rw [h] at he; cases he; exact hk,
      fun hk => hk u ev h⟩

/-- How an event leads from `s` to `s'`. -/
inductive Moves (D : Deployment) (e : NetEvent) (s s' : Net) : Prop
  | event {u : Uid} {ev : Prover.Event} {p' : Prover} {air : List (Uid × Msg)} (hu : u ∈ D.ids)
      (hloc : e.localEvent = some (u, ev)) (hstep : Prover.step ev (s.prover u) = some p')
      (hair : ev.act.Own ∧ air = s.air ∨
        ∃ m c, ev.act = .recv m c ∧ (u, m) ∈ s.air ∧ air = s.air.erase (u, m))
      (he : s' = { s.setProver u p' with now := ev.time, air := air })
  | transmit {u : Uid} {pkt : Packet} {targets : List Uid} {inRange : Bool} (hu : u ∈ D.ids)
      (hloc : e.localEvent = none) (hpkt : pkt ∈ (s.prover u).out)
      (hnodup : targets.Nodup) (htargets : ∀ v ∈ targets, v ∈ D.ids ∧ v ≠ u)
      (he : s' = (s.takePacket u pkt).radiate (s.prover u) targets inRange pkt)
  | collect {m : UpdateReq} (hloc : e.localEvent = none) (hm : m ∈ s.toColl)
      (he : s' = { s with toColl := s.toColl.erase m, handled := s.handled ++ [m] })

theorem event_cases {u : Uid} {e : Prover.Event} {s s' : Net} (h : s.event D u e = some s') :
    u ∈ D.ids ∧ ∃ p', Prover.step e (s.prover u) = some p' ∧
      s' = { s.setProver u p' with now := e.time } := by
  unfold event at h
  split at h
  · next hok =>
    obtain ⟨p', hp, he⟩ := Option.map_eq_some_iff.mp h
    exact ⟨hok.1, p', hp, he.symm⟩
  · cases h

/-- **What an event does.** -/
theorem moves_of_step {e : NetEvent} {s s' : Net} (h : step D e s = some s') :
    s.halted = false ∧ Moves D e s s' := by
  unfold step at h
  split at h
  · cases h
  next hhalt =>
  refine ⟨by simpa using hhalt, ?_⟩
  cases e with
  | prover u ev =>
    dsimp only at h
    split at h
    · next hown =>
      obtain ⟨hu, p', hp, he⟩ := event_cases h
      exact .event hu rfl hp (.inl ⟨hown, rfl⟩) he
    · cases h
  | deliver u m time c =>
    dsimp only at h
    split at h
    · next hmem =>
      obtain ⟨hu, p', hp, he⟩ := event_cases h
      exact .event hu rfl hp (.inr ⟨m, c, rfl, hmem, rfl⟩) he
    · cases h
  | transmit u pkt targets inRange =>
    dsimp only at h
    split at h
    · next hok =>
      cases h
      exact .transmit hok.1 rfl hok.2.2.1 hok.2.2.2.1 hok.2.2.2.2 rfl
    · cases h
  | collect m =>
    dsimp only at h
    split at h
    · next hm =>
      cases h
      exact .collect rfl hm rfl
    · cases h

section
variable {u v : Uid} {p : Prover} {s : Net}

@[simp] theorem setProver_self : (s.setProver u p).prover u = p := Function.update_self ..

theorem setProver_of_ne (h : v ≠ u) : (s.setProver u p).prover v = s.prover v :=
  Function.update_of_ne h ..

theorem nodup_ids : D.ids.Nodup := List.nodup_range'

/-- A sum over the provers when one of them changes. -/
theorem sum_setProver (hu : u ∈ D.ids) (f : Prover → Nat) :
    (D.ids.map fun v => f ((s.setProver u p).prover v)).sum + f (s.prover u) =
      (D.ids.map fun v => f (s.prover v)).sum + f p := by
  have hsum := Counting.sum_map_of_ne (f := fun v => f ((s.setProver u p).prover v))
    (g := fun v => f (s.prover v)) nodup_ids hu fun v _ hne => by rw [setProver_of_ne hne]
  rwa [setProver_self] at hsum

/-- A prover whose packet is taken changes in nothing else. -/
theorem takePacket_prover (u : Uid) (pkt : Packet) (v : Uid) : ∃ out,
    out.Sublist (s.prover v).out ∧ (s.takePacket u pkt).prover v = { s.prover v with out := out } := by
  by_cases he : v = u
  · rw [he]
    exact ⟨_, List.erase_sublist, Function.update_self ..⟩
  · exact ⟨_, List.Sublist.refl _, Function.update_of_ne he ..⟩

@[simp] theorem radiate_prover (targets : List Uid) (inRange : Bool) (pkt : Packet) :
    (s.radiate p targets inRange pkt).prover = s.prover := by
  cases pkt with
  | prover m =>
    cases m with
    | updateReq m =>
      simp only [radiate]
      split <;> rfl
    | _ => rfl
  | _ => rfl

/-- **Invariant rule for the provers.**  What every event of a prover keeps, whatever it has handed
over, holds of the provers in every run of the network. -/
theorem prover_invariant {ok : Prover.Event → Prover → Prop} {I : Uid → Prover → Prop}
    (h0 : ∀ u ∈ D.ids, I u (Prover.init (D.cfg u) (D.start u)))
    (hstep : ∀ u ev p p', I u p → ok ev p → Prover.step ev p = some p' → I u p')
    (hout : ∀ u p out, I u p → I u { p with out := out })
    (h : Runs.Reaches (step D) (Locally ok) (init D) s) : ∀ u ∈ D.ids, I u (s.prover u) := by
  refine h.invariant (I := fun s => ∀ u ∈ D.ids, I u (s.prover u)) h0 ?_
  intro e s s' ih hok hs v hv
  obtain ⟨-, hmoves⟩ := moves_of_step hs
  cases hmoves with
  | @event u ev p' air hu hloc hstep' hair he =>
    subst he
    change I v ((s.setProver u p').prover v)
    by_cases hvu : v = u
    · subst hvu
      rw [setProver_self]
      exact hstep v ev _ _ (ih v hv) (hok v ev hloc) hstep'
    · rw [setProver_of_ne hvu]
      exact ih v hv
  | @transmit u pkt targets inRange hu hloc hpkt _ _ he =>
    subst he
    obtain ⟨out, -, hp⟩ := takePacket_prover (s := s) u pkt v
    rw [radiate_prover, hp]
    exact hout v _ _ (ih v hv)
  | @collect m hloc hm he =>
    subst he
    exact ih v hv

end

/-! ## Provers with a key in common -/

def askMsg (q : Uid) (depth : Nat) (t : TreeId) : Msg := .commitReq ⟨q, depth, [5], t⟩
def respMsg (p q : Uid) (t : TreeId) : Msg := .commitResp ⟨p, q, 5, t, 0, 5⟩
def ackMsg (q p : Uid) (t : TreeId) : Msg := .commitAck ⟨q, p, t, 0, 5⟩

/-- Provers 1 and 2 with key 5 in common; `deltag` is 4 s. -/
def twoProvers : Deployment where
  size := 2
  cfg := fun u => ⟨u, [5], 1, 32 * second, 2, .SKY, fun m _ => m.mac == 0, fun _ _ _ => 0⟩
  start := fun u => if u = 1 then 0 else 3 * second
  size_lt := by decide
  uid_eq := fun _ => rfl

/-- Prover 1 starts a tree and acknowledges prover 2. -/
def joinRun : List NetEvent :=
  [.prover 1 ⟨0, .timer .startmsg { delay := 4 * second }⟩,
   .prover 1 ⟨1960 * 10 ^ 9, .timer .checkdelaymsg {}⟩,
   .prover 2 ⟨3 * second, .timer .startmsg { delay := 4 * second }⟩,
   .prover 2 ⟨4960 * 10 ^ 9, .timer .checkdelaymsg {}⟩,
   .prover 1 ⟨5960 * 10 ^ 9, .timer .mktreetimer { treeID := 7 }⟩,
   .prover 1 ⟨5960 * 10 ^ 9, .timer .creqmsg {}⟩,
   .transmit 1 .creqmsg [2] true,
   .deliver 2 (askMsg 1 1 7) (6 * second) {},
   .prover 2 ⟨6067073604000, .self 4 {}⟩,
   .transmit 2 (.prover (respMsg 2 1 7)) [] true,
   .deliver 1 (respMsg 2 1 7) (7 * second) {}]

end Net

end Fadia
