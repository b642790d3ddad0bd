import Fadia.Proof.RecordCount
import Fadia.Proof.NetworkSteps
import Mathlib

/-!
# The collector counts each record once

In every run of the network in which no prover with children is made a leaf, each
prover sends one report for each attestation and at most one entry of all that the
collector handles carries a given record (`counted_once`).  `total x s` counts the
places in which the record `x` is; it never exceeds `made x s`, which is 1 once the
prover has made it.
-/

namespace Fadia

open Traces

/-- The prover receives a `CommitAck`. -/
def Prover.Event.isAck (e : Prover.Event) : Bool :=
  match e.act with
  | .recv (.commitAck _) _ => true
  | _ => false

namespace Net

/-- Sources are real provers and a prover begins fewer than 2^31 rounds. -/
def Regular (e : NetEvent) (s : Net) : Prop := Locally Prover.Regular e s

instance (e : NetEvent) (s : Net) : Decidable (Regular e s) :=
  inferInstanceAs (Decidable (Locally _ e s))

/-- No prover with children is made a leaf. -/
def KeepsChildren (e : NetEvent) (s : Net) : Prop :=
  Regular e s ∧ Locally (fun ev p => ¬ p.LeavesChildren ev) e s

/-- How often the record `x` is held or under way. -/
def total (D : Deployment) (x : Uid × Nat) (s : Net) : Nat :=
  (D.ids.map fun u => (s.prover u).held x).sum + (s.air.flatMap (·.2.entries)).count x +
    (s.toColl.flatMap UpdateReq.entries).count x + (s.handled.flatMap UpdateReq.entries).count x

/-- The record `x` was made. -/
def made (D : Deployment) (x : Uid × Nat) (s : Net) : Nat :=
  (D.ids.map fun u => (s.prover u).made x).sum

/-- The invariant of the network. -/
structure Orderly (D : Deployment) (s : Net) : Prop where
  cfg : ∀ u, (s.prover u).cfg = D.cfg u
  orderly : ∀ u ∈ D.ids, (s.prover u).Orderly
  records : ∀ x : Uid × Nat, x.1 ≠ NOID → total D x s ≤ made D x s

variable {D : Deployment}

section
variable {s s' : Net} {u : Uid} {x : Uid × Nat}

theorem uid_of_made (h : ∀ u, (s.prover u).cfg = D.cfg u) (hm : 0 < (s.prover u).made x) :
    x.1 = u ∧ x.2 ≤ (s.prover u).attestcount := by
  rw [Prover.made] at hm
  split at hm
  · next hx =>
    rw [h u, D.uid_eq] at hx
    exact ⟨hx.1, hx.2.2⟩
  · cases hm

/-- A record is made once. -/
theorem made_le (h : ∀ u, (s.prover u).cfg = D.cfg u) (x : Uid × Nat) : made D x s ≤ 1 := by
  have hle := Counting.sum_map_le (f := fun u => (s.prover u).made x) (a := x.1) (nodup_ids (D := D))
    fun u _ hne => Nat.eq_zero_of_not_pos fun hpos => hne (uid_of_made h hpos).1.symm
  refine hle.trans ?_
  rw [Prover.made]
  split <;> omega

/-- What is held somewhere survives the wire. -/
theorem Orderly.fitting (h : Orderly D s) (hx : x.1 ≠ NOID) (hpos : 0 < total D x s) : Fitting x := by
  obtain ⟨u, hu, hm⟩ := Counting.exists_pos_of_sum_map (Nat.lt_of_lt_of_le hpos (h.records x hx))
  obtain ⟨huid, hle⟩ := uid_of_made h.cfg hm
  refine ⟨?_, Nat.lt_of_le_of_lt hle (h.orderly u hu).made_lt⟩
  rw [huid]
  exact (D.mem_ids hu).2.trans (by decide)

/-- **A prover takes an event.** -/
theorem Orderly.event (h : Orderly D s) {ev : Prover.Event} {p' : Prover} {air : List (Uid × Msg)}
    (hu : u ∈ D.ids) (hstep : Prover.step ev (s.prover u) = some p')
    (hok : Prover.Regular ev (s.prover u)) (hleaf : ¬ (s.prover u).LeavesChildren ev)
    (hair : ev.act.Own ∧ air = s.air ∨
      ∃ m c, ev.act = .recv m c ∧ (u, m) ∈ s.air ∧ air = s.air.erase (u, m)) :
    Orderly D { s.setProver u p' with now := ev.time, air := air } := by
  have hp' := (h.orderly u hu).step hok hleaf hstep
  have hsum := sum_setProver (s := s) (p := p') hu
  -- what is received leaves the air
  have hrecv : ∀ y : Uid × Nat, (air.flatMap (·.2.entries)).count y +
      (Prover.received ev.report).count y = (s.air.flatMap (·.2.entries)).count y := by
    intro y
    rcases hair with ⟨hown, rfl⟩ | ⟨m, c, hact, hmem, rfl⟩
    · have hnone : ev.report = none := by
        rw [Prover.Event.report]
        split
        · next hact =>
          rw [hact] at hown
          exact hown.elim
        · rfl
      rw [hnone]
      rfl
    · have hrep : Prover.received ev.report = m.entries := by
        rw [Prover.Event.report, hact]
        cases m <;> simp [Msg.report, Prover.received, Msg.entries]
      have := Counting.count_flatMap_erase (fun a : Uid × Msg => a.2.entries) y hmem
      dsimp only at this
      rw [hrep]
      omega
  have hheld : ∀ y : Uid × Nat, (s.prover u).held y ≤ (D.ids.map fun v => (s.prover v).held y).sum :=
    fun y => List.single_le_sum (fun _ _ => Nat.zero_le _) _ (List.mem_map.mpr ⟨u, hu, rfl⟩)
  refine ⟨fun v => ?_, fun v hv => ?_, fun x hx => ?_⟩
  · by_cases he : v = u
    · change ((s.setProver u p').prover v).cfg = _
      rw [he, setProver_self, Prover.step_cfg hstep, h.cfg]
    · change ((s.setProver u p').prover v).cfg = _
      rw [setProver_of_ne he, h.cfg]
  · by_cases he : v = u
    · change ((s.setProver u p').prover v).Orderly
      rw [he, setProver_self]
      exact hp'
    · change ((s.setProver u p').prover v).Orderly
      rw [setProver_of_ne he]
      exact h.orderly v hv
  · have huid : (s.prover u).cfg.UId < 2 ^ 32 := by
      rw [h.cfg, D.uid_eq]
      exact (D.mem_ids hu).2.trans (by decide)
    have hbal := Prover.held_step (h.orderly u hu) hstep hp'.oneReport hx huid fun y hy hpos => by
      refine h.fitting hy ?_
      have h1 := hrecv y
      have h2 := hheld y
      rw [total]
      omega
    have hs1 := hsum fun p => p.held x
    have hs2 := hsum fun p => p.made x
    have hold := h.records x hx
    have hx1 := hrecv x
    rw [total, made] at hold ⊢
    change (D.ids.map fun v => ((s.setProver u p').prover v).held x).sum +
      (air.flatMap (·.2.entries)).count x + (s.toColl.flatMap UpdateReq.entries).count x +
      (s.handled.flatMap UpdateReq.entries).count x ≤
        (D.ids.map fun v => ((s.setProver u p').prover v).made x).sum
    omega

/-- What goes on the air for a packet. -/
theorem count_radiate (p : Prover) (targets : List Uid) (inRange : Bool) (pkt : Packet)
    (x : Uid × Nat) :
    ((s.radiate p targets inRange pkt).air.flatMap (·.2.entries)).count x +
        ((s.radiate p targets inRange pkt).toColl.flatMap UpdateReq.entries).count x ≤
      (s.air.flatMap (·.2.entries)).count x + (s.toColl.flatMap UpdateReq.entries).count x +
        pkt.entries.count x := by
  cases pkt with
  | creqmsg =>
    have hnil : ((targets.map fun v => (v, Msg.commitReq p.creqmsg)).flatMap fun a : Uid × Msg =>
        a.2.entries) = [] := by
      simp [List.flatMap_eq_nil_iff, Msg.entries]
    simp only [radiate, List.flatMap_append, List.count_append, hnil, List.count_nil]
    omega
  | collector m =>
    simp only [radiate, List.flatMap_append, List.count_append, List.flatMap_cons,
      List.flatMap_nil, List.append_nil, Packet.entries]
    omega
  | prover m =>
    have hair : ∀ m : Msg, (((s.air ++ [(m.destination, m)]).flatMap (·.2.entries)).count x) =
        (s.air.flatMap (·.2.entries)).count x + m.entries.count x := fun m => by
      simp [List.flatMap_append]
    cases m with
    | updateReq m =>
      simp only [radiate, Packet.entries]
      split
      · simp only [List.flatMap_append, List.count_append, List.flatMap_cons, List.flatMap_nil,
          List.append_nil]
        change _ + (_ + m.entries.count x) ≤ _ + _ + m.entries.count x
        omega
      · have := hair (.updateReq m)
        simp only [Msg.destination] at this
        simp only [this]
        omega
    | commitReq m => simp only [radiate, hair, Packet.entries]; omega
    | commitResp m => simp only [radiate, hair, Packet.entries]; omega
    | commitAck m => simp only [radiate, hair, Packet.entries]; omega

theorem radiate_handled (p : Prover) (targets : List Uid) (inRange : Bool) (pkt : Packet) :
    (s.radiate p targets inRange pkt).handled = s.handled := by
  cases pkt with
  | prover m =>
    cases m with
    | updateReq m =>
      simp only [radiate]
      split <;> rfl
    | _ => rfl
  | _ => rfl

/-- A packet goes on the air. -/
theorem Orderly.transmit (h : Orderly D s) {pkt : Packet} (hu : u ∈ D.ids)
    (hpkt : pkt ∈ (s.prover u).out) (targets : List Uid) (inRange : Bool) :
    Orderly D ((s.takePacket u pkt).radiate (s.prover u) targets inRange pkt) := by
  have hself : (s.takePacket u pkt).prover u =
      { s.prover u with out := (s.prover u).out.erase pkt } := Function.update_self ..
  have hother : ∀ v, v ≠ u → (s.takePacket u pkt).prover v = s.prover v := fun v hne =>
    Function.update_of_ne hne ..
  refine ⟨fun v => ?_, fun v hv => ?_, fun x hx => ?_⟩
  · rw [radiate_prover]
    by_cases he : v = u
    · rw [he, hself]
      exact h.cfg u
    · rw [hother v he]
      exact h.cfg v
  · rw [radiate_prover]
    by_cases he : v = u
    · rw [he, hself]
      exact (h.orderly u hu).of_out _
    · rw [hother v he]
      exact h.orderly v hv
  · have hheld : ((s.takePacket u pkt).prover u).held x + pkt.entries.count x =
        (s.prover u).held x := by
      have := Counting.count_flatMap_erase Packet.entries x hpkt
      rw [hself]
      simp only [Prover.held, Prover.carried, List.count_append]
      omega
    have hs1 := Counting.sum_map_of_ne (f := fun v => ((s.takePacket u pkt).prover v).held x)
      (g := fun v => (s.prover v).held x) nodup_ids hu fun v _ hne => by rw [hother v hne]
    have hs2 : made D x (s.takePacket u pkt) = made D x s := by
      refine congrArg List.sum (List.map_congr_left fun v _ => ?_)
      obtain ⟨out, -, he⟩ := takePacket_prover (s := s) u pkt v
      rw [he]
      rfl
    have hrad := count_radiate (s := s.takePacket u pkt) (s.prover u) targets inRange pkt x
    have hold := h.records x hx
    rw [total] at hold ⊢
    rw [made, radiate_prover, radiate_handled]
    change _ ≤ made D x (s.takePacket u pkt)
    rw [hs2]
    refine Nat.le_trans ?_ hold
    have hair : (s.takePacket u pkt).air = s.air := rfl
    have hcoll : (s.takePacket u pkt).toColl = s.toColl := rfl
    have hdone : (s.takePacket u pkt).handled = s.handled := rfl
    rw [hair, hcoll] at hrad
    rw [hdone]
    omega

theorem orderly_init : Orderly D (init D) := by
  refine ⟨fun _ => rfl, fun u _ => Prover.orderly_init _ _, fun x _ => ?_⟩
  have hzero : ∀ u ∈ D.ids, ((init D).prover u).held x = 0 := fun u _ => rfl
  rw [total, List.map_congr_left hzero]
  simp [init]

/-- **One event.** -/
theorem Orderly.step {e : NetEvent} (h : Orderly D s) (hok : KeepsChildren e s) (hs : Moves D e s s') :
    Orderly D s' := by
  cases hs with
  | event hu hloc hstep hair he =>
    rw [he]
    exact h.event hu hstep (hok.1 _ _ hloc) (hok.2 _ _ hloc) hair
  | transmit hu hloc hpkt _ _ he =>
    rw [he]
    exact h.transmit hu hpkt _ _
  | @collect m _ hm he =>
    rw [he]
    refine ⟨h.cfg, h.orderly, fun x hx => ?_⟩
    have hold := h.records x hx
    have herase := Counting.count_flatMap_erase UpdateReq.entries x hm
    rw [total] at hold ⊢
    simp only [List.flatMap_append, List.count_append, List.flatMap_cons, List.flatMap_nil,
      List.append_nil]
    change _ ≤ made D x s
    omega

/-- **Each record is counted once.**  In every run in which no prover with children is
made a leaf, each prover sends one report for each attestation, and at most one entry
of all that the collector handles carries a given record. -/
theorem counted_once {s : Net} (h : Runs.Reaches (Net.step D) KeepsChildren (init D) s) :
    (∀ u ∈ D.ids, OneReport (s.prover u).log) ∧
      ∀ x : Uid × Nat, x.1 ≠ NOID → (s.handled.flatMap UpdateReq.entries).count x ≤ 1 := by
  have hord : Orderly D s := h.invariant orderly_init fun e s s' ih hok hs =>
    ih.step hok (moves_of_step hs).2
  refine ⟨fun u hu => (hord.orderly u hu).oneReport, fun x hx => ?_⟩
  have h1 := hord.records x hx
  have h2 := made_le hord.cfg x
  rw [total] at h1
  omega

end

/-- An event that is no ack, or a prover without children. -/
theorem not_leavesChildren {e : Prover.Event} {p : Prover}
    (h : e.isAck = false ∨ ∀ k ∈ p.csessions.keys, k = NOID) : ¬ p.LeavesChildren e := by
  rintro ⟨m, c, parent, hact, -, -, k, hne, hk⟩
  rcases h with hno | hkeys
  · rw [Prover.Event.isAck, hact] at hno
    cases hno
  · exact hne (hkeys k (AList.mem_keys.mp hk))

/-- Prover 2 reports to prover 1, which merges the report and sends its own. -/
def mergedReport : List NetEvent :=
  joinRun ++
    [.prover 1 ⟨7133198816000, .self 6 {}⟩,
     .transmit 1 (.prover (ackMsg 1 2 7)) [] true,
     .deliver 2 (ackMsg 1 2 7) (8 * second) {},
     .prover 2 ⟨8139837560000, .self 6 {}⟩,
     .transmit 2 (.prover (.updateReq ⟨.UPRQ, 2, 1, [2], [1], 7, 0, 5, [0]⟩)) [] true,
     .deliver 1 (.updateReq ⟨.UPRQ, 2, 1, [2], [1], 7, 0, 5, [0]⟩) (9 * second) {},
     .prover 1 ⟨9147424696000, .self 8 {}⟩,
     .transmit 1 (.collector ⟨.UPRQC, 1, 1, [2, 1, 0], [1, 1, 0], 7, 0, ckey, [0]⟩) [] true,
     .collect ⟨.UPRQC, 1, 1, [2, 1, 0], [1, 1, 0], 7, 0, ckey, [0]⟩]

/-- The collector counts both records of `mergedReport`, each once. -/
theorem counted_once_merged : ∃ s : Net,
    (∀ x ∈ [(1, 1), (2, 1)], x ∈ s.handled.flatMap UpdateReq.entries ∧
      (s.handled.flatMap UpdateReq.entries).count x ≤ 1) ∧
    ∀ u ∈ twoProvers.ids, OneReport (s.prover u).log := by
  obtain ⟨s, hs, ht⟩ := Runs.exists_of_run (Net.step twoProvers)
    (fun e s => Regular e s ∧ Locally (fun ev p => ev.isAck = false ∨
      ∀ k ∈ p.csessions.keys, k = NOID) e s)
    mergedReport (init twoProvers)
    (fun s => (1, 1) ∈ s.handled.flatMap UpdateReq.entries ∧
      (2, 1) ∈ s.handled.flatMap UpdateReq.entries) (by decide +kernel)
  have hs' : Runs.Reaches (Net.step twoProvers) KeepsChildren (init twoProvers) s :=
    hs.weaken fun e s hok => ⟨hok.1, fun u ev hloc => not_leavesChildren (hok.2 u ev hloc)⟩
  obtain ⟨h1, h2⟩ := of_decide_eq_true ht
  obtain ⟨hone, hcount⟩ := counted_once hs'
  refine ⟨s, fun x hx => ?_, hone⟩
  rcases List.mem_pair.mp hx with rfl | rfl
  · exact ⟨h1, hcount _ (by decide)⟩
  · exact ⟨h2, hcount _ (by decide)⟩

/-! ## Two reports in one round -/

/-- Four provers with key 5 in common; `deltag`, and so every tree delay, is 4 s. -/
def fourProvers : Deployment where
  size := 4
  cfg := fun u => ⟨u, [5], 2, 48 * second, 1, .SKY, fun m _ => m.mac == 0, fun _ _ _ => 0⟩
  start := fun u =>
    if u = 1 then 5 * second else if u = 2 then 0 else if u = 3 then 4 * second else 10 * second
  size_lt := by decide
  uid_eq := fun _ => rfl

/-- The report of a prover without children, its `n`-th. -/
def ownReport (u : Uid) (n : Nat) (t : TreeId) : Packet :=
  .collector ⟨.UPRQC, u, 1, [u, 0], [n, 0], t, 0, ckey, [0]⟩

/-- The acks for the two answers of prover 1 to prover 2 reach it in its second round, at 62.8 s
and at 94.9 s, so it opens its window again until 106.9 s, in its third round.  There the
window's timer fires while it waits for another ack, `mktreetimer` makes it take child 4, the ack
times out, and as a child of prover 3 it is a leaf with a child. -/
def staleWindow : List NetEvent :=
  [.prover 2 ⟨0, .timer .startmsg { delay := 4 * second }⟩,
   .prover 2 ⟨1960 * 10 ^ 9, .timer .checkdelaymsg {}⟩,
   .prover 3 ⟨4 * second, .timer .startmsg { delay := 4 * second }⟩,
   .prover 1 ⟨5 * second, .timer .startmsg { delay := 4 * second }⟩,
   .prover 2 ⟨5960 * 10 ^ 9, .timer .mktreetimer { treeID := 21 }⟩,
   .prover 2 ⟨5960 * 10 ^ 9, .timer .creqmsg {}⟩,
   .transmit 2 .creqmsg [1] true,
   .prover 3 ⟨5960 * 10 ^ 9, .timer .checkdelaymsg {}⟩,
   .prover 1 ⟨6960 * 10 ^ 9, .timer .checkdelaymsg {}⟩,
   .deliver 1 (askMsg 2 2 21) (7 * second) {},
   .prover 1 ⟨7067073604000, .self 4 {}⟩,
   .transmit 1 (.prover (respMsg 1 2 21)) [] true,
   .deliver 2 (respMsg 1 2 21) (8 * second) {},
   .prover 2 ⟨8133198816000, .self 6 {}⟩,
   .transmit 2 (.prover (ackMsg 2 1 21)) [] true,
   .prover 3 ⟨9960 * 10 ^ 9, .timer .mktreetimer { treeID := 31 }⟩,
   .prover 3 ⟨9960 * 10 ^ 9, .timer .creqmsg {}⟩,
   .transmit 3 .creqmsg [] true,
   .prover 4 ⟨10 * second, .timer .startmsg { delay := 4 * second }⟩,
   .prover 1 ⟨10960 * 10 ^ 9, .timer .mktreetimer {}⟩,
   .prover 1 ⟨11 * second, .timer .cacktomsg { treeID := 11 }⟩,
   .prover 1 ⟨11 * second, .timer .creqmsg {}⟩,
   .transmit 1 .creqmsg [] true,
   .prover 4 ⟨11960 * 10 ^ 9, .timer .checkdelaymsg {}⟩,
   .prover 4 ⟨15960 * 10 ^ 9, .timer .mktreetimer { treeID := 41 }⟩,
   .prover 4 ⟨15960 * 10 ^ 9, .timer .creqmsg {}⟩,
   .transmit 4 .creqmsg [] true,
   .prover 2 ⟨17960 * 10 ^ 9, .timer .cresptomsg {}⟩,
   .prover 3 ⟨21960 * 10 ^ 9, .timer .cresptomsg {}⟩,
   .prover 3 ⟨22033712348000, .self 6 {}⟩,
   .transmit 3 (ownReport 3 1 31) [] true,
   .prover 1 ⟨23 * second, .timer .cresptomsg {}⟩,
   .prover 1 ⟨23073712348000, .self 8 {}⟩,
   .transmit 1 (ownReport 1 1 11) [] true,
   .prover 4 ⟨27960 * 10 ^ 9, .timer .cresptomsg {}⟩,
   .prover 4 ⟨28033712348000, .self 6 {}⟩,
   .transmit 4 (ownReport 4 1 41) [] true,
   .prover 2 ⟨36 * second, .upto 7⟩,
   .prover 2 ⟨36073712348000, .self 8 {}⟩,
   .transmit 2 (ownReport 2 1 21) [] true,
   .prover 2 ⟨48 * second, .timer .attesttimer { delay := 4 * second }⟩,
   .prover 2 ⟨49960 * 10 ^ 9, .timer .checkdelaymsg {}⟩,
   .prover 3 ⟨52 * second, .timer .attesttimer { delay := 4 * second }⟩,
   .prover 1 ⟨53 * second, .timer .attesttimer { delay := 4 * second }⟩,
   .prover 2 ⟨53960 * 10 ^ 9, .timer .mktreetimer { treeID := 22 }⟩,
   .prover 2 ⟨53960 * 10 ^ 9, .timer .creqmsg {}⟩,
   .transmit 2 .creqmsg [1] true,
   .prover 3 ⟨53960 * 10 ^ 9, .timer .checkdelaymsg {}⟩,
   .prover 1 ⟨54960 * 10 ^ 9, .timer .checkdelaymsg {}⟩,
   .prover 3 ⟨57960 * 10 ^ 9, .timer .mktreetimer { treeID := 32 }⟩,
   .prover 3 ⟨57960 * 10 ^ 9, .timer .creqmsg {}⟩,
   .transmit 3 .creqmsg [] true,
   .prover 4 ⟨58 * second, .timer .attesttimer { delay := 4 * second }⟩,
   .deliver 1 (askMsg 2 2 22) (58900 * 10 ^ 9) {},
   .prover 1 ⟨58960 * 10 ^ 9, .timer .mktreetimer {}⟩,
   .prover 1 ⟨58967073604000, .self 12 {}⟩,
   .transmit 1 (.prover (respMsg 1 2 22)) [] true,
   .prover 4 ⟨59960 * 10 ^ 9, .timer .checkdelaymsg {}⟩,
   .deliver 2 (respMsg 1 2 22) (60 * second) {},
   .prover 2 ⟨60133198816000, .self 14 {}⟩,
   .transmit 2 (.prover (ackMsg 2 1 22)) [] true,
   .deliver 1 (ackMsg 2 1 21) (62800 * 10 ^ 9) {},
   .prover 1 ⟨62800 * 10 ^ 9, .timer .creqmsg {}⟩,
   .transmit 1 .creqmsg [4] true,
   .deliver 4 (askMsg 1 1 21) (63 * second) {},
   .prover 4 ⟨63067073604000, .self 10 {}⟩,
   .transmit 4 (.prover (respMsg 4 1 21)) [] true,
   .prover 4 ⟨63960 * 10 ^ 9, .timer .mktreetimer {}⟩,
   .prover 2 ⟨65960 * 10 ^ 9, .timer .cresptomsg {}⟩,
   .prover 4 ⟨67 * second, .timer .cacktomsg { treeID := 42 }⟩,
   .prover 4 ⟨67 * second, .timer .creqmsg {}⟩,
   .transmit 4 .creqmsg [] true,
   .deliver 1 (respMsg 4 1 21) (68 * second) {},
   .prover 1 ⟨68199324028000, .self 16 {}⟩,
   .transmit 1 (.prover (ackMsg 1 4 21)) [] true,
   .prover 3 ⟨69960 * 10 ^ 9, .timer .cresptomsg {}⟩,
   .prover 3 ⟨70033712348000, .self 12 {}⟩,
   .transmit 3 (ownReport 3 2 32) [] true,
   .prover 1 ⟨74800 * 10 ^ 9, .timer .cresptomsg {}⟩,
   .prover 4 ⟨79 * second, .timer .cresptomsg {}⟩,
   .prover 4 ⟨79073712348000, .self 14 {}⟩,
   .transmit 4 (ownReport 4 2 42) [] true,
   .prover 2 ⟨88 * second, .upto 15⟩,
   .prover 2 ⟨88073712348000, .self 16 {}⟩,
   .transmit 2 (ownReport 2 2 22) [] true,
   .deliver 1 (ackMsg 2 1 22) (94900 * 10 ^ 9) {},
   .prover 1 ⟨94900 * 10 ^ 9, .timer .creqmsg {}⟩,
   .transmit 1 .creqmsg [] true,
   .prover 1 ⟨96 * second, .upto 17⟩,
   .prover 2 ⟨96 * second, .timer .attesttimer { delay := 4 * second }⟩,
   .prover 1 ⟨96139837560000, .self 20 {}⟩,
   .transmit 1 (.prover (.updateReq ⟨.UPRQ, 1, 2, [1, 0], [2, 0], 21, 0, 5, [0]⟩)) [] true,
   .prover 2 ⟨97960 * 10 ^ 9, .timer .checkdelaymsg {}⟩,
   .prover 3 ⟨100 * second, .timer .attesttimer { delay := 4 * second }⟩,
   .prover 1 ⟨101 * second, .timer .attesttimer { delay := 4 * second }⟩,
   .prover 2 ⟨101960 * 10 ^ 9, .timer .mktreetimer { treeID := 23 }⟩,
   .prover 2 ⟨101960 * 10 ^ 9, .timer .creqmsg {}⟩,
   .transmit 2 .creqmsg [1, 3] true,
   .prover 3 ⟨101960 * 10 ^ 9, .timer .checkdelaymsg {}⟩,
   .deliver 3 (askMsg 2 2 23) (102 * second) {},
   .prover 3 ⟨102067073604000, .self 16 {}⟩,
   .transmit 3 (.prover (respMsg 3 2 23)) [] true,
   .deliver 2 (respMsg 3 2 23) (102500 * 10 ^ 9) {},
   .prover 2 ⟨102633198816000, .self 22 {}⟩,
   .transmit 2 (.prover (ackMsg 2 3 23)) [] true,
   .prover 1 ⟨102960 * 10 ^ 9, .timer .checkdelaymsg {}⟩,
   .deliver 3 (ackMsg 2 3 23) (103 * second) {},
   .prover 3 ⟨103 * second, .timer .creqmsg {}⟩,
   .transmit 3 .creqmsg [1] true,
   .prover 4 ⟨106 * second, .timer .attesttimer { delay := 4 * second }⟩,
   .deliver 1 (askMsg 2 2 23) (106800 * 10 ^ 9) {},
   .prover 1 ⟨106867073604000, .self 24 {}⟩,
   .transmit 1 (.prover (respMsg 1 2 23)) [] true,
   .prover 1 ⟨106900 * 10 ^ 9, .timer .cresptomsg {}⟩,
   .prover 1 ⟨106960 * 10 ^ 9, .timer .mktreetimer { treeID := 13 }⟩,
   .prover 1 ⟨106960 * 10 ^ 9, .timer .creqmsg {}⟩,
   .transmit 1 .creqmsg [4] true,
   .prover 4 ⟨107960 * 10 ^ 9, .timer .checkdelaymsg {}⟩,
   .deliver 4 (askMsg 1 1 0) (108 * second) {},
   .prover 4 ⟨108067073604000, .self 18 {}⟩,
   .transmit 4 (.prover (respMsg 4 1 0)) [] true,
   .deliver 1 (respMsg 4 1 0) (109 * second) {},
   .prover 1 ⟨109133198816000, .self 28 {}⟩,
   .transmit 1 (.prover (ackMsg 1 4 0)) [] true,
   .prover 1 ⟨110800 * 10 ^ 9, .timer .cacktomsg {}⟩,
   .deliver 1 (askMsg 3 1 23) (111 * second) {},
   .prover 1 ⟨111067073604000, .self 30 {}⟩,
   .transmit 1 (.prover (respMsg 1 3 23)) [] true,
   .prover 4 ⟨111960 * 10 ^ 9, .timer .mktreetimer {}⟩,
   .prover 4 ⟨112 * second, .timer .cacktomsg { treeID := 43 }⟩,
   .prover 4 ⟨112 * second, .timer .creqmsg {}⟩,
   .transmit 4 .creqmsg [] true,
   .deliver 3 (respMsg 1 3 23) (112 * second) {},
   .prover 3 ⟨112199324028000, .self 20 {}⟩,
   .transmit 3 (.prover (ackMsg 3 1 23)) [] true,
   .deliver 1 (ackMsg 3 1 23) (113 * second) {},
   .prover 1 ⟨113139837560000, .self 32 {}⟩,
   .transmit 1 (.prover (.updateReq ⟨.UPRQ, 1, 3, [1, 0], [3, 0], 23, 0, 5, [0]⟩)) [] true,
   .prover 2 ⟨113960 * 10 ^ 9, .timer .cresptomsg {}⟩,
   .prover 3 ⟨115 * second, .timer .cresptomsg {}⟩,
   .prover 1 ⟨118960 * 10 ^ 9, .timer .cresptomsg {}⟩]

/-- In `staleWindow` prover 1 sends two reports in one round. -/
theorem staleWindow_twice :
    ¬ ∀ (D : Deployment) (s : Net), (∀ u, 1 ≤ (D.cfg u).maxdepth) →
      Runs.Reaches (Net.step D) Regular (init D) s →
      (∀ u ∈ D.ids, OneReport (s.prover u).log) ∧
        ∀ x : Uid × Nat, x.1 ≠ NOID → (s.handled.flatMap UpdateReq.entries).count x ≤ 1 := by
  intro h
  obtain ⟨s, hs, ht⟩ := Runs.exists_of_run (Net.step fourProvers) Regular staleWindow
    (init fourProvers)
    (fun s => (s.prover 1).log.take 3 = [.sendUpReq, .respClosed, .sendUpReq]) (by decide +kernel)
  have hone := (h fourProvers s (fun _ => Nat.le_succ 1) hs).1 1 (by decide)
  have hlog : ∃ past, (s.prover 1).log = .sendUpReq :: .respClosed :: .sendUpReq :: past := by
    refine ⟨(s.prover 1).log.drop 3, ?_⟩
    conv_lhs => rw [← List.take_append_drop 3 (s.prover 1).log, of_decide_eq_true ht]
    rfl
  obtain ⟨past, hlog⟩ := hlog
  rw [OneReport, hlog] at hone
  have hfirst := (atEach_cons.mp hone).1 rfl
  rw [sentIn_cons (y := .respClosed) (fun h => by cases h) (fun h => by cases h)] at hfirst
  exact hfirst sentIn_sendUpReq

end Net

end Fadia
