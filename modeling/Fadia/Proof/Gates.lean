import Fadia.Devices.Gates
import Mathlib

/-!
# The gate of a unicast

An entry of `deviceg` is that of the first event with its id (`gatesAfter_eq`): the gate
through which a message of that source arrived, or gate 0 if something was sent there before.
So a unicast leaves through the right gate exactly where the first event had it
(`rightGates_iff`).  Neither is ensured: the collector shares its id with prover 0, and a
report that is passed on names its first sender.
-/

namespace Fadia

/-- The entry that an event records if there is none. -/
def GateEvent.entry : GateEvent → Option (Uid × Nat)
  | .arrived .RVKRQ _ _ => none
  | .arrived _ source gate => some (source, gate)
  | .sendProver target | .sendCollector target => some (target, 0)

/-- The gate of the first event with an id. -/
def firstGate (history : List GateEvent) (x : Uid) : Option Nat :=
  ((history.filterMap GateEvent.entry).find? fun entry => entry.1 = x).map Prod.snd

section
variable {deviceg : GateMap}

/-- An entry that exists stays. -/
def record (entry : Uid × Nat) (deviceg : GateMap) : GateMap :=
  fun x => (deviceg x).or (if entry.1 = x then some entry.2 else none)

theorem updateGates_eq (source : Uid) (gate : Nat) :
    updateGates source gate deviceg = record (source, gate) deviceg := by
  funext x
  unfold updateGates record
  by_cases hx : source = x
  · subst hx
    rw [if_pos rfl]
    cases h : deviceg source with
    | none => exact Function.update_self _ _ _
    | some k => exact h
  · rw [if_neg hx, Option.or_none]
    cases deviceg source with
    | none => exact Function.update_of_ne (Ne.symm hx) _ _
    | some k => rfl

theorem selectGate_eq (target : Uid) :
    selectGate target deviceg = ((deviceg target).getD 0, record (target, 0) deviceg) := by
  rw [← updateGates_eq]
  unfold selectGate updateGates
  split
  · next gate h => rw [h]; rfl
  · next h => rw [h]; rfl

theorem apply_eq (e : GateEvent) :
    e.apply deviceg = (e.entry.map (record · deviceg)).getD deviceg := by
  cases e with
  | arrived kind source gate =>
    cases kind with
    | RVKRQ => rfl
    | _ => exact updateGates_eq source gate
  | sendProver target => exact congrArg Prod.snd (selectGate_eq target)
  | sendCollector target => exact congrArg Prod.snd (selectGate_eq target)

/-- Over the events that follow the entries that exist stay, and the others are those of the
first event. -/
theorem foldl_apply_eq (history : List GateEvent) (deviceg : GateMap) (x : Uid) :
    history.foldl (fun deviceg e => e.apply deviceg) deviceg x =
      (deviceg x).or (firstGate history x) := by
  induction history generalizing deviceg with
  | nil => exact (Option.or_none).symm
  | cons e rest ih =>
    rw [List.foldl_cons, ih, apply_eq]
    cases he : e.entry with
    | none =>
      have hskip : firstGate (e :: rest) x = firstGate rest x := by
        unfold firstGate
        rw [List.filterMap_cons_none he]
      rw [hskip]
      rfl
    | some entry =>
      have hfirst : firstGate (e :: rest) x =
          (if entry.1 = x then some entry.2 else none).or (firstGate rest x) := by
        unfold firstGate
        rw [List.filterMap_cons_some he, List.find?_cons]
        by_cases hx : entry.1 = x
        · rw [if_pos hx, decide_eq_true hx]
          rfl
        · rw [if_neg hx, decide_eq_false hx]
          rfl
      rw [hfirst, ← Option.or_assoc]
      rfl

theorem gatesAfter_eq (history : List GateEvent) (x : Uid) :
    gatesAfter history x = firstGate history x :=
  foldl_apply_eq history _ x

end

namespace WiredNetwork

variable (N : WiredNetwork) (u : Uid) (history : List GateEvent)

/-- Gate `k` of prover `u` leads to a prover. -/
def LeadsTo (k : Nat) (target : Uid) : Prop := ∃ j, N.peer u k = some (.prover target j)

/-- A message of prover `x` has come through a gate that leads to it. -/
def HeardDirectly (x : Uid) : Prop :=
  ∃ kind gate, .arrived kind x gate ∈ history ∧ kind ≠ .RVKRQ ∧ N.LeadsTo u gate x

/-- The gates that `deviceg` selects are right: the root's report goes to the collector, and
what is sent to a prover that was heard directly goes to that prover. -/
structure RightGates : Prop where
  collector : u = initUID N.root →
    N.peer u (selectGate baseID (gatesAfter history)).1 = some .collector
  prover : ∀ x, N.HeardDirectly u history x →
    N.LeadsTo u (selectGate x (gatesAfter history)).1 x

/-- The first events with these ids have the right gates. -/
structure FirstRight : Prop where
  collector : u = initUID N.root → ∀ k, firstGate history baseID = some k → k = 0
  prover : ∀ x, N.HeardDirectly u history x → ∀ k, firstGate history x = some k → N.LeadsTo u k x

section
variable {N u history}

theorem peer_collector_iff {k : Nat} (hu : u = initUID N.root) :
    N.peer u k = some .collector ↔ k = 0 := by
  unfold peer
  rw [Option.join_eq_some_iff]
  constructor
  · exact fun h => (N.only u k h).2
  · rintro rfl
    exact hu ▸ N.linked

/-- An id that was heard has a first event. -/
theorem firstGate_of_heard {x : Uid} (h : N.HeardDirectly u history x) :
    ∃ k, firstGate history x = some k := by
  obtain ⟨kind, gate, hmem, hkind, -⟩ := h
  have hentry : (GateEvent.arrived kind x gate).entry = some (x, gate) := by
    cases kind with
    | RVKRQ => exact absurd rfl hkind
    | _ => rfl
  have hlisted : (x, gate) ∈ history.filterMap GateEvent.entry :=
    List.mem_filterMap.mpr ⟨_, hmem, hentry⟩
  have hfound : ((history.filterMap GateEvent.entry).find? fun entry => entry.1 = x).isSome :=
    List.find?_isSome.mpr ⟨_, hlisted, decide_eq_true rfl⟩
  obtain ⟨entry, he⟩ := Option.isSome_iff_exists.mp hfound
  exact ⟨entry.2, congrArg (Option.map Prod.snd) he⟩

theorem selectGate_after (x : Uid) :
    (selectGate x (gatesAfter history)).1 = (firstGate history x).getD 0 := by
  rw [selectGate_eq, gatesAfter_eq]

end

/-- **The gates are right exactly where the first events had the right gates**, for every
prover of every wired network and every sequence of messages received and sent. -/
theorem rightGates_iff : N.RightGates u history ↔ N.FirstRight u history := by
  constructor
  · intro h
    refine ⟨fun hu k hk => ?_, fun x hx k hk => ?_⟩
    · have hgate := (peer_collector_iff hu).mp (h.collector hu)
      rw [selectGate_after, hk] at hgate
      exact hgate
    · have hleads := h.prover x hx
      rw [selectGate_after, hk] at hleads
      exact hleads
  · intro h
    refine ⟨fun hu => ?_, fun x hx => ?_⟩
    · rw [peer_collector_iff hu, selectGate_after]
      cases hk : firstGate history baseID with
      | none => rfl
      | some k => exact h.collector hu k hk
    · obtain ⟨k, hk⟩ := firstGate_of_heard hx
      rw [selectGate_after, hk]
      exact h.prover x hx k hk

def starGates (u : Uid) : List (Option Peer) :=
  match u with
  | 1 => [some (.prover 2 1)]
  | 2 => [some .collector, some (.prover 1 0)]
  | _ => []

theorem starGates_cases {u : Uid} {k : Nat} {peer : Peer} (h : (starGates u)[k]? = some (some peer)) :
    u = 1 ∧ k = 0 ∧ peer = .prover 2 1 ∨ u = 2 ∧ k = 0 ∧ peer = .collector ∨
      u = 2 ∧ k = 1 ∧ peer = .prover 1 0 := by
  unfold starGates at h
  split at h
  · match k with
    | 0 => exact .inl ⟨rfl, rfl, (Option.some.inj (Option.some.inj h)).symm⟩
    | _ + 1 => cases h
  · match k with
    | 0 => exact .inr (.inl ⟨rfl, rfl, (Option.some.inj (Option.some.inj h)).symm⟩)
    | 1 => exact .inr (.inr ⟨rfl, rfl, (Option.some.inj (Option.some.inj h)).symm⟩)
    | _ + 2 => cases h
  · cases h

/-- `Fadiastar` with two provers: the root has index 1, its second gate leads to prover 0. -/
def fadiastarTwo : WiredNetwork where
  topology :=
    { gates := starGates
      paired := by
        intro u i v j h
        rcases starGates_cases h with ⟨rfl, rfl, he⟩ | ⟨rfl, rfl, he⟩ | ⟨rfl, rfl, he⟩
        · cases he
          rfl
        · cases he
        · cases he
          rfl }
  numProvers := 2
  root := 1
  root_lt := by decide
  linked := by decide
  only := by
    intro u k h
    rcases starGates_cases h with ⟨rfl, rfl, he⟩ | ⟨rfl, rfl, he⟩ | ⟨rfl, rfl, he⟩
    · cases he
    · exact ⟨by decide, rfl⟩
    · cases he

/-- Once the root has heard prover 0 its report goes there and not to the collector. -/
theorem reportToChild :
    ¬ ∀ (N : WiredNetwork) (u : Uid) (history : List GateEvent), N.RightGates u history := by
  intro h
  have hpeer := (h fadiastarTwo 2 [.arrived .CMRP 1 1]).collector (by decide)
  exact absurd hpeer (by decide)

end WiredNetwork

end Fadia
