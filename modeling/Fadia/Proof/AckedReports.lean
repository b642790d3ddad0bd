import Fadia.Proof.Children
import Fadia.Proof.SessionsAgree

/-!
# Only acknowledged children contribute to a report

`MergesAcked log` says that each report merged came from a prover that had been
acknowledged more often, since the last `startAttestation`, than its reports had
been merged.  It holds of every run, with messages of any content, in which
`csessions[NOID]` is not taken for the session of a child
(`mergesAcked_of_guarded`); in `windowReport` it is.
-/

namespace Fadia

open Traces

/-- More acks than reports of `c` since the last `startAttestation`. -/
def Acknowledged (c : Uid) (past : List Mark) : Prop :=
  (since .start past).count (.merge c) < (since .start past).count (.ack c)

/-- Each report merged was a child's, which had an ack for it. -/
def MergesAcked (log : List Mark) : Prop :=
  ∀ c, AtEach (.merge c) (fun past => c ≠ NOID ∧ Acknowledged c past) log

theorem acknowledged_filter (c : Uid) (past : List Mark) :
    Acknowledged c (past.filter childMark) ↔ Acknowledged c past := by
  rw [Acknowledged, since_filter rfl, List.count_filter rfl, List.count_filter rfl, Acknowledged]

theorem mergesAcked_filter (log : List Mark) :
    MergesAcked (log.filter childMark) ↔ MergesAcked log := by
  refine forall_congr' fun c => ?_
  rw [← atEach_filter (Q := fun past => c ≠ NOID ∧ Acknowledged c past) rfl]
  simp only [acknowledged_filter]

/-- A mark that is no merge. -/
theorem MergesAcked.cons {log : List Mark} {y : Mark} (h : MergesAcked log)
    (hy : ∀ c, y ≠ .merge c) : MergesAcked (y :: log) :=
  fun c => (h c).cons_of_ne (hy c)

namespace Prover

/-- The prover accepts a report that claims to come from `NOID`. -/
def MergesWindow (e : Event) (p : Prover) : Prop :=
  ∃ m c child parent, e.act = .recv (.updateReq m) c ∧ m.source = NOID ∧ p.Merges m child parent

/-- The acks and the merges of a child, and whether its session is open. -/
structure Counted (c : Uid) (p : Prover) : Prop where
  closed : (since .start p.childLog).count (.merge c) ≤ (since .start p.childLog).count (.ack c)
  isOpen : p.Child c → Acknowledged c p.childLog

section
variable {p q : Prover} {e : Event} {c : Uid}

theorem Counted.congr (h : Counted c p) (hl : q.childLog = p.childLog)
    (hc : q.Child c → p.Child c) : Counted c q :=
  ⟨by rw [hl]; exact h.closed, fun hk => by rw [hl]; exact h.isOpen (hc hk)⟩

theorem counted_restart (hl : q.childLog = .start :: p.childLog) (hc : ¬ q.Child c) :
    Counted c q := by
  refine ⟨?_, fun h => absurd h hc⟩
  rw [hl, since_self]
  exact Nat.le_refl _

theorem Counted.accept (h : Counted c p) {k : Uid}
    (hl : q.childLog = .ack k :: p.childLog)
    (hc : q.Child c ↔ c ≠ NOID ∧ (c = k ∨ p.Child c)) : Counted c q := by
  have hs : since .start q.childLog = .ack k :: since .start p.childLog := by
    rw [hl]
    exact since_cons nofun
  have hne : Mark.ack k ≠ .merge c := nofun
  have hmerge : (since .start q.childLog).count (.merge c) =
      (since .start p.childLog).count (.merge c) := by
    rw [hs, List.count_cons_of_ne hne]
  by_cases hk : k = c
  · have hack : (since .start q.childLog).count (.ack c) =
        (since .start p.childLog).count (.ack c) + 1 := by
      rw [hs, hk, List.count_cons_self]
    have := h.closed
    exact ⟨by omega, fun _ => by rw [Acknowledged]; omega⟩
  · have hack : (since .start q.childLog).count (.ack c) =
        (since .start p.childLog).count (.ack c) := by
      rw [hs, List.count_cons_of_ne (by simpa using hk)]
    refine ⟨by rw [hmerge, hack]; exact h.closed, fun hq => ?_⟩
    rw [Acknowledged, hmerge, hack]
    exact h.isOpen ((hc.mp hq).2.resolve_left (Ne.symm hk))

theorem Counted.merge (h : Counted c p) {k : Uid} (hk : k ≠ NOID) (hin : k ∈ p.csessions)
    (hl : q.childLog = .merge k :: p.childLog) (hc : q.Child c ↔ c ≠ k ∧ p.Child c) :
    Counted c q := by
  have hs : since .start q.childLog = .merge k :: since .start p.childLog := by
    rw [hl]
    exact since_cons nofun
  have hne : Mark.merge k ≠ .ack c := nofun
  have hack : (since .start q.childLog).count (.ack c) =
      (since .start p.childLog).count (.ack c) := by
    rw [hs, List.count_cons_of_ne hne]
  by_cases he : k = c
  · have hmerge : (since .start q.childLog).count (.merge c) =
        (since .start p.childLog).count (.merge c) + 1 := by
      rw [hs, he, List.count_cons_self]
    have hopen : Acknowledged c p.childLog := h.isOpen ⟨he ▸ hk, he ▸ hin⟩
    rw [Acknowledged] at hopen
    exact ⟨by omega, fun hq => absurd he.symm (hc.mp hq).1⟩
  · have hmerge : (since .start q.childLog).count (.merge c) =
        (since .start p.childLog).count (.merge c) := by
      rw [hs, List.count_cons_of_ne (by simpa using he)]
    refine ⟨by rw [hmerge, hack]; exact h.closed, fun hq => ?_⟩
    rw [Acknowledged, hmerge, hack]
    exact h.isOpen (hc.mp hq).2

/-- **One event** of a prover that lives. -/
theorem counted_step (h : ∀ c, Counted c p) (hr : MergesAcked p.childLog)
    (hok : ¬ p.MergesWindow e) (hs : ChildStep e p q) :
    MergesAcked q.childLog ∧ (q.fault = none → ∀ c, Counted c q) := by
  cases hs with
  | same hsame =>
    rw [hsame.log]
    exact ⟨hr, fun _ c => (h c).congr hsame.log (hsame.child c).mp⟩
  | halt hf hl =>
    rw [hl]
    exact ⟨hr, fun hok => absurd hok hf⟩
  | restart _ hl hc =>
    rw [hl]
    exact ⟨hr.cons nofun, fun _ c => counted_restart hl (hc c)⟩
  | accept _ _ hl hc =>
    rw [hl]
    exact ⟨hr.cons nofun, fun _ c => (h c).accept hl (hc c)⟩
  | @merge m _ child parent he hm hl _ hc =>
    have hne : m.source ≠ NOID := fun hsrc => hok ⟨m, _, child, parent, he, hsrc, hm⟩
    have hin : m.source ∈ p.csessions :=
      AList.lookup_isSome.mp (Option.isSome_of_eq_some hm.sender)
    refine ⟨?_, fun _ c => (h c).merge hne hin hl (hc c)⟩
    rw [hl]
    refine fun c => atEach_cons.mpr ⟨fun hmark => ?_, hr c⟩
    have hsrc : m.source = c := Mark.merge.inj hmark
    rw [← hsrc]
    exact ⟨hne, (h _).isOpen ⟨hne, hin⟩⟩
  | timeOut _ hl _ hc =>
    rw [hl]
    exact ⟨hr, fun _ c => (h c).congr hl fun hk => ((hc c).mp hk).2⟩

end

/-- **Only acknowledged children contribute to a report**, and each ack admits one
report, in every run in which no report is taken for one of `NOID`. -/
theorem mergesAcked_of_guarded {cfg : Config} {start : Nat} {p : Prover}
    (h : Runs.Reaches step (fun e p => ¬ p.MergesWindow e) (init cfg start) p) :
    MergesAcked p.log := by
  let I : Prover → Prop := fun p =>
    MergesAcked p.childLog ∧ (p.fault = none → ∀ c, Counted c p)
  have hinit : I (init cfg start) := by
    refine ⟨fun c => atEach_nil, fun _ c => ⟨Nat.le_refl _, fun hc => ?_⟩⟩
    exact absurd hc.2 (AList.notMem_empty c)
  have key : I p := by
    refine h.invariant hinit ?_
    intro e p p' ⟨hr, hcount⟩ hok hs
    obtain ⟨hf, -, ⟨-, _, _, _, _, -, rfl⟩ | ⟨-, hlive⟩⟩ := step_cases hs
    · exact ⟨hr, fun _ c => (hcount hf c).congr rfl id⟩
    · exact counted_step (hcount hf) hr hok (children_of_live hf hlive)
  exact (mergesAcked_filter p.log).mp key.1

/-- In `earlyReport` the report of child 2 is merged. -/
theorem mergesAcked_of_guarded_early : ∃ p : Prover, .merge 2 ∈ p.log ∧ MergesAcked p.log := by
  obtain ⟨p, hp, ht⟩ := Runs.exists_of_run step (fun e _ => RealSource e.act) earlyReport
    (init rootConfig 0) (fun p => .merge 2 ∈ p.log) (by decide +kernel)
  refine ⟨p, of_decide_eq_true ht, mergesAcked_of_guarded (hp.weaken fun e p hreal => ?_)⟩
  rintro ⟨m, c, _, _, hact, hsrc, -⟩
  rw [hact] at hreal
  exact hreal hsrc

/-- A message from `NOID` with the root's tree id, while responses are awaited. -/
def windowReport : List Event :=
  earlyReport.take 4 ++
    [⟨3 * second, .recv (.updateReq ⟨.UPRQ, NOID, 1, [9, 0], [1, 0], 7, 0, 0, [0]⟩) {}⟩]

/-- `windowReport` has its report merged although no ack was sent. -/
theorem windowReport_unacknowledged :
    ¬ ∀ (cfg : Config) (start : Nat) (p : Prover),
      Runs.Reaches step (fun _ _ => True) (init cfg start) p → MergesAcked p.log := by
  intro h
  obtain ⟨p, hp, ht⟩ := Runs.exists_of_run step (fun _ _ => True) windowReport
    (init rootConfig 0) (fun p => p.log = [.merge NOID, .upReq NOID, .broadcast, .root, .start])
    (by decide +kernel)
  have hm := h rootConfig 0 p hp
  rw [of_decide_eq_true ht] at hm
  exact ((atEach_cons.mp (hm NOID)).1 rfl).1 rfl

end Prover

end Fadia
