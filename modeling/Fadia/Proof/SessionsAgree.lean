import Fadia.Proof.OnceRun

/-!
# Status, sessions and pending timers agree

`Agree p` is what each status promises about the sessions and the timers of a
prover.  It holds in every state of an orderly run (`agree_of_orderly`); a session
closed too early ends it (`closesEarly_disagrees`), as in `earlyReport`, where the
only child reports while the response window is still open.
-/

namespace Fadia

namespace Prover

/-- Status, sessions and pending timers agree. -/
structure Agree (p : Prover) : Prop where
  ready : p.status = .READY →
    p.psessions = {} ∧ p.csessions.keys = [] ∧ (p.timers .mktreetimer).isSome
  attesting : p.status = .ATTESTING ∨ p.status = .ATTESTING_CREATING →
    p.psessions.second.isSome ∧ p.csessions.keys = [] ∧ (p.timers .cacktomsg).isSome
  creating : p.status = .CREATING →
    p.psessions.second.isSome ∧ NOID ∈ p.csessions ∧ (p.timers .cresptomsg).isSome
  collecting : p.status = .COLLECTING →
    p.psessions.second.isSome ∧ NOID ∈ p.csessions ∧
      ∃ c ∈ p.csessions, c ≠ NOID ∧ ∃ u ∈ p.uptos, u.2.device = c
  finished : p.status = .FINISHED →
    p.psessions = {} ∧ p.csessions.keys = [] ∧ p.timers .cacktomsg = none ∧
      p.timers .cresptomsg = none ∧ p.uptos = []

/-- A child session has its `UPTO` message. -/
theorem Linked.exists_upto {p : Prover} (h : p.Linked) {c : Uid} (hc : c ∈ p.csessions)
    (hne : c ≠ NOID) : ∃ u ∈ p.uptos, u.2.device = c := by
  obtain ⟨s, hs⟩ := Option.isSome_iff_exists.mp (AList.lookup_isSome.mpr hc)
  obtain ⟨u, hu, hd, -⟩ := h.child c s hne hs
  exact ⟨u, hu, hd⟩

theorem Linked.uptos_nil_of_keys {p : Prover} (h : p.Linked) (hc : p.csessions.keys = []) :
    p.uptos = [] :=
  h.uptos_nil fun c hm => absurd hm (not_mem_of_keys_nil hc c)

/-- `Agree` for one status, the others being excluded. -/
theorem Once.agree {p : Prover} (h : p.Once False) : p.Agree := by
  obtain ⟨hlink, hi | ⟨-, ha⟩⟩ := h
  · have hs := hi.status
    refine ⟨by simp [hs], by simp [hs], by simp [hs], by simp [hs], fun _ => ?_⟩
    exact ⟨hi.sessions.parent, hi.sessions.children, hi.timers _ (by decide),
      hi.timers _ (by decide), hlink.uptos_nil_of_keys hi.sessions.children⟩
  cases ha with
  | checking hs => exact ⟨by simp [hs], by simp [hs], by simp [hs], by simp [hs], by simp [hs]⟩
  | ready hs hn ht =>
    refine ⟨fun _ => ⟨hn.parent, hn.children, ht.mktree⟩, ?_, ?_, ?_, ?_⟩ <;> simp [hs]
  | attesting hs ha ht =>
    refine ⟨?_, fun _ => ⟨ha.second, ha.children, ht.cackto⟩, ?_, ?_, ?_⟩ <;> simp [hs]
  | attestingCreating hs ha ht =>
    refine ⟨?_, fun _ => ⟨ha.second, ha.children, ht.cackto⟩, ?_, ?_, ?_⟩ <;> simp [hs]
  | creating hs ho ht =>
    refine ⟨?_, ?_, fun _ => ⟨ho.second, ho.window, ht.crespto⟩, ?_, ?_⟩ <;> simp [hs]
  | collecting hs ho hc ht =>
    obtain ⟨c, hmem, hne⟩ := hc
    refine ⟨?_, ?_, ?_, fun _ => ?_, ?_⟩
    · simp [hs]
    · simp [hs]
    · simp [hs]
    · exact ⟨ho.second, ho.window, c, hmem, hne, hlink.exists_upto hmem hne⟩
    · simp [hs]
  | done hs hn ht =>
    refine ⟨by simp [hs], by simp [hs], by simp [hs], by simp [hs], fun _ => ?_⟩
    exact ⟨hn.parent, hn.children, by simpa using ht.cackto, by simpa using ht.crespto,
      hlink.uptos_nil_of_keys hn.children⟩
  | ghost hg => exact hg.elim

/-- **Status, sessions and pending timers agree** in every state of a run with one
attestation in which no child session is closed too early. -/
theorem agree_of_orderly {cfg : Config} {start : Nat} {p : Prover}
    (h : Runs.Reaches step OrderlyOk (init cfg start) p) (hf : p.fault = none)
    (hc : p.crashed = false) : p.Agree :=
  (once_of_orderly h hf hc).agree

/-- A report sent while `cresptomsg` is scheduled. -/
theorem sendUpReq_disagrees {p : Prover} {tid : TreeId} (hs : p.psessions.second.isSome)
    (ht : (p.timers .cresptomsg).isSome) : ¬ (p.sendUpReq tid).Agree := by
  intro h
  obtain ⟨parent, hp⟩ := Option.isSome_iff_exists.mp hs
  rw [sendUpReq_of_some tid hp] at h
  have hoff : p.timers .cresptomsg = none := (h.finished rfl).2.2.2.1
  rw [hoff] at ht
  cases ht

/-- **A session closed too early** ends the agreement at once. -/
theorem closesEarly_disagrees {e : Event} {p p' : Prover} (h : p.Once True)
    (hc : p.crashed = false) (he : p.ClosesEarly e) (hs : step e p = some p') : ¬ p'.Agree := by
  obtain ⟨hst, he⟩ := he
  have hact : p.Active True := by
    rcases h.phase with hi | ⟨-, ha⟩
    · cases hst.symm.trans hi.status
    · exact ha
  obtain ⟨ho, ht⟩ := hact.of_creating hst
  obtain ⟨-, -, ⟨hcr, -⟩ | ⟨-, hlive⟩⟩ := step_cases hs
  · rcases he with ⟨m, c, hm, -⟩ | ⟨k, u, hm, -⟩ <;> simp [hc, hm] at hcr
  rcases he with ⟨m, c, hm, ⟨child, parent, hmer⟩, hlen⟩ | ⟨k, u, hm, hu, hlen⟩
  · cases hlive with
    | recv hact =>
      rw [hm] at hact
      cases hact
      have hmer' : (p.atTime e.time).Merges m child parent := { hmer with }
      have heq := (handleUpReq_of_merges hmer').trans (if_pos hlen)
      change ¬ (handleUpReq m _).Agree
      rw [heq]
      exact sendUpReq_disagrees ho.second ht.crespto
    | timer hact => rw [hm] at hact; cases hact
    | upto hact => rw [hm] at hact; cases hact
    | self hact => rw [hm] at hact; cases hact
  · cases hlive with
    | upto hact hu' =>
      rw [hm] at hact
      cases hact
      cases hu.symm.trans hu'
      rw [handleUpdateTimeOut_last (p := (p.atTime e.time).popUpto k) hlen]
      exact sendUpReq_disagrees ho.second ht.crespto
    | timer hact => rw [hm] at hact; cases hact
    | recv hact => rw [hm] at hact; cases hact
    | self hact => rw [hm] at hact; cases hact

/-- A root of a tree of depth one and its child 2, which shares key 5 with it; `deltag` is 0. -/
def rootConfig : Config where
  UId := 1
  KeyRing := [5]
  maxdepth := 1
  deltah := 28 * second
  aggsize := 1

/-- A round of 30 s, which leaves 2 s for the gather timer. -/
def tightRound : Config := { rootConfig with deltah := 30 * second }

/-- The child answers one second after the broadcast and reports one second later. -/
def earlyReport : List Event :=
  [⟨0, .timer .startmsg {}⟩,
   ⟨1960 * 10 ^ 9, .timer .checkdelaymsg {}⟩,
   ⟨1960 * 10 ^ 9, .timer .mktreetimer { treeID := 7 }⟩,
   ⟨1960 * 10 ^ 9, .timer .creqmsg {}⟩,
   ⟨3 * second, .recv (.commitResp ⟨2, 1, 5, 7, 0, 5⟩) {}⟩,
   ⟨3133198816000, .self 6 {}⟩,
   ⟨4 * second, .recv (.updateReq ⟨.UPRQ, 2, 1, [2, 0], [1, 0], 7, 0, 5, [0]⟩) {}⟩]

/-- After `earlyReport` the prover has finished with `cresptomsg` still scheduled. -/
theorem earlyReport_disagrees :
    ¬ ∀ (cfg : Config) (start : Nat) (p : Prover), Runs.Reaches step OnceOk (init cfg start) p →
      p.fault = none → p.crashed = false → p.Agree := by
  intro h
  obtain ⟨p, hp, ht⟩ := Runs.exists_of_run step OnceOk earlyReport
    (init rootConfig 0) (fun p => p.status = .FINISHED ∧ p.fault = none ∧ p.crashed = false ∧
      (p.timers .cresptomsg).isSome) (by decide +kernel)
  obtain ⟨hs, hf, hc, ht⟩ := of_decide_eq_true ht
  rw [((h rootConfig 0 p hp hf hc).finished hs).2.2.2.1] at ht
  cases ht

/-- The first three events of `earlyReport` open the response window. -/
theorem agree_of_orderly_window : ∃ p : Prover, p.status = .CREATING ∧ p.Agree := by
  obtain ⟨p, hp, ht⟩ := Runs.exists_of_run step
    (fun e p => OnceOk e p ∧ p.status ≠ .CREATING) (earlyReport.take 3) (init rootConfig 0)
    (fun p => p.status = .CREATING ∧ p.fault = none ∧ p.crashed = false) (by decide +kernel)
  obtain ⟨hs, hf, hc⟩ := of_decide_eq_true ht
  exact ⟨p, hs, agree_of_orderly (hp.weaken fun _ _ h => ⟨h.1, fun he => h.2 he.1⟩) hf hc⟩

end Prover

end Fadia
