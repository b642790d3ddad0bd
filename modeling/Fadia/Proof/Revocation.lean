import Fadia.Devices.Network
import Fadia.Devices.Revocation
import Fadia.Proof.ReportFlow
import Fadia.Proof.SessionRules
import Fadia.Proof.SessionsAgree

/-!
# A revoked key stays in use

`handleRevReq` accepts a request and changes nothing that a session reads: the keys
of all sessions stay keys of the ring (`KeysInRing`).  So the keys of a request are
out of use behind it where the ring held none of them anyway
(`revoked_keys_unused`); in `revokedInUse` a prover answers with a revoked key.
-/

namespace Fadia

namespace RevocableProver

open Prover

/-- The step opens a session with key `k`, as child or as parent, or offers `k`. -/
inductive Opens (k : KeyId) (p p' : Prover) : Prop
  | child {sess : Session} (hs : p'.psessions.second = some sess) (hv : sess.valid = false)
      (hnew : p'.psessions ≠ p.psessions) (hk : sess.keyID = k)
  | parent {c : Uid} {sess : Session} (hne : c ≠ NOID) (hs : p'.csessions.lookup c = some sess)
      (hnew : c ∉ p.csessions) (hk : sess.keyID = k)
  | offer (hout : p'.out = p.out ++ [.creqmsg]) (hk : k ∈ p'.creqmsg.kid)

/-- A request that the prover accepts names no key of its ring. -/
def NothingToRevoke (e : RevEvent) (s : RevocableProver) : Prop :=
  ∀ m time, e = .revokeReq m time → m.destination = s.prover.cfg.UId → m.mac = generateMAC 0 →
    ∀ k ∈ m.kid, k ∉ s.prover.cfg.KeyRing

/-- The keys of the sessions that are opened with a key. -/
structure KeysInRing (cfg : Config) (p : Prover) : Prop where
  cfg_eq : p.cfg = cfg
  parent : ∀ sess, p.psessions.second = some sess → sess.valid = false → sess.keyID ∈ cfg.KeyRing
  child : p.EachChild fun _ sess => sess.keyID ∈ cfg.KeyRing

variable {cfg : Config} {p p' : Prover} {s s' : RevocableProver}

theorem parentRule_keys (cfg : Config) :
    ParentRule cfg.maxdepth fun ps =>
      ∀ sess, ps.second = some sess → sess.valid = false → sess.keyID ∈ cfg.KeyRing := by
  refine ⟨fun sess h _ => ?_, fun ps tid _ sess h hv => ?_, fun ps parent _ _ sess h hv => ?_⟩
  · cases h
  · cases h
    cases hv
  · cases h
    cases hv

theorem KeysInRing.step {e : Event} (h : KeysInRing cfg p) (hs : p.step e = some p') :
    KeysInRing cfg p' := by
  refine ⟨(step_cfg hs).trans h.cfg_eq, ?_, ?_⟩
  all_goals obtain ⟨hf, -, ⟨-, _, _, _, _, -, rfl⟩ | ⟨-, hlive⟩⟩ := step_cases hs
  · exact h.parent
  · refine ParentRule.live (by rw [h.cfg_eq]; exact parentRule_keys cfg) hf ?_ h.parent hlive
    intro m c sess _ hj sess' hs' _
    obtain ⟨-, kid, hk, rfl⟩ := hj
    cases hs'
    have hring := List.find?_some hk
    rw [← h.cfg_eq]
    exact of_decide_eq_true hring
  · exact h.child
  · refine h.child.live hf (fun m _ _ _ ha => ?_) hlive
    rw [← h.cfg_eq]
    exact ha.key

/-- An event from outside leaves the prover in time or lets it handle the event. -/
theorem external_cases {time : Nat} {f : RevocableProver → RevocableProver}
    (h : s.external time f = some s') : s.prover.fault = none ∧ s.prover.now ≤ time ∧
      s.prover.NoneBefore time ∧
      s' = if s.prover.crashed then { s with prover := s.prover.atTime time }
        else f { s with prover := s.prover.atTime time } := by
  unfold external at h
  split at h
  · cases h
  · next hno =>
    rw [not_or, not_or, Option.not_isSome_iff_eq_none, Nat.not_lt, not_not] at hno
    exact ⟨hno.1, hno.2.1, hno.2.2, (Option.some.inj h).symm⟩

/-- A request changes no session. -/
theorem keysInRing_revReq (m : RevokeReq) (h : KeysInRing cfg s.prover) :
    KeysInRing cfg (s.handleRevReq m).prover := by
  unfold handleRevReq
  split
  · exact h
  · dsimp only
    split <;> exact ⟨h.cfg_eq, h.parent, h.child⟩

/-- What a request adds to the revoked keys. -/
theorem revoked_revReq (m : RevokeReq) (s : RevocableProver) {k : KeyId}
    (hk : k ∈ (s.handleRevReq m).revoked) :
    k ∈ s.revoked ∨ m.destination = s.prover.cfg.UId ∧ m.mac = generateMAC 0 ∧ k ∈ m.kid := by
  unfold handleRevReq at hk
  split at hk
  · exact .inl hk
  next hdest =>
  dsimp only at hk
  split at hk
  · exact .inl hk
  next hmac =>
  rw [revoked, List.flatten_append, List.mem_append] at hk
  refine hk.imp id fun hk => ⟨not_not.mp hdest, not_not.mp hmac, ?_⟩
  simpa using hk

theorem keysInRing_step {e : RevEvent} (hok : s.NothingToRevoke e)
    (h : KeysInRing cfg s.prover ∧ ∀ k ∈ s.revoked, k ∉ cfg.KeyRing)
    (hs : s.step e = some s') : KeysInRing cfg s'.prover ∧ ∀ k ∈ s'.revoked, k ∉ cfg.KeyRing := by
  obtain ⟨hkeys, hrev⟩ := h
  have hnow : ∀ time, KeysInRing cfg (s.prover.atTime time) := fun _ =>
    ⟨hkeys.cfg_eq, hkeys.parent, hkeys.child⟩
  cases e with
  | prover e =>
    obtain ⟨p', hp, rfl⟩ := Option.map_eq_some_iff.mp hs
    exact ⟨hkeys.step hp, hrev⟩
  | revokeReq m time =>
    obtain ⟨-, -, -, rfl⟩ := external_cases hs
    split
    · exact ⟨hnow time, hrev⟩
    · refine ⟨keysInRing_revReq m (hnow time), fun k hk => ?_⟩
      rcases revoked_revReq m _ hk with hk | ⟨hd, hm, hk⟩
      · exact hrev k hk
      · rw [← hkeys.cfg_eq]
        exact hok m time rfl hd hm k hk
  | revoke time =>
    obtain ⟨-, -, -, rfl⟩ := external_cases hs
    split
    · exact ⟨hnow time, hrev⟩
    · exact ⟨⟨hkeys.cfg_eq, hkeys.parent, hkeys.child⟩, hrev⟩

/-- **Behind an accepted request no session is opened with one of its keys**, in every
run in which no accepted request names a key of the ring. -/
theorem revoked_keys_unused {cfg : Config} {start : Nat} {e : RevEvent} {k : KeyId}
    (h : Runs.Reaches step NothingToRevoke (init cfg start) s) (hok : s.NothingToRevoke e)
    (hs : s.step e = some s') (hk : k ∈ s.revoked) : ¬ Opens k s.prover s'.prover := by
  have hinit : KeysInRing cfg (init cfg start).prover ∧
      ∀ k ∈ (init cfg start).revoked, k ∉ cfg.KeyRing := by
    refine ⟨⟨rfl, fun sess h => ?_, fun c sess _ h => ?_⟩, fun k h => ?_⟩ <;> cases h
  have hinv := h.invariant (I := fun s => KeysInRing cfg s.prover ∧ ∀ k ∈ s.revoked, k ∉ cfg.KeyRing)
    hinit fun _ _ _ ih hok hs => keysInRing_step hok ih hs
  have hkeys := (keysInRing_step hok hinv hs).1
  have hnot := hinv.2 k hk
  rintro (⟨hs, hv, -, rfl⟩ | ⟨hne, hs, -, rfl⟩ | ⟨-, hoff⟩)
  · exact hnot (hkeys.parent _ hs hv)
  · exact hnot (hkeys.child _ _ hne hs)
  · have hring : s'.prover.creqmsg.kid = cfg.KeyRing := by rw [creqmsg, hkeys.cfg_eq]
    exact hnot (hring ▸ hoff)

/-- The only key of the ring is revoked one second into the first attestation. -/
def revokedInUse : List RevEvent :=
  [.prover ⟨0, .timer .startmsg { delay := 2 * second }⟩, .revokeReq ⟨1, [5], 0⟩ second,
   .prover ⟨1960 * 10 ^ 9, .timer .checkdelaymsg {}⟩]

/-- Behind `revokedInUse` a request that offers the revoked key is answered with it. -/
theorem revokedInUse_opens :
    ¬ ∀ (cfg : Config) (start : Nat) (s s' : RevocableProver) (e : RevEvent) (k : KeyId),
      Runs.Reaches step (fun _ _ => True) (init cfg start) s → s.step e = some s' →
        k ∈ s.revoked → ¬ Opens k s.prover s'.prover := by
  intro h
  let e : RevEvent := .prover ⟨2 * second, .recv (.commitReq ⟨2, 1, [5], 9⟩) {}⟩
  obtain ⟨s, hr, ht⟩ := Runs.exists_of_run step (fun _ _ => True) revokedInUse (init tightRound 0)
    (fun s => 5 ∈ s.revoked ∧ s.prover.psessions = {} ∧ (s.step e).any fun s' =>
      s'.prover.psessions = ⟨2, some ⟨9, 2, 5, 1, false, none⟩⟩) (by decide +kernel)
  obtain ⟨hk, hnone, hany⟩ := of_decide_eq_true ht
  obtain ⟨s', hs, hany⟩ := Runs.exists_of_any hany
  have hps := of_decide_eq_true hany
  refine h tightRound 0 s s' e 5 hr hs hk (.child (by rw [hps]) rfl ?_ rfl)
  rw [hps, hnone]
  decide

/-- The same events with a key that the ring does not hold. -/
theorem revoked_keys_unused_foreign : ∃ s s' : RevocableProver, 6 ∈ s.revoked ∧
    ¬ Opens 6 s.prover s'.prover := by
  let e : RevEvent := .prover ⟨2 * second, .recv (.commitReq ⟨2, 1, [6, 5], 9⟩) {}⟩
  let es : List RevEvent := [.prover ⟨0, .timer .startmsg { delay := 2 * second }⟩,
    .revokeReq ⟨1, [6], 0⟩ second, .prover ⟨1960 * 10 ^ 9, .timer .checkdelaymsg {}⟩]
  obtain ⟨s, hr, ht⟩ := Runs.exists_of_run step (fun e s => s.prover.cfg.KeyRing = [5] ∧ e ∈ es) es
    (init tightRound 0) (fun s => 6 ∈ s.revoked ∧ (s.step e).isSome) (by decide +kernel)
  obtain ⟨hk, hsome⟩ := of_decide_eq_true ht
  obtain ⟨s', hs⟩ := Option.isSome_iff_exists.mp hsome
  have hr' : Runs.Reaches step NothingToRevoke (init tightRound 0) s := by
    refine hr.weaken fun e s ⟨hring, hmem⟩ m time he _ _ k hk => ?_
    rw [he] at hmem
    have hm : m = ⟨1, [6], 0⟩ := by simp [es] at hmem; exact hmem.1
    rw [hm] at hk
    rw [hring]
    obtain rfl := List.mem_singleton.mp hk
    decide
  exact ⟨s, s', hk, revoked_keys_unused hr' (fun m time he => by simp [e] at he) hs hk⟩

end RevocableProver

end Fadia
