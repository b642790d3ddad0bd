import Fadia.Devices.Keys
import Fadia.Devices.Network
import Fadia.Proof.Rescheduling

/-!
# Shared keys

The rings are maps, so the ids of a ring come in ascending order, and `sharedKeys` lists
those that two rings have in common in that order (`sharedKeys_eq`).  The scan of
`handleCommitReq` finds the first of them (`find?_eq_head?`), so a prover that waits for no
ack commits exactly when its ring meets that of the request; where `cacktomsg` is still
scheduled, the answer ends the simulation instead (`commits_iff_shared`, `lateJoin_silent`).
A revocation reaches exactly the provers that hold one of its keys
(`revocation_reaches_holders`).
-/

namespace Fadia

open Sorted

/-- `sharedKeys` lists the ids of a ring that are among others, whatever their order. -/
theorem sharedKeys_eq {v1 v2 : List KeyId} (h : v1.Pairwise (· < ·)) :
    (sharedKeys v1 v2).1 = v1.filter (· ∈ v2) := by
  have hsorted : v1.insertionSort (· ≤ ·) = v1 :=
    (h.imp fun hlt => hlt.le).insertionSort_eq
  unfold sharedKeys
  dsimp only
  rw [hsorted, setIntersection_eq_filter h (List.pairwise_insertionSort (· ≤ ·) v2)]
  simp only [List.mem_insertionSort]

namespace KeyMap

theorem sorted_ids (m : KeyMap) : m.ids.Pairwise (· < ·) := m.sorted

theorem nodup_ids (m : KeyMap) : m.ids.Nodup := m.sorted_ids.imp fun h => h.ne

theorem length_ids (m : KeyMap) : m.ids.length = m.size := List.length_map _

/-- A ring holds entries of its pool only, and has the size asked for. -/
theorem drawInto_spec {pool ring r : KeyMap} {n : Nat} {draws : List Nat}
    (h : ∀ e ∈ ring.entries, e ∈ pool.entries) (hr : pool.drawInto n ring draws = some r) :
    r.size = n ∧ ∀ e ∈ r.entries, e ∈ pool.entries := by
  induction draws generalizing ring with
  | nil => cases hr
  | cons i draws ih =>
    rw [drawInto] at hr
    split at hr
    · cases hr
    next e he =>
    have hin : ∀ x ∈ (ring.insert e).entries, x ∈ pool.entries := fun x hx => by
      rcases mem_insertEntry hx with rfl | hx
      · exact List.mem_of_getElem? he
      · exact h x hx
    dsimp only at hr
    split at hr
    · next hsize =>
      obtain rfl := Option.some.inj hr
      exact ⟨hsize, hin⟩
    · exact ih hin hr

theorem getKeyRing_spec {pool r : KeyMap} {n : Nat} {draws : List Nat}
    (hr : pool.getKeyRing n draws = some r) : r.size = n ∧ r.ids ⊆ pool.ids := by
  obtain ⟨hsize, hin⟩ := drawInto_spec (fun e he => by cases he) hr
  refine ⟨hsize, fun k hk => ?_⟩
  obtain ⟨e, he, rfl⟩ := List.mem_map.mp hk
  exact List.mem_map_of_mem (hin e he)

/-- Two rings that together are larger than their pool share a key. -/
theorem exists_shared {pool r r' : KeyMap} (h : r.ids ⊆ pool.ids) (h' : r'.ids ⊆ pool.ids)
    (hlt : pool.size < r.size + r'.size) : ∃ k, k ∈ r.ids ∧ k ∈ r'.ids := by
  have hcard : ∀ m : KeyMap, m.ids.toFinset.card = m.size := fun m => by
    rw [List.toFinset_card_of_nodup m.nodup_ids, m.length_ids]
  have hsub : ∀ {m : KeyMap}, m.ids ⊆ pool.ids → m.ids.toFinset ⊆ pool.ids.toFinset :=
    fun hm k hk => List.mem_toFinset.mpr (hm (List.mem_toFinset.mp hk))
  obtain ⟨k, hk⟩ := Finset.inter_nonempty_of_card_lt_card_add_card (hsub h) (hsub h')
    (by rw [hcard, hcard, hcard]; exact hlt)
  obtain ⟨hk, hk'⟩ := Finset.mem_inter.mp hk
  exact ⟨k, List.mem_toFinset.mp hk, List.mem_toFinset.mp hk'⟩

end KeyMap

/-! ## Joining a tree -/

namespace Prover

/-- Behind `p'` the prover `p` has answered `m` with key `kid`, and waits for the ack. -/
structure Commits (m : CommitReq) (kid : KeyId) (p p' : Prover) : Prop where
  status : p'.status = .ATTESTING
  parent : p'.psessions = ⟨m.source, some ⟨m.treeID, m.source, kid, m.depth, false, none⟩⟩
  answer : ∃ s, p'.outbox = p.outbox ++
    [(s, .commitResp ⟨p.cfg.UId, m.source, kid, m.treeID, generateMAC kid, kid⟩)]
  waits : p'.cackto = ⟨m.source, m.treeID⟩ ∧
    ∃ k, p'.timers .cacktomsg = some ⟨p.now + timeoutack, k⟩
  fault : p'.fault = none

section
variable {m : CommitReq} {p : Prover} {kid kid' : KeyId}

theorem Commits.unique {p' : Prover} (h : Commits m kid p p') (h' : Commits m kid' p p') :
    kid = kid' := by
  have he := h.parent.symm.trans h'.parent
  simpa using he

/-- A request is answered with the key that is found first. -/
theorem handleCommitReq_of_find (hs : p.status = .READY)
    (hk : m.kid.find? (· ∈ p.cfg.KeyRing) = some kid) :
    p.handleCommitReq m = { p with psessions := ⟨m.source,
      some ⟨m.treeID, m.source, kid, m.depth, false, none⟩⟩ }.sendCommitResp m.source m.treeID
        ⟨m.treeID, m.source, kid, m.depth, false, none⟩ := by
  simp only [handleCommitReq, hs, ne_eq, not_true_eq_false, if_false, hk]

/-- The scan of `handleCommitReq`: a prover that is `READY` and waits for no ack commits with the
key it finds first, and without one it stays as it is. -/
theorem commits_iff_find (hs : p.status = .READY) (hf : p.fault = none)
    (ht : p.timers .cacktomsg = none) :
    (p.Commits m kid (p.handleCommitReq m) ↔ m.kid.find? (· ∈ p.cfg.KeyRing) = some kid) ∧
      (m.kid.find? (· ∈ p.cfg.KeyRing) = none → p.handleCommitReq m = p) := by
  have hfound : ∀ k, m.kid.find? (· ∈ p.cfg.KeyRing) = some k →
      p.Commits m k (p.handleCommitReq m) := by
    intro k hk
    rw [handleCommitReq_of_find hs hk, sendCommitResp_of_none (p := { p with psessions :=
      ⟨m.source, some ⟨m.treeID, m.source, k, m.depth, false, none⟩⟩ }) _ _ _ ht]
    refine ⟨rfl, rfl, ⟨_, rfl⟩, ⟨rfl, p.seq + 1, ?_⟩, hf⟩
    show Function.update p.timers .cacktomsg (some ⟨p.now + timeoutack, p.seq + 1⟩) .cacktomsg = _
    exact Function.update_self ..
  have hnone : m.kid.find? (· ∈ p.cfg.KeyRing) = none → p.handleCommitReq m = p := fun hk => by
    simp only [handleCommitReq, hs, ne_eq, not_true_eq_false, if_false, hk]
  refine ⟨⟨fun h => ?_, hfound kid⟩, hnone⟩
  cases hk : m.kid.find? (· ∈ p.cfg.KeyRing) with
  | none =>
    rw [hnone hk] at h
    cases h.status.symm.trans hs
  | some k => rw [h.unique (hfound k hk)]

/-- Where `cacktomsg` is scheduled no request is answered: the run ends in `scheduleAt`. -/
theorem not_commits_of_waiting {s : Stamp} (hs : p.status = .READY)
    (ht : p.timers .cacktomsg = some s) : ¬ p.Commits m kid (p.handleCommitReq m) := by
  intro h
  cases hk : m.kid.find? (· ∈ p.cfg.KeyRing) with
  | none =>
    have he : p.handleCommitReq m = p := by
      simp only [handleCommitReq, hs, ne_eq, not_true_eq_false, if_false, hk]
    rw [he] at h
    cases h.status.symm.trans hs
  | some k =>
    have hfail := (sendCommitResp_of_some (p := { p with psessions := ⟨m.source,
      some ⟨m.treeID, m.source, k, m.depth, false, none⟩⟩ }) m.treeID
        ⟨m.treeID, m.source, k, m.depth, false, none⟩ m.source ht).1
    rw [← handleCommitReq_of_find hs hk, h.fault] at hfail
    cases hfail

variable {pool r r' : KeyMap}

/-- The first key that the scan of a request finds is the least one that the rings share. -/
theorem find?_eq_head? (r r' : KeyMap) :
    r'.ids.find? (· ∈ r.ids) = (sharedKeys r.ids r'.ids).1.head? := by
  rw [sharedKeys_eq r.sorted_ids, filter_mem_comm r.sorted_ids r'.sorted_ids, List.head?_filter]

theorem head?_sharedKeys (h : (sharedKeys r.ids r'.ids).1.head? = some kid) :
    kid ∈ r.ids ∧ kid ∈ r'.ids ∧ ∀ k ∈ r.ids, k ∈ r'.ids → kid ≤ k := by
  rw [sharedKeys_eq r.sorted_ids] at h
  obtain ⟨rest, hrest⟩ := List.head?_eq_some_iff.mp h
  have hsorted : (kid :: rest).Pairwise (· < ·) := hrest ▸ r.sorted_ids.sublist List.filter_sublist
  have hmem : ∀ k, k ∈ kid :: rest ↔ k ∈ r.ids ∧ k ∈ r'.ids := fun k => by
    rw [← hrest, List.mem_filter, decide_eq_true_eq]
  obtain ⟨hin, hin'⟩ := (hmem kid).mp List.mem_cons_self
  refine ⟨hin, hin', fun k hk hk' => ?_⟩
  rcases List.mem_cons.mp ((hmem k).mpr ⟨hk, hk'⟩) with rfl | hk
  · exact Nat.le_refl _
  · exact ((List.pairwise_cons.mp hsorted).1 k hk).le

/-- What is claimed of a prover `p` that is `READY` and of the request of `q`, whose rings `r`
and `r'` are of size `n` from `pool`. -/
structure CommitsAsShared (pool r r' : KeyMap) (n : Nat) (p q : Prover) : Prop where
  answers : (∃ kid, p.Commits q.creqmsg kid (p.handleCommitReq q.creqmsg)) ↔
    ∃ k, k ∈ r.ids ∧ k ∈ r'.ids
  stays : (¬ ∃ k, k ∈ r.ids ∧ k ∈ r'.ids) → p.handleCommitReq q.creqmsg = p
  least : ∀ kid, p.Commits q.creqmsg kid (p.handleCommitReq q.creqmsg) →
    (sharedKeys r.ids r'.ids).1.head? = some kid ∧
      (kid ∈ r.ids ∧ kid ∈ r'.ids ∧ ∀ k ∈ r.ids, k ∈ r'.ids → kid ≤ k) ∧ kid ∈ q.cfg.KeyRing
  again : ∀ kid, p.Commits q.creqmsg kid (p.handleCommitReq q.creqmsg) →
    ∀ p₁ q₁ : Prover, p₁.cfg = p.cfg → q₁.cfg = q.cfg → p₁.status = .READY → p₁.fault = none →
      p₁.timers .cacktomsg = none → p₁.Commits q₁.creqmsg kid (p₁.handleCommitReq q₁.creqmsg)
  always : pool.size < 2 * n → ∃ kid, p.Commits q.creqmsg kid (p.handleCommitReq q.creqmsg)

/-- The scan of a request is the least key that the rings share. -/
theorem find?_creqmsg {q : Prover} (hp : p.cfg.KeyRing = r.ids) (hq : q.cfg.KeyRing = r'.ids) :
    q.creqmsg.kid.find? (· ∈ p.cfg.KeyRing) = (sharedKeys r.ids r'.ids).1.head? := by
  have hkid : q.creqmsg.kid = r'.ids := hq
  rw [hkid, hp]
  exact find?_eq_head? r r'

theorem head?_sharedKeys_of_mem {k : KeyId} (hk : k ∈ r.ids) (hk' : k ∈ r'.ids) :
    ∃ kid, (sharedKeys r.ids r'.ids).1.head? = some kid := by
  have hmem : k ∈ (sharedKeys r.ids r'.ids).1 := by
    rw [sharedKeys_eq r.sorted_ids, List.mem_filter]
    exact ⟨hk, decide_eq_true hk'⟩
  exact Option.isSome_iff_exists.mp (List.isSome_head?.mpr (List.ne_nil_of_mem hmem))

/-- A prover that waits for no ack commits as its ring and that of the request say. -/
theorem commitsAsShared_of_idle {q : Prover} {n : Nat} {draws draws' : List Nat}
    (hr : pool.getKeyRing n draws = some r) (hr' : pool.getKeyRing n draws' = some r')
    (hp : p.cfg.KeyRing = r.ids) (hq : q.cfg.KeyRing = r'.ids) (hs : p.status = .READY)
    (hf : p.fault = none) (ht : p.timers .cacktomsg = none) :
    CommitsAsShared pool r r' n p q := by
  have hcommits : ∀ p₁ q₁ : Prover, p₁.cfg = p.cfg → q₁.cfg = q.cfg → p₁.status = .READY →
      p₁.fault = none → p₁.timers .cacktomsg = none →
      ∀ kid, p₁.Commits q₁.creqmsg kid (p₁.handleCommitReq q₁.creqmsg) ↔
        (sharedKeys r.ids r'.ids).1.head? = some kid := by
    intro p₁ q₁ hp₁ hq₁ hs₁ hf₁ ht₁ kid
    rw [(commits_iff_find hs₁ hf₁ ht₁).1, find?_creqmsg (by rw [hp₁, hp]) (by rw [hq₁, hq])]
  have hself := hcommits p q rfl rfl hs hf ht
  have hshared : (∃ kid, p.Commits q.creqmsg kid (p.handleCommitReq q.creqmsg)) ↔
      ∃ k, k ∈ r.ids ∧ k ∈ r'.ids := by
    constructor
    · rintro ⟨kid, hkid⟩
      obtain ⟨hin, hin', -⟩ := head?_sharedKeys ((hself kid).mp hkid)
      exact ⟨kid, hin, hin'⟩
    · rintro ⟨k, hk, hk'⟩
      obtain ⟨kid, hkid⟩ := head?_sharedKeys_of_mem hk hk'
      exact ⟨kid, (hself kid).mpr hkid⟩
  refine ⟨hshared, fun hno => ?_, fun kid hkid => ?_, fun kid hkid p₁ q₁ hp₁ hq₁ hs₁ hf₁ ht₁ => ?_,
    fun hlt => hshared.mpr ?_⟩
  · refine (@commits_iff_find q.creqmsg p NOID hs hf ht).2 ?_
    rw [find?_creqmsg hp hq]
    refine Option.eq_none_iff_forall_ne_some.mpr fun kid hkid => hno ?_
    exact hshared.mp ⟨kid, (hself kid).mpr hkid⟩
  · have hhead := (hself kid).mp hkid
    have hleast := head?_sharedKeys hhead
    exact ⟨hhead, hleast, hq ▸ hleast.2.1⟩
  · exact (hcommits p₁ q₁ hp₁ hq₁ hs₁ hf₁ ht₁ kid).mpr ((hself kid).mp hkid)
  · obtain ⟨hsize, hsub⟩ := KeyMap.getKeyRing_spec hr
    obtain ⟨hsize', hsub'⟩ := KeyMap.getKeyRing_spec hr'
    exact KeyMap.exists_shared hsub hsub' (by omega)

/-- Rings that do not meet are not of more than half of their pool. -/
theorem commitsAsShared_of_disjoint {q : Prover} {n : Nat} {draws draws' : List Nat}
    (hr : pool.getKeyRing n draws = some r) (hr' : pool.getKeyRing n draws' = some r')
    (hp : p.cfg.KeyRing = r.ids) (hq : q.cfg.KeyRing = r'.ids) (hs : p.status = .READY)
    (hno : ¬ ∃ k, k ∈ r.ids ∧ k ∈ r'.ids) : CommitsAsShared pool r r' n p q := by
  have hnone : q.creqmsg.kid.find? (· ∈ p.cfg.KeyRing) = none := by
    rw [find?_creqmsg hp hq]
    refine Option.eq_none_iff_forall_ne_some.mpr fun kid hkid => hno ?_
    obtain ⟨hin, hin', -⟩ := head?_sharedKeys hkid
    exact ⟨kid, hin, hin'⟩
  have hstays : p.handleCommitReq q.creqmsg = p := by
    simp only [handleCommitReq, hs, ne_eq, not_true_eq_false, if_false, hnone]
  have hsilent : ∀ kid, ¬ p.Commits q.creqmsg kid (p.handleCommitReq q.creqmsg) := by
    intro kid h
    rw [hstays] at h
    cases h.status.symm.trans hs
  refine ⟨⟨fun h => h.elim fun kid h => absurd h (hsilent kid), fun h => absurd h hno⟩, fun _ => hstays,
    fun kid h => absurd h (hsilent kid), fun kid h => absurd h (hsilent kid), fun hlt => ?_⟩
  obtain ⟨hsize, hsub⟩ := KeyMap.getKeyRing_spec hr
  obtain ⟨hsize', hsub'⟩ := KeyMap.getKeyRing_spec hr'
  exact absurd (KeyMap.exists_shared hsub hsub' (by omega)) hno

/-- **A prover commits exactly when its ring meets that of the request**, with the least key
that they share, the same each time, and always where the rings are more than half of the pool:
so it does where no `cacktomsg` is scheduled any more, and only there, unless the rings have no
key in common. -/
theorem commits_iff_shared {q : Prover} {n : Nat} {draws draws' : List Nat}
    (hr : pool.getKeyRing n draws = some r) (hr' : pool.getKeyRing n draws' = some r')
    (hp : p.cfg.KeyRing = r.ids) (hq : q.cfg.KeyRing = r'.ids) (hs : p.status = .READY)
    (hf : p.fault = none) :
    CommitsAsShared pool r r' n p q ↔
      p.timers .cacktomsg = none ∨ ¬ ∃ k, k ∈ r.ids ∧ k ∈ r'.ids := by
  constructor
  · intro h
    by_contra hno
    obtain ⟨hwait, hmeet⟩ := not_or.mp hno
    obtain ⟨s, ht⟩ := Option.ne_none_iff_exists'.mp hwait
    obtain ⟨kid, hkid⟩ := h.answers.mpr (not_not.mp hmeet)
    exact not_commits_of_waiting hs ht hkid
  · rintro (ht | hno)
    · exact commitsAsShared_of_idle hr hr' hp hq hs hf ht
    · exact commitsAsShared_of_disjoint hr hr' hp hq hs hno

end

/-- Three keys, and two rings of two. -/
def threeKeys : KeyMap := ⟨[(1, 10), (2, 20), (3, 30)], by decide⟩

def ringProver (UId : Uid) (KeyRing : List KeyId) : Prover :=
  { init { UId, KeyRing, maxdepth := 1, deltah := 28 * second, aggsize := 2 } 0 with
    status := .READY }

/-- The rings 1, 2 and 2, 3 of three keys meet, so the request is answered. -/
theorem commits_iff_shared_three : ∃ kid, (ringProver 5 [1, 2]).Commits
    (ringProver 6 [2, 3]).creqmsg kid
    ((ringProver 5 [1, 2]).handleCommitReq (ringProver 6 [2, 3]).creqmsg) :=
  ((commits_iff_shared (p := ringProver 5 [1, 2]) (q := ringProver 6 [2, 3])
    (show threeKeys.getKeyRing 2 [1, 0] = some ⟨[(1, 10), (2, 20)], by decide⟩ by decide)
    (show threeKeys.getKeyRing 2 [2, 2, 1] = some ⟨[(2, 20), (3, 30)], by decide⟩ by decide)
    rfl rfl rfl rfl).mpr (.inl rfl)).always (by decide)

/-- A pool of two keys, and the ring that both provers of `lateJoin` have. -/
def twoKeys : KeyMap := ⟨[(5, 50), (6, 60)], by decide⟩

/-- At 91.96 s of `lateJoin` prover 1 is `READY` and `cacktomsg` is scheduled: it does not answer
a request whose ring is its own. -/
theorem lateJoin_silent : ¬ ∀ (pool r r' : KeyMap) (n : Nat) (draws draws' : List Nat)
    (cfg : Config) (start : Nat) (p q : Prover),
    pool.getKeyRing n draws = some r → pool.getKeyRing n draws' = some r' →
      cfg.KeyRing = r.ids → q.cfg.KeyRing = r'.ids →
      Runs.Reaches step (fun e _ => RealSource e.act) (init cfg start) p → p.status = .READY →
      p.crashed = false → p.fault = none → CommitsAsShared pool r r' n p q := by
  intro h
  let ring : KeyMap := ⟨[(5, 50)], by decide⟩
  obtain ⟨p, hr, ht⟩ := Runs.exists_of_run step (fun e _ => RealSource e.act)
    (Node.lateJoin.take 24) (init Node.twoLevels 0)
    (fun p => p.status = .READY ∧ p.crashed = false ∧ p.fault = none ∧ p.cfg.KeyRing = [5] ∧
      (p.timers .cacktomsg).isSome) (by decide +kernel)
  obtain ⟨hs, hc, hf, hring, hwait⟩ := of_decide_eq_true ht
  obtain ⟨s, hwait⟩ := Option.isSome_iff_exists.mp hwait
  have hring' : twoKeys.getKeyRing 1 [0] = some ring := by decide
  have hshared := h twoKeys ring ring 1 [0] [0] Node.twoLevels 0 p (ringProver 3 [5])
    hring' hring' rfl rfl hr hs hc hf
  obtain ⟨kid, hkid⟩ := hshared.answers.mpr ⟨5, by decide, by decide⟩
  exact not_commits_of_waiting hs hwait hkid

end Prover

/-! ## Revocation -/

namespace Collector

/-- The key ids that a prover shares with a request. -/
def named (m : RevokeReq) (mod : KeyHolder) : List KeyId := mod.ring.ids.filter (· ∈ m.kid)

theorem mem_named {m : RevokeReq} {mod : KeyHolder} {k : KeyId} :
    k ∈ named m mod ↔ k ∈ mod.ring.ids ∧ k ∈ m.kid := by
  rw [named, List.mem_filter, decide_eq_true_eq]

theorem sorted_named (m : RevokeReq) (mod : KeyHolder) : (named m mod).Pairwise (· < ·) :=
  mod.ring.sorted_ids.sublist List.filter_sublist

/-- An iteration of the loop reads only which ids are in `keyids`, and sorting keeps them. -/
theorem revokeLoop_eq {keyids : List KeyId} {m : RevokeReq} (h : ∀ k, k ∈ keyids ↔ k ∈ m.kid)
    (provers : List KeyHolder) :
    revokeLoop keyids provers =
      (provers.filter (named m · ≠ [])).map fun mod => sendRevReq mod.UId (named m mod) := by
  induction provers generalizing keyids with
  | nil => rfl
  | cons mod rest ih =>
    have hids : (sharedKeys mod.ring.ids keyids).1 = named m mod := by
      rw [sharedKeys_eq mod.ring.sorted_ids, named]
      exact List.filter_congr fun k _ => by simp only [h k]
    have hrest : ∀ k, k ∈ (sharedKeys mod.ring.ids keyids).2 ↔ k ∈ m.kid := fun k => by
      unfold sharedKeys
      rw [List.mem_insertionSort]
      exact h k
    rw [revokeLoop]
    dsimp only
    rw [hids, ih hrest]
    by_cases hno : named m mod = []
    · rw [if_neg (not_not_intro hno), List.filter_cons_of_neg (by simpa using hno)]
    · rw [if_pos hno, List.filter_cons_of_pos (by simpa using hno), List.map_cons]

theorem handleRevReq_eq (provers : List KeyHolder) (m : RevokeReq) :
    handleRevReq provers m =
      (provers.filter (named m · ≠ [])).map fun mod => sendRevReq mod.UId (named m mod) :=
  revokeLoop_eq (fun _ => List.mem_reverse) provers

/-- **A revocation reaches the holders of its keys**: each prover whose ring has one of the
ids gets one message, no other prover gets any, and the message lists what the prover
shares with the request, in ascending order; the order of the request does not matter. -/
theorem revocation_reaches_holders (provers : List KeyHolder) (m : RevokeReq) :
    (∃ kids : KeyHolder → List KeyId,
      handleRevReq provers m =
        (provers.filter (kids · ≠ [])).map (fun mod => ⟨mod.UId, kids mod, generateMAC 0⟩) ∧
      ∀ mod, (kids mod).Pairwise (· < ·) ∧
        ∀ k, k ∈ kids mod ↔ k ∈ mod.ring.ids ∧ k ∈ m.kid) ∧
      ((provers.map KeyHolder.UId).Nodup → ∀ mod ∈ provers,
        (handleRevReq provers m).countP (·.destination = mod.UId) =
          if ∃ k ∈ mod.ring.ids, k ∈ m.kid then 1 else 0) ∧
      ∀ m' : RevokeReq, (∀ k, k ∈ m'.kid ↔ k ∈ m.kid) →
        handleRevReq provers m' = handleRevReq provers m := by
  refine ⟨⟨named m, handleRevReq_eq provers m, fun mod => ⟨sorted_named m mod, fun k => mem_named⟩⟩,
    fun hnodup mod hmod => ?_, fun m' hm' => ?_⟩
  · have hinj := List.inj_on_of_nodup_map hnodup
    have hone : ∀ x ∈ provers, ((x.UId = mod.UId ∧ named m x ≠ []) ↔
        (x = mod ∧ named m mod ≠ [])) := fun x hx => by
      constructor
      · rintro ⟨hid, hne⟩
        obtain rfl := hinj hx hmod hid
        exact ⟨rfl, hne⟩
      · rintro ⟨rfl, hne⟩
        exact ⟨rfl, hne⟩
    have hmeets : (∃ k ∈ mod.ring.ids, k ∈ m.kid) ↔ named m mod ≠ [] := by
      constructor
      · rintro ⟨k, hk, hk'⟩
        exact List.ne_nil_of_mem (mem_named.mpr ⟨hk, hk'⟩)
      · intro hne
        obtain ⟨k, hk⟩ := List.exists_mem_of_ne_nil _ hne
        exact ⟨k, mem_named.mp hk⟩
    have hcount : (handleRevReq provers m).countP (·.destination = mod.UId) =
        provers.countP fun x => decide (x = mod ∧ named m mod ≠ []) := by
      rw [handleRevReq_eq, List.countP_map, List.countP_filter]
      refine List.countP_congr fun x hx => ?_
      simpa [sendRevReq] using hone x hx
    rw [hcount]
    by_cases hno : named m mod = []
    · rw [if_neg fun h => hmeets.mp h hno]
      exact List.countP_eq_zero.mpr fun x _ => by simp [hno]
    · rw [if_pos (hmeets.mpr hno)]
      have hself : (fun x => decide (x = mod ∧ named m mod ≠ [])) = (· == mod) := by
        funext x
        simp [hno, beq_eq_decide]
      rw [hself]
      exact List.count_eq_one_of_mem hnodup.of_map hmod
  · exact (revokeLoop_eq (fun k => List.mem_reverse.trans (hm' k)) provers).trans
      (handleRevReq_eq provers m).symm

end Collector

end Fadia
