import Fadia.Devices.NetworkOwner
import Fadia.Proof.Keys
import Mathlib

/-!
# Key distribution

Both loops of the network owner stop on an exact size.  A pass adds at most one entry and
takes none away (`size_drawKey`, `size_drawEntry`), so the size never skips a number, and a
value that is missing comes at some time if the generator is fair.  So a pool is filled if
there are enough key ids, and a ring is drawn if and only if its size lies between 1 and that
of the pool (`key_distribution`).
-/

namespace Fadia

open Loops

namespace KeyMap

theorem card_ids (m : KeyMap) : m.ids.toFinset.card = m.size := by
  rw [List.toFinset_card_of_nodup m.nodup_ids, m.length_ids]

theorem ids_insert (e : KeyId × Nat) (m : KeyMap) :
    (m.insert e).ids.toFinset = Insert.insert e.1 m.ids.toFinset := by
  ext k
  simp only [List.mem_toFinset, Finset.mem_insert]
  exact Sorted.mem_keys_insertEntry

theorem ids_assign (e : KeyId × Nat) (m : KeyMap) :
    (m.assign e).ids.toFinset = Insert.insert e.1 m.ids.toFinset := by
  have he : (m.assign e).ids = (m.insert e).ids := Sorted.keys_assignEntry
  rw [he, ids_insert]

end KeyMap

namespace NetworkOwner

variable {o : NetworkOwner}

/-- Every id is drawn again and again by the loop of `generateKeyPool`. -/
def FairIds (o : NetworkOwner) : Prop :=
  ∀ v < MAXUID, ∀ n, ∃ i ≥ n, (drawKey^[i] o).nextKeyId = v

/-- Every place in the pool is drawn again and again by the loop of `getKeyRing`. -/
def FairPlaces (o : NetworkOwner) : Prop :=
  ∀ v < o.keyPool.size, ∀ n, ∃ i ≥ n, o.rng.intrand (o.calls + i) o.keyPool.size = v

/-! ## The pool -/

theorem drawKey_of_ne (h : o.nextKeyId ≠ NOID) : o.drawKey =
    { o with
      calls := o.calls + 2
      keyPool := o.keyPool.assign (o.nextKeyId, o.rng.intrand (o.calls + 1) MAXUID) } := if_pos h

/-- A draw of `NOID` is repeated. -/
theorem drawKey_of_eq (h : o.nextKeyId = NOID) : o.drawKey = { o with calls := o.calls + 1 } :=
  if_neg (not_not.mpr h)

theorem ids_drawKey (o : NetworkOwner) : o.drawKey.keyPool.ids.toFinset =
    if o.nextKeyId ≠ NOID then insert o.nextKeyId o.keyPool.ids.toFinset
    else o.keyPool.ids.toFinset := by
  unfold drawKey
  split
  · exact KeyMap.ids_assign _ _
  · rfl

/-- A pass adds at most one id. -/
theorem size_drawKey (o : NetworkOwner) :
    o.keyPool.ids.toFinset ⊆ o.drawKey.keyPool.ids.toFinset ∧
      o.drawKey.keyPool.ids.toFinset.card ≤ o.keyPool.ids.toFinset.card + 1 := by
  rw [ids_drawKey]
  split
  · exact ⟨Finset.subset_insert _ _, Finset.card_insert_le _ _⟩
  · exact ⟨Finset.Subset.refl _, Nat.le_succ _⟩

@[simp] theorem KPsize_drawKey (o : NetworkOwner) : o.drawKey.KPsize = o.KPsize := by
  unfold drawKey
  split <;> rfl

theorem KPsize_iterate (i : Nat) : (drawKey^[i] o).KPsize = o.KPsize := by
  induction i with
  | zero => rfl
  | succ i ih => rw [Function.iterate_succ_apply', KPsize_drawKey, ih]

/-- The exit test of the loop of `generateKeyPool`. -/
theorem full_iff (i : Nat) :
    (fun o : NetworkOwner => decide (o.keyPool.size ≠ o.KPsize)) (drawKey^[i] o) = false ↔
      (drawKey^[i] o).keyPool.size = o.KPsize := by
  have h := KPsize_iterate (o := o) i
  generalize drawKey^[i] o = x at h ⊢
  simp [h]

/-- The ids of a pool are never `NOID`. -/
theorem noid_drawKey (h : NOID ∉ o.keyPool.ids) : NOID ∉ o.drawKey.keyPool.ids := by
  intro hin
  have hset := List.mem_toFinset.mpr hin
  rw [ids_drawKey] at hset
  split at hset
  · next hne =>
    rcases Finset.mem_insert.mp hset with he | hset
    · exact hne he.symm
    · exact h (List.mem_toFinset.mp hset)
  · exact h (List.mem_toFinset.mp hset)

/-- There are `MAXUID - 1` ids. -/
theorem exists_full (h0 : o.keyPool = .empty) (hsize : o.KPsize ≤ MAXUID - 1) (hfair : o.FairIds) :
    ∃ i, (drawKey^[i] o).keyPool.size = o.KPsize := by
  obtain ⟨i, hi⟩ := exists_card_eq (k := o.KPsize) (A := Finset.Ico 1 MAXUID)
    (S := fun i => (drawKey^[i] o).keyPool.ids.toFinset)
    (fun i => by rw [Function.iterate_succ_apply']; exact (size_drawKey _).1)
    (fun i => by rw [Function.iterate_succ_apply']; exact (size_drawKey _).2)
    (fun v hv n => by
      obtain ⟨hpos, hlt⟩ := Finset.mem_Ico.mp hv
      obtain ⟨i, hi, hdraw⟩ := hfair v hlt n
      have hne : (drawKey^[i] o).nextKeyId ≠ NOID := by
        rw [hdraw]
        exact Nat.one_le_iff_ne_zero.mp hpos
      refine ⟨i, hi, ?_⟩
      rw [Function.iterate_succ_apply', ids_drawKey, if_pos hne, hdraw]
      exact Finset.mem_insert_self _ _)
    (by simp [h0, KeyMap.ids, KeyMap.empty]) (by rwa [Nat.card_Ico])
  exact ⟨i, (KeyMap.card_ids _).symm.trans hi⟩

/-- **`generateKeyPool` terminates with a full pool.** -/
theorem generateKeyPool_full (h0 : o.keyPool = .empty) (hsize : o.KPsize ≤ MAXUID - 1)
    (hfair : o.FairIds) : ∃ fuel o', generateKeyPool fuel o = some o' ∧
      o'.keyPool.size = o.KPsize ∧ o'.keyPool.ids.Nodup ∧ NOID ∉ o'.keyPool.ids := by
  have hempty : NOID ∉ o.keyPool.ids := by
    rw [h0]
    exact List.not_mem_nil
  by_cases hfull : o.keyPool.size = o.KPsize
  · exact ⟨0, o, if_pos hfull, hfull, o.keyPool.nodup_ids, hempty⟩
  · obtain ⟨i, hi⟩ := exists_full h0 hsize hfair
    obtain ⟨n, rfl⟩ : ∃ n, i = n + 1 := by
      refine ⟨i - 1, ?_⟩
      have : i ≠ 0 := fun he => hfull (by rw [he] at hi; exact hi)
      omega
    have hstops : ∃ fuel t,
        doWhile drawKey (fun o => o.keyPool.size ≠ o.KPsize) fuel o = some t :=
      doWhile_stops_iff.mpr ⟨n, (full_iff (n + 1)).mpr hi⟩
    obtain ⟨fuel, o', ho'⟩ := hstops
    obtain ⟨hinv, hdone⟩ := doWhile_invariant
      (I := fun x : NetworkOwner => x.KPsize = o.KPsize ∧ NOID ∉ x.keyPool.ids) ⟨rfl, hempty⟩
      (fun x hx => ⟨(KPsize_drawKey x).trans hx.1, noid_drawKey hx.2⟩) ho'
    refine ⟨fuel, o', (if_neg hfull).trans ho', ?_, o'.keyPool.nodup_ids, hinv.2⟩
    have hsize' : o'.keyPool.size = o'.KPsize := by simpa using hdone
    exact hsize'.trans hinv.1

/-! ## The rings -/

section
variable {s : KeyMap × NetworkOwner}

/-- The entry of the pool that a pass draws. -/
theorem drawEntry_eq (hpool : 1 ≤ s.2.keyPool.size) : ∃ e ∈ s.2.keyPool.entries,
    s.2.keyPool.entries[s.2.nextPlace]? = some e ∧
      drawEntry s = (s.1.insert e, { s.2 with calls := s.2.calls + 1 }) := by
  have hlt : s.2.nextPlace < s.2.keyPool.entries.length := s.2.rng.lt _ _ hpool
  have he := List.getElem?_eq_getElem hlt
  refine ⟨_, List.getElem_mem hlt, he, ?_⟩
  unfold drawEntry
  rw [he]

theorem ids_drawEntry {e : KeyId × Nat}
    (h : drawEntry s = (s.1.insert e, { s.2 with calls := s.2.calls + 1 })) :
    (drawEntry s).1.ids.toFinset = insert e.1 s.1.ids.toFinset := by
  rw [h]
  exact KeyMap.ids_insert _ _

/-- A pass adds at most one entry. -/
theorem size_drawEntry (hpool : 1 ≤ s.2.keyPool.size) :
    s.1.ids.toFinset ⊆ (drawEntry s).1.ids.toFinset ∧
      (drawEntry s).1.ids.toFinset.card ≤ s.1.ids.toFinset.card + 1 := by
  obtain ⟨e, -, -, he⟩ := drawEntry_eq hpool
  rw [ids_drawEntry he]
  exact ⟨Finset.subset_insert _ _, Finset.card_insert_le _ _⟩

end

/-- The owner behind `i` passes of the loop of `getKeyRing`. -/
theorem owner_iterate (hpool : 1 ≤ o.keyPool.size) (i : Nat) :
    (drawEntry^[i] (.empty, o)).2 = { o with calls := o.calls + i } := by
  induction i with
  | zero => rfl
  | succ i ih =>
    obtain ⟨e, -, -, he⟩ := drawEntry_eq (s := drawEntry^[i] (.empty, o)) (by rw [ih]; exact hpool)
    rw [Function.iterate_succ_apply', he, ih]
    rfl

/-- What the ring holds behind some pass: entries of the pool, and at least one. -/
structure Drawn (o : NetworkOwner) (s : KeyMap × NetworkOwner) : Prop where
  keyPool : s.2.keyPool = o.keyPool
  KRsize : s.2.KRsize = o.KRsize
  entries : ∀ e ∈ s.1.entries, e ∈ o.keyPool.entries

theorem Drawn.step {s : KeyMap × NetworkOwner} (hpool : 1 ≤ o.keyPool.size) (h : Drawn o s) :
    Drawn o (drawEntry s) := by
  obtain ⟨e, hin, -, he⟩ := drawEntry_eq (s := s) (by rw [h.keyPool]; exact hpool)
  rw [he]
  refine ⟨h.keyPool, h.KRsize, fun x hx => ?_⟩
  rcases Sorted.mem_insertEntry hx with rfl | hx
  · rw [← h.keyPool]
    exact hin
  · exact h.entries x hx

theorem drawn_iterate (hpool : 1 ≤ o.keyPool.size) (i : Nat) : Drawn o (drawEntry^[i] (.empty, o)) := by
  have h0 : Drawn o (.empty, o) := ⟨rfl, rfl, fun e he => absurd he List.not_mem_nil⟩
  exact Function.Iterate.rec (Drawn o) h0 (fun _ hs => hs.step hpool) i

/-- A ring is no larger than its pool, and not empty behind the first pass. -/
theorem size_iterate (hpool : 1 ≤ o.keyPool.size) (i : Nat) :
    1 ≤ (drawEntry^[i + 1] (.empty, o)).1.size ∧
      (drawEntry^[i + 1] (.empty, o)).1.size ≤ o.keyPool.size := by
  have hdrawn := drawn_iterate hpool (i + 1)
  have hsub : (drawEntry^[i + 1] (.empty, o)).1.ids.toFinset ⊆ o.keyPool.ids.toFinset := by
    intro k hk
    obtain ⟨e, he, rfl⟩ := List.mem_map.mp (List.mem_toFinset.mp hk)
    exact List.mem_toFinset.mpr (List.mem_map_of_mem (hdrawn.entries e he))
  have hle := Finset.card_le_card hsub
  rw [KeyMap.card_ids, KeyMap.card_ids] at hle
  refine ⟨?_, hle⟩
  obtain ⟨e, -, -, he⟩ := drawEntry_eq (s := drawEntry^[i] (.empty, o))
    (by rw [(drawn_iterate hpool i).keyPool]; exact hpool)
  rw [← KeyMap.card_ids, Function.iterate_succ_apply', ids_drawEntry he]
  exact Finset.card_pos.mpr ⟨_, Finset.mem_insert_self _ _⟩

/-- A fair generator fills a ring of any size up to that of the pool. -/
theorem exists_ring (hpool : 1 ≤ o.keyPool.size) (hfair : o.FairPlaces)
    (hsize : o.KRsize ≤ o.keyPool.size) :
    ∃ i, (drawEntry^[i] (.empty, o)).1.size = o.KRsize := by
  have hpool' : ∀ i, 1 ≤ (drawEntry^[i] (.empty, o)).2.keyPool.size := fun i => by
    rw [(drawn_iterate hpool i).keyPool]
    exact hpool
  obtain ⟨i, hi⟩ := exists_card_eq (k := o.KRsize) (A := o.keyPool.ids.toFinset)
    (S := fun i => (drawEntry^[i] (.empty, o)).1.ids.toFinset)
    (fun i => by rw [Function.iterate_succ_apply']; exact (size_drawEntry (hpool' i)).1)
    (fun i => by rw [Function.iterate_succ_apply']; exact (size_drawEntry (hpool' i)).2)
    (fun k hk n => by
      obtain ⟨x, hx, rfl⟩ := List.mem_map.mp (List.mem_toFinset.mp hk)
      obtain ⟨v, hv, rfl⟩ := List.mem_iff_getElem.mp hx
      obtain ⟨i, hi, hdraw⟩ := hfair v hv n
      obtain ⟨e, -, hget, he⟩ := drawEntry_eq (hpool' i)
      have hplace : (drawEntry^[i] (.empty, o)).2.nextPlace = v := by
        rw [owner_iterate hpool i]
        exact hdraw
      rw [hplace, (drawn_iterate hpool i).keyPool, List.getElem?_eq_getElem hv] at hget
      refine ⟨i, hi, ?_⟩
      rw [Function.iterate_succ_apply', ids_drawEntry he, Option.some.inj hget]
      exact Finset.mem_insert_self _ _)
    (Nat.zero_le _) (by rwa [KeyMap.card_ids])
  exact ⟨i, (KeyMap.card_ids _).symm.trans hi⟩

/-- The exit test of the loop of `getKeyRing`. -/
theorem stops_iff (hpool : 1 ≤ o.keyPool.size) (i : Nat) :
    (fun s : KeyMap × NetworkOwner => decide (s.1.size ≠ s.2.KRsize)) (drawEntry^[i] (.empty, o)) =
      false ↔ (drawEntry^[i] (.empty, o)).1.size = o.KRsize := by
  simp [(drawn_iterate hpool i).KRsize]

/-- **`getKeyRing` terminates** exactly for the sizes from 1 to that of the pool. -/
theorem getKeyRing_stops_iff (hpool : 1 ≤ o.keyPool.size) (hfair : o.FairPlaces) :
    (∃ fuel r, getKeyRing fuel o = some r) ↔ 1 ≤ o.KRsize ∧ o.KRsize ≤ o.keyPool.size := by
  unfold getKeyRing
  rw [doWhile_stops_iff]
  simp only [stops_iff hpool]
  constructor
  · rintro ⟨n, hn⟩
    rw [← hn]
    exact size_iterate hpool n
  · rintro ⟨hpos, hle⟩
    obtain ⟨i, hi⟩ := exists_ring hpool hfair hle
    obtain ⟨n, rfl⟩ : ∃ n, i = n + 1 := by
      refine ⟨i - 1, ?_⟩
      have : i ≠ 0 := fun he => by
        rw [he] at hi
        exact absurd hi (show (0 : Nat) ≠ o.KRsize by omega)
      omega
    exact ⟨n, hi⟩

/-- **What `getKeyRing` returns**: distinct entries of the pool, as many as asked for. -/
theorem getKeyRing_exact (hpool : 1 ≤ o.keyPool.size) {fuel : Nat} {r : KeyMap × NetworkOwner}
    (h : getKeyRing fuel o = some r) :
    r.1.size = o.KRsize ∧ r.1.ids.Nodup ∧ ∀ e ∈ r.1.entries, e ∈ o.keyPool.entries := by
  obtain ⟨n, -, rfl, hstop, -⟩ := doWhile_eq_some_iff.mp h
  exact ⟨(stops_iff hpool (n + 1)).mp hstop, KeyMap.nodup_ids _,
    (drawn_iterate hpool (n + 1)).entries⟩

/-- **Key distribution.**  With a fair generator `generateKeyPool` terminates with `KPsize`
distinct ids, none of them `NOID`, as long as there are so many; and from a pool that is not
empty `getKeyRing` terminates if and only if `KRsize` lies between 1 and the size of the pool,
and then returns `KRsize` distinct entries of the pool. -/
theorem key_distribution (o : NetworkOwner) :
    (o.keyPool = .empty → o.KPsize ≤ MAXUID - 1 → o.FairIds →
      ∃ fuel o', generateKeyPool fuel o = some o' ∧ o'.keyPool.size = o.KPsize ∧
        o'.keyPool.ids.Nodup ∧ NOID ∉ o'.keyPool.ids) ∧
    (1 ≤ o.keyPool.size → o.FairPlaces →
      ((∃ fuel r, getKeyRing fuel o = some r) ↔ 1 ≤ o.KRsize ∧ o.KRsize ≤ o.keyPool.size) ∧
      ∀ fuel r, getKeyRing fuel o = some r →
        r.1.size = o.KRsize ∧ r.1.ids.Nodup ∧ ∀ e ∈ r.1.entries, e ∈ o.keyPool.entries) :=
  ⟨generateKeyPool_full, fun hpool hfair =>
    ⟨getKeyRing_stops_iff hpool hfair, fun _ _ h => getKeyRing_exact hpool h⟩⟩

/-! ## A fair generator -/

/-- A generator that counts, each number twice. -/
def counting : Rng where
  intrand := fun call n => call / 2 % n
  lt := fun _ _ hn => Nat.mod_lt _ hn

/-- The owner of a pool of three keys, for rings of two. -/
def threeKeyOwner : NetworkOwner := { rng := counting, KPsize := 3, KRsize := 2 }

/-- The key ids are drawn at the even calls. -/
theorem exists_even_call (m : Nat) : ∃ i, (drawKey^[i] threeKeyOwner).calls = 2 * m ∧
    (drawKey^[i] threeKeyOwner).rng = counting ∧ m ≤ i := by
  induction m with
  | zero => exact ⟨0, rfl, rfl, Nat.le_refl 0⟩
  | succ m ih =>
    obtain ⟨i, hcalls, hrng, hle⟩ := ih
    have hid : (drawKey^[i] threeKeyOwner).nextKeyId = m % MAXUID := by
      unfold nextKeyId
      rw [hrng, hcalls]
      show 2 * m / 2 % MAXUID = m % MAXUID
      rw [Nat.mul_div_cancel_left m (by decide)]
    by_cases hne : (drawKey^[i] threeKeyOwner).nextKeyId = NOID
    · -- a draw of `NOID` takes one call, and is repeated
      have hstep : drawKey (drawKey^[i] threeKeyOwner) =
          { drawKey^[i] threeKeyOwner with calls := 2 * m + 1 } := by
        rw [drawKey_of_eq hne, hcalls]
      have hid' : (drawKey (drawKey^[i] threeKeyOwner)).nextKeyId = NOID := by
        rw [hstep]
        unfold nextKeyId
        dsimp only
        rw [hrng]
        show (2 * m + 1) / 2 % MAXUID = NOID
        rw [← hne, hid]
        congr 1
        omega
      refine ⟨i + 2, ?_⟩
      rw [Function.iterate_succ_apply', Function.iterate_succ_apply', drawKey_of_eq hid', hstep]
      exact ⟨rfl, hrng, by omega⟩
    · refine ⟨i + 1, ?_⟩
      rw [Function.iterate_succ_apply', drawKey_of_ne hne]
      refine ⟨?_, hrng, by omega⟩
      show (drawKey^[i] threeKeyOwner).calls + 2 = 2 * (m + 1)
      omega

theorem fairIds_threeKeyOwner : threeKeyOwner.FairIds := by
  intro v hv n
  obtain ⟨i, hcalls, hrng, hle⟩ := exists_even_call (v + MAXUID * n)
  have hn : n ≤ MAXUID * n := Nat.le_mul_of_pos_left n (by decide)
  refine ⟨i, by omega, ?_⟩
  unfold nextKeyId
  rw [hrng, hcalls]
  show 2 * (v + MAXUID * n) / 2 % MAXUID = v
  rw [Nat.mul_div_cancel_left _ (by decide), Nat.add_mul_mod_self_left, Nat.mod_eq_of_lt hv]

/-- The pool that the owner holds when its keys are 1, 2 and 3. -/
def threeKeyPool : KeyMap := ((KeyMap.empty.insert (1, 10)).insert (2, 20)).insert (3, 30)

/-- The pool of three keys is filled, and a ring of two keys drawn from such a pool. -/
theorem key_distribution_three :
    (∃ fuel o', generateKeyPool fuel threeKeyOwner = some o' ∧ o'.keyPool.size = 3) ∧
      ∃ fuel r, getKeyRing fuel { threeKeyOwner with keyPool := threeKeyPool } = some r := by
  obtain ⟨fuel, o', ho', hsize, -⟩ :=
    (key_distribution threeKeyOwner).1 rfl (by decide) fairIds_threeKeyOwner
  refine ⟨⟨fuel, o', ho', hsize⟩, ?_⟩
  refine ((key_distribution { threeKeyOwner with keyPool := threeKeyPool }).2 (by decide)
    fun v hv n => ⟨2 * (v + 3 * n), by omega, ?_⟩).1.mpr (by decide)
  have hv : v < 3 := hv
  have hmod : (0 + 2 * (v + 3 * n)) / 2 % 3 = v := by omega
  exact hmod

end NetworkOwner

end Fadia
