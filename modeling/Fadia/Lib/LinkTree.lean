import Mathlib

/-!
# Trees of links to smaller nodes

`Rooted n links` says that the links join the nodes `0, …, n - 1` and that each node but `0`
has exactly one link to a smaller node.  Such links form a tree (`Rooted.isTree`), and a node
needs no more links than it has children and one for its parent (`Rooted.children_le`,
`Rooted.parents_le`).
-/

namespace LinkTree

/-- Each link leads from a node to a larger one, and to each node but `0` leads exactly one. -/
structure Rooted (n : ℕ) (links : List (ℕ × ℕ)) : Prop where
  nodup : links.Nodup
  down : ∀ l ∈ links, l.1 < l.2 ∧ l.2 < n
  parent : ∀ k, 1 ≤ k → k < n → ∃! p, (p, k) ∈ links

/-- The nodes with the links as undirected edges. -/
def graph (n : ℕ) (links : List (ℕ × ℕ)) : SimpleGraph (Fin n) :=
  SimpleGraph.fromRel fun u v => (u.val, v.val) ∈ links

section
variable {n : ℕ} {links : List (ℕ × ℕ)}

theorem graph_adj {u v : Fin n} : (graph n links).Adj u v ↔
    u ≠ v ∧ ((u.val, v.val) ∈ links ∨ (v.val, u.val) ∈ links) := SimpleGraph.fromRel_adj ..

/-- The node that leads to `k`. -/
theorem Rooted.eq_of_mem (h : Rooted n links) {p q k : ℕ} (hp : (p, k) ∈ links)
    (hq : (q, k) ∈ links) : p = q := by
  have hk := h.down _ hp
  obtain ⟨r, -, hr⟩ := h.parent k (by have := hk.1; omega) hk.2
  exact (hr p hp).trans (hr q hq).symm

/-- **Exactly one link leads to a smaller node.** -/
theorem Rooted.existsUnique (h : Rooted n links) {k : ℕ} (h1 : 1 ≤ k) (hk : k < n) :
    ∃! p, p < k ∧ ((p, k) ∈ links ∨ (k, p) ∈ links) := by
  obtain ⟨p, hp, hu⟩ := h.parent k h1 hk
  refine ⟨p, ⟨(h.down _ hp).1, .inl hp⟩, ?_⟩
  rintro q ⟨hlt, hq | hq⟩
  · exact hu q hq
  · have := (h.down _ hq).1
    exact absurd hlt (by simpa using this.le)

/-- **No two links join the same nodes.** -/
theorem Rooted.nodup_edges (h : Rooted n links) : (links.map fun l => s(l.1, l.2)).Nodup := by
  refine (List.nodup_map_iff_inj_on h.nodup).mpr ?_
  rintro ⟨a, b⟩ hl ⟨c, d⟩ hl' he
  have hab := (h.down _ hl).1
  have hcd := (h.down _ hl').1
  rcases Sym2.eq_iff.mp he with ⟨rfl, rfl⟩ | ⟨rfl, rfl⟩
  · rfl
  · exact absurd hab (by simpa using hcd.le)

/-! ## The tree -/

theorem Rooted.reachable (h : Rooted n links) (h0 : 0 < n) :
    ∀ k (hk : k < n), (graph n links).Reachable ⟨k, hk⟩ ⟨0, h0⟩ := by
  intro k
  induction k using Nat.strong_induction_on with
  | _ k ih =>
    intro hk
    rcases Nat.eq_zero_or_pos k with rfl | hpos
    · exact SimpleGraph.Reachable.refl _
    · obtain ⟨p, hp, -⟩ := h.parent k hpos hk
      have hlt : p < k := (h.down _ hp).1
      have hadj : (graph n links).Adj ⟨k, hk⟩ ⟨p, hlt.trans hk⟩ :=
        graph_adj.mpr ⟨fun he => hlt.ne' (Fin.mk.inj he), .inr hp⟩
      exact hadj.reachable.trans (ih p hlt (hlt.trans hk))

theorem Rooted.connected (h : Rooted n links) (h0 : 0 < n) : (graph n links).Connected := by
  have : Nonempty (Fin n) := ⟨⟨0, h0⟩⟩
  refine ⟨fun u v => ?_⟩
  exact (h.reachable h0 u.val u.isLt).trans (h.reachable h0 v.val v.isLt).symm

/-- The nodes but `0` are as many as the edges. -/
theorem Rooted.card_edges {m : ℕ} (h : Rooted (m + 1) links) :
    Nat.card (graph (m + 1) links).edgeSet = m := by
  have hparent : ∀ k : Fin m, ∃ p : Fin (m + 1), (p.val, k.val + 1) ∈ links := by
    intro k
    obtain ⟨p, hp, -⟩ := h.parent (k.val + 1) (by omega) (by omega)
    have hlt := (h.down _ hp).1
    exact ⟨⟨p, by have := k.isLt; omega⟩, hp⟩
  choose parent hmem using hparent
  have hlt : ∀ k : Fin m, (parent k).val < k.val + 1 := fun k => (h.down _ (hmem k)).1
  have hinj : Function.Injective fun k : Fin m => s(parent k, k.succ) := by
    intro k k' he
    -- the larger end of an edge tells the node
    rcases Sym2.eq_iff.mp he with ⟨-, hk⟩ | ⟨hk, hk'⟩
    · exact Fin.succ_injective _ hk
    · have h1 := hlt k
      have h2 := hlt k'
      rw [hk, Fin.val_succ] at h1
      rw [← hk', Fin.val_succ] at h2
      omega
  have hrange : (graph (m + 1) links).edgeSet = Set.range fun k : Fin m => s(parent k, k.succ) := by
    ext e
    induction e using Sym2.ind with
    | _ u v =>
      have hone : ∀ {a b : Fin (m + 1)}, (a.val, b.val) ∈ links →
          ∃ k : Fin m, s(parent k, k.succ) = s(a, b) := by
        intro a b hab
        have hlt := (h.down _ hab).1
        have hb : b.val - 1 + 1 = b.val := by omega
        refine ⟨⟨b.val - 1, by have := b.isLt; omega⟩, ?_⟩
        have hsucc : (⟨b.val - 1, by have := b.isLt; omega⟩ : Fin m).succ = b := Fin.ext hb
        have hp := hmem ⟨b.val - 1, by have := b.isLt; omega⟩
        rw [hb] at hp
        rw [hsucc, Fin.ext (h.eq_of_mem hp hab)]
      rw [SimpleGraph.mem_edgeSet, graph_adj, Set.mem_range]
      constructor
      · rintro ⟨-, hl | hl⟩
        · exact hone hl
        · obtain ⟨k, hk⟩ := hone hl
          exact ⟨k, hk.trans Sym2.eq_swap⟩
      · rintro ⟨k, hk⟩
        have hl := hmem k
        have hlk := hlt k
        rcases Sym2.eq_iff.mp hk with ⟨rfl, rfl⟩ | ⟨rfl, rfl⟩
        · exact ⟨fun he => by have := congrArg Fin.val he; rw [Fin.val_succ] at this; omega, .inl hl⟩
        · exact ⟨fun he => by have := congrArg Fin.val he; rw [Fin.val_succ] at this; omega, .inr hl⟩
  rw [hrange, Nat.card_range_of_injective hinj, Nat.card_eq_fintype_card, Fintype.card_fin]

/-- **The links form a tree.** -/
theorem Rooted.isTree (h : Rooted n links) (h0 : 0 < n) : (graph n links).IsTree := by
  obtain ⟨m, rfl⟩ : ∃ m, n = m + 1 := ⟨n - 1, by omega⟩
  refine SimpleGraph.isTree_iff_connected_and_card.mpr ⟨h.connected h0, ?_⟩
  rw [h.card_edges, Nat.card_eq_fintype_card, Fintype.card_fin]

/-! ## The links of a node -/

/-- A node has no more children than there are nodes that its links can lead to. -/
theorem Rooted.children_le (h : Rooted n links) {i : ℕ} (s : Finset ℕ)
    (hs : ∀ k, (i, k) ∈ links → k ∈ s) : links.countP (·.1 = i) ≤ s.card := by
  have hnodup : ((links.filter (·.1 = i)).map Prod.snd).Nodup := by
    refine (List.nodup_map_iff_inj_on (h.nodup.filter _)).mpr ?_
    rintro ⟨a, b⟩ ha ⟨c, d⟩ hc (rfl : b = d)
    rw [h.eq_of_mem (List.mem_of_mem_filter ha) (List.mem_of_mem_filter hc)]
  have hsub : ((links.filter (·.1 = i)).map Prod.snd).toFinset ⊆ s := by
    intro k hk
    obtain ⟨⟨a, b⟩, hl, rfl⟩ := List.mem_map.mp (List.mem_toFinset.mp hk)
    obtain ⟨hmem, ha⟩ := List.mem_filter.mp hl
    obtain rfl : a = i := by simpa using ha
    exact hs b hmem
  have hcard := Finset.card_le_card hsub
  rw [List.toFinset_card_of_nodup hnodup, List.length_map] at hcard
  rwa [List.countP_eq_length_filter]

/-- At most one link leads to a node, and none to `0`. -/
theorem Rooted.parents_le (h : Rooted n links) (k : ℕ) :
    links.countP (·.2 = k) ≤ if k = 0 then 0 else 1 := by
  have hnodup : ((links.filter (·.2 = k)).map Prod.fst).Nodup := by
    refine (List.nodup_map_iff_inj_on (h.nodup.filter _)).mpr ?_
    rintro ⟨a, b⟩ hl ⟨c, d⟩ hl' (rfl : a = c)
    have hb : b = k := by simpa using (List.mem_filter.mp hl).2
    have hd : d = k := by simpa using (List.mem_filter.mp hl').2
    rw [hb, hd]
  have hsub : ∀ p ∈ ((links.filter (·.2 = k)).map Prod.fst).toFinset, (p, k) ∈ links := by
    intro p hp
    obtain ⟨⟨a, b⟩, hl, rfl⟩ := List.mem_map.mp (List.mem_toFinset.mp hp)
    obtain ⟨hmem, hb⟩ := List.mem_filter.mp hl
    obtain rfl : b = k := by simpa using hb
    exact hmem
  rw [List.countP_eq_length_filter, ← List.length_map (f := Prod.fst),
    ← List.toFinset_card_of_nodup hnodup]
  split
  · next hk =>
    refine (Finset.card_eq_zero.mpr (Finset.eq_empty_of_forall_notMem fun p hp => ?_)).le
    have := (h.down _ (hsub p hp)).1
    omega
  · exact Finset.card_le_one.mpr fun p hp q hq => h.eq_of_mem (hsub p hp) (hsub q hq)

end

end LinkTree
