import Fadia.Proof.Channel

/-!
# Carrier sensing gives mutual exclusion

A prover that begins to transmit found the channel idle (`Device.transmits_cases`), so
no prover near it transmits (`senses_near`): in the wireless build because distance is
symmetric, in the wired build because the search behind `isChannelBusy` meets exactly the
provers at most `far` hops away (`isChannelBusy_iff`).  With fixed positions this keeps any two
provers that are near from transmitting together (`mutual_exclusion`).
-/

namespace Fadia

theorem Coord.sqrdist_comm (a b : Coord) : a.sqrdist b = b.sqrdist a := by
  unfold sqrdist
  ring

namespace Topology

variable (T : Topology)

/-- The provers and the links between two of them. -/
def graph : SimpleGraph Uid where
  Adj u v := u ≠ v ∧ ∃ i j, (T.gates u)[i]? = some (some (Peer.prover v j))
  symm := ⟨fun u v ⟨hne, i, j, h⟩ => ⟨hne.symm, j, i, T.paired u i v j h⟩⟩
  loopless := ⟨fun _ h => h.1 rfl⟩

variable {T}

section
variable {transmiting : Uid → Bool} {u v : Uid}

/-- The search goes on over each gate but the one that it came by. -/
theorem busy_of_gate {far i j : Nat} {gid : Option Nat}
    (hgate : (T.gates u)[i]? = some (some (.prover v j))) (hne : some i ≠ gid)
    (hbusy : T.isChannelBusy transmiting far (some j) v = true) :
    T.isChannelBusy transmiting (far + 1) gid u = true := by
  have hlt : i < (T.gates u).length := by
    by_contra hge
    rw [List.getElem?_eq_none (Nat.le_of_not_lt hge)] at hgate
    cases hgate
  rw [isChannelBusy, Bool.or_eq_true]
  refine .inr ?_
  rw [List.any_reverse, List.any_eq_true]
  refine ⟨i, List.mem_range.mpr hlt, ?_⟩
  simp only [hgate, hbusy, Bool.and_true, bne_iff_ne]
  exact hne

theorem busy_of_transmiting {far : Nat} {gid : Option Nat} (h : transmiting u = true) :
    T.isChannelBusy transmiting far gid u = true := by
  cases far with
  | zero => exact h
  | succ far => rw [isChannelBusy, h, Bool.true_or]

/-- **The search is complete**: it meets every prover that a path of at most `far` links
leads to, where the path does not go back over the gate that the search came by. -/
theorem busy_of_walk {far : Nat} {gid : Option Nat} (p : T.graph.Walk u v) (hp : p.IsPath)
    (hlen : p.length ≤ far)
    (hgid : ∀ i, gid = some i → ∀ w j, (T.gates u)[i]? = some (some (.prover w j)) → w ∉ p.support)
    (hv : transmiting v = true) : T.isChannelBusy transmiting far gid u = true := by
  induction p generalizing far gid with
  | nil => exact busy_of_transmiting hv
  | @cons u w v hadj p ih =>
    rw [SimpleGraph.Walk.cons_isPath_iff] at hp
    rw [SimpleGraph.Walk.length_cons] at hlen
    rw [SimpleGraph.Walk.support_cons] at hgid
    obtain ⟨i, j, hgate⟩ := hadj.2
    obtain ⟨far, rfl⟩ : ∃ n, far = n + 1 := ⟨far - 1, by omega⟩
    have hne : some i ≠ gid := by
      intro he
      exact hgid i he.symm w j hgate (List.mem_cons_of_mem _ p.start_mem_support)
    refine busy_of_gate hgate hne (ih hp.1 (by omega) (fun i' hi' x y hx => ?_) hv)
    -- the gate that the search came by leads back to `u`, which the path has left
    obtain rfl : j = i' := Option.some.inj hi'
    rw [T.paired u i w j hgate] at hx
    obtain ⟨rfl, -⟩ : u = x ∧ i = y := by simpa using hx
    exact hp.2

theorem busy_of_edist {far : Nat} (h : T.graph.edist u v ≤ far) (hv : transmiting v = true) :
    T.isChannelBusy transmiting far none u = true := by
  have htop : T.graph.edist u v ≠ ⊤ := ne_top_of_le_ne_top (ENat.natCast_ne_top far) h
  obtain ⟨p, hp⟩ := SimpleGraph.exists_walk_of_edist_ne_top htop
  rw [← hp] at h
  have hlen : p.bypass.length ≤ far :=
    p.length_bypass_le_length.trans (by exact_mod_cast h)
  exact busy_of_walk p.bypass p.bypass_isPath hlen (fun i hi => by cases hi) hv

/-- **The search is sound**: each of its calls is one link further away. -/
theorem exists_of_busy {far : Nat} {gid : Option Nat}
    (h : T.isChannelBusy transmiting far gid u = true) :
    ∃ v, T.graph.edist u v ≤ far ∧ transmiting v = true := by
  induction far generalizing gid u with
  | zero => exact ⟨u, by simp, h⟩
  | succ far ih =>
    rw [isChannelBusy, Bool.or_eq_true] at h
    rcases h with h | h
    · exact ⟨u, by simp, h⟩
    · rw [List.any_reverse, List.any_eq_true] at h
      obtain ⟨i, -, hi⟩ := h
      split at hi
      · next w j hgate =>
        rw [Bool.and_eq_true] at hi
        obtain ⟨v, hv, hon⟩ := ih hi.2
        refine ⟨v, ?_, hon⟩
        by_cases hne : u = w
        · -- a link from a prover to itself
          subst hne
          exact hv.trans (by exact_mod_cast Nat.le_succ far)
        · have hadj : T.graph.Adj u w := ⟨hne, i, j, hgate⟩
          calc T.graph.edist u v ≤ T.graph.edist u w + T.graph.edist w v :=
                SimpleGraph.edist_triangle
            _ ≤ 1 + far := add_le_add (SimpleGraph.edist_eq_one_iff_adj.mpr hadj).le hv
            _ = (far + 1 : Nat) := by rw [add_comm]; rfl
      · cases hi

/-- **Carrier sensing is exact**: a prover hears who is at most `far` hops away, itself
included, over paths that do not lead through the collector. -/
theorem isChannelBusy_iff (T : Topology) (transmiting : Uid → Bool) (far : Nat) (u : Uid) :
    T.isChannelBusy transmiting far none u = true ↔
      ∃ v, T.graph.edist u v ≤ far ∧ transmiting v = true := by
  constructor
  · exact exists_of_busy
  · rintro ⟨v, hv, hon⟩
    exact busy_of_edist hv hon

end

end Topology

namespace Field

/-- Two provers that must not transmit together. -/
def Near (site : Site) (f : Field) (u v : Uid) : Prop :=
  match site.medium with
  | .wireless range => (f.pos u).sqrdist (f.pos v) ≤ range * range
  | .wired T => T.graph.edist u v ≤ NEIGHBOR_DISTANCE

/-- Positions are fixed. -/
def Fixed (e : FieldEvent) (_ : Field) : Prop := ∀ u c, e ≠ .move u c

section
variable {site : Site} {f f' : Field} {e : FieldEvent} {u v : Uid}

theorem Near.symm (h : Near site f u v) : Near site f v u := by
  unfold Near at h ⊢
  split at h
  · rwa [Coord.sqrdist_comm]
  · rwa [SimpleGraph.edist_comm]

/-- A prover that finds the channel idle has no other transmitting prover near it. -/
theorem senses_near (hv : v ∈ site.ids) (hne : u ≠ v) (hnear : Near site f u v)
    (hfree : (f.surroundings site u).channelBusy = false) :
    (f.device v).txrxstat ≠ .TRANSMITING := by
  intro ht
  have hon : (v != u && (f.device v).isTransmiting) = true := by
    simp [hne.symm, Device.isTransmiting, ht]
  unfold Near at hnear
  simp only [surroundings, channelBusy] at hfree
  split at hnear
  · next range hm =>
    rw [hm] at hfree
    have hin : v ∈ f.inRange site range u :=
      List.mem_filter.mpr ⟨hv, decide_eq_true ⟨hne.symm, hnear⟩⟩
    have hany : ((f.inRange site range u).any fun v => v != u && (f.device v).isTransmiting) =
        true := List.any_eq_true.mpr ⟨v, hin, hon⟩
    dsimp only at hfree
    rw [hany, Bool.or_true] at hfree
    cases hfree
  · next T hm =>
    rw [hm] at hfree
    have hbusy : T.isChannelBusy (fun v => v != u && (f.device v).isTransmiting)
        NEIGHBOR_DISTANCE none u = true := Topology.busy_of_edist hnear hon
    cases hfree.symm.trans hbusy

theorem near_setDevice {d : Device} : Near site (f.setDevice site u d) = Near site f := rfl

/-- No two provers that are near transmit together. -/
def Exclusive (site : Site) (f : Field) : Prop :=
  ∀ u ∈ site.ids, ∀ v ∈ site.ids, u ≠ v → Near site f u v →
    ¬ ((f.device u).txrxstat = .TRANSMITING ∧ (f.device v).txrxstat = .TRANSMITING)

/-- **Step lemma** for the exclusion: only one prover moves. -/
theorem exclusive_step (h : Exclusive site f) (hok : Fixed e f) (hs : step site e f = some f') :
    Exclusive site f' := by
  obtain ⟨-, ht⟩ := step_cases hs
  cases ht with
  | @device w e d hw hd =>
    -- whether `w` goes on transmitting or begins to, no other prover near it does
    have halone : ∀ v ∈ site.ids, w ≠ v → Near site f w v → d.txrxstat = .TRANSMITING →
        (f.device v).txrxstat ≠ .TRANSMITING := by
      intro v hv hne hnear hon
      rcases Device.transmits_cases hd hon with hon | hfree
      · exact fun hv' => h w hw v hv hne hnear ⟨hon, hv'⟩
      · exact senses_near hv hne hnear hfree
    rintro u hu v hv hne hnear ⟨hon, hon'⟩
    rw [near_setDevice] at hnear
    rw [device_setDevice] at hon hon'
    split at hon
    · next huw =>
      subst huw
      rw [if_neg hne.symm] at hon'
      exact halone v hv hne hnear hon hon'
    · next huw =>
      split at hon'
      · next hvw =>
        subst hvw
        exact halone u hu hne.symm hnear.symm hon' hon
      · exact h u hu v hv hne hnear ⟨hon, hon'⟩
  | arrive => exact h
  | procDone => exact h
  | move => exact absurd rfl (hok _ _)

/-- **Mutual exclusion**: of two provers in range (or, wired, at most
`NEIGHBOR_DISTANCE` hops apart) at most one transmits, in every run with fixed positions. -/
theorem mutual_exclusion {pos : Uid → Coord} (h : Runs.Reaches (step site) Fixed (init pos) f)
    (hu : u ∈ site.ids) (hv : v ∈ site.ids) (hne : u ≠ v) (hnear : Near site f u v) :
    ¬ ((f.device u).txrxstat = .TRANSMITING ∧ (f.device v).txrxstat = .TRANSMITING) := by
  have hinit : Exclusive site (init pos) := fun _ _ _ _ _ _ hboth => by cases hboth.1
  exact h.invariant hinit (fun _ _ _ ih hok hs => exclusive_step ih hok hs) u hu v hv hne hnear

end

/-- Two provers side by side: while the first one broadcasts, the second one is about to. -/
def broadcasts : List FieldEvent :=
  [.device 1 (.handOver .creqmsg), .device 2 (.handOver .creqmsg)]

/-- In `broadcasts` the second request is queued. -/
theorem mutual_exclusion_pair : ∃ f : Field, (f.device 1).txrxstat = .TRANSMITING ∧
    (f.device 2).msgqueue.length = 1 ∧ (f.device 2).txrxstat ≠ .TRANSMITING := by
  obtain ⟨f, hr, ht⟩ := Runs.exists_of_run (step pair) (fun e _ => e ∈ broadcasts) broadcasts
    (init fun _ => ⟨0, 0, 0⟩) (fun f => (f.device 1).txrxstat = .TRANSMITING ∧
      (f.device 2).msgqueue.length = 1 ∧ Coord.sqrdist (f.pos 1) (f.pos 2) = 0)
    (by decide +kernel)
  obtain ⟨hon, hqueue, hdist⟩ := of_decide_eq_true ht
  have hfixed : Runs.Reaches (step pair) Fixed (init fun _ => ⟨0, 0, 0⟩) f := by
    refine hr.weaken fun e _ hmem u c he => ?_
    simp [broadcasts, he] at hmem
  have hnear : Near pair f 1 2 := by
    show (f.pos 1).sqrdist (f.pos 2) ≤ 100 * 100
    rw [hdist]
    norm_num
  have hne := mutual_exclusion hfixed (by decide) (by decide) (by decide) hnear
  exact ⟨f, hon, hqueue, fun hon' => hne ⟨hon, hon'⟩⟩

end Field

end Fadia
