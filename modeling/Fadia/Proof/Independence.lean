import Fadia.Proof.Selfish
import Fadia.Lib.Runs
import Mathlib

/-!
# What a run takes over from the ones before it

A run finds `selfcount`, `NO` and `countcrash` as the runs before it left them.  The selfish
provers are those of a fresh process only if none was chosen before, none is asked for or all
are needed (`chooseAll_fresh_iff`), the run is ended by the same crash only if there was none
before (`endedBy_fresh_iff`), and the rings are drawn from the pool of the first run.  Where
the run finds its own network owner the provers are the same (`runs_independent`).
-/

namespace Fadia

/-- The state of the provers behind the calls of `initialize`. -/
def Inits (r : RunConfig) (s : Statics) (provers : List InitState) : Prop :=
  ∃ fuel s', initializeAll fuel r s = some (provers, s')

/-- A run that finds `s` is like one in a fresh process. -/
structure Independent (r : RunConfig) (s : Statics) : Prop where
  provers : ∀ provers, Inits r s provers ↔ Inits r {} provers
  crashes : ∀ n, endedBy n s = endedBy n {}

/-- The choice of the selfish provers is not changed by those chosen before: there were none,
none is asked for, or all provers of the run are still missing. -/
def SelfcountClean (r : RunConfig) (s : Statics) : Prop :=
  s.selfcount = 0 ∨ r.numself.toInt = 0 ∨ s.selfcount + r.numProvers ≤ r.numself.toInt.toNat

/-- Two network owners that will draw the same rings: the same pool and size of a ring, and
the same places drawn. -/
structure NetworkOwner.SameDraws (o o' : NetworkOwner) : Prop where
  keyPool : o.keyPool = o'.keyPool
  KRsize : o.KRsize = o'.KRsize
  places : ∀ i, o.rng.intrand (o.calls + i) o.keyPool.size =
    o'.rng.intrand (o'.calls + i) o.keyPool.size

/-- `NO` is not initialised, or it draws as the owner would that the run creates itself. -/
def OwnerClean (r : RunConfig) (s : Statics) : Prop :=
  ∀ o, s.NO = some o → ∃ fuel o',
    NetworkOwner.create fuel r.rng r.keyPoolSize r.keyRingSize = some o' ∧ o.SameDraws o'

structure Clean (r : RunConfig) (s : Statics) : Prop where
  selfcount : SelfcountClean r s
  owner : OwnerClean r s
  countcrash : s.countcrash = 0

/-! ## The crashes -/

section
variable {s : Statics}

/-- The crash that ends a run. -/
theorem endedBy_iff (n : Nat) : endedBy n s = true ↔ 1 ≤ n ∧ n = max 1 (MAX_CRASH - s.countcrash) := by
  induction n, s using endedBy.induct with
  | case1 s => simp [endedBy]
  | case2 s =>
    simp only [endedBy, crash, decide_eq_true_eq]
    omega
  | case3 s n ih =>
    rw [endedBy, Bool.and_eq_true, ih]
    simp only [crash, Bool.not_eq_true', decide_eq_false_iff_not]
    unfold MAX_CRASH
    omega

/-- **A run is ended by the same crash** only if no crash was counted before. -/
theorem endedBy_fresh_iff : (∀ n, endedBy n s = endedBy n {}) ↔ s.countcrash = 0 := by
  constructor
  · intro h
    have hfive : endedBy 5 {} = true := by decide
    have := (endedBy_iff 5).mp ((h 5).trans hfive)
    unfold MAX_CRASH at this
    omega
  · intro h n
    rw [Bool.eq_iff_iff, endedBy_iff, endedBy_iff, h]

end

/-! ## The selfish provers -/

section
variable {r : RunConfig} {s : Statics}

theorem eq_replicate_true {l : List Bool} {n : Nat} (hlen : l.length = n) (h : l.count true = n) :
    l = List.replicate n true := by
  refine List.eq_replicate_iff.mpr ⟨hlen, fun b hb => ?_⟩
  exact (List.count_eq_length.mp (h.trans hlen.symm) b hb).symm

theorem eq_replicate_false {l : List Bool} {n : Nat} (hlen : l.length = n) (h : l.count true = 0) :
    l = List.replicate n false := by
  refine List.eq_replicate_iff.mpr ⟨hlen, fun b hb => ?_⟩
  cases b with
  | false => rfl
  | true => exact absurd hb (List.count_eq_zero.mp h)

/-- **The selfish provers are those of a fresh process** only in the three cases. -/
theorem chooseAll_fresh_iff (huid : ∀ index < r.numProvers, initUID index = index + 1)
    (h0 : 0 ≤ r.numself.toInt) (hN : 1 ≤ r.numProvers) :
    (chooseAll r.numProvers r.numself r.residual (List.range r.numProvers) s.selfcount).1 =
        (chooseAll r.numProvers r.numself r.residual (List.range r.numProvers) 0).1 ↔
      SelfcountClean r s := by
  rw [List.range_eq_range']
  have hlt := lt_maxuid_of_uid huid
  obtain ⟨⟨hcount, -⟩, hlen⟩ := @chooseAll_count r.numProvers r.numself r.residual huid hlt h0
    r.numProvers 0 s.selfcount (by omega)
  obtain ⟨⟨hcount0, -⟩, hlen0⟩ := @chooseAll_count r.numProvers r.numself r.residual huid hlt h0
    r.numProvers 0 0 (by omega)
  unfold SelfcountClean
  constructor
  · intro he
    rw [he] at hcount
    omega
  · rintro (hself | hself | hself)
    · rw [hself]
    · rw [eq_replicate_false hlen (by omega), eq_replicate_false hlen0 (by omega)]
    · rw [eq_replicate_true hlen (by omega), eq_replicate_true hlen0 (by omega)]

/-- The cases also suffice without a bound on the provers or the number asked for. -/
theorem chooseAll_of_clean (h : SelfcountClean r s) :
    (chooseAll r.numProvers r.numself r.residual (List.range r.numProvers) s.selfcount).1 =
      (chooseAll r.numProvers r.numself r.residual (List.range r.numProvers) 0).1 := by
  rcases Nat.eq_zero_or_pos s.selfcount with h0 | hpos
  · rw [h0]
  rcases h with hself | hself | hself
  · rw [hself]
  · -- nobody is asked for
    have hnone : ∀ (l : List Nat) (c : Nat), (chooseAll r.numProvers r.numself r.residual l c).1 =
        List.replicate l.length false := by
      intro l
      induction l with
      | nil => exact fun _ => rfl
      | cons index rest ih =>
        intro c
        have hno : ¬ c < sizeOfInt r.numself.toInt := by
          rw [hself]
          exact Nat.not_lt_zero c
        have hone : chooseSelfish r.numProvers r.numself (r.residual index) (initUID index) c =
            (false, c) := if_neg hno
        rw [chooseAll_cons, hone, ih]
        rfl
    rw [hnone, hnone]
  · have hN : r.numProvers < MAXUID := by
      have := r.numself.toInt_lt
      unfold MAXUID
      omega
    rcases Nat.eq_zero_or_pos r.numProvers with hzero | hone
    · rw [hzero]
      rfl
    · refine (chooseAll_fresh_iff (fun index hi => ?_) (by omega) hone).mpr (.inr (.inr hself))
      have hlt : baseID + index < MAXUID := by
        unfold baseID
        omega
      rw [initUID, Nat.mod_eq_of_lt hlt]
      exact Nat.add_comm baseID index

end

/-! ## The network owner -/

namespace NetworkOwner

variable {o o' : NetworkOwner}

theorem SameDraws.refl (o : NetworkOwner) : o.SameDraws o := ⟨rfl, rfl, fun _ => rfl⟩

theorem SameDraws.next (h : o.SameDraws o') :
    SameDraws { o with calls := o.calls + 1 } { o' with calls := o'.calls + 1 } := by
  refine ⟨h.keyPool, h.KRsize, fun i => ?_⟩
  have hplace := h.places (1 + i)
  rw [← Nat.add_assoc, ← Nat.add_assoc] at hplace
  exact hplace

/-- **Owners that draw alike** give the same ring, and go on drawing alike. -/
theorem SameDraws.getKeyRing (h : o.SameDraws o') (fuel : Nat) :
    Option.Rel (fun (x y : KeyMap × NetworkOwner) => x.1 = y.1 ∧ x.2.SameDraws y.2)
      (o.getKeyRing fuel) (o'.getKeyRing fuel) := by
  refine Loops.doWhile_rel ?_ ?_ ⟨rfl, h⟩
  · rintro ⟨ring, o⟩ ⟨ring', o'⟩ ⟨rfl : ring = ring', hd⟩
    have hentry : o.keyPool.entries[o.nextPlace]? = o'.keyPool.entries[o'.nextPlace]? := by
      have hplace := hd.places 0
      unfold nextPlace
      rw [← hd.keyPool]
      exact congrArg (o.keyPool.entries[·]?) hplace
    unfold drawEntry
    dsimp only
    rw [← hentry]
    cases o.keyPool.entries[o.nextPlace]? with
    | none => exact ⟨rfl, hd.next⟩
    | some e => exact ⟨rfl, hd.next⟩
  · rintro ⟨ring, o⟩ ⟨ring', o'⟩ ⟨rfl : ring = ring', hd⟩
    dsimp only
    rw [hd.KRsize]

theorem create_mono {fuel fuel' : Nat} {rng : Rng} {ps rs : Nat}
    (h : create fuel rng ps rs = some o) (hle : fuel ≤ fuel') : create fuel' rng ps rs = some o := by
  unfold create generateKeyPool at h ⊢
  split
  · next hfull =>
    rw [if_pos hfull] at h
    exact h
  · next hfull =>
    rw [if_neg hfull] at h
    exact Loops.doWhile_mono h hle

end NetworkOwner

/-! ## The provers -/

section
variable {r : RunConfig} {s s' : Statics} {fuel fuel' : Nat}

/-- **The same provers**: the choices are the same and the owners draw alike. -/
theorem initializeList_congr {indices : List Nat}
    (hself : (chooseAll r.numProvers r.numself r.residual indices s.selfcount).1 =
      (chooseAll r.numProvers r.numself r.residual indices s'.selfcount).1)
    (hNO : Option.Rel NetworkOwner.SameDraws (initNO fuel r s) (initNO fuel r s')) :
    (initializeList fuel r indices s).map Prod.fst =
      (initializeList fuel r indices s').map Prod.fst := by
  induction indices generalizing s s' with
  | nil => rfl
  | cons index rest ih =>
    rw [chooseAll_cons, chooseAll_cons] at hself
    obtain ⟨hone, hrest⟩ := List.cons.inj hself
    unfold initializeList initializeProver
    generalize initNO fuel r s = no at hNO
    generalize initNO fuel r s' = no' at hNO
    cases hNO with
    | none => rfl
    | @some o o' hdraws =>
      dsimp only
      have hring := hdraws.getKeyRing fuel
      generalize o.getKeyRing fuel = x at hring
      generalize o'.getKeyRing fuel = x' at hring
      cases hring with
      | none => rfl
      | @some x x' hx =>
        obtain ⟨ring, o⟩ := x
        obtain ⟨ring', o'⟩ := x'
        obtain ⟨rfl : ring = ring', hdraws⟩ := hx
        dsimp only
        have hih := @ih
          { s with
            NO := some o
            selfcount := (chooseSelfish r.numProvers r.numself (r.residual index) (initUID index)
              s.selfcount).2 }
          { s' with
            NO := some o'
            selfcount := (chooseSelfish r.numProvers r.numself (r.residual index) (initUID index)
              s'.selfcount).2 } hrest (.some hdraws)
        rw [Option.map_map, Option.map_map, hone]
        have hcons : ∀ (p : InitState) (x : Option (List InitState × Statics)),
            x.map (Prod.fst ∘ fun x => (p :: x.1, x.2)) = (x.map Prod.fst).map (p :: ·) := by
          intro p x
          rw [Option.map_map]
          rfl
        rw [hcons, hcons, hih]

/-- More fuel gives the same provers. -/
theorem initializeList_mono {indices : List Nat} {x : List InitState × Statics}
    (h : initializeList fuel r indices s = some x) (hle : fuel ≤ fuel') :
    initializeList fuel' r indices s = some x := by
  induction indices generalizing s x with
  | nil => exact h
  | cons index rest ih =>
    have hno : ∀ o, initNO fuel r s = some o → initNO fuel' r s = some o := by
      intro o ho
      unfold initNO at ho ⊢
      split at ho
      · exact ho
      · exact NetworkOwner.create_mono ho hle
    unfold initializeList initializeProver at h ⊢
    cases ho : initNO fuel r s with
    | none =>
      rw [ho] at h
      cases h
    | some o =>
      rw [ho] at h
      rw [hno o ho]
      dsimp only at h ⊢
      cases hring : o.getKeyRing fuel with
      | none =>
        rw [hring] at h
        cases h
      | some ring =>
        have hring' : o.getKeyRing fuel' = some ring := Loops.doWhile_mono hring hle
        rw [hring] at h
        rw [hring']
        obtain ⟨y, hy, he⟩ := Option.map_eq_some_iff.mp h
        exact Option.map_eq_some_iff.mpr ⟨y, ih hy, he⟩

/-- **A run that finds clean statics** has the provers of a fresh process. -/
theorem inits_of_clean (hself : SelfcountClean r s) (howner : OwnerClean r s)
    (provers : List InitState) : Inits r s provers ↔ Inits r {} provers := by
  have hchoose := chooseAll_of_clean hself
  -- with fuel enough the owners draw alike
  have hagree : ∃ f, ∀ fuel ≥ f,
      Option.Rel NetworkOwner.SameDraws (initNO fuel r s) (initNO fuel r {}) := by
    cases hNO : s.NO with
    | none =>
      refine ⟨0, fun fuel _ => ?_⟩
      have he : initNO fuel r s = initNO fuel r {} := by
        unfold initNO
        rw [hNO]
      rw [he]
      cases initNO fuel r {} with
      | none => exact .none
      | some o => exact .some (.refl o)
    | some o =>
      obtain ⟨f, o', hcreate, hdraws⟩ := howner o hNO
      refine ⟨f, fun fuel hf => ?_⟩
      have h1 : initNO fuel r s = some o := by
        unfold initNO
        rw [hNO]
      have h2 : initNO fuel r {} = some o' := NetworkOwner.create_mono hcreate hf
      rw [h1, h2]
      exact .some hdraws
  obtain ⟨f, hf⟩ := hagree
  have key : ∀ fuel ≥ f, (initializeAll fuel r s).map Prod.fst =
      (initializeAll fuel r {}).map Prod.fst := fun fuel hle =>
    initializeList_congr hchoose (hf fuel hle)
  have hmove : ∀ {s₁ s₂ : Statics}, (∀ fuel ≥ f, (initializeAll fuel r s₁).map Prod.fst =
      (initializeAll fuel r s₂).map Prod.fst) → Inits r s₁ provers → Inits r s₂ provers := by
    rintro s₁ s₂ hsame ⟨fuel, s', h⟩
    have hmax : initializeAll (max fuel f) r s₁ = some (provers, s') :=
      initializeList_mono h (Nat.le_max_left _ _)
    have he := hsame (max fuel f) (Nat.le_max_right _ _)
    rw [hmax, Option.map_some] at he
    obtain ⟨⟨provers', s''⟩, hinit, hp⟩ := Option.map_eq_some_iff.mp he.symm
    obtain rfl : provers' = provers := hp
    exact ⟨_, s'', hinit⟩
  exact ⟨hmove key, hmove fun fuel hle => (key fuel hle).symm⟩

end

/-- A run that finds the statics clean is like the first one of a process. -/
theorem independent_of_clean {r : RunConfig} {s : Statics} (h : Clean r s) : Independent r s :=
  ⟨inits_of_clean h.selfcount h.owner, endedBy_fresh_iff.mpr h.countcrash⟩

/-- **Runs of one process are independent** as long as each finds the statics clean.  The crash
that ends a run is the same only if there was no crash before; and, for ids that are indices
plus one, the selfish provers are the same only if `SelfcountClean`. -/
theorem runs_independent (r : RunConfig) (s : Statics) :
    (Runs.Reaches SimRun.step (fun run s => Clean run.config s) {} s →
      Runs.Reaches SimRun.step (fun run s => Independent run.config s) {} s) ∧
    (Clean r s → Independent r s) ∧
    ((∀ n, endedBy n s = endedBy n {}) ↔ s.countcrash = 0) ∧
    ((∀ index < r.numProvers, initUID index = index + 1) → 0 ≤ r.numself.toInt →
      1 ≤ r.numProvers →
      ((chooseAll r.numProvers r.numself r.residual (List.range r.numProvers) s.selfcount).1 =
        (chooseAll r.numProvers r.numself r.residual (List.range r.numProvers) 0).1 ↔
          SelfcountClean r s)) := by
  refine ⟨fun h => h.weaken fun _ _ hclean => independent_of_clean hclean, independent_of_clean,
    endedBy_fresh_iff, chooseAll_fresh_iff⟩

/-- One prover with the only key of the pool; as many selfish as asked for. -/
def loneProver (numself : Int32) : RunConfig where
  numProvers := 1
  numself := numself
  keyPoolSize := 1
  keyRingSize := 1
  residual := fun _ => 100
  rng := ⟨fun _ n => 1 % n, fun _ _ hn => Nat.mod_lt _ hn⟩

/-- A crash of the first run counts for the second one, which its fourth crash ends. -/
theorem crash_outlives_run :
    ¬ ∀ s, Runs.Reaches SimRun.step (fun _ _ => True) {} s → ∀ r, Independent r s := by
  intro h
  obtain ⟨s, hs, hend⟩ := Runs.exists_of_run SimRun.step (fun _ _ => True) [⟨loneProver 1, 2, 1⟩]
    {} (fun s => endedBy 4 s && s.selfcount == 1) (by decide +kernel)
  have hfour : endedBy 4 s = true := (Bool.and_eq_true_iff.mp hend).1
  have hfresh : endedBy 4 {} = false := by decide
  rw [(h s hs (loneProver 1)).crashes 4, hfresh] at hfour
  cases hfour

/-- What a run of `loneProver` leaves behind. -/
def afterLone : Statics where
  NO := (NetworkOwner.create 2 (loneProver 0).rng 1 1).map fun o => { o with calls := o.calls + 1 }

/-- A second run of `loneProver` is like the first one. -/
theorem runs_independent_lone :
    Runs.Reaches SimRun.step (fun run s => Independent run.config s) {} afterLone ∧
      Independent (loneProver 0) afterLone := by
  have hclean : Clean (loneProver 0) {} :=
    ⟨.inl rfl, fun o ho => (Option.some_ne_none o ho.symm).elim, rfl⟩
  have hstep : SimRun.step ⟨loneProver 0, 2, 0⟩ {} = some afterLone := rfl
  have hs : Runs.Reaches SimRun.step (fun run s => Clean run.config s) {} afterLone :=
    .tail .refl hclean hstep
  refine ⟨(runs_independent (loneProver 0) afterLone).1 hs,
    (runs_independent (loneProver 0) afterLone).2.1 ⟨.inl rfl, fun o ho => ?_, rfl⟩⟩
  obtain rfl := Option.some.inj ho
  exact ⟨2, _, rfl, rfl, rfl, fun _ => rfl⟩

end Fadia
