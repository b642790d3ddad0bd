import Fadia.Proof.TreeSteps
import Fadia.Proof.NetworkSteps
import Mathlib

/-!
# The sessions of a network form trees

In every run in which each prover starts one attestation, the two sessions of a
parent and its child agree (`sessions_agree`), and the parents of the provers form
trees no higher than `maxdepth` (`parents_form_trees`).  `Net.Fits` is the
invariant: each prover fits what the others have broadcast, and so does each
message on the air.
-/

namespace Fadia

namespace Net

variable {D : Deployment}

/-- Each prover starts one attestation. -/
def OneAttestation (e : NetEvent) (s : Net) : Prop :=
  Locally (fun ev p => Prover.StartsAttestation ev.act → .start ∉ p.log) e s

instance (e : NetEvent) (s : Net) : Decidable (OneAttestation e s) :=
  inferInstanceAs (Decidable (Locally _ e s))

def ring (D : Deployment) (u : Uid) : List KeyId := (D.cfg u).KeyRing

/-- Prover `q` has broadcast depth `d` and tree id `t`. -/
def Announced (D : Deployment) (s : Net) (q : Uid) (d : Nat) (t : TreeId) : Prop :=
  q ∈ D.ids ∧ (s.prover q).Says d t

/-- A message on its way to prover `v`. -/
structure AirFits (D : Deployment) (s : Net) (v : Uid) (m : Msg) : Prop where
  fits : MsgFits (ring D) (Announced D s) m
  source : m.source ∈ D.ids
  destination : (∃ r, m = .commitReq r) ∨ m.destination = v

structure Fits (D : Deployment) (s : Net) : Prop where
  cfg : ∀ u, (s.prover u).cfg = D.cfg u
  fault : ∀ u ∈ D.ids, (s.prover u).fault = none
  once : ∀ u ∈ D.ids, Prover.Alive (Prover.Once True) (s.prover u)
  settled : ∀ u ∈ D.ids, (s.prover u).Settled
  sessions : ∀ u ∈ D.ids, Prover.Fits (ring D) (Announced D s) (s.prover u)
  air : ∀ v m, (v, m) ∈ s.air → AirFits D s v m

section
variable {s s' : Net} {u : Uid}

theorem uid_eq (h : ∀ u, (s.prover u).cfg = D.cfg u) : (s.prover u).cfg.UId = u := by
  rw [h, D.uid_eq]

/-- What was broadcast stays. -/
theorem announced_mono (h : ∀ q ∈ D.ids, ∀ d t, (s.prover q).Says d t → (s'.prover q).Says d t)
    (q : Uid) (d : Nat) (t : TreeId) (ha : Announced D s q d t) : Announced D s' q d t :=
  ⟨ha.1, h q ha.1 d t ha.2⟩

theorem AirFits.mono (hA : ∀ q d t, Announced D s q d t → Announced D s' q d t) {v : Uid} {m : Msg}
    (h : AirFits D s v m) : AirFits D s' v m :=
  ⟨Prover.msgFits_mono hA h.fits, h.source, h.destination⟩

/-- What a prover relies on holds in the network. -/
theorem Fits.around (h : Fits D s) (u : Uid) :
    Prover.Around (ring D) (Announced D s) (s.prover u) := by
  refine ⟨?_, ?_, ?_⟩
  · rw [uid_eq h.cfg, h.cfg, ring]
  · rw [uid_eq h.cfg]
    exact fun d t ha => ha.2
  · exact fun q d t d' t' ha ha' => ha.2.2.2.symm.trans ha'.2.2.2

/-- A crashed prover keeps its sessions. -/
theorem fits_dropped {p p' : Prover} {A : Uid → Nat → TreeId → Prop}
    (h : Prover.Fits (ring D) A p) (hset : p.Settled) (hd : p.Dropped p') :
    Prover.Fits (ring D) A p' ∧ p'.Settled ∧ ∀ d t, p.Says d t → p'.Says d t := by
  obtain ⟨now, timers, uptos, outbox, ⟨ht, hu, hout⟩, rfl⟩ := hd
  refine ⟨h.same rfl rfl (fun _ _ => id) rfl rfl rfl hu h.outs (fun m hm => ?_) fun _ _ => Iff.rfl,
    ⟨hset.status, fun hne => hset.creq fun hoff => hne ?_⟩, fun _ _ => id⟩
  · rcases List.mem_append.mp hm with hm | hm
    · exact List.mem_append_left _ ((hout.map Prod.snd).mem hm)
    · exact List.mem_append_right _ hm
  · exact (ht .creqmsg).elim id fun he => he.trans hoff

/-- A message that causes an event was on the air. -/
theorem Fits.heard (h : Fits D s) {ev : Prover.Event} {air : List (Uid × Msg)}
    (hair : ev.act.Own ∧ air = s.air ∨
      ∃ m c, ev.act = .recv m c ∧ (u, m) ∈ s.air ∧ air = s.air.erase (u, m)) {m : Msg} {c : Choice}
    (he : ev.act = .recv m c) : AirFits D s u m := by
  rcases hair with ⟨hown, -⟩ | ⟨m', c', he', hmem, -⟩
  · rw [he] at hown
    exact hown.elim
  · rw [he] at he'
    cases he'
    exact h.air u m hmem

theorem Fits.onceOk (h : Fits D s) {ev : Prover.Event} {air : List (Uid × Msg)}
    (hok : Prover.StartsAttestation ev.act → .start ∉ (s.prover u).log)
    (hair : ev.act.Own ∧ air = s.air ∨
      ∃ m c, ev.act = .recv m c ∧ (u, m) ∈ s.air ∧ air = s.air.erase (u, m)) :
    Prover.OnceOk ev (s.prover u) := by
  refine ⟨hok, ?_⟩
  cases hact : ev.act with
  | recv m c => exact D.ne_of_mem (h.heard hair hact).source
  | _ => trivial

/-- What the event of a prover does to the prover. -/
theorem Fits.local (h : Fits D s) {ev : Prover.Event} {p' : Prover} {air : List (Uid × Msg)}
    (hu : u ∈ D.ids) (hstep : Prover.step ev (s.prover u) = some p')
    (hok : Prover.StartsAttestation ev.act → .start ∉ (s.prover u).log)
    (hair : ev.act.Own ∧ air = s.air ∨
      ∃ m c, ev.act = .recv m c ∧ (u, m) ∈ s.air ∧ air = s.air.erase (u, m))
    (hf : p'.fault = none) :
    Prover.OnceOk ev (s.prover u) ∧ Prover.Fits (ring D) (Announced D s) p' ∧ p'.Settled ∧
      ∀ d t, (s.prover u).Says d t → p'.Says d t := by
  have honce := h.onceOk hok hair
  refine ⟨honce, ?_⟩
  obtain ⟨hf0, -, ⟨-, hdrop⟩ | ⟨hc, hlive⟩⟩ := Prover.step_cases hstep
  · exact fits_dropped (h.sessions u hu) (h.settled u hu) hdrop
  · exact Prover.keeps_of_live (h.sessions u hu) (h.settled u hu) (h.once u hu hf0 hc) (h.around u)
      honce hf0 (fun m c he => (h.heard hair he).fits) hlive hf

/-- **A prover takes an event.** -/
theorem Fits.event (h : Fits D s) {ev : Prover.Event} {p' : Prover} {air : List (Uid × Msg)}
    (hu : u ∈ D.ids) (hstep : Prover.step ev (s.prover u) = some p')
    (hok : Prover.StartsAttestation ev.act → .start ∉ (s.prover u).log)
    (hair : ev.act.Own ∧ air = s.air ∨
      ∃ m c, ev.act = .recv m c ∧ (u, m) ∈ s.air ∧ air = s.air.erase (u, m))
    (hf : p'.fault = none) : Fits D { s.setProver u p' with now := ev.time, air := air } := by
  obtain ⟨honce, hfits, hset, hsaid⟩ := h.local hu hstep hok hair hf
  have hsub : ∀ x ∈ air, x ∈ s.air := by
    rcases hair with ⟨-, rfl⟩ | ⟨m, c, -, -, rfl⟩
    · exact fun _ => id
    · exact fun x hx => List.mem_of_mem_erase hx
  have hA : ∀ q d t, Announced D s q d t →
      Announced D { s.setProver u p' with now := ev.time, air := air } q d t := by
    refine announced_mono fun q _ d t hq => ?_
    by_cases he : q = u
    · rw [he] at hq ⊢
      change ((s.setProver u p').prover u).Says d t
      rw [setProver_self]
      exact hsaid d t hq
    · change ((s.setProver u p').prover q).Says d t
      rwa [setProver_of_ne he]
  have hother : ∀ P : Prover → Prop, P p' → (∀ v ∈ D.ids, P (s.prover v)) →
      ∀ v ∈ D.ids, P ((s.setProver u p').prover v) := by
    intro P hp hall v hv
    by_cases he : v = u
    · rw [he, setProver_self]
      exact hp
    · rw [setProver_of_ne he]
      exact hall v hv
  refine ⟨fun v => ?_, hother (fun p => p.fault = none) hf h.fault, hother _ ?_ h.once,
    hother Prover.Settled hset h.settled, hother _ (hfits.mono hA) fun v hv => (h.sessions v hv).mono hA,
    fun v m hm => ?_⟩
  · by_cases he : v = u
    · change ((s.setProver u p').prover v).cfg = _
      rw [he, setProver_self, Prover.step_cfg hstep, h.cfg]
    · change ((s.setProver u p').prover v).cfg = _
      rw [setProver_of_ne he, h.cfg]
  · intro hf' hc'
    obtain ⟨hf0, hc⟩ := Prover.step_alive hstep hc'
    exact (h.once u hu hf0 hc).step honce (fun _ => trivial) hstep hf' hc'
  · exact (h.air v m (hsub _ hm)).mono hA

theorem announced_takePacket (u : Uid) (pkt : Packet) (q : Uid) (d : Nat) (t : TreeId) :
    Announced D s q d t → Announced D (s.takePacket u pkt) q d t := by
  intro h
  obtain ⟨out, -, he⟩ := takePacket_prover (s := s) u pkt q
  rw [Announced, he]
  exact h

/-- A packet is taken for transmission. -/
theorem Fits.takePacket (h : Fits D s) (u : Uid) (pkt : Packet) : Fits D (s.takePacket u pkt) := by
  have hkeep := takePacket_prover (s := s) u pkt
  have hA := announced_takePacket (D := D) (s := s) u pkt
  refine ⟨fun v => ?_, fun v hv => ?_, fun v hv => ?_, fun v hv => ?_, fun v hv => ?_,
    fun v m hm => (h.air v m hm).mono hA⟩
  all_goals
    obtain ⟨out, hsub, he⟩ := hkeep v
    rw [he]
  · exact h.cfg v
  · exact h.fault v hv
  · exact fun hf hc => (h.once v hv hf hc).congr rfl rfl rfl rfl rfl rfl rfl (Nat.le_refl _) rfl
  · exact ⟨(h.settled v hv).status, (h.settled v hv).creq⟩
  · have hold := (h.sessions v hv).mono hA
    refine hold.same rfl rfl (fun _ _ => id) rfl rfl rfl (List.Sublist.refl _)
      (fun ho => hold.outs (hsub.mem ho)) (fun m hm => ?_) fun _ _ => Iff.rfl
    rcases List.mem_append.mp hm with hm | hm
    · exact List.mem_append_left _ hm
    · exact List.mem_append_right _ ((hsub.filterMap _).mem hm)

/-- More messages on the air. -/
theorem Fits.launch (h : Fits D s) (hp : s'.prover = s.prover)
    (hair : ∀ v m, (v, m) ∈ s'.air → (v, m) ∈ s.air ∨ AirFits D s v m) : Fits D s' := by
  have hA : ∀ q d t, Announced D s q d t → Announced D s' q d t := by
    intro q d t hq
    rw [Announced, hp]
    exact hq
  refine ⟨fun v => ?_, fun v hv => ?_, fun v hv => ?_, fun v hv => ?_, fun v hv => ?_,
    fun v m hm => ((hair v m hm).elim (h.air v m) id).mono hA⟩
  · rw [hp]
    exact h.cfg v
  · rw [hp]
    exact h.fault v hv
  · rw [hp]
    exact h.once v hv
  · rw [hp]
    exact h.settled v hv
  · rw [hp]
    exact (h.sessions v hv).mono hA

/-- What goes on the air fits. -/
theorem airFits_of_out (h : Fits D s) {pkt : Packet} (hu : u ∈ D.ids) (hpkt : pkt ∈ (s.prover u).out) :
    (pkt = .creqmsg → ∀ v, AirFits D s v (.commitReq (s.prover u).creqmsg)) ∧
      ∀ m, pkt = .prover m → AirFits D s m.destination m := by
  have huid := uid_eq h.cfg (u := u)
  constructor
  · rintro rfl v
    refine ⟨⟨⟨?_, ?_⟩, ?_⟩, ?_, .inl ⟨_, rfl⟩⟩
    · rw [Prover.creqmsg, huid]
      exact hu
    · rw [Prover.creqmsg, huid]
      exact ⟨(h.sessions u hu).outs hpkt, rfl, rfl⟩
    · rw [Prover.creqmsg, huid, h.cfg]
      rfl
    · rw [Msg.source, Prover.creqmsg, huid]
      exact hu
  · rintro m rfl
    have hmail : m ∈ (s.prover u).mail :=
      List.mem_append_right _ (List.mem_filterMap.mpr ⟨.prover m, hpkt, rfl⟩)
    obtain ⟨hsrc, hfit⟩ := (h.sessions u hu).mail m hmail
    exact ⟨hfit, by rw [hsrc, huid]; exact hu, .inr rfl⟩

/-- **A packet goes on the air.** -/
theorem Fits.radiate (h : Fits D s) {pkt : Packet} (hu : u ∈ D.ids) (hpkt : pkt ∈ (s.prover u).out)
    (targets : List Uid) (inRange : Bool) :
    Fits D ((s.takePacket u pkt).radiate (s.prover u) targets inRange pkt) := by
  obtain ⟨hcreq, hmsg⟩ := airFits_of_out h hu hpkt
  have hq := h.takePacket u pkt
  have hA := announced_takePacket (D := D) (s := s) u pkt
  cases pkt with
  | creqmsg =>
    refine hq.launch rfl fun v m hm => ?_
    rcases List.mem_append.mp hm with hm | hm
    · exact .inl hm
    · obtain ⟨w, -, he⟩ := List.mem_map.mp hm
      cases he
      exact .inr ((hcreq rfl v).mono hA)
  | collector m => exact hq.launch rfl fun _ _ => .inl
  | prover m =>
    have hsingle : ∀ v m', (v, m') ∈ (s.takePacket u (.prover m)).air ++ [(m.destination, m)] →
        (v, m') ∈ (s.takePacket u (.prover m)).air ∨ AirFits D (s.takePacket u (.prover m)) v m' := by
      intro v m' hm
      rcases List.mem_append.mp hm with hm | hm
      · exact .inl hm
      · cases List.mem_singleton.mp hm
        exact .inr ((hmsg m rfl).mono hA)
    cases m with
    | updateReq m =>
      simp only [Net.radiate]
      split
      · exact hq.launch rfl fun _ _ => .inl
      · exact hq.launch rfl hsingle
    | commitReq m => exact hq.launch rfl hsingle
    | commitResp m => exact hq.launch rfl hsingle
    | commitAck m => exact hq.launch rfl hsingle

/-- **One event** of a network in which each prover starts one attestation. -/
theorem Fits.step {e : NetEvent} (h : Fits D s) (hok : OneAttestation e s) (hs : Moves D e s s')
    (hh : s'.halted = false) : Fits D s' := by
  cases hs with
  | @event u ev p' air hu hloc hstep hair he =>
    rw [he] at hh ⊢
    change p'.fault.isSome = false at hh
    exact h.event hu hstep (hok _ _ hloc) hair (Option.not_isSome_iff_eq_none.mp (by simp [hh]))
  | transmit hu hloc hpkt _ _ he =>
    rw [he]
    exact h.radiate hu hpkt _ _
  | collect _ _ he =>
    rw [he]
    exact h.launch rfl fun _ _ => .inl

theorem fits_init : Fits D (init D) := by
  have hb : ∀ u, ((init D).prover u).log = [] := fun _ => rfl
  refine ⟨fun _ => rfl, fun _ _ => rfl, fun u _ _ _ => Prover.once_init True _ _, fun u _ => ?_,
    fun u _ => ?_, nofun⟩
  · exact ⟨fun h => by rw [hb] at h; simp at h, fun hne => absurd rfl hne⟩
  · have hno : ∀ y, y ∉ ((init D).prover u).log := fun y => by rw [hb]; exact List.not_mem_nil
    exact ⟨nofun, nofun, fun hf => absurd rfl hf, fun _ => nofun, fun hr => absurd hr (hno _),
      fun hr => absurd hr (hno _), nofun, fun c hc => absurd hc (AList.notMem_empty c),
      fun hr => absurd hr (hno _), nofun, nofun, fun d hd => absurd hd (hno _), nofun⟩

/-- **Every run in which each prover starts one attestation.** -/
theorem fits_of_reaches {s : Net} (h : Runs.Reaches (Net.step D) OneAttestation (init D) s)
    (hh : s.halted = false) : Fits D s := by
  have key : s.halted = false → Fits D s := by
    refine h.invariant (I := fun s => s.halted = false → Fits D s) (fun _ => fits_init) ?_
    intro e s s' ih hok hs hh'
    obtain ⟨hh, hmoves⟩ := moves_of_step hs
    exact (ih hh).step hok hmoves hh'
  exact key hh

/-! ## The two sessions of a parent and its child -/

theorem sharedKey_mem {ring : Uid → List KeyId} {q p : Uid} {k : KeyId}
    (h : sharedKey ring q p = some k) : k ∈ ring q ∧ k ∈ ring p :=
  ⟨List.mem_of_find?_eq_some h, by simpa using List.find?_some h⟩

/-- **Parent and child agree on the session**: tree id, the parent's own tree id, key
id and key rings; and a report on its way to a parent that still has the child's
session carries the parent's tree id and was made with the key id it is checked with. -/
theorem sessions_agree {s : Net} (h : Runs.Reaches (Net.step D) OneAttestation (init D) s)
    (hh : s.halted = false) :
    (∀ q ∈ D.ids, ∀ p ∈ D.ids, ∀ child, (s.prover q).csessions.lookup p = some child →
      (s.prover p).psessions.first = q → ∃ parent own, (s.prover p).psessions.second = some parent ∧
        (s.prover q).psessions.second = some own ∧ child.treeID = parent.treeID ∧
        child.treeID = own.treeID ∧ child.keyID = parent.keyID ∧
        child.keyID ∈ (D.cfg q).KeyRing ∧ child.keyID ∈ (D.cfg p).KeyRing) ∧
    ∀ q ∈ D.ids, ∀ m child, (q, .updateReq m) ∈ s.air → m.kind = .UPRQ →
      (s.prover q).csessions.lookup m.source = some child →
        m.macKid = child.keyID ∧ ∃ own, (s.prover q).psessions.second = some own ∧
          m.treeID = own.treeID := by
  have hfits := fits_of_reaches h hh
  -- a child session carries the tree id of the parent's own session
  have hown : ∀ q ∈ D.ids, ∀ c child, c ≠ NOID → (s.prover q).csessions.lookup c = some child →
      ∃ own, (s.prover q).psessions.second = some own ∧ own.treeID = (s.prover q).creqTreeID ∧
        child.treeID = (s.prover q).creqTreeID ∧ sharedKey (ring D) q c = some child.keyID := by
    intro q hq c child hne hchild
    have hs := hfits.sessions q hq
    obtain ⟨hb, hsome⟩ := hs.opened c (AList.lookup_isSome.mp (Option.isSome_of_eq_some hchild))
    obtain ⟨own, hsecond⟩ := Option.isSome_iff_exists.mp hsome
    obtain ⟨htree, hkey⟩ := hs.child c child hne hchild
    rw [uid_eq hfits.cfg] at hkey
    exact ⟨own, hsecond, (hs.own hb own hsecond).1, htree, hkey⟩
  refine ⟨?_, ?_⟩
  · intro q hq p hp child hchild hfirst
    obtain ⟨own, hsecond, htown, htchild, hkey⟩ := hown q hq p child (D.ne_of_mem hp) hchild
    have hs := hfits.sessions p hp
    have hne : (s.prover p).psessions.first ≠ NOID := by
      rw [hfirst]
      exact D.ne_of_mem hq
    obtain ⟨parent, hparent⟩ := Option.isSome_iff_exists.mp (hs.present hne)
    obtain ⟨hA, hkey', -⟩ := hs.parent parent hparent hne
    rw [hfirst, uid_eq hfits.cfg] at hkey'
    rw [hfirst] at hA
    have htree : (s.prover q).creqTreeID = parent.treeID := hA.2.2.2
    obtain ⟨hmem, hmem'⟩ := sharedKey_mem hkey
    exact ⟨parent, own, hparent, hsecond, htchild.trans htree, htchild.trans htown.symm,
      Option.some.inj (hkey.symm.trans hkey'), hmem, hmem'⟩
  · intro q hq m child hair hkind hchild
    have hfit := hfits.air q _ hair
    obtain ⟨own, hsecond, htown, -, hkey⟩ :=
      hown q hq m.source child (D.ne_of_mem hfit.source) hchild
    obtain ⟨⟨d, hA⟩, hmkey⟩ := hfit.fits hkind
    have hdest : m.destination = q := hfit.destination.resolve_left nofun
    rw [hdest] at hA hmkey
    have htree : (s.prover q).creqTreeID = m.treeID := hA.2.2.2
    exact ⟨Option.some.inj (hmkey.symm.trans hkey), own, hsecond, htree.symm.trans htown.symm⟩

/-- The sessions of the two provers behind `joinRun`. -/
theorem sessions_agree_join : ∃ s : Net, ∃ child parent,
    (s.prover 1).csessions.lookup 2 = some child ∧ (s.prover 2).psessions.second = some parent ∧
      child.keyID = parent.keyID := by
  obtain ⟨s, hs, ht⟩ := Runs.exists_of_run (Net.step twoProvers) OneAttestation joinRun
    (init twoProvers) (fun s => s.halted = false ∧ ((s.prover 1).csessions.lookup 2).isSome ∧
      (s.prover 2).psessions.first = 1) (by decide +kernel)
  obtain ⟨hh, hchild, hfirst⟩ := of_decide_eq_true ht
  obtain ⟨child, hchild⟩ := Option.isSome_iff_exists.mp hchild
  obtain ⟨parent, own, hparent, -, -, -, hkey, -⟩ :=
    (sessions_agree hs hh).1 1 (by decide) 2 (by decide) child hchild hfirst
  exact ⟨s, child, parent, hchild, hparent, hkey⟩

/-! ## The trees -/

/-- The parent of a prover. -/
def ParentOf (D : Deployment) (s : Net) (p q : Uid) : Prop :=
  p ∈ D.ids ∧ q ≠ NOID ∧ (s.prover p).psessions.first = q

/-- The depth of the session with the parent. -/
def depthOf (s : Net) (p : Uid) : Nat :=
  match (s.prover p).psessions.second with
  | some sess => sess.depth
  | none => 0

/-- What was broadcast lies between 1 and `maxdepth`. -/
def Shallow (D : Deployment) (M : Nat) (s : Net) : Prop :=
  ∀ q d t, Announced D s q d t → 1 ≤ d ∧ d ≤ M

theorem subUnsigned_of_pos {d : Nat} (h : 1 ≤ d) : subUnsigned d 1 + 1 = d := by
  rw [subUnsigned, if_pos h]
  omega

/-- A broadcast is one level below the session it follows from. -/
theorem shallow_of_fits {M : Nat} {A : Uid → Nat → TreeId → Prop} {p : Prover}
    (h : Prover.Fits (ring D) A p) (hmax : p.cfg.maxdepth = M) (hM : 1 ≤ M)
    (hA : ∀ q d t, A q d t → 1 ≤ d ∧ d ≤ M) {d : Nat} {t : TreeId} (hs : p.Says d t) :
    1 ≤ d ∧ d ≤ M := by
  obtain ⟨hb, hd, -⟩ := hs
  rcases h.depth hb with he | ⟨q, d', t', hq, hne, he⟩
  · omega
  · have hbound := hA q d' t' hq
    have := subUnsigned_of_pos hbound.1
    omega

theorem Shallow.step {M : Nat} {e : NetEvent} (hM : 1 ≤ M) (hmax : ∀ u, (D.cfg u).maxdepth = M)
    (h : Shallow D M s) (hfits : Fits D s) (hok : OneAttestation e s) (hs : Moves D e s s')
    (hh : s'.halted = false) : Shallow D M s' := by
  cases hs with
  | @event u ev p' air hu hloc hstep hair he =>
    rw [he] at hh ⊢
    change p'.fault.isSome = false at hh
    have hf : p'.fault = none := Option.not_isSome_iff_eq_none.mp (by simp [hh])
    obtain ⟨-, hp', -, -⟩ := hfits.local hu hstep (hok _ _ hloc) hair hf
    intro q d t hq
    by_cases hqu : q = u
    · have hsaid : p'.Says d t := by
        have := hq.2
        rw [hqu] at this
        change ((s.setProver u p').prover u).Says d t at this
        rwa [setProver_self] at this
      have hcfg : p'.cfg.maxdepth = M := by rw [Prover.step_cfg hstep, hfits.cfg, hmax]
      exact shallow_of_fits hp' hcfg hM h hsaid
    · refine h q d t ⟨hq.1, ?_⟩
      have := hq.2
      change ((s.setProver u p').prover q).Says d t at this
      rwa [setProver_of_ne hqu] at this
  | @transmit u pkt targets inRange hu hloc hpkt _ _ he =>
    rw [he]
    intro q d t hq
    obtain ⟨out, -, he⟩ := takePacket_prover (s := s) u pkt q
    rw [Announced, radiate_prover, he] at hq
    exact h q d t hq
  | collect _ _ he =>
    rw [he]
    exact h

theorem shallow_of_reaches {M : Nat} (hM : 1 ≤ M) (hmax : ∀ u, (D.cfg u).maxdepth = M) {s : Net}
    (h : Runs.Reaches (Net.step D) OneAttestation (init D) s) (hh : s.halted = false) :
    Shallow D M s := by
  have key : s.halted = false → Fits D s ∧ Shallow D M s := by
    refine h.invariant (I := fun s => s.halted = false → Fits D s ∧ Shallow D M s)
      (fun _ => ⟨fits_init, fun q d t hq => ?_⟩) ?_
    · exact absurd hq.2.1 List.not_mem_nil
    · intro e s s' ih hok hs hh'
      obtain ⟨hh, hmoves⟩ := moves_of_step hs
      obtain ⟨hfits, hsh⟩ := ih hh
      exact ⟨hfits.step hok hmoves hh', hsh.step hM hmax hfits hok hmoves hh'⟩
  exact (key hh).2

section Trees
variable {M : Nat} {p q r : Uid}

/-- The session with a parent has the depth the parent broadcast. -/
theorem depth_of_parent (h : Fits D s) (hp : ParentOf D s p q) :
    ∃ sess, (s.prover p).psessions.second = some sess ∧ Announced D s q (depthOf s p) sess.treeID := by
  obtain ⟨hin, hne, hfirst⟩ := hp
  have hs := h.sessions p hin
  obtain ⟨sess, hsecond⟩ := Option.isSome_iff_exists.mp (hs.present (by rw [hfirst]; exact hne))
  have hA := (hs.parent sess hsecond (by rw [hfirst]; exact hne)).1
  rw [hfirst] at hA
  refine ⟨sess, hsecond, ?_⟩
  rw [depthOf, hsecond]
  exact hA

/-- A child is one level below its parent. -/
theorem depth_succ (h : Fits D s) (hsh : Shallow D M s) (hp : ParentOf D s p q)
    (hq : ParentOf D s q r) : depthOf s p + 1 = depthOf s q := by
  obtain ⟨_, -, -, hb, hd, -⟩ := depth_of_parent h hp
  obtain ⟨sess, hsecond, hA⟩ := depth_of_parent h hq
  have hfirst : (s.prover q).psessions.first ≠ NOID := by
    rw [hq.2.2]
    exact hq.2.1
  have hown := ((h.sessions q hq.1).own hb sess hsecond).2.2 hfirst
  have hpos := (hsh r _ _ hA).1
  have hdepth : depthOf s q = sess.depth := by rw [depthOf, hsecond]
  rw [hdepth] at hpos ⊢
  rw [← hd, hown.2, subUnsigned_of_pos hpos]

/-- Depths grow along a chain of parents. -/
theorem depth_lt (h : Fits D s) (hsh : Shallow D M s) (hc : Relation.TransGen (ParentOf D s) p q)
    (hq : ParentOf D s q r) : depthOf s p < depthOf s q := by
  induction hc generalizing r with
  | single hp =>
    have := depth_succ h hsh hp hq
    omega
  | tail _ hstep ih =>
    have h1 := ih hstep
    have h2 := depth_succ h hsh hstep hq
    omega

theorem chain_length (h : Fits D s) (hsh : Shallow D M s) :
    ∀ (ps : List Uid) (p q : Uid), List.IsChain (ParentOf D s) (p :: q :: ps) →
      depthOf s p + ps.length ≤ M
  | [], p, q, hc => by
    have hp : ParentOf D s p q := by simpa using hc
    obtain ⟨_, -, hA⟩ := depth_of_parent h hp
    exact (hsh q _ _ hA).2
  | r :: ps, p, q, hc => by
    obtain ⟨hp, hrest⟩ := List.isChain_cons_cons.mp hc
    have hq : ParentOf D s q r := (List.isChain_cons_cons.mp hrest).1
    have ih := chain_length h hsh ps q r hrest
    have := depth_succ h hsh hp hq
    rw [List.length_cons]
    omega

end Trees

/-- **The parents form trees of bounded height.**  No prover is its own ancestor;
the depth of a session lies between 1 and `maxdepth`, is `maxdepth` below a root and
falls by one from a parent to its child; `depth - 1` never wraps; and no chain of
parents is longer than `maxdepth`. -/
theorem parents_form_trees {M : Nat} (hM : 1 ≤ M) (hmax : ∀ u, (D.cfg u).maxdepth = M) {s : Net}
    (h : Runs.Reaches (Net.step D) OneAttestation (init D) s) (hh : s.halted = false) :
    (∀ p, ¬ Relation.TransGen (ParentOf D s) p p) ∧
    (∀ p q, ParentOf D s p q → 1 ≤ depthOf s p ∧ depthOf s p ≤ M) ∧
    (∀ p q, ParentOf D s p q → .root ∈ (s.prover q).log → depthOf s p = M) ∧
    (∀ p q r, ParentOf D s p q → ParentOf D s q r → depthOf s p + 1 = depthOf s q) ∧
    (∀ u ∈ D.ids, ∀ d, .depthSub d ∈ (s.prover u).log → 1 ≤ d) ∧
    ∀ p ps, List.IsChain (ParentOf D s) (p :: ps) → ps.length ≤ M := by
  have hfits := fits_of_reaches h hh
  have hsh := shallow_of_reaches hM hmax h hh
  refine ⟨fun p hp => ?_, fun p q hp => ?_, fun p q hp hroot => ?_, fun p q r hp hq => ?_,
    fun u hu d hd => ?_, fun p ps hc => ?_⟩
  · obtain ⟨r, hr⟩ : ∃ r, ParentOf D s p r := by
      rcases Relation.TransGen.head'_iff.mp hp with ⟨r, hr, -⟩
      exact ⟨r, hr⟩
    exact Nat.lt_irrefl _ (depth_lt hfits hsh hp hr)
  · obtain ⟨_, -, hA⟩ := depth_of_parent hfits hp
    exact hsh q _ _ hA
  · obtain ⟨_, -, hq, hb, hd, -⟩ := depth_of_parent hfits hp
    have hrooted := (hfits.sessions q hq).rooted hroot hb
    rw [← hd, hrooted, hfits.cfg, hmax]
  · exact depth_succ hfits hsh hp hq
  · rcases (hfits.sessions u hu).subs d hd with he | ⟨q, t, hA⟩
    · rw [he, hfits.cfg, hmax]
      exact hM
    · exact (hsh q d t hA).1
  · cases ps with
    | nil => exact Nat.zero_le _
    | cons q ps =>
      have hlen := chain_length hfits hsh ps p q hc
      obtain ⟨_, -, hA⟩ := depth_of_parent hfits (List.isChain_cons_cons.mp hc).1
      have := (hsh q _ _ hA).1
      rw [List.length_cons]
      omega

/-- Prover 2 is a child of the root 1 behind `joinRun`. -/
theorem parents_form_trees_join : ∃ s : Net, ParentOf twoProvers s 2 1 ∧ depthOf s 2 ≤ 1 := by
  obtain ⟨s, hs, ht⟩ := Runs.exists_of_run (Net.step twoProvers) OneAttestation joinRun
    (init twoProvers) (fun s => s.halted = false ∧ (s.prover 2).psessions.first = 1)
    (by decide +kernel)
  obtain ⟨hh, hfirst⟩ := of_decide_eq_true ht
  have hp : ParentOf twoProvers s 2 1 := ⟨by decide, by decide, hfirst⟩
  exact ⟨s, hp, ((parents_form_trees (Nat.le_refl 1) (fun _ => rfl) hs hh).2.1 2 1 hp).2⟩

end

end Net

end Fadia
