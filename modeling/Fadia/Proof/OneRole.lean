import Fadia.Proof.Roles
import Mathlib

/-!
# Exactly one role a round

A history of the network keeps the roles that each prover has taken and the time at which
its gathering ended.  A pair of parent and child stands for at most one broadcast of the
parent, whatever carries it (`Paid.tokens`): a request, an answer, an ack or an accepted
ack.  So no ack reaches a child that has accepted one already, and each prover takes at
most one role, and exactly one once its gather timer and a response time are over
(`one_role`).
-/

namespace Fadia

namespace Net

open Prover

variable {D : Deployment}

/-- A network with the roles its provers have taken and the times their gathering ended. -/
structure History where
  net : Net
  roles : Uid → List Role := fun _ => []
  gathered : Uid → Option Nat := fun _ => none

namespace History

/-- What an event that leads to `s` adds. -/
def record (e : NetEvent) (h : History) (s : Net) : History :=
  match e.localEvent with
  | some (u, ev) =>
    let p := h.net.prover u
    let p' := s.prover u
    ⟨s, Function.update h.roles u (takes ev p p' ++ h.roles u),
      Function.update h.gathered u (gathers ev p p' (h.gathered u))⟩
  | none => { h with net := s }

def step (D : Deployment) (e : NetEvent) (h : History) : Option History :=
  (Net.step D e h.net).map (h.record e)

def init (D : Deployment) : History := ⟨Net.init D, fun _ => [], fun _ => none⟩

/-- Each prover starts one attestation. -/
def OneAttestation (e : NetEvent) (h : History) : Prop := Net.OneAttestation e h.net

instance (e : NetEvent) (h : History) : Decidable (h.OneAttestation e) :=
  inferInstanceAs (Decidable (Net.OneAttestation e h.net))

@[simp] theorem record_net (e : NetEvent) (h : History) (s : Net) : (h.record e s).net = s := by
  unfold record
  split <;> rfl

end History

/-! ## The pairs of parent and child under way -/

/-- How often messages about the pair `x` are prepared, handed over or on the air. -/
def pairs (D : Deployment) (x : Uid × Uid) (s : Net) : Nat :=
  (D.ids.map fun u => (s.prover u).joins.count x).sum +
    (s.air.flatMap fun a => a.2.join a.1).count x

section
variable {s s' : Net} {u : Uid} {x : Uid × Uid}

/-- A prover accepts no more acks than it takes from the network. -/
theorem pairs_event (h : Fits D s) {ev : Prover.Event} {p' : Prover} {air : List (Uid × Msg)}
    (hu : u ∈ D.ids) (hstep : Prover.step ev (s.prover u) = some p')
    (hair : ev.act.Own ∧ air = s.air ∨
      ∃ m c, ev.act = .recv m c ∧ (u, m) ∈ s.air ∧ air = s.air.erase (u, m)) :
    pairs D x { s.setProver u p' with now := ev.time, air := air } +
      ((s.prover u).accepted ev).count x ≤ pairs D x s := by
  obtain ⟨hspend, -⟩ := spends_of_step (x := x) (h.once u hu) hstep
  have hsum := sum_setProver (s := s) (p := p') hu (·.joins.count x)
  have hrec : (air.flatMap fun a => a.2.join a.1).count x + ((s.prover u).heard ev).count x ≤
      (s.air.flatMap fun a => a.2.join a.1).count x := by
    unfold heard
    rcases hair with ⟨hown, rfl⟩ | ⟨m, c, hact, hm, rfl⟩
    · split
      · next hact =>
        rw [hact] at hown
        exact hown.elim
      · exact Nat.le_refl _
    · have herase := Counting.count_flatMap_erase (fun a : Uid × Msg => a.2.join a.1) x hm
      rw [hact]
      show _ + (m.join (s.prover u).cfg.UId).count x ≤ _
      rw [uid_eq h.cfg]
      change (m.join u).count x + _ = _ at herase
      omega
  unfold pairs
  show (D.ids.map fun v => ((s.setProver u p').prover v).joins.count x).sum +
    (air.flatMap fun a => a.2.join a.1).count x + _ ≤ _
  omega

/-- A broadcast asks each prover once. -/
theorem count_asked (m : CommitReq) {targets : List Uid} (hn : targets.Nodup) :
    ((targets.map fun v => (v, Msg.commitReq m)).flatMap fun a => a.2.join a.1).count x ≤
      if x.1 = m.source then 1 else 0 := by
  have hmap : ((targets.map fun v => (v, Msg.commitReq m)).flatMap fun a => a.2.join a.1) =
      targets.map fun v => (m.source, v) := by
    induction targets with
    | nil => rfl
    | cons v targets ih =>
      rw [List.map_cons, List.map_cons, List.flatMap_cons, ih (List.nodup_cons.mp hn).2]
      rfl
  have hinj : Function.Injective fun v : Uid => (m.source, v) := fun v w he => (Prod.mk.inj he).2
  rw [hmap]
  split
  · exact List.nodup_iff_count_le_one.mp (hn.map hinj) x
  · next hne =>
    rw [List.count_eq_zero.mpr]
    intro hx
    obtain ⟨v, -, rfl⟩ := List.mem_map.mp hx
    exact hne rfl

/-- What goes on the air is paid for by the prover that hands it over. -/
theorem pairs_transmit (hcfg : ∀ u, (s.prover u).cfg = D.cfg u) {pkt : Packet} (hu : u ∈ D.ids)
    (hpkt : pkt ∈ (s.prover u).out) {targets : List Uid} (hn : targets.Nodup) (inRange : Bool) :
    pairs D x ((s.takePacket u pkt).radiate (s.prover u) targets inRange pkt) +
        ((s.takePacket u pkt).prover x.1).asks ≤ pairs D x s + (s.prover x.1).asks := by
  have hself : (s.takePacket u pkt).prover u =
      { s.prover u with out := (s.prover u).out.erase pkt } := Function.update_self ..
  have hother : ∀ v, v ≠ u → (s.takePacket u pkt).prover v = s.prover v := fun v hne =>
    Function.update_of_ne hne ..
  have hsum := Counting.sum_map_of_ne (f := fun v => ((s.takePacket u pkt).prover v).joins.count x)
    (g := fun v => (s.prover v).joins.count x) nodup_ids hu fun v _ hne => by rw [hother v hne]
  have hjoins : ((s.takePacket u pkt).prover u).joins.count x + pkt.join.count x =
      (s.prover u).joins.count x := by
    have herase := Counting.count_flatMap_erase Packet.join x hpkt
    rw [hself]
    simp only [joins, List.count_append]
    omega
  -- a broadcast takes one of `asks`
  have hasks : ((s.takePacket u pkt).prover x.1).asks + (if pkt = .creqmsg ∧ x.1 = u then 1 else 0) ≤
      (s.prover x.1).asks := by
    by_cases hx : x.1 = u
    · have hcount : (s.prover u).asks = ((s.takePacket u pkt).prover u).asks +
          if pkt = .creqmsg then 1 else 0 := by
        rw [hself]
        have hpos := List.count_pos_iff.mpr hpkt
        by_cases hp : pkt = .creqmsg
        · rw [hp] at hpos
          simp only [asks, hp, List.count_erase_self, if_true]
          omega
        · simp [asks, hp, List.count_erase_of_ne (Ne.symm hp)]
      simp [hx, hcount]
    · rw [hother _ hx]
      simp [hx]
  have hair : (((s.takePacket u pkt).radiate (s.prover u) targets inRange pkt).air.flatMap
      fun a => a.2.join a.1).count x ≤ (s.air.flatMap fun a => a.2.join a.1).count x +
        pkt.join.count x + if pkt = .creqmsg ∧ x.1 = u then 1 else 0 := by
    have hsingle : ∀ m : Msg, ((s.air ++ [(m.destination, m)]).flatMap fun a =>
        a.2.join a.1).count x = (s.air.flatMap fun a => a.2.join a.1).count x +
          (m.join m.destination).count x := fun m => by simp [List.flatMap_append]
    cases pkt with
    | creqmsg =>
      have hask := count_asked (x := x) (s.prover u).creqmsg hn
      have hsrc : (s.prover u).creqmsg.source = u := uid_eq hcfg
      rw [hsrc] at hask
      simp only [radiate, List.flatMap_append, List.count_append, true_and]
      show (s.air.flatMap fun a => a.2.join a.1).count x + _ ≤ _
      omega
    | collector m => exact Nat.le_add_right_of_le (Nat.le_add_right _ _)
    | prover m =>
      refine Nat.le_add_right_of_le ?_
      cases m with
      | updateReq m =>
        simp only [radiate]
        split
        · exact Nat.le_add_right _ _
        · exact (hsingle (.updateReq m)).le
      | commitReq m => exact (hsingle _).le
      | commitResp m => exact (hsingle _).le
      | commitAck m => exact (hsingle _).le
  unfold pairs
  rw [radiate_prover]
  omega

end

/-! ## The invariant -/

structure Paid (D : Deployment) (h : History) : Prop where
  one : ∀ u, (h.roles u).length ≤ 1
  casts : ∀ u, (h.net.prover u).log.count .broadcast ≤ (h.roles u).length
  tokens : ∀ x : Uid × Uid, pairs D x h.net + (h.net.prover x.1).asks +
    (h.roles x.2).count (.child x.1) ≤ (h.net.prover x.1).log.count .broadcast
  fits : h.net.halted = false → Fits D h.net
  chosen : h.net.halted = false → ∀ u ∈ D.ids,
    Alive (Chosen (h.roles u) (h.gathered u)) (h.net.prover u)

section
variable {H : History} {u : Uid}

/-- An ack on the air finds no child that has accepted one. -/
theorem Paid.free (h : Paid D H) (hh : H.net.halted = false) {ev : Prover.Event} {p' : Prover}
    {air : List (Uid × Msg)} (hu : u ∈ D.ids)
    (hstep : Prover.step ev (H.net.prover u) = some p')
    (hair : ev.act.Own ∧ air = H.net.air ∨
      ∃ m c, ev.act = .recv m c ∧ (u, m) ∈ H.net.air ∧ air = H.net.air.erase (u, m)) :
    (H.net.prover u).accepted ev ≠ [] → ¬ (H.net.prover u).Decided := by
  intro hacc hdec
  have hfits := h.fits hh
  obtain ⟨hf, -⟩ := Prover.step_cases hstep
  unfold accepted at hacc
  split at hacc
  · next m c parent hact hsecond =>
    split at hacc
    · next hok =>
      obtain ⟨hc, hacked⟩ := hok
      rcases hair with ⟨hown, -⟩ | ⟨m', c', hact', hm, -⟩
      · rw [hact] at hown
        exact hown
      · cases hact.symm.trans hact'
        have hsrc : m.source ≠ NOID := D.ne_of_mem (hfits.air u _ hm).source
        have hfirst : (H.net.prover u).psessions.first ≠ NOID := by
          rw [hacked.source]
          exact hsrc
        have hst : .start ∈ (H.net.prover u).log := by
          rcases (hfits.once u hu hf hc).phase with hi | ⟨hst, -⟩
          · refine absurd ?_ hfirst
            rw [hi.sessions.parent]
          · exact hst
        have hrole := (h.chosen hh u hu hf hc).child hst hdec hfirst
        rw [hacked.source] at hrole
        -- the accepted ack and the one on the air are two tokens for one broadcast
        have htokens := h.tokens (m.source, u)
        have hcasts := h.casts m.source
        have hone := h.one m.source
        have hchild : (H.roles u).count (.child m.source) = 1 := by
          rw [hrole]
          exact List.count_cons_self
        have hpair : 1 ≤ pairs D (m.source, u) H.net := by
          refine Nat.le_add_left_of_le ?_
          refine List.count_pos_iff.mpr (List.mem_flatMap.mpr ⟨_, hm, ?_⟩)
          show (m.source, u) ∈ [(m.source, m.destination)]
          rw [hacked.destination, uid_eq hfits.cfg]
          exact List.mem_singleton_self _
        simp only [hchild] at htokens
        omega
    · exact hacc rfl
  · exact hacc rfl

/-- A prover takes an event. -/
theorem Paid.event (h : Paid D H) (hh : H.net.halted = false) {e : NetEvent} {ev : Prover.Event}
    {p' : Prover} {air : List (Uid × Msg)} (hloc : e.localEvent = some (u, ev)) (hu : u ∈ D.ids)
    (hstep : Prover.step ev (H.net.prover u) = some p')
    (hok : Prover.StartsAttestation ev.act → .start ∉ (H.net.prover u).log)
    (hair : ev.act.Own ∧ air = H.net.air ∨
      ∃ m c, ev.act = .recv m c ∧ (u, m) ∈ H.net.air ∧ air = H.net.air.erase (u, m)) :
    Paid D (H.record e { H.net.setProver u p' with now := ev.time, air := air }) := by
  have hfits := h.fits hh
  obtain ⟨hf, -⟩ := Prover.step_cases hstep
  have honce : Prover.OnceOk ev (H.net.prover u) := hfits.onceOk hok hair
  obtain ⟨hlen, hchosen⟩ := chooses_of_step (h.chosen hh u hu) (hfits.once u hu) honce (h.one u)
    (h.free hh hu hstep hair) hstep
  have hrecord : H.record e { H.net.setProver u p' with now := ev.time, air := air } =
      ⟨{ H.net.setProver u p' with now := ev.time, air := air },
        Function.update H.roles u (takes ev (H.net.prover u) p' ++ H.roles u),
        Function.update H.gathered u (gathers ev (H.net.prover u) p' (H.gathered u))⟩ := by
    have hself : (H.net.setProver u p').prover u = p' := setProver_self
    simp only [History.record, hloc, hself]
  rw [hrecord]
  refine ⟨fun v => ?_, fun v => ?_, fun x => ?_, fun hh' => ?_, fun hh' v hv => ?_⟩
  · by_cases he : v = u
    · rw [he]
      simpa using hlen
    · simpa [he] using h.one v
  · show ((H.net.setProver u p').prover v).log.count .broadcast ≤ _
    by_cases he : v = u
    · obtain ⟨-, -, hcast⟩ := spends_of_step (x := (u, u)) (hfits.once u hu) hstep
      have := h.casts u
      rw [he, setProver_self]
      simp only [Function.update_self, List.length_append, takes, List.length_replicate,
        List.length_map]
      omega
    · rw [setProver_of_ne he]
      simpa [he] using h.casts v
  · have htokens := h.tokens x
    have hpairs := pairs_event (x := x) hfits hu hstep hair
    obtain ⟨-, hasks, -⟩ := spends_of_step (x := x) (hfits.once u hu) hstep
    -- the acks that `x.2` accepts in the event
    have hroles : (Function.update H.roles u (takes ev (H.net.prover u) p' ++ H.roles u) x.2).count
        (.child x.1) ≤ (H.roles x.2).count (.child x.1) + ((H.net.prover u).accepted ev).count x := by
      by_cases he : x.2 = u
      · have hx : (x.1, u) = x := by rw [← he]
        rw [he, Function.update_self, List.count_append, count_takes (uid_eq hfits.cfg), hx]
        omega
      · rw [Function.update_of_ne he]
        exact Nat.le_add_right _ _
    have hown : ((H.net.setProver u p').prover x.1).asks + (H.net.prover x.1).log.count .broadcast ≤
        (H.net.prover x.1).asks + ((H.net.setProver u p').prover x.1).log.count .broadcast := by
      by_cases he : x.1 = u
      · rw [he, setProver_self]
        exact hasks
      · rw [setProver_of_ne he]
    show pairs D x { H.net.setProver u p' with now := ev.time, air := air } +
      ((H.net.setProver u p').prover x.1).asks +
        (Function.update H.roles u (takes ev (H.net.prover u) p' ++ H.roles u) x.2).count
          (.child x.1) ≤ ((H.net.setProver u p').prover x.1).log.count .broadcast
    omega
  · have hf' : p'.fault = none := Option.not_isSome_iff_eq_none.mp (by
      change p'.fault.isSome = false at hh'
      simp [hh'])
    exact hfits.event hu hstep hok hair hf'
  · show Alive _ ((H.net.setProver u p').prover v)
    by_cases he : v = u
    · rw [he, setProver_self]
      simpa using hchosen
    · rw [setProver_of_ne he]
      simpa [he] using h.chosen hh v hv

theorem paid_init : Paid D (History.init D) := by
  have hpairs : ∀ x, pairs D x (Net.init D) = 0 := by
    intro x
    have hzero : ∀ u ∈ D.ids, ((Net.init D).prover u).joins.count x = 0 := fun _ _ => rfl
    rw [pairs, List.map_congr_left hzero]
    simp [Net.init]
  refine ⟨fun _ => Nat.zero_le _, fun _ => Nat.le_refl _, fun x => ?_, fun _ => fits_init,
    fun _ u _ _ _ => ?_⟩
  · show pairs D x (Net.init D) + ((Net.init D).prover x.1).asks + 0 ≤ 0
    rw [hpairs]
    simp [asks, Net.init, Prover.init]
  · exact chosen_init (D.cfg u) (D.start u)

/-- **One event.** -/
theorem Paid.step {e : NetEvent} {H' : History} (h : Paid D H) (hok : H.OneAttestation e)
    (hs : History.step D e H = some H') : Paid D H' := by
  obtain ⟨s', hs', rfl⟩ := Option.map_eq_some_iff.mp hs
  obtain ⟨hh, hmoves⟩ := moves_of_step hs'
  cases hmoves with
  | event hu hloc hstep hair he =>
    rw [he]
    exact h.event hh hloc hu hstep (hok _ _ hloc) hair
  | @transmit u pkt targets inRange hu hloc hpkt hn _ he =>
    have hfits := h.fits hh
    have hsame : ∀ v, ∃ out, (s'.prover v) = { H.net.prover v with out := out } := by
      intro v
      obtain ⟨out, -, hout⟩ := takePacket_prover (s := H.net) u pkt v
      exact ⟨out, by rw [he, radiate_prover, hout]⟩
    have hrecord : H.record e s' = { H with net := s' } := by simp only [History.record, hloc]
    rw [hrecord]
    refine ⟨h.one, fun v => ?_, fun x => ?_, fun _ => ?_, fun _ v hv => ?_⟩
    · obtain ⟨out, hout⟩ := hsame v
      show (s'.prover v).log.count .broadcast ≤ _
      rw [hout]
      exact h.casts v
    · have htokens := h.tokens x
      have hpairs := pairs_transmit (x := x) hfits.cfg hu hpkt hn inRange
      obtain ⟨out, hout⟩ := hsame x.1
      have hlog : (s'.prover x.1).log = (H.net.prover x.1).log := by rw [hout]
      rw [← he] at hpairs
      have hasks : ((H.net.takePacket u pkt).prover x.1) = s'.prover x.1 := by
        rw [he, radiate_prover]
      rw [hasks] at hpairs
      show pairs D x s' + (s'.prover x.1).asks + (H.roles x.2).count (.child x.1) ≤
        (s'.prover x.1).log.count .broadcast
      rw [hlog]
      omega
    · show Fits D s'
      rw [he]
      exact hfits.radiate hu hpkt _ _
    · obtain ⟨out, hout⟩ := hsame v
      show Alive _ (s'.prover v)
      rw [hout]
      exact fun hf hc => (h.chosen hh v hv hf hc).stays (stays_same rfl rfl rfl rfl rfl)
  | collect hloc _ he =>
    have hrecord : H.record e s' = { H with net := s' } := by simp only [History.record, hloc]
    rw [hrecord, he]
    exact ⟨h.one, h.casts, h.tokens, fun _ => (h.fits hh).launch rfl fun _ _ => .inl,
      fun _ => h.chosen hh⟩

/-- **Each prover takes exactly one role.**  In every run in which each prover starts one
attestation, a prover becomes root or child at most once and never both, and schedules at
most one broadcast; and if it has not crashed, it has become one of them once the time is
past `timeoutack` after its gather timer went off or was cancelled. -/
theorem one_role (h : Runs.Reaches (History.step D) History.OneAttestation (History.init D) H) :
    ∀ p ∈ D.ids, (H.roles p).length ≤ 1 ∧ (H.net.prover p).log.count .broadcast ≤ 1 ∧
      (H.net.halted = false → (H.net.prover p).crashed = false → ∀ T t, H.gathered p = some T →
        T + timeoutack < t → H.net.Due D t → (H.roles p).length = 1) := by
  have hpaid : Paid D H := h.invariant paid_init fun e H H' ih hok hs => ih.step hok hs
  intro p hp
  refine ⟨hpaid.one p, (hpaid.casts p).trans (hpaid.one p), fun hh hc T t hT ht hdue => ?_⟩
  have hf := (hpaid.fits hh).fault p hp
  exact (hpaid.chosen hh p hp hf hc).taken ((hpaid.fits hh).once p hp hf hc) hT ht (hdue.2 p hp)

end

/-- Prover 1 starts a tree and prover 2 accepts its ack. -/
def acceptRun : List NetEvent :=
  joinRun ++
    [.prover 1 ⟨7133198816000, .self 6 {}⟩,
     .transmit 1 (.prover (ackMsg 1 2 7)) [] true,
     .deliver 2 (ackMsg 1 2 7) (8 * second) {},
     .prover 2 ⟨8139837560000, .self 6 {}⟩]

/-- Behind `acceptRun` prover 1 is root and prover 2 its child, and each is nothing else. -/
theorem one_role_accept : ∃ H : History, H.roles 1 = [.root] ∧ H.roles 2 = [.child 1] ∧
    (H.roles 1).length = 1 ∧ (H.roles 2).length = 1 := by
  obtain ⟨H, hr, ht⟩ := Runs.exists_of_run (History.step twoProvers) History.OneAttestation acceptRun
    (History.init twoProvers)
    (fun H => H.roles 1 = [.root] ∧ H.roles 2 = [.child 1] ∧ H.net.halted = false ∧
      (H.net.prover 1).crashed = false ∧ (H.net.prover 2).crashed = false ∧
      H.gathered 1 = some 5960000000000 ∧ H.gathered 2 = some 8000000000000 ∧
      H.net.Due twoProvers (13 * second)) (by decide +kernel)
  obtain ⟨h1, h2, hh, hc1, hc2, hg1, hg2, hdue⟩ := of_decide_eq_true ht
  exact ⟨H, h1, h2,
    (one_role hr 1 (by decide)).2.2 hh hc1 _ (13 * second) hg1 (by decide) hdue,
    (one_role hr 2 (by decide)).2.2 hh hc2 _ (13 * second) hg2 (by decide) hdue⟩

end Net

end Fadia
