import Fadia.Devices.Device
import Fadia.Proof.CountedOnce
import Fadia.Proof.Mail

/-!
# What holds of all messages of a network

A property of `aggreport` that every round begins with, and that the own record and the merge of a
report keep, holds of `aggreport` for good (`Prover.gathers_step`), and a property of the messages
that a prover makes, of it or as an answer, holds of every message that is prepared, under way or
handled (`Net.Wired.step`): `Gathers` is the rule, whatever the two properties are.

So all messages come from real provers, and this need not be asked of a run (`RealMail.step`).
-/

namespace Fadia

/-- What `Q` of `aggreport` and `P` of a message must keep at a prover. -/
structure Gathers (cfg : Config) (Q : Report → Prop) (P : Msg → Prop) : Prop where
  empty : ∀ a, a.uids = [] → a.counters = [] → Q a
  own : ∀ a tid count, Q a →
    Q (addOwnReport cfg.aggsize cfg.recordMac cfg.UId count { a with tid := tid })
  merged : ∀ a m, Q a → P (.updateReq m) → Q (mergeReport cfg.aggsize a m)
  made : ∀ a, Q a → ∀ kind dest tid kid, P (.updateReq (a.toUpdateReq kind cfg.UId dest tid kid))
  redirected : ∀ r, P (.updateReq r) → P (.updateReq r.redirected)
  asks : ∀ m : CommitReq, m.source = cfg.UId → P (.commitReq m)
  answers : ∀ m : Msg, m.Answer cfg.UId → P m

/-- What of a packet the prover does not make when it goes on the air. -/
def Packet.Carries (P : Msg → Prop) : Packet → Prop
  | .creqmsg => True
  | .prover m => P m
  | .collector r => P (.updateReq r)

namespace Prover

/-- The messages that wait for their MAC delay and those handed over have `P`. -/
structure Wired (P : Msg → Prop) (p : Prover) : Prop where
  outbox : ∀ o ∈ p.outbox, P o.2
  out : ∀ pkt ∈ p.out, pkt.Carries P

section
variable {Q : Report → Prop} {P : Msg → Prop} {p q : Prover} {e : Event} {cfg : Config}

theorem Sends.gathers (hP : Gathers p.cfg Q P) (h : Sends p q) (hq : Q p.aggreport) :
    Q q.aggreport := by
  obtain ⟨tid, hr⟩ := h.report
  rw [hr]
  exact hP.own _ tid _ hq

theorem Flow.gathers {st : Prop} {o : Option UpdateReq} (hP : Gathers p.cfg Q P)
    (h : Flow st o p q) (hheard : ∀ m ∈ o, P (.updateReq m)) (hq : Q p.aggreport) : Q q.aggreport := by
  cases h with
  | quiet h => rw [h.report]; exact hq
  | restart _ h => exact hP.empty _ h.uids h.counters
  | send h => exact h.gathers hP hq
  | passOn _ h => rw [h.report]; exact hq
  | @merge m hm h =>
    rw [h.report]
    exact hP.merged _ m hq (hheard m hm)
  | @mergeSend m r hm h h' =>
    refine h'.gathers (h.cfg ▸ hP) ?_
    rw [h.report]
    exact hP.merged _ m hq (hheard m hm)

theorem gathers_step (hP : Gathers p.cfg Q P) (hs : step e p = some q)
    (hheard : ∀ m ∈ e.report, P (.updateReq m)) (h : Q p.aggreport) : Q q.aggreport := by
  obtain ⟨hf, -, ⟨-, _, _, _, _, -, rfl⟩ | ⟨-, hlive⟩⟩ := step_cases hs
  · exact h
  · exact (flow_of_live hf hlive).gathers hP hheard h

theorem Wired.stores {heard : Option UpdateReq} (hP : Gathers p.cfg Q P)
    (hheard : ∀ m ∈ heard, P (.updateReq m)) (h : Wired P p) (hs : Stores heard p q) :
    Wired P q := by
  refine ⟨fun o ho => ?_, fun pkt hp => ?_⟩
  · exact (hs.prepared o ho).elim (h.outbox o) (hP.answers _)
  · rcases hs.proper pkt hp with hp | hpass
    · exact h.out pkt hp
    · cases pkt with
      | creqmsg => trivial
      | prover m => exact hpass.elim
      | collector m =>
        obtain ⟨-, m', hm', rfl | rfl⟩ := hpass
        · exact hheard _ hm'
        · exact hP.redirected _ (hheard _ hm')

theorem Wired.onSelf {m : Msg} (c : Choice) (hP : Gathers cfg Q P) (h : Wired P p) (hm : P m) :
    Wired P (p.onSelf m c) := by
  have hadd : ∀ pkt : Packet, pkt.Carries P → Wired P { p with out := p.out ++ [pkt] } := by
    intro pkt hpkt
    refine ⟨h.outbox, fun x hx => ?_⟩
    rcases List.mem_append.mp hx with hx | hx
    · exact h.out x hx
    · rw [List.mem_singleton.mp hx]
      exact hpkt
  cases m with
  | commitReq m => exact hadd _ hm
  | commitResp m => exact hadd _ hm
  | commitAck m => exact hadd _ hm
  | updateReq m =>
    unfold Prover.onSelf
    dsimp only
    split
    · split
      · exact hadd _ hm
      · exact hadd _ (hP.redirected m hm)
    · exact hadd _ hm
    · exact hadd _ hm

/-- **Only messages that provers make are on their way.** -/
theorem wired_step (hP : Gathers p.cfg Q P) (hs : step e p = some q) (hf : q.fault = none)
    (hq : Q q.aggreport) (hheard : ∀ m ∈ e.report, P (.updateReq m))
    (h : Wired P p) : Wired P q := by
  obtain ⟨hpf, -, ⟨-, _, _, _, _, hpops, rfl⟩ | ⟨-, hlive⟩⟩ := step_cases hs
  · exact ⟨fun o ho => h.outbox o (hpops.2.2.subset ho), h.out⟩
  rcases posts_live hpf hlive with hpost | ⟨k, c, o, -, hfind, rfl⟩
  · cases hpost with
    | stays hst => exact h.stores hP hheard hst
    | fails hfault => exact absurd hf hfault
    | @sends r tid parent hst hp he =>
      have hr := h.stores hP hheard hst
      have hmsg : P (.updateReq (r.reportMsg tid parent)) := by
        rw [he, sendUpReq_of_some tid hp] at hq
        rw [← hst.cfg] at hP
        unfold reportMsg
        dsimp only
        split
        · exact hP.made _ hq ..
        · exact hP.made _ hq ..
      rw [he, sendUpReq_of_some tid hp]
      refine ⟨fun o ho => ?_, hr.out⟩
      rcases List.mem_append.mp ho with ho | ho
      · exact hr.outbox o ho
      · rw [List.mem_singleton.mp ho]
        exact hmsg
  · refine Wired.onSelf (p := (p.atTime e.time).popOutbox k) c hP
      ⟨fun x hx => h.outbox x (List.mem_of_mem_filter hx), h.out⟩ ?_
    exact h.outbox o (List.mem_of_find?_eq_some hfind)

end

end Prover

namespace Net

/-- `aggreport` has `Q`, and all messages that are prepared, under way or handled have `P`. -/
structure Wired (Q : Report → Prop) (P : Msg → Prop) (D : Deployment) (s : Net) : Prop where
  cfg : ∀ u ∈ D.ids, (s.prover u).cfg = D.cfg u
  report : ∀ u ∈ D.ids, Q (s.prover u).aggreport
  prover : s.halted = false → ∀ u ∈ D.ids, (s.prover u).Wired P
  air : ∀ a ∈ s.air, P a.2
  toColl : ∀ r ∈ s.toColl, P (.updateReq r)
  handled : ∀ r ∈ s.handled, P (.updateReq r)

section
variable {Q : Report → Prop} {P : Msg → Prop} {D : Deployment} {s s' : Net} {e : NetEvent}

theorem wired_init (hP : ∀ u ∈ D.ids, Gathers (D.cfg u) Q P) : Wired Q P D (init D) := by
  refine ⟨fun u _ => rfl, fun u hu => (hP u hu).empty _ rfl rfl, fun _ u _ => ⟨?_, ?_⟩, ?_, ?_, ?_⟩
  all_goals simp [init, Prover.init]

/-- What goes on the air is what was handed over, or its redirection. -/
theorem Wired.radiate {p : Prover} (hP : Gathers p.cfg Q P) (h : Wired Q P D s) {pkt : Packet}
    (hpkt : pkt.Carries P) (targets : List Uid) (inRange : Bool) :
    Wired Q P D (s.radiate p targets inRange pkt) := by
  have hair : ∀ {l : List (Uid × Msg)}, (∀ a ∈ l, P a.2) →
      Wired Q P D { s with air := s.air ++ l } := fun hl =>
    ⟨h.cfg, h.report, h.prover, fun a ha => (List.mem_append.mp ha).elim (h.air a) (hl a), h.toColl,
      h.handled⟩
  have hcoll : ∀ {m : UpdateReq}, P (.updateReq m) →
      Wired Q P D { s with toColl := s.toColl ++ [m] } := fun hm =>
    ⟨h.cfg, h.report, h.prover, h.air, fun r hr => (List.mem_append.mp hr).elim (h.toColl r)
      fun hr => by
        rw [List.mem_singleton.mp hr]
        exact hm, h.handled⟩
  cases pkt with
  | creqmsg =>
    refine hair fun a ha => ?_
    obtain ⟨v, -, rfl⟩ := List.mem_map.mp ha
    exact hP.asks _ rfl
  | collector m => exact hcoll hpkt
  | prover m =>
    have hone : ∀ v : Uid, ∀ a ∈ [(v, m)], P a.2 := by
      intro v a ha
      rw [List.mem_singleton.mp ha]
      exact hpkt
    cases m with
    | commitReq m => exact hair (hone _)
    | commitResp m => exact hair (hone _)
    | commitAck m => exact hair (hone _)
    | updateReq m =>
      unfold Net.radiate
      dsimp only
      split
      · exact hcoll (hP.redirected m hpkt)
      · exact hair (hone _)

theorem Wired.step (hP : ∀ u ∈ D.ids, Gathers (D.cfg u) Q P) (h : Wired Q P D s)
    (hs : Net.step D e s = some s') : Wired Q P D s' := by
  obtain ⟨hrun, hmoves⟩ := moves_of_step hs
  cases hmoves with
  | @event u ev p' air hu hloc hstep hair he =>
    subst he
    have hsub : ∀ a ∈ air, a ∈ s.air := by
      rcases hair with ⟨-, rfl⟩ | ⟨m, c, -, -, rfl⟩
      · exact fun a ha => ha
      · exact fun a ha => List.mem_of_mem_erase ha
    have hheard : ∀ m ∈ ev.report, P (.updateReq m) := by
      intro r hr
      rcases hair with ⟨hown, -⟩ | ⟨m, c, hact, hin, -⟩
      · unfold Prover.Event.report at hr
        split at hr
        · next hact =>
          rw [hact] at hown
          exact hown.elim
        · cases hr
      · rw [Prover.Event.report, hact] at hr
        cases m with
        | updateReq m =>
          obtain rfl := Option.some.inj hr
          exact h.air _ hin
        | commitReq m => cases hr
        | commitResp m => cases hr
        | commitAck m => cases hr
    have hgathers : Gathers (s.prover u).cfg Q P := (h.cfg u hu).symm ▸ hP u hu
    have hreport := Prover.gathers_step hgathers hstep hheard (h.report u hu)
    have hall : ∀ {R : Uid → Prover → Prop}, R u p' → (∀ v ∈ D.ids, R v (s.prover v)) →
        ∀ v ∈ D.ids, R v ((s.setProver u p').prover v) := by
      intro R hself hrest v hv
      by_cases hvu : v = u
      · subst hvu
        rw [setProver_self]
        exact hself
      · rw [setProver_of_ne hvu]
        exact hrest v hv
    refine ⟨hall (R := fun v p => p.cfg = D.cfg v) ((Prover.step_cfg hstep).trans (h.cfg u hu)) h.cfg,
      hall (R := fun _ p => Q p.aggreport) hreport h.report, fun hhalt =>
        hall (R := fun _ p => p.Wired P) ?_ (h.prover hrun), fun a ha => h.air a (hsub a ha), h.toColl,
      h.handled⟩
    have hf : p'.fault = none := by simpa [setProver] using hhalt
    exact Prover.wired_step hgathers hstep hf hreport hheard (h.prover hrun u hu)
  | @transmit u pkt targets inRange hu hloc hpkt _ _ he =>
    subst he
    have hprover : ∀ v, ∃ out, out.Sublist (s.prover v).out ∧
        (s.takePacket u pkt).prover v = { s.prover v with out := out } := takePacket_prover u pkt
    have htaken : Wired Q P D (s.takePacket u pkt) := by
      refine ⟨fun v hv => ?_, fun v hv => ?_, fun hh v hv => ?_, h.air, h.toColl, h.handled⟩
      · obtain ⟨out, -, he⟩ := hprover v
        rw [he]
        exact h.cfg v hv
      · obtain ⟨out, -, he⟩ := hprover v
        rw [he]
        exact h.report v hv
      · obtain ⟨out, hsub, he⟩ := hprover v
        rw [he]
        exact ⟨(h.prover hrun v hv).outbox, fun x hx => (h.prover hrun v hv).out x (hsub.subset hx)⟩
    have hgathers : Gathers (s.prover u).cfg Q P := (h.cfg u hu).symm ▸ hP u hu
    exact htaken.radiate hgathers ((h.prover hrun u hu).out pkt hpkt) _ _
  | @collect m hloc hm he =>
    subst he
    refine ⟨h.cfg, h.report, h.prover, h.air, fun r hr => h.toColl r (List.mem_of_mem_erase hr),
      fun r hr => ?_⟩
    rcases List.mem_append.mp hr with hr | hr
    · exact h.handled r hr
    · rw [List.mem_singleton.mp hr]
      exact h.toColl m hm

theorem wired_of_reaches {ok : NetEvent → Net → Prop} (hP : ∀ u ∈ D.ids, Gathers (D.cfg u) Q P)
    (h : Runs.Reaches (Net.step D) ok (init D) s) : Wired Q P D s :=
  h.invariant (wired_init hP) fun _ _ _ ih _ hs => ih.step hP hs

/-! ## Sources -/

theorem gathers_real {cfg : Config} (h : cfg.UId ≠ NOID) :
    Gathers cfg (fun _ => True) fun m => m.source ≠ NOID := by
  refine ⟨fun _ _ _ => trivial, fun _ _ _ _ => trivial, fun _ _ _ _ => trivial,
    fun _ _ _ _ _ _ => h, fun _ hr => hr, fun m hm => ?_, fun m hm => ?_⟩
  · exact fun hno => h (hm.symm.trans hno)
  · cases m with
    | commitReq m => exact hm.elim
    | commitResp m => exact fun hno => h ((show m.source = cfg.UId from hm).symm.trans hno)
    | commitAck m => exact fun hno => h ((show m.source = cfg.UId from hm).symm.trans hno)
    | updateReq m => exact hm.elim

/-- All messages come from provers. -/
abbrev RealMail : Deployment → Net → Prop := Wired (fun _ => True) fun m => m.source ≠ NOID

theorem realMail_init : RealMail D (init D) :=
  wired_init fun u hu => gathers_real (by rw [D.uid_eq]; exact D.ne_of_mem hu)

theorem RealMail.step (h : RealMail D s) (hs : Net.step D e s = some s') :
    RealMail D s' ∧ Locally (fun ev _ => Prover.RealSource ev.act) e s := by
  refine ⟨Wired.step (fun u hu => gathers_real (by rw [D.uid_eq]; exact D.ne_of_mem hu)) h hs,
    fun u ev hloc => ?_⟩
  obtain ⟨-, hmoves⟩ := moves_of_step hs
  cases hmoves with
  | @event u' ev' p' air hu hloc' hstep hair he =>
    obtain ⟨rfl, rfl⟩ := Prod.mk.inj (Option.some.inj (hloc'.symm.trans hloc))
    rcases hair with ⟨hown, -⟩ | ⟨m, c, hact, hin, -⟩
    · cases hact : ev'.act <;> rw [hact] at hown <;> first | exact hown.elim | trivial
    · rw [hact]
      exact h.air _ hin
  | transmit hu hloc' => cases hloc'.symm.trans hloc
  | collect hloc' => cases hloc'.symm.trans hloc

end

end Net

end Fadia
