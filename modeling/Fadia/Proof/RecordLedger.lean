import Fadia.Proof.CountedOnce
import Fadia.Proof.Mail
import Mathlib

/-!
# Every record is handled, under way or lost

`losses e p x` says how often a prover loses the record `x` with an event: it starts a
round before it has reported, it crashed with a report that waits for its MAC delay, or a
report arrives that a crashed prover drops or that `handleUpReq` does not take
(`Accepts`).  There is no other way (`held_exact`).  A `Ledger` adds these losses up along a
run; then each record that was made is in exactly one place, or was lost exactly once
(`records_balance`), and when nothing is under way any more the collector has handled every
record that was not lost (`handled_or_lost`).
-/

namespace Fadia

open Traces

theorem Extends.count_sendUpReq {log log' : List Mark} (h : Extends log log') :
    log'.count .sendUpReq = log.count .sendUpReq := by
  obtain ⟨marks, rfl, hm⟩ := h
  rw [List.count_append, List.count_eq_zero.mpr fun hy => (hm _ hy).2 rfl, Nat.zero_add]

namespace Prover

/-- `handleUpReq` merges the report or passes it on. -/
def Accepts (m : UpdateReq) (p : Prover) : Prop :=
  m.kind = .UPRQF ∨ m.destination = p.cfg.UId ∧ (p.status = .FINISHED ∨
    (p.status = .COLLECTING ∨ p.status = .CREATING) ∧
      ∃ child ∈ p.csessions.lookup m.source, ∃ parent ∈ p.psessions.second,
        m.treeID = parent.treeID ∧ p.cfg.checkMAC (.updateReq m) child.keyID = true ∧
          m.report1.length ≤ m.report2.length)

instance (m : UpdateReq) (p : Prover) : Decidable (p.Accepts m) :=
  inferInstanceAs (Decidable (_ ∨ _ ∧ (_ ∨ _ ∧ ∃ child ∈ p.csessions.lookup m.source,
    ∃ parent ∈ p.psessions.second, _ ∧ _)))

/-- How often an event makes a prover lose the record `x`. -/
def losses (e : Event) (p : Prover) (x : Uid × Nat) : Nat :=
  match e.act with
  | .timer .startmsg _ | .timer .attesttimer _ =>
    if p.crashed ∨ SentIn p.log then 0 else p.aggreport.entries.count x
  | .self k _ =>
    if p.crashed then ((p.outbox.filter (·.1.seq = k)).flatMap (·.2.entries)).count x else 0
  | .recv (.updateReq m) _ => if ¬ p.crashed ∧ p.Accepts m then 0 else m.entries.count x
  | _ => 0

section
variable {p q r : Prover} {m : UpdateReq} {x : Uid × Nat} {e : Event}

theorem accepts_of_merges {child parent : Session} (h : p.Merges m child parent) : p.Accepts m :=
  .inr ⟨h.destination, .inr ⟨h.status, child, h.sender, parent, h.second, h.treeID, h.mac, h.arrays⟩⟩

theorem not_accepts (hk : m.kind ≠ .UPRQF) (hs : m.destination = p.cfg.UId → p.status ≠ .FINISHED)
    (hno : ∀ child parent, ¬ p.Merges m child parent) : ¬ p.Accepts m := by
  rintro (h | ⟨hd, hf | ⟨hst, child, hc, parent, hp, htid, hmac, hlen⟩⟩)
  · exact hk h
  · exact hs hd hf
  · exact hno child parent ⟨hk, hd, hst, hc, hp, htid, hmac, hlen⟩

/-! ## A crashed prover -/

/-- What a crashed prover does with its reports. -/
theorem held_crashed (hs : step e p = some q) (hc : p.crashed = true) (x : Uid × Nat) :
    q.held x + losses e p x = p.held x + (received e.report).count x ∧ q.made x = p.made x := by
  obtain ⟨timers, uptos, rfl⟩ := step_of_crashed hs hc
  refine ⟨?_, rfl⟩
  obtain ⟨time, act⟩ := e
  cases act with
  | timer t c => cases t <;> simp [losses, leftover, hc, Event.report, received, held, carried]
  | upto k => rfl
  | self k c =>
    have hsplit := List.filter_append_perm (fun o : Stamp × Msg => decide (o.1.seq = k)) p.outbox
    have hcount := (hsplit.flatMap_right fun o => o.2.entries).count_eq x
    have hleft : (p.outbox.filter fun b => !decide (b.1.seq = k)) =
      p.outbox.filter (·.1.seq ≠ k) := by simp
    rw [hleft] at hcount
    simp only [losses, leftover, hc, if_true, Event.report, received, held, carried,
      List.flatMap_append, List.count_append, Option.toList_none, List.flatMap_nil,
      List.count_nil] at hcount ⊢
    omega
  | recv m c =>
    cases m <;> simp [losses, leftover, hc, Event.report, received, held, carried, Msg.report]
  | crash => rfl

/-- A prover that crashes keeps what it has. -/
theorem held_crash (hs : step e p = some q) (hact : e.act = .crash) (x : Uid × Nat) :
    q.held x + losses e p x = p.held x + (received e.report).count x ∧ q.made x = p.made x := by
  obtain ⟨time, act⟩ := e
  cases hact
  rw [step] at hs
  split at hs
  · cases hs
  dsimp only at hs
  split at hs
  · cases hs
    exact ⟨rfl, rfl⟩
  · cases hs

/-! ## A prover that lives -/

/-- What was carried is carried on, and with it a report that is sent. -/
theorem carried_live (hord : Schedule.Ordered p.schedule) (hf : p.fault = none)
    (hok : q.fault = none) (hl : p.Live e q) (x : Uid × Nat) :
    q.log.count .sendUpReq = p.log.count .sendUpReq ∧ p.carried.count x ≤ q.carried.count x ∨
      q.log.count .sendUpReq = p.log.count .sendUpReq + 1 ∧ ∀ kind src dest tid kid,
        p.carried.count x + (q.aggreport.toUpdateReq kind src dest tid kid).entries.count x ≤
          q.carried.count x := by
  rcases posts_live hf hl with hp | ⟨k, c, o, -, ho, he⟩
  · cases hp with
    | fails hno => exact absurd hok hno
    | stays h => exact .inl ⟨h.reports, h.carried x⟩
    | @sends r tid parent h hp he =>
      subst he
      refine .inr ⟨?_, fun kind src dest t kid => h.carried_report hp kind src dest t kid x⟩
      rw [sendUpReq_log, List.count_cons_self, h.reports]
  · subst he
    obtain ⟨out, hself⟩ := onSelf_eq (p := (p.atTime e.time).popOutbox k) o.2 c
    refine .inl ⟨by rw [hself]; rfl, ?_⟩
    exact carried_self (p := p.atTime e.time) c hord.out ho x

/-- The records of a report survive the wire. -/
theorem Sends.wire (h : Sends p q) (hp : p.aggreport.Paired) (hsent : ¬ SentIn p.log)
    (hown : Fitting (p.cfg.UId, p.attestcount + 1))
    (hw : ∀ y, y.1 ≠ NOID → 0 < p.held y → Fitting y) :
    ∀ y ∈ q.aggreport.entries, y.1 ≠ NOID → Fitting y := by
  intro y hy hsep
  have hpos := List.count_pos_iff.mpr hy
  rw [h.entries hp hsep] at hpos
  by_cases hin : 0 < p.aggreport.entries.count y
  · refine hw y hsep ?_
    rw [Prover.held, if_neg hsent]
    omega
  · have hown' : 0 < [(p.cfg.UId, p.attestcount + 1)].count y := by omega
    rw [List.mem_singleton.mp (List.count_pos_iff.mp hown')]
    exact hown

/-- A report that is sent has all that the prover had to report. -/
theorem Sends.held_eq (h : Sends p q) (hp : p.aggreport.Paired) (hsent : ¬ SentIn p.log)
    (hx : x.1 ≠ NOID) (hown : Fitting (p.cfg.UId, p.attestcount + 1))
    (hw : ∀ y, y.1 ≠ NOID → 0 < p.held y → Fitting y)
    (hcar : ∀ kind src dest tid kid, p.carried.count x +
      (q.aggreport.toUpdateReq kind src dest tid kid).entries.count x ≤ q.carried.count x) :
    q.held x + p.made x = p.held x + q.made x := by
  have hle := h.held hp hsent hx hown hw
  have hq := count_toUpdateReq (h.paired hp) hx (h.wire hp hsent hown hw) .UPRQ 0 0 0 0
  have hcar := hcar .UPRQ 0 0 0 0
  rw [hq, h.entries hp hx] at hcar
  rw [h.made] at hle ⊢
  rw [Prover.held, if_pos h.sentIn, Prover.held, if_neg hsent] at hle ⊢
  omega

/-- What `handleUpReq` does with a report, where it does not fail. -/
theorem held_handleUpReq (hp : p.aggreport.Paired) (hs : ∀ c ∈ p.csessions, ¬ SentIn p.log)
    (hown : ¬ SentIn p.log → Fitting (p.cfg.UId, p.attestcount + 1))
    (hok : (p.handleUpReq m).fault = none) (hx : x.1 ≠ NOID)
    (hw : ∀ y, y.1 ≠ NOID → 0 < p.held y + m.entries.count y → Fitting y) :
    (p.handleUpReq m).held x + (if p.Accepts m then 0 else m.entries.count x) + p.made x =
      p.held x + m.entries.count x + (p.handleUpReq m).made x := by
  have hpass : ∀ m' : UpdateReq, m'.entries = m.entries → p.Accepts m →
      ((p.record (.upReq m.source)).sendCollector m').held x +
        (if p.Accepts m then 0 else m.entries.count x) + p.made x = p.held x + m.entries.count x +
          ((p.record (.upReq m.source)).sendCollector m').made x := by
    intro m' he hacc
    have hsame : SentIn (.redirect m'.source :: .upReq m.source :: p.log) ↔ SentIn p.log :=
      @sentIn_append p.log [.redirect m'.source, .upReq m.source] (by simp)
    have hmade : ((p.record (.upReq m.source)).sendCollector m').made x = p.made x := rfl
    rw [if_pos hacc, hmade]
    simp only [held, carried, sendCollector, record, hsame, List.flatMap_append,
      List.flatMap_cons, List.flatMap_nil, List.append_nil, List.count_append, Packet.entries, he]
    omega
  have hlost : ¬ p.Accepts m → ∀ q : Prover, q.log = .upReq m.source :: p.log → q.cfg = p.cfg →
      q.aggreport = p.aggreport → q.attestcount = p.attestcount → q.carried = p.carried →
        q.held x + (if p.Accepts m then 0 else m.entries.count x) + p.made x =
          p.held x + m.entries.count x + q.made x := by
    intro hacc q hlog hcfg hrep hcount hcar
    have hsame : SentIn (.upReq m.source :: p.log) ↔ SentIn p.log :=
      @sentIn_append p.log [.upReq m.source] (by simp)
    have hmade : q.made x = p.made x := by rw [Prover.made, Prover.made, hcfg, hcount]
    rw [if_neg hacc, hmade]
    simp only [held, hlog, hsame, hrep, hcar]
  -- a child that has a session is merged before the report is sent
  have hmerge : ∀ {child parent}, p.Merges m child parent → ¬ SentIn p.log ∧
      (p.merged m child).held x = p.held x + m.entries.count x := by
    intro child parent hm
    have hin : m.source ∈ p.csessions := AList.lookup_isSome.mp (Option.isSome_of_eq_some hm.sender)
    have hsent : ¬ SentIn p.log := hs _ hin
    refine ⟨hsent, ?_⟩
    have htakes : TakesIn m p (p.merged m child) := takesIn_merged
    simp only [held, htakes.log.sentIn, htakes.carried, htakes.report, if_neg hsent,
      count_mergeReport hp hx]
    omega
  have hcase := handleUpReq_cases (p := p) m
  generalize p.handleUpReq m = p' at hok hcase ⊢
  cases hcase with
  | forward hk => exact hpass m rfl (.inl hk)
  | redirect hk hd hst => exact hpass _ (entries_redirect m) (.inr ⟨hd, .inl hst⟩)
  | ignored hk hst hno => exact hlost (not_accepts hk hst hno) _ rfl rfl rfl rfl rfl
  | unverified hk hst hno =>
    refine hlost (not_accepts hk (fun _ hf => ?_) hno) _ rfl rfl rfl rfl rfl
    rw [hf] at hst
    simp at hst
  | null => cases hok
  | array => cases hok
  | @more child parent hm hlen =>
    rw [if_pos (accepts_of_merges hm), (hmerge hm).2]
    rfl
  | @last child parent hm hlen =>
    obtain ⟨hsent, hheld⟩ := hmerge hm
    have htakes : TakesIn m p (p.merged m child) := takesIn_merged
    have hsends : Sends (p.merged m child) _ := sends_sendUpReq m.treeID
    have hmade : (p.merged m child).made x = p.made x := htakes.made x
    have hkeeps : Stores none (p.merged m child) (p.merged m child) := .refl
    have hpar : (p.merged m child).psessions.second = some parent := hm.second
    have hfirst : ¬ SentIn (p.merged m child).log := fun hs => hsent (htakes.log.sentIn.mp hs)
    have hfits : ∀ y, y.1 ≠ NOID → 0 < (p.merged m child).held y → Fitting y := fun y hy hpos =>
      hw y hy (Nat.lt_of_lt_of_le hpos (htakes.held hp hy))
    have heq := hsends.held_eq (htakes.paired hp) hfirst hx (hown hsent) hfits
      fun kind src dest tid kid => hkeeps.carried_report hpar kind src dest tid kid x
    rw [if_pos (accepts_of_merges hm)]
    omega

/-- An event that brings no report and starts no round loses nothing. -/
theorem losses_eq_zero (hc : p.crashed = false) (hst : ¬ StartsAttestation e.act)
    (hrep : e.report = none) (x : Uid × Nat) : losses e p x = 0 := by
  obtain ⟨time, act⟩ := e
  cases act with
  | timer t c =>
    cases t with
    | startmsg => exact absurd trivial hst
    | attesttimer => exact absurd trivial hst
    | _ => rfl
  | upto k => rfl
  | self k c => simp [losses, hc]
  | recv m c =>
    cases m with
    | updateReq m => cases hrep
    | _ => rfl
  | crash => rfl

/-- **What a prover that lives does with its records.** -/
theorem held_live (h : p.Orderly) (hs : p.Sound) (hord : Schedule.Ordered p.schedule)
    (hf : p.fault = none) (hc : p.crashed = false) (hl : p.Live e q) (hok : q.fault = none)
    (hq : OneReport q.log) (hx : x.1 ≠ NOID) (huid : p.cfg.UId < 2 ^ 32)
    (hw : ∀ y, y.1 ≠ NOID → 0 < p.held y + (received e.report).count y → Fitting y) :
    q.held x + losses e p x + p.made x = p.held x + (received e.report).count x + q.made x := by
  have hcar := carried_live hord hf hok hl x
  by_cases hst : StartsAttestation e.act
  · -- a new round: what was not reported is gone
    obtain ⟨hrep, hlog⟩ : e.report = none ∧ q.log = .start :: p.log := by
      cases hl with
      | @timer t c s hact =>
        refine ⟨by rw [Event.report, hact], ?_⟩
        have hlog := startAttestation_log (p := (p.atTime e.time).cancelEvent t) c
        cases t with
        | startmsg => exact hlog
        | attesttimer => exact hlog
        | _ => rw [hact] at hst; exact hst.elim
      | upto hact => rw [hact] at hst; exact hst.elim
      | self hact => rw [hact] at hst; exact hst.elim
      | recv hact => rw [hact] at hst; exact hst.elim
    have hloss : losses e p x = if SentIn p.log then 0 else p.aggreport.entries.count x := by
      obtain ⟨time, act⟩ := e
      cases act with
      | timer t c => cases t <;> first | exact hst.elim | simp [losses, hc]
      | _ => exact hst.elim
    have hcount : q.log.count .start = p.log.count .start + 1 := by rw [hlog, List.count_cons_self]
    have hflow := flow_of_live hf hl
    rw [hrep] at hflow
    cases hflow with
    | quiet h' =>
      have := h'.log.count_start
      omega
    | restart _ h' =>
      have hle := h'.carried x
      have hsent : q.log.count .sendUpReq = p.log.count .sendUpReq := by
        rw [hlog, List.count_cons_of_ne (by simp)]
      have hmade : q.made x = p.made x := by rw [Prover.made, Prover.made, h'.cfg, h'.count]
      have hnil : q.aggreport.entries = [] := by rw [Report.entries, h'.uids, List.zip_nil_left]
      rw [hrep, hloss, hmade]
      simp only [held, hnil, received, Option.toList_none, List.flatMap_nil, List.count_nil]
      split <;> split <;> omega
    | send h' =>
      obtain ⟨past, hsend, -⟩ := h'.log
      cases hlog.symm.trans hsend
    | passOn hm => cases hm
    | merge hm => cases hm
    | mergeSend hm => cases hm
  by_cases hrep : e.report = none
  · rw [losses_eq_zero hc hst hrep, hrep]
    have hflow := flow_of_live hf hl
    rw [hrep] at hflow
    cases hflow with
    | quiet h' =>
      have hmade : q.made x = p.made x := by rw [Prover.made, Prover.made, h'.cfg, h'.count]
      have hle := h'.carried x
      have hcount := h'.log.count_sendUpReq
      simp only [held, h'.log.sentIn, h'.report, hmade, received, Option.toList_none,
        List.flatMap_nil, List.count_nil]
      omega
    | restart hst' => exact absurd hst' hst
    | send h' =>
      have hfirst := h'.first hq
      have hcount : q.log.count .sendUpReq = p.log.count .sendUpReq + 1 := by
        obtain ⟨past, hlog, hext⟩ := h'.log
        rw [hlog, List.count_cons_self, hext.count_sendUpReq]
      have hown : Fitting (p.cfg.UId, p.attestcount + 1) := ⟨huid, h.own_lt hfirst⟩
      have heq := h'.held_eq h.paired hfirst hx hown (fun y hy hpos => hw y hy (by omega))
        fun kind src dest tid kid => (hcar.resolve_left fun hno => by omega).2 kind src dest tid kid
      simp only [received, Option.toList_none, List.flatMap_nil, List.count_nil]
      omega
    | passOn hm => cases hm
    | merge hm => cases hm
    | mergeSend hm => cases hm
  · -- a report arrives
    cases hl with
    | timer hact => exact absurd (by rw [Event.report, hact]) hrep
    | upto hact => exact absurd (by rw [Event.report, hact]) hrep
    | self hact => exact absurd (by rw [Event.report, hact]) hrep
    | @recv m c hact =>
      cases m with
      | updateReq m =>
        have hev : e.report = some m := by rw [Event.report, hact]; rfl
        have hrec : ∀ y, (received e.report).count y = m.entries.count y := fun y => by
          simp [received, hev]
        have hloss : losses e p x = if p.Accepts m then 0 else m.entries.count x := by
          simp [losses, hact, hc]
        rw [hloss, hrec]
        exact held_handleUpReq (p := p.atTime e.time) h.paired
          (fun c hc => hs.not_sent (.inr (.inl ⟨c, hc⟩))) (fun hsent => ⟨huid, h.own_lt hsent⟩) hok hx
          fun y hy hpos => hw y hy (by rw [hrec]; exact hpos)
      | commitReq m => exact absurd (by rw [Event.report, hact]; rfl) hrep
      | commitResp m => exact absurd (by rw [Event.report, hact]; rfl) hrep
      | commitAck m => exact absurd (by rw [Event.report, hact]; rfl) hrep

/-- **The exact balance of a step.** -/
theorem held_exact (h : p.Orderly) (hord : Alive (fun p => Schedule.Ordered p.schedule) p)
    (hs : step e p = some q) (hok : q.fault = none) (hq : OneReport q.log) (hx : x.1 ≠ NOID)
    (huid : p.cfg.UId < 2 ^ 32)
    (hw : ∀ y, y.1 ≠ NOID → 0 < p.held y + (received e.report).count y → Fitting y) :
    q.held x + losses e p x + p.made x = p.held x + (received e.report).count x + q.made x := by
  obtain ⟨hf, -, ⟨hc | hact, -⟩ | ⟨hc, hl⟩⟩ := step_cases hs
  · obtain ⟨hheld, hmade⟩ := held_crashed hs hc x
    omega
  · obtain ⟨hheld, hmade⟩ := held_crash hs hact x
    omega
  · exact held_live h (h.sound hf hc) (hord hf hc) hf hc hl hok hq hx huid hw

end

end Prover

namespace Net

variable {D : Deployment}

/-- The network and what was lost in it so far. -/
structure Ledger where
  net : Net
  lost : Uid × Nat → Nat

/-- What an event makes a prover of the network lose. -/
def losses (e : NetEvent) (s : Net) (x : Uid × Nat) : Nat :=
  match e.localEvent with
  | some (u, ev) => Prover.losses ev (s.prover u) x
  | none => 0

namespace Ledger

def step (D : Deployment) (e : NetEvent) (L : Ledger) : Option Ledger :=
  (Net.step D e L.net).map fun s => ⟨s, fun x => L.lost x + losses e L.net x⟩

def init (D : Deployment) : Ledger := ⟨Net.init D, fun _ => 0⟩

end Ledger

/-- The invariant of the ledger. -/
structure Accounted (D : Deployment) (L : Ledger) : Prop where
  orderly : Orderly D L.net
  ordered : ∀ u ∈ D.ids, Prover.Alive (fun p => Schedule.Ordered p.schedule) (L.net.prover u)
  records : L.net.halted = false → ∀ x : Uid × Nat, x.1 ≠ NOID →
    total D x L.net + L.lost x = made D x L.net

section
variable {s s' : Net} {u : Uid} {x : Uid × Nat} {L L' : Ledger}

/-- All of a packet goes on the air. -/
theorem count_radiate_eq (p : Prover) (targets : List Uid) (inRange : Bool) (pkt : Packet)
    (x : Uid × Nat) :
    ((s.radiate p targets inRange pkt).air.flatMap (·.2.entries)).count x +
        ((s.radiate p targets inRange pkt).toColl.flatMap UpdateReq.entries).count x =
      (s.air.flatMap (·.2.entries)).count x + (s.toColl.flatMap UpdateReq.entries).count x +
        pkt.entries.count x := by
  refine Nat.le_antisymm (count_radiate p targets inRange pkt x) ?_
  have hair : ∀ (v : Uid) (m : Msg), ((s.air ++ [(v, m)]).flatMap (·.2.entries)).count x =
      (s.air.flatMap (·.2.entries)).count x + m.entries.count x := fun v m => by
    simp [List.flatMap_append]
  have hcoll : ∀ m : UpdateReq, ((s.toColl ++ [m]).flatMap UpdateReq.entries).count x =
      (s.toColl.flatMap UpdateReq.entries).count x + m.entries.count x := fun m => by
    simp [List.flatMap_append]
  cases pkt with
  | creqmsg =>
    simp only [radiate, List.flatMap_append, List.count_append, Packet.entries, List.count_nil]
    omega
  | collector m =>
    simp only [radiate, hcoll, Packet.entries]
    omega
  | prover m =>
    cases m with
    | updateReq m =>
      simp only [radiate, Packet.entries]
      split
      · dsimp only
        rw [hcoll]
        change _ + _ + m.entries.count x ≤ _ + (_ + m.entries.count x)
        omega
      · dsimp only
        rw [hair]
        omega
    | commitReq m => simp only [radiate, hair, Packet.entries]; omega
    | commitResp m => simp only [radiate, hair, Packet.entries]; omega
    | commitAck m => simp only [radiate, hair, Packet.entries]; omega

/-- What a prover receives leaves the air. -/
theorem count_received {ev : Prover.Event} {air : List (Uid × Msg)}
    (hair : ev.act.Own ∧ air = s.air ∨
      ∃ m c, ev.act = .recv m c ∧ (u, m) ∈ s.air ∧ air = s.air.erase (u, m)) (x : Uid × Nat) :
    (air.flatMap (·.2.entries)).count x + (Prover.received ev.report).count x =
      (s.air.flatMap (·.2.entries)).count x := by
  rcases hair with ⟨hown, rfl⟩ | ⟨m, c, hact, hmem, rfl⟩
  · have hnone : ev.report = none := by
      rw [Prover.Event.report]
      split
      · next hact =>
        rw [hact] at hown
        exact hown.elim
      · rfl
    rw [hnone]
    rfl
  · have hrep : Prover.received ev.report = m.entries := by
      rw [Prover.Event.report, hact]
      cases m <;> simp [Msg.report, Prover.received, Msg.entries]
    have := Counting.count_flatMap_erase (fun a : Uid × Msg => a.2.entries) x hmem
    dsimp only at this
    rw [hrep]
    omega

/-- **A prover takes an event.** -/
theorem Accounted.event (h : Accounted D L) {ev : Prover.Event} {p' : Prover}
    {air : List (Uid × Msg)} (hu : u ∈ D.ids) (hstep : Prover.step ev (L.net.prover u) = some p')
    (hair : ev.act.Own ∧ air = L.net.air ∨
      ∃ m c, ev.act = .recv m c ∧ (u, m) ∈ L.net.air ∧ air = L.net.air.erase (u, m))
    (hrun : L.net.halted = false) (hok : p'.fault = none) (hq : OneReport p'.log) (hx : x.1 ≠ NOID) :
    total D x { L.net.setProver u p' with now := ev.time, air := air } +
        (L.lost x + Prover.losses ev (L.net.prover u) x) =
      made D x { L.net.setProver u p' with now := ev.time, air := air } := by
  have huid : (L.net.prover u).cfg.UId < 2 ^ 32 := by
    rw [h.orderly.cfg, D.uid_eq]
    exact (D.mem_ids hu).2.trans (by decide)
  have hheld : ∀ y : Uid × Nat, (L.net.prover u).held y ≤
      (D.ids.map fun v => (L.net.prover v).held y).sum := fun y =>
    List.single_le_sum (fun _ _ => Nat.zero_le _) _ (List.mem_map.mpr ⟨u, hu, rfl⟩)
  have hbal := Prover.held_exact (h.orderly.orderly u hu) (h.ordered u hu) hstep hok hq hx huid
    fun y hy hpos => by
      refine h.orderly.fitting hy ?_
      have h1 := count_received hair y
      have h2 := hheld y
      rw [total]
      omega
  have hs1 := sum_setProver (s := L.net) (p := p') hu fun p => p.held x
  have hs2 := sum_setProver (s := L.net) (p := p') hu fun p => p.made x
  have hold := h.records hrun x hx
  have hx1 := count_received hair x
  rw [total, made] at hold ⊢
  change (D.ids.map fun v => ((L.net.setProver u p').prover v).held x).sum +
    (air.flatMap (·.2.entries)).count x + (L.net.toColl.flatMap UpdateReq.entries).count x +
    (L.net.handled.flatMap UpdateReq.entries).count x + _ =
      (D.ids.map fun v => ((L.net.setProver u p').prover v).made x).sum
  omega

/-- A packet goes on the air. -/
theorem total_transmit {pkt : Packet} (hu : u ∈ D.ids) (hpkt : pkt ∈ (s.prover u).out)
    (targets : List Uid) (inRange : Bool) (x : Uid × Nat) :
    total D x ((s.takePacket u pkt).radiate (s.prover u) targets inRange pkt) = total D x s ∧
      made D x ((s.takePacket u pkt).radiate (s.prover u) targets inRange pkt) = made D x s := by
  have hself : (s.takePacket u pkt).prover u =
      { s.prover u with out := (s.prover u).out.erase pkt } := Function.update_self ..
  have hheld : ((s.takePacket u pkt).prover u).held x + pkt.entries.count x =
      (s.prover u).held x := by
    have := Counting.count_flatMap_erase Packet.entries x hpkt
    rw [hself]
    simp only [Prover.held, Prover.carried, List.count_append]
    omega
  have hsum := Counting.sum_map_of_ne (f := fun v => ((s.takePacket u pkt).prover v).held x)
    (g := fun v => (s.prover v).held x) nodup_ids hu fun v _ hne => by
      rw [show (s.takePacket u pkt).prover v = s.prover v from Function.update_of_ne hne ..]
  have hrad := count_radiate_eq (s := s.takePacket u pkt) (s.prover u) targets inRange pkt x
  constructor
  · rw [total, total, radiate_prover, radiate_handled]
    change _ + _ + _ + (s.handled.flatMap UpdateReq.entries).count x = _
    change _ = (s.air.flatMap (·.2.entries)).count x +
      (s.toColl.flatMap UpdateReq.entries).count x + _ at hrad
    omega
  · rw [made, made, radiate_prover]
    refine congrArg List.sum (List.map_congr_left fun v _ => ?_)
    obtain ⟨out, -, he⟩ := takePacket_prover (s := s) u pkt v
    rw [he]
    rfl

theorem Accounted.step {e : NetEvent} (h : Accounted D L) (hok : KeepsChildren e L.net)
    (hs : Ledger.step D e L = some L') : Accounted D L' := by
  obtain ⟨s', hnet, rfl⟩ := Option.map_eq_some_iff.mp hs
  obtain ⟨hrun, hmoves⟩ := moves_of_step hnet
  have hord := h.orderly.step hok hmoves
  refine ⟨hord, ?_, ?_⟩
  · intro v hv
    cases hmoves with
    | @event u ev p' air hu hloc hstep _ he =>
      subst he
      by_cases hvu : v = u
      · subst hvu
        change Prover.Alive _ ((L.net.setProver v p').prover v)
        rw [setProver_self]
        exact Prover.ordered_step hstep (h.ordered v hv)
      · change Prover.Alive _ ((L.net.setProver u p').prover v)
        rw [setProver_of_ne hvu]
        exact h.ordered v hv
    | @transmit u pkt targets inRange hu hloc hpkt _ _ he =>
      subst he
      obtain ⟨out, -, heq⟩ := takePacket_prover (s := L.net) u pkt v
      change Prover.Alive _ (((L.net.takePacket u pkt).radiate (L.net.prover u) targets inRange
        pkt).prover v)
      rw [radiate_prover, heq]
      exact h.ordered v hv
    | collect _ _ he =>
      subst he
      exact h.ordered v hv
  · intro hhalt x hx
    cases hmoves with
    | @event u ev p' air hu hloc hstep hair he =>
      subst he
      have hfault : p'.fault = none := by simpa [setProver] using hhalt
      have hone : OneReport p'.log := by
        have := (hord.orderly u hu).oneReport
        change OneReport ((L.net.setProver u p').prover u).log at this
        rwa [setProver_self] at this
      have hl : losses e L.net x = Prover.losses ev (L.net.prover u) x := by rw [losses, hloc]
      have hev := h.event hu hstep hair hrun hfault hone hx
      rw [← hl] at hev
      exact hev
    | @transmit u pkt targets inRange hu hloc hpkt _ _ he =>
      subst he
      have hl : losses e L.net x = 0 := by rw [losses, hloc]
      obtain ⟨ht, hm⟩ := total_transmit hu hpkt targets inRange x
      have hold := h.records hrun x hx
      change _ + (L.lost x + losses e L.net x) = _
      rw [hl, ht, hm]
      exact hold
    | @collect m hloc hm he =>
      subst he
      have hl : losses e L.net x = 0 := by rw [losses, hloc]
      have hold := h.records hrun x hx
      have herase := Counting.count_flatMap_erase UpdateReq.entries x hm
      change total D x { L.net with toColl := _, handled := _ } + (L.lost x + losses e L.net x) =
        made D x L.net
      rw [hl]
      rw [total] at hold ⊢
      simp only [List.flatMap_append, List.count_append, List.flatMap_cons, List.flatMap_nil,
        List.append_nil]
      omega

theorem accounted_init : Accounted D (Ledger.init D) := by
  refine ⟨orderly_init, fun u _ _ _ => ?_, fun _ x _ => ?_⟩
  · exact Prover.ordered_init _ _
  · have hzero : ∀ u ∈ D.ids, ((Net.init D).prover u).held x = 0 := fun u _ => rfl
    have hnone : ∀ u ∈ D.ids, ((Net.init D).prover u).made x = 0 := fun u _ =>
      if_neg fun h => Nat.not_succ_le_zero 0 (Nat.le_trans h.2.1 h.2.2)
    change total D x (Net.init D) + 0 = made D x (Net.init D)
    rw [total, made, List.map_congr_left hzero, List.map_congr_left hnone]
    simp [Net.init]

/-- The record `x` is one that its prover has made. -/
def Exists (D : Deployment) (x : Uid × Nat) (s : Net) : Prop :=
  x.1 ∈ D.ids ∧ 1 ≤ x.2 ∧ x.2 ≤ (s.prover x.1).attestcount

instance (x : Uid × Nat) (s : Net) : Decidable (Exists D x s) :=
  inferInstanceAs (Decidable (_ ∧ _ ∧ _))

theorem made_eq (h : ∀ u, (s.prover u).cfg = D.cfg u) (x : Uid × Nat) :
    made D x s = if Exists D x s then 1 else 0 := by
  have huid : (s.prover x.1).cfg.UId = x.1 := by rw [h, D.uid_eq]
  have hzero : ∀ u ∈ D.ids, u ≠ x.1 → (s.prover u).made x = 0 := fun u _ hne =>
    Nat.eq_zero_of_not_pos fun hpos => hne (uid_of_made h hpos).1.symm
  have hself : (s.prover x.1).made x =
      if 1 ≤ x.2 ∧ x.2 ≤ (s.prover x.1).attestcount then 1 else 0 := by
    simp [Prover.made, huid]
  by_cases hin : x.1 ∈ D.ids
  · have hle : made D x s ≤ (s.prover x.1).made x := Counting.sum_map_le nodup_ids hzero
    have hge : (s.prover x.1).made x ≤ made D x s :=
      List.single_le_sum (fun _ _ => Nat.zero_le _) _ (List.mem_map.mpr ⟨x.1, hin, rfl⟩)
    rw [Nat.le_antisymm hle hge, hself]
    simp [Exists, hin]
  · rw [if_neg fun h => hin h.1, made]
    refine List.sum_eq_zero fun n hn => ?_
    obtain ⟨u, hu, rfl⟩ := List.mem_map.mp hn
    exact hzero u hu fun he => hin (he ▸ hu)

/-- Nothing is under way: no report is on the air or under way to the collector, and a prover
that lives has no records in what it prepared or handed over and has reported what it has. -/
structure AtRest (D : Deployment) (s : Net) : Prop where
  prover : ∀ u ∈ D.ids, (s.prover u).crashed = false → (s.prover u).carried = [] ∧
    (SentIn (s.prover u).log ∨ (s.prover u).aggreport.uids = [])
  air : ∀ a ∈ s.air, a.2.report = none
  toColl : s.toColl = []

instance (s : Net) : Decidable (AtRest D s) :=
  decidable_of_iff ((∀ u ∈ D.ids, (s.prover u).crashed = false → (s.prover u).carried = [] ∧
    (SentIn (s.prover u).log ∨ (s.prover u).aggreport.uids = [])) ∧
    (∀ a ∈ s.air, a.2.report = none) ∧ s.toColl = [])
    ⟨fun h => ⟨h.1, h.2.1, h.2.2⟩, fun h => ⟨h.prover, h.air, h.toColl⟩⟩

/-- How often crashed provers hold the record `x`. -/
def stranded (D : Deployment) (x : Uid × Nat) (s : Net) : Nat :=
  ((D.ids.filter fun u => (s.prover u).crashed).map fun u => (s.prover u).held x).sum

theorem AtRest.total (h : AtRest D s) (x : Uid × Nat) :
    total D x s = stranded D x s + (s.handled.flatMap UpdateReq.entries).count x := by
  have hair : (s.air.flatMap (·.2.entries)) = [] := by
    refine List.flatMap_eq_nil_iff.mpr fun a ha => ?_
    have := h.air a ha
    obtain ⟨v, m⟩ := a
    cases m with
    | updateReq m => cases this
    | _ => rfl
  have hheld : ∀ u ∈ D.ids, (s.prover u).crashed = false → (s.prover u).held x = 0 := by
    intro u hu hc
    obtain ⟨hcar, hs⟩ := h.prover u hu hc
    rw [Prover.held, hcar]
    rcases hs with hs | hs
    · simp [hs]
    · simp [Report.entries, hs]
  have hsum : ∀ l : List Uid, (∀ u ∈ l, u ∈ D.ids) → (l.map fun u => (s.prover u).held x).sum =
      ((l.filter fun u => (s.prover u).crashed).map fun u => (s.prover u).held x).sum := by
    intro l hl
    induction l with
    | nil => rfl
    | cons u l ih =>
      have ih := ih fun v hv => hl v (List.mem_cons_of_mem _ hv)
      cases hc : (s.prover u).crashed with
      | true => simp [hc, ih]
      | false => simp [hc, ih, hheld u (hl u List.mem_cons_self) hc]
  rw [Net.total, hsum D.ids fun _ => id, hair, h.toColl, stranded]
  simp

/-- **Every record is in one place or was lost once.**  In every run in which no prover
with children is made a leaf: a record that its prover has made is at any time held by one
prover, under way, handled by the collector or counted as lost, and exactly one of these,
and nobody holds a record that was not made.  When nothing is under way any more, the
collector has handled each record once, but for those lost and those that a crashed prover
holds. -/
theorem records_balance {L : Ledger}
    (h : Runs.Reaches (Ledger.step D) (fun e L => KeepsChildren e L.net) (Ledger.init D) L)
    (hrun : L.net.halted = false) (hx : x.1 ≠ NOID) :
    total D x L.net + L.lost x = (if Exists D x L.net then 1 else 0) ∧
      (AtRest D L.net → Exists D x L.net → (L.net.handled.flatMap UpdateReq.entries).count x +
        L.lost x + stranded D x L.net = 1) := by
  have hacc : Accounted D L := h.invariant accounted_init fun e L L' ih hok hs => ih.step hok hs
  have hrec : total D x L.net + L.lost x = if Exists D x L.net then 1 else 0 := by
    rw [hacc.records hrun x hx, made_eq hacc.orderly.cfg]
  refine ⟨hrec, fun hrest hex => ?_⟩
  rw [hrest.total, if_pos hex] at hrec
  omega

end

end Net

end Fadia
