import Fadia.Proof.CollectorTotal
import Fadia.Proof.StaleTimers
import Fadia.Proof.Takeoff

/-!
# The rounds of a prover do not drift

`startAttestation` schedules the next round `deltah` behind its own event, so whatever a prover
receives, and whenever, its rounds begin at `start + deltah * k` (`rounds_periodic`): the timer
that is due next is `startmsg` before the first round and `attesttimer` behind it (`Periodic`).

`ticks` counts these instants.  At any time of a run of the network a prover has not begun more
rounds than ticks, and one that lives at most one less (`Net.keepsPace`), which bounds what the
collector can have counted by the time alone (`System.sum_le_ticks`).
-/

namespace Fadia

/-- How many of the instants `start + period * k` have come. -/
def ticks (start period now : Nat) : Nat := if now < start then 0 else (now - start) / period + 1

theorem lt_ticks_iff {start period now k : Nat} (hp : 0 < period) :
    k < ticks start period now ↔ start + period * k ≤ now := by
  unfold ticks
  split
  · omega
  · next hle =>
    have hdiv : k ≤ (now - start) / period ↔ k * period ≤ now - start := Nat.le_div_iff_mul_le hp
    rw [Nat.mul_comm] at hdiv
    omega

namespace Prover

/-- How many rounds a prover has begun. -/
def rounds (p : Prover) : Nat := p.log.count .start

/-- The timer that begins the next round. -/
def opener (p : Prover) : Timer := if p.rounds = 0 then .startmsg else .attesttimer

/-- The next round, and no other, is due `deltah * rounds` behind the first one. -/
structure Periodic (start : Nat) (p : Prover) : Prop where
  due : ∃ s, p.timers p.opener = some s ∧ s.due = start + p.cfg.deltah * p.rounds
  only : ∀ t : Timer, t.Outer → t ≠ p.opener → p.timers t = none

/-- The last round was not begun early. -/
def Begun (start : Nat) (p : Prover) : Prop :=
  p.rounds ≠ 0 → start + p.cfg.deltah * (p.rounds - 1) ≤ p.now

section
variable {p p' : Prover} {e : Event} {start : Nat}

/-! ## One event -/

/-- The event that begins a round is the expiry of one of the two outer timers. -/
theorem outer_of_startsAttestation {t : Timer} {c : Choice} (h : StartsAttestation (.timer t c)) :
    t.Outer ∧ ∀ q : Prover, q.onTimer t c = q.startAttestation c := by
  cases t with
  | startmsg => exact ⟨.inl rfl, fun _ => rfl⟩
  | attesttimer => exact ⟨.inr rfl, fun _ => rfl⟩
  | checkdelaymsg => exact h.elim
  | mktreetimer => exact h.elim
  | creqmsg => exact h.elim
  | cacktomsg => exact h.elim
  | cresptomsg => exact h.elim

/-- A round begins when its timer expires. -/
theorem Periodic.onTime (h : p.Periodic start) (hl : p.Live e p') (hst : StartsAttestation e.act) :
    e.time = start + p.cfg.deltah * p.rounds ∧ ∃ c, e.act = .timer p.opener c ∧
      p' = ((p.atTime e.time).cancelEvent p.opener).startAttestation c := by
  cases hl with
  | @timer t c s hact ht hn =>
    rw [hact] at hst
    obtain ⟨hout, hstart⟩ := outer_of_startsAttestation hst
    have hop : t = p.opener := by
      by_contra hne
      rw [h.only t hout hne] at ht
      cases ht
    subst hop
    obtain ⟨s', hs', hdue⟩ := h.due
    obtain rfl := Option.some.inj (ht.symm.trans hs')
    exact ⟨hn.1.symm.trans hdue, c, hact, hstart _⟩
  | upto hact => rw [hact] at hst; exact hst.elim
  | self hact => rw [hact] at hst; exact hst.elim
  | recv hact => rw [hact] at hst; exact hst.elim

/-- How many rounds have begun behind an event of a prover that lives. -/
theorem rounds_of_live (hf : p.fault = none) (hl : p.Live e p') :
    p'.rounds = p.rounds + if StartsAttestation e.act then 1 else 0 := by
  have hflow := flow_of_live hf hl
  have hsend : ∀ {q r : Prover}, Sends q r → r.rounds = q.rounds := fun {q r} h => by
    obtain ⟨past, hlog, hext⟩ := h.log
    rw [rounds, hlog, List.count_cons_of_ne (by decide), hext.count_start, rounds]
  split
  · next hst =>
    cases hl with
    | @timer t c s hact ht hn =>
      rw [hact] at hst
      rw [(outer_of_startsAttestation hst).2, rounds, startAttestation_log, List.count_cons_self]
      rfl
    | upto hact => rw [hact] at hst; exact hst.elim
    | self hact => rw [hact] at hst; exact hst.elim
    | recv hact => rw [hact] at hst; exact hst.elim
  · next hno =>
    cases hflow with
    | quiet h => exact h.log.count_start
    | restart hst _ => exact absurd hst hno
    | send h => exact hsend h
    | passOn _ h => exact h.log.count_start
    | merge _ h => exact h.log.count_start
    | mergeSend _ h h' => exact (hsend h').trans h.log.count_start

theorem periodic_init (cfg : Config) (start : Nat) : (init cfg start).Periodic start := by
  refine ⟨⟨⟨start, 0⟩, rfl, ?_⟩, fun t hout hne => ?_⟩
  · show start = start + cfg.deltah * 0
    omega
  · exact if_neg hne

/-- **Step lemma.** -/
theorem periodic_step (h : Alive (Periodic start) p) (hs : step e p = some p') :
    Alive (Periodic start) p' := by
  intro hf' hc'
  obtain ⟨hf, -, ⟨-, _, _, _, _, -, rfl⟩ | ⟨hc, hl⟩⟩ := step_cases hs
  · cases hc'
  have hp := h hf hc
  have hrounds := rounds_of_live hf hl
  have hcfg := step_cfg hs
  by_cases hst : StartsAttestation e.act
  · rw [if_pos hst] at hrounds
    obtain ⟨htime, c, -, rfl⟩ := hp.onTime hl hst
    let q := (p.atTime e.time).cancelEvent p.opener
    have hopener : (q.startAttestation c).opener = .attesttimer := by
      rw [opener, hrounds]
      exact if_neg (Nat.succ_ne_zero _)
    obtain ⟨h1, h2, h3⟩ := timers_of_startAttestation (p := q) c hf hf'
    have hq := startAttestation_of_none (p := q) c hf h1 h2 h3
    refine ⟨?_, fun t hout hne => ?_⟩
    · rw [hopener, hrounds, hcfg, hq]
      refine ⟨⟨e.time + p.cfg.deltah, p.seq⟩, rfl, ?_⟩
      show e.time + p.cfg.deltah = _
      rw [htime, Nat.mul_succ, Nat.add_assoc]
    · rw [hopener] at hne
      obtain rfl : t = .startmsg := hout.resolve_right hne
      have hnone : q.timers .startmsg = none := by
        show Function.update p.timers p.opener none .startmsg = none
        by_cases hop : .startmsg = p.opener
        · rw [hop, Function.update_self]
        · rw [Function.update_of_ne hop]
          exact hp.only _ (.inl rfl) hop
      rw [hq]
      exact hnone
  · rw [if_neg hst, Nat.add_zero] at hrounds
    have hsame := hl.outer_eq hf hf' hst
    have hopener : p'.opener = p.opener := by rw [opener, hrounds, opener]
    have hout : p.opener.Outer := by
      unfold opener
      split
      · exact .inl rfl
      · exact .inr rfl
    refine ⟨?_, fun t ht hne => ?_⟩
    · rw [hopener, hsame _ hout, hcfg, hrounds]
      exact hp.due
    · rw [hsame t ht]
      exact hp.only t ht (hopener ▸ hne)

theorem begun_step (h : Alive (Periodic start) p) (hb : p.Begun start) (hs : step e p = some p') :
    p'.Begun start := by
  intro hne
  have hnow := now_of_step hs
  have hcfg := step_cfg hs
  obtain ⟨hf, hle, ⟨-, _, _, _, _, -, rfl⟩ | ⟨hc, hl⟩⟩ := step_cases hs
  · rw [hnow]
    exact (hb hne).trans hle
  have hrounds := rounds_of_live hf hl
  rw [hnow, hcfg, hrounds]
  split
  · next hst =>
    rw [Nat.add_sub_cancel]
    exact Nat.le_of_eq ((h hf hc).onTime hl hst).1.symm
  · next hno =>
    rw [if_neg hno] at hrounds
    exact (hb fun h0 => hne (hrounds.trans h0)).trans hle

theorem noneBefore_of_crash (hs : step e p = some p') (hact : e.act = .crash) :
    p.NoneBefore e.time := by
  unfold step at hs
  rw [hact] at hs
  dsimp only at hs
  split at hs
  · cases hs
  · split at hs
    · next hn => exact hn
    · cases hs

/-- The timer of the next round is ahead. -/
theorem Periodic.ahead (h : p.Periodic start) {time : Nat} (hn : p.NoneBefore time) :
    time ≤ start + p.cfg.deltah * p.rounds := by
  obtain ⟨s, hs, hdue⟩ := h.due
  rw [← hdue]
  exact hn s (mem_pending_timer hs)

/-- **The rounds of a prover do not drift.**  In every run, whatever the prover receives, its rounds
begin at `start`, `start + deltah`, `start + 2 * deltah`, … while it lives: none is begun early,
late or twice, and none is left out. -/
theorem rounds_periodic {ok : Event → Prover → Prop} {cfg : Config}
    (h : Runs.Reaches step ok (init cfg start) p) :
    (p.rounds ≠ 0 → start + cfg.deltah * (p.rounds - 1) ≤ p.now) ∧
      ∀ e p', step e p = some p' → p.crashed = false →
        (StartsAttestation e.act → e.time = start + cfg.deltah * p.rounds) ∧
        e.time ≤ start + cfg.deltah * p.rounds ∧
        p'.rounds = p.rounds + if StartsAttestation e.act then 1 else 0 := by
  have hinv : (Alive (Periodic start) p ∧ p.Begun start) ∧ p.cfg = cfg := by
    refine h.invariant (I := fun p => (Alive (Periodic start) p ∧ p.Begun start) ∧ p.cfg = cfg)
      ⟨⟨fun _ _ => periodic_init cfg start, fun h0 => absurd rfl h0⟩, rfl⟩ ?_
    rintro e p p' ⟨⟨hp, hb⟩, hcfg⟩ - hs
    exact ⟨⟨periodic_step hp hs, begun_step hp hb hs⟩, (step_cfg hs).trans hcfg⟩
  obtain ⟨⟨hp, hb⟩, rfl⟩ := hinv
  refine ⟨hb, fun e p' hs hc => ?_⟩
  obtain ⟨hf, -, ⟨hcrash, _, _, _, _, -, rfl⟩ | ⟨-, hl⟩⟩ := step_cases hs
  · have hact : e.act = .crash := hcrash.resolve_left fun h => by cases hc.symm.trans h
    have hno : ¬ StartsAttestation e.act := by
      rw [hact]
      exact id
    refine ⟨fun hst => absurd hst hno, (hp hf hc).ahead (noneBefore_of_crash hs hact), ?_⟩
    rw [if_neg hno]
    rfl
  · have hper := hp hf hc
    exact ⟨fun hst => (hper.onTime hl hst).1, hper.ahead (hl.adds hf).1, rounds_of_live hf hl⟩

end

/-- A prover that starts at 5 s hears nobody, reports and begins its second round at 33 s. -/
theorem rounds_periodic_second : ∃ p p' : Prover,
    step ⟨33 * second, .timer .attesttimer {}⟩ p = some p' ∧ p.rounds = 1 ∧
      33 * second = 5 * second + 28 * second * p.rounds ∧ p'.rounds = 2 := by
  let cfg : Config := ⟨1, [5], 1, 28 * second, 1, .SKY, fun m _ => m.mac == 0, fun _ _ _ => 0⟩
  let events : List Event :=
    [⟨5 * second, .timer .startmsg {}⟩,
     ⟨6960 * 10 ^ 9, .timer .checkdelaymsg {}⟩,
     ⟨6960 * 10 ^ 9, .timer .mktreetimer { treeID := 7 }⟩,
     ⟨6960 * 10 ^ 9, .timer .creqmsg {}⟩,
     ⟨18960 * 10 ^ 9, .timer .cresptomsg {}⟩,
     ⟨19033712348000, .self 6 {}⟩]
  obtain ⟨p, hp, ht⟩ := Runs.exists_of_run step (fun _ _ => True) events (init cfg (5 * second))
    (fun p => p.crashed = false ∧ p.rounds = 1 ∧
      (step ⟨33 * second, .timer .attesttimer {}⟩ p).any fun _ => true) (by decide +kernel)
  obtain ⟨hc, hone, hany⟩ := of_decide_eq_true ht
  obtain ⟨p', hs, -⟩ := Runs.exists_of_any hany
  obtain ⟨htime, -, hrounds⟩ := (rounds_periodic hp).2 _ _ hs hc
  refine ⟨p, p', hs, hone, htime trivial, ?_⟩
  rw [hrounds, hone]
  rfl

end Prover

namespace System

section
variable {D : Deployment} {range : Rat} {s : System} {n : Net} {u : Uid}
  {ok : Prover.Event → Prover → Prop}

/-- The rounds of a prover of a network that the system matches. -/
theorem paced_of_matches (hn : Runs.Reaches (Net.step D) (Net.Locally ok) (Net.init D) n)
    (hm : Matches D s n) (hu : u ∈ D.ids) : (s.handler u).cfg = D.cfg u ∧
      Prover.Alive (Prover.Periodic (D.start u)) (s.handler u) ∧
      ((s.prover u).rounds ≠ 0 →
        D.start u + (D.cfg u).deltah * ((s.prover u).rounds - 1) ≤ s.now) := by
  obtain ⟨⟨hcfg, hp⟩, hb⟩ := Net.prover_invariant (I := fun u p => (p.cfg = D.cfg u ∧
      Prover.Alive (Prover.Periodic (D.start u)) p) ∧ p.Begun (D.start u))
    (fun u _ => ⟨⟨rfl, fun _ _ => Prover.periodic_init _ _⟩, fun h0 => absurd rfl h0⟩)
    (fun u ev p p' ⟨⟨hcfg, hp⟩, hb⟩ _ hs => ⟨⟨(Prover.step_cfg hs).trans hcfg,
      Prover.periodic_step hp hs⟩, Prover.begun_step hp hb hs⟩)
    (fun u p out ⟨⟨hcfg, hp⟩, hb⟩ => ⟨⟨hcfg, fun hf hc => ⟨(hp hf hc).due, (hp hf hc).only⟩⟩, hb⟩)
    hn u hu
  obtain ⟨out, t, he, ht, -⟩ := hm.prover u hu
  rw [he] at hcfg hp hb
  refine ⟨hcfg, fun hf hc => ⟨(hp hf hc).due, (hp hf hc).only⟩, fun hne => ?_⟩
  rw [← hcfg]
  exact (hb hne).trans ht

theorem rounds_le_ticks (hn : Runs.Reaches (Net.step D) (Net.Locally ok) (Net.init D) n)
    (hm : Matches D s n) (hu : u ∈ D.ids) (hpos : 0 < (D.cfg u).deltah) :
    (s.prover u).rounds ≤ ticks (D.start u) (D.cfg u).deltah s.now := by
  by_cases h0 : (s.prover u).rounds = 0
  · rw [h0]
    exact Nat.zero_le _
  · have := (lt_ticks_iff hpos).mpr ((paced_of_matches hn hm hu).2.2 h0)
    omega

/-- **All provers keep pace with the time of the simulation**: at any time of any run of the whole
system none has begun more rounds than there were ticks, and one that lives at most one less. -/
theorem keeps_pace {pos : Uid → Coord} (hu : u ∈ D.ids) (hpos : 0 < (D.cfg u).deltah)
    (h : Runs.Reaches (step D range) (fun _ _ => True) (init D pos) s) :
    (s.prover u).rounds ≤ ticks (D.start u) (D.cfg u).deltah s.now ∧
      (s.halted = false → (s.field.device u).crashed = false →
        ticks (D.start u) (D.cfg u).deltah s.now ≤ (s.prover u).rounds + 1) := by
  have hlocal : Runs.Reaches (step D range) (Locally fun _ _ => True) (init D pos) s :=
    h.weaken fun _ _ _ _ _ _ => trivial
  obtain ⟨n, hn, hm, hlinked⟩ := simulates (fun _ _ => trivial) (fun _ _ _ _ _ => trivial) hlocal
  refine ⟨rounds_le_ticks hn hm hu hpos, fun hrun hc => ?_⟩
  obtain ⟨hcfg, hper, -⟩ := paced_of_matches hn hm hu
  obtain ⟨hl, -⟩ := hlinked hrun
  have hahead : s.now ≤ D.start u + (D.cfg u).deltah * (s.prover u).rounds := by
    rw [← hcfg]
    exact (hper (hl.faultless u hu) hc).ahead (hl.timely u hu).2
  by_contra hlt
  have hcome := (lt_ticks_iff hpos).mp (Nat.lt_of_not_le hlt)
  rw [Nat.mul_succ] at hcome
  omega

/-- A prover makes at most one record in each round. -/
theorem attestcount_le_rounds {pos : Uid → Coord} (hu : u ∈ D.ids)
    (h : Runs.Reaches (step D range) KeepsChildren (init D pos) s) :
    (s.prover u).attestcount ≤ (s.prover u).rounds := by
  obtain ⟨n, hn, hm⟩ := exists_keepsChildren h
  have hord : Net.Orderly D n := hn.invariant Net.orderly_init fun _ _ _ ih hok hs =>
    ih.step hok (Net.moves_of_step hs).2
  obtain ⟨out, t, he, -⟩ := hm.prover u hu
  have hbegun := (hord.orderly u hu).begun
  rw [he] at hbegun
  rcases hbegun with ⟨-, h0⟩ | ⟨-, ht⟩
  · change (s.prover u).attestcount = 0 at h0
    omega
  · change (s.prover u).attestcount + _ ≤ (s.prover u).rounds at ht
    omega

/-- **The collector cannot count more than the time allows.**  In every run of the whole system in
which no prover with children is made a leaf, its sum is at most the number of the ticks of all
provers, `(now - start) / deltah + 1` for each prover that has started. -/
theorem sum_le_ticks {pos : Uid → Coord} (hpos : ∀ u ∈ D.ids, 0 < (D.cfg u).deltah)
    (h : Runs.Reaches (step D range) KeepsChildren (init D pos) s) :
    s.field.collector.sum ≤ (D.ids.map fun u => ticks (D.start u) (D.cfg u).deltah s.now).sum := by
  obtain ⟨hnodup, hmade, hsum⟩ := counted_of_reaches h
  obtain ⟨n, hn, hm⟩ := exists_keepsChildren h
  rw [hsum]
  refine length_le_attests hnodup fun x hx => ?_
  obtain ⟨hu, h1, h2⟩ := hmade x hx
  have hlocal : Runs.Reaches (Net.step D) (Net.Locally fun _ _ => True) (Net.init D) n :=
    hn.weaken fun _ _ _ _ _ _ => trivial
  exact ⟨hu, h1, h2.trans ((attestcount_le_rounds hu h).trans (rounds_le_ticks hlocal hm hu (hpos _ hu)))⟩

end

/-- In `relayedReport` the collector counts two records when each prover has begun one round. -/
theorem sum_le_ticks_relayed : ∃ s : System, s.field.collector.sum = 2 ∧ s.field.collector.sum ≤
    (rootAndChild.ids.map fun u =>
      ticks (rootAndChild.start u) (rootAndChild.cfg u).deltah s.now).sum ∧
    (rootAndChild.ids.map fun u =>
      ticks (rootAndChild.start u) (rootAndChild.cfg u).deltah s.now).sum = 2 := by
  obtain ⟨s, hs, ht⟩ := exists_of_relayed
    (fun s => s.field.collector.sum = 2 ∧ s.now = 18447534676000) (by decide +kernel)
  obtain ⟨hsum, hnow⟩ := of_decide_eq_true ht
  refine ⟨s, hsum, sum_le_ticks (fun _ _ => (by decide : 0 < 48 * second)) hs, ?_⟩
  rw [hnow]
  rfl

end System

end Fadia
