import Fadia.Proof.Channel

/-!
# What the radio reaches

A `Radio` is a field with the distances over which messages went from prover to prover, each
at the moment of its `sendDirect`.  A broadcast goes to the provers in range and an
`UpdateReq` is checked each time it is dispatched (`dispatch_sent`), and redirected to the
collector where its parent is out of range (`redirected_placed`).  `sendProver` checks
nothing, so every hop is within range exactly as long as the provers that `CommitResp`s and
`CommitAck`s go to are (`hops_within_range`); in `lateAck` one has moved away.
-/

namespace Fadia

/-- Whom a message for one receiver is for. -/
def Packet.target : Packet → Option Uid
  | .prover (.commitResp m) => some m.destination
  | .prover (.commitAck m) => some m.destination
  | .prover (.updateReq r) | .collector r => some r.destination
  | .creqmsg | .prover (.commitReq _) => none

/-- Whom a `CommitResp` or a `CommitAck` is for. -/
def Packet.answerTo : Packet → Option Uid
  | .prover (.commitResp m) => some m.destination
  | .prover (.commitAck m) => some m.destination
  | _ => none

namespace Device

/-- Nothing keeps the device from sending. -/
def Free (d : Device) : Prop := ¬ (d.txrxstat = .TRANSMITING ∨ d.chanstat = .BUSY)

instance (d : Device) : Decidable d.Free := inferInstanceAs (Decidable (¬ _))

/-- The message that an event makes the device send, and the state in which it does. -/
def atDispatch (e : DeviceEvent) (d : Device) : Option (Device × Outgoing) :=
  if d.crashed then none
  else
    match e with
    | .handOver pkt => some ({ d with handed := d.handed + 1 }, ⟨d.handed, pkt⟩)
    | .selfMsg .txmsg _ => d.msgqueue.head?.map ({ d.pop .txmsg with txrxstat := .DIDLE }, ·)
    | .selfMsg .cbusymsg _ => d.msgqueue.head?.map ({ d.pop .cbusymsg with chanstat := .CIDLE }, ·)
    | .selfMsg .collbusymsg _ => d.pupmsg.map (d.pop .collbusymsg, ·)
    | .selfMsg .entxmsg _ | .energyDone _ => none

/-- The message waits in the device or has gone to the collector. -/
def Holds (m : Outgoing) (d : Device) : Prop :=
  m ∈ d.msgqueue ∨ d.pupmsg = some m ∨ (m, .collector) ∈ d.sent

section
variable {w : Surroundings} {e : DeviceEvent} {m : Outgoing} {d d' d₁ : Device} {route : Route}

/-- What a send function puts on the air. -/
theorem Sent.on_air (h : Sent w m route d d') : d'.sent = d.sent ∨
    d'.sent = d.sent ++ [(m, route)] ∧ d.Free ∧ (w.channelBusy = false ∨ route = .broadcast) := by
  cases h with
  | queued => exact .inl rfl
  | postponed => exact .inl (scheduleAt_fields .cbusymsg _).2.2.1
  | parked =>
    left
    unfold postponeUp
    dsimp only
    split
    · rfl
    · exact (scheduleAt_fields .collbusymsg _).2.2.1
  | unheard hi hr => exact .inr ⟨rfl, hi, .inr hr⟩
  | transmitted hi hb => exact .inr ⟨(transmit_fields m route d).2.2.1, hi, .inl hb⟩

theorem sendProver_free (hd : d.Free) (hb : w.channelBusy = false) :
    (d.sendProver w m).sent = d.sent ++ [(m, .prover)] := by
  unfold sendProver whenFree
  rw [if_neg hd, hb]
  exact (transmit_fields m .prover d).2.2.1

/-- From `d` to `d'` at most one message goes on the air, to one prover out of range only if
it answers that prover and the channel is free. -/
def Airs (w : Surroundings) (m : Outgoing) (d d' : Device) : Prop :=
  d'.sent = d.sent ∨ ∃ x, d'.sent = d.sent ++ [x] ∧ (x.2 = .prover →
    x.1.pkt.target = m.pkt.target ∧ ∀ v, m.pkt.target = some v → w.withinRange v = false →
      m.pkt.answerTo = some v ∧ d.Free ∧ w.channelBusy = false)

theorem Sent.airs_prover (h : Sent w m .prover d d')
    (hans : ∀ v, m.pkt.target = some v → w.withinRange v = false → m.pkt.answerTo = some v) :
    Airs w m d d' := by
  rcases h.on_air with he | ⟨he, hfree, hb | hb⟩
  · exact .inl he
  · exact .inr ⟨_, he, fun _ => ⟨rfl, fun v hv hout => ⟨hans v hv hout, hfree, hb⟩⟩⟩
  · cases hb

theorem Sent.airs_other {m' : Outgoing} (h : Sent w m' route d₁ d') (he : d₁.sent = d.sent)
    (hr : route ≠ .prover) : Airs w m d d' := by
  rcases h.on_air with h | ⟨h, -⟩
  · exact .inl (h.trans he)
  · exact .inr ⟨_, he ▸ h, fun hp => absurd hp hr⟩

/-- **What a dispatched message puts on the air**: only an answer is sent to one prover
without a look at the distance. -/
theorem dispatch_airs (hw : w.build = .wireless) : Airs w m d (d.dispatch w m) := by
  have hreport : ∀ r, m.pkt.target = some r.destination → Airs w m d (d.dispatchReport w m r) := by
    intro r ht
    unfold dispatchReport
    rw [hw]
    dsimp only
    split
    · split
      · next hin =>
        refine sendProver_cases.airs_prover fun v hv hout => ?_
        obtain rfl := Option.some.inj (ht.symm.trans hv)
        cases hin.symm.trans hout
      · exact sendCollector_cases.airs_other rfl (by decide)
    · exact sendCollector_cases.airs_other rfl (by decide)
    · exact sendCollector_cases.airs_other rfl (by decide)
  unfold dispatch
  split
  · exact sendProverBroadcast_cases.airs_other rfl (by decide)
  · exact sendProverBroadcast_cases.airs_other rfl (by decide)
  · next r hm => exact hreport r (by rw [hm]; rfl)
  · next r hm => exact hreport r (by rw [hm]; rfl)
  · next r hm => exact sendProver_cases.airs_prover fun v hv _ => by rw [hm] at hv ⊢; exact hv
  · next r hm => exact sendProver_cases.airs_prover fun v hv _ => by rw [hm] at hv ⊢; exact hv

/-- An answer is sent where the channel is free. -/
theorem dispatch_answer {v : Uid} (hans : m.pkt.answerTo = some v) (hd : d.Free)
    (hb : w.channelBusy = false) : (d.dispatch w m).sent = d.sent ++ [(m, .prover)] := by
  have he : d.dispatch w m = d.sendProver w m := by
    unfold dispatch
    split <;> simp_all [Packet.answerTo]
  rw [he]
  exact sendProver_free hd hb

/-- A report whose parent is out of range is redirected, and not dropped. -/
theorem redirected_placed {r : UpdateReq} (hw : w.build = .wireless)
    (hr : m.pkt.report = some r) (hk : r.kind = .UPRQ) (hout : w.withinRange r.destination = false) :
    ∃ back, (d.dispatch w m).msgqueue = d.msgqueue ++ back ∧
      (⟨m.serial, .collector r.redirected⟩ ∈ back ∨
        (d.dispatch w m).pupmsg = some ⟨m.serial, .collector r.redirected⟩ ∨
        (⟨m.serial, .collector r.redirected⟩, Route.collector) ∈ (d.dispatch w m).sent) := by
  have he : d.dispatch w m = d.sendCollector w { m with pkt := .collector r.redirected } := by
    have hd : d.dispatchReport w m r =
        d.sendCollector w { m with pkt := .collector r.redirected } := by
      unfold dispatchReport
      simp [hk, hw, hout]
    unfold dispatch
    split <;> simp_all [Packet.report]
  rw [he]
  have hs := sendCollector_cases (w := w) (d := d) (m := { m with pkt := .collector r.redirected })
  generalize d.sendCollector w { m with pkt := .collector r.redirected } = d' at hs
  cases hs with
  | queued => exact ⟨_, rfl, .inl (List.mem_singleton_self _)⟩
  | postponed =>
    exact ⟨_, (scheduleAt_fields .cbusymsg _).1, .inl (List.mem_singleton_self _)⟩
  | parked =>
    refine ⟨[], ?_, .inr (.inl ?_)⟩
    · unfold postponeUp
      dsimp only
      split
      · exact (List.append_nil _).symm
      · exact (scheduleAt_fields .collbusymsg _).1.trans (List.append_nil _).symm
    · unfold postponeUp
      dsimp only
      split
      · rfl
      · exact (scheduleAt_fields .collbusymsg _).2.1
  | unheard _ hr => cases hr
  | transmitted =>
    obtain ⟨h1, -, h3, -⟩ := transmit_fields (w := w) { m with pkt := .collector r.redirected }
      .collector { d with pupmsg := none }
    refine ⟨[], h1.trans (List.append_nil _).symm, .inr (.inr ?_)⟩
    rw [h3]
    exact List.mem_append_right _ (List.mem_singleton_self _)

theorem atDispatch_crashed (hc : d.crashed = true) : d.atDispatch e = none := if_pos hc

theorem atDispatch_energyDone {depleted : Bool} : d.atDispatch (.energyDone depleted) = none := by
  unfold atDispatch
  split <;> rfl

/-- An event dispatches at most one message, and puts nothing else on the air. -/
theorem step_dispatch (hw : w.build = .wireless) (hs : d.step w e = some d') :
    (d.atDispatch e = none ∧ d'.sent = d.sent) ∨
      ∃ d₁ m, d.atDispatch e = some (d₁, m) ∧ d₁.sent = d.sent ∧
        d'.sent = (d₁.dispatch w m).sent ∧ d'.pupmsg = (d₁.dispatch w m).pupmsg ∧
        ∀ back, (d₁.dispatch w m).msgqueue = d₁.msgqueue ++ back → ∀ x ∈ back, x ∈ d'.msgqueue := by
  have hdrain : ∀ d₁ : Device, d₁.crashed = false → d₁.sent = d.sent →
      (d₁.msgqueue.head? = none ∧ (d₁.drain w).sent = d.sent) ∨
        ∃ m, d₁.msgqueue.head? = some m ∧ (d₁.drain w).sent = (d₁.dispatch w m).sent ∧
          (d₁.drain w).pupmsg = (d₁.dispatch w m).pupmsg ∧
          ∀ back, (d₁.dispatch w m).msgqueue = d₁.msgqueue ++ back →
            ∀ x ∈ back, x ∈ (d₁.drain w).msgqueue := by
    intro d₁ _ hsent
    rcases drain_cases w d₁ with ⟨hnil, he⟩ | ⟨m, rest, hq, he⟩
    · rw [he, hnil]
      exact .inl ⟨rfl, hsent⟩
    · rw [he]
      refine .inr ⟨m, by rw [hq]; rfl, rfl, rfl, fun back hback x hx => ?_⟩
      rw [hback, hq]
      exact List.mem_append_right _ hx
  obtain ⟨-, ht⟩ := step_cases hs
  cases ht with
  | dropped hc => exact .inl ⟨atDispatch_crashed hc, rfl⟩
  | popped hc => exact .inl ⟨atDispatch_crashed hc, rfl⟩
  | @handOver pkt hc =>
    refine .inr ⟨{ d with handed := d.handed + 1 }, ⟨d.handed, pkt⟩, ?_, rfl, rfl, rfl, ?_⟩
    · rw [atDispatch, if_neg (by rw [hc]; decide)]
    · intro back hback x hx
      show x ∈ ({ d with handed := d.handed + 1 }.dispatch w ⟨d.handed, pkt⟩).msgqueue
      rw [hback]
      exact List.mem_append_right _ hx
  | @selfMsg t depleted hc =>
    unfold atDispatch
    rw [if_neg (by rw [hc]; decide)]
    cases t with
    | txmsg =>
      rcases hdrain { d.pop .txmsg with txrxstat := .DIDLE } hc rfl with
        ⟨hnil, he⟩ | ⟨m, hm, h1, h2, h3⟩
      · exact .inl ⟨by rw [show d.msgqueue.head? = none from hnil]; rfl, he⟩
      · exact .inr ⟨{ d.pop .txmsg with txrxstat := .DIDLE }, m,
          by rw [show d.msgqueue.head? = some m from hm]; rfl, rfl, h1, h2, h3⟩
    | cbusymsg =>
      rcases hdrain { d.pop .cbusymsg with chanstat := .CIDLE } hc rfl with
        ⟨hnil, he⟩ | ⟨m, hm, h1, h2, h3⟩
      · exact .inl ⟨by rw [show d.msgqueue.head? = none from hnil]; rfl, he⟩
      · exact .inr ⟨{ d.pop .cbusymsg with chanstat := .CIDLE }, m,
          by rw [show d.msgqueue.head? = some m from hm]; rfl, rfl, h1, h2, h3⟩
    | entxmsg => exact .inl ⟨rfl, rfl⟩
    | collbusymsg =>
      cases hp : d.pupmsg with
      | none =>
        refine .inl ⟨rfl, ?_⟩
        unfold onSelfMsg handlePostponeUpMsg
        simp [pop, hp]
      | some m =>
        have he : (d.pop .collbusymsg).onSelfMsg w .collbusymsg depleted =
            (d.pop .collbusymsg).dispatch w m := by
          unfold onSelfMsg handlePostponeUpMsg
          simp [pop, hp, hw]
        refine .inr ⟨d.pop .collbusymsg, m, rfl, rfl, by rw [he], by rw [he], ?_⟩
        intro back hback x hx
        rw [he, hback]
        exact List.mem_append_right _ hx
  | energyDone => exact .inl ⟨atDispatch_energyDone, rfl⟩

end

end Device

/-! ## Hops -/

/-- A message has gone from prover to prover over a distance. -/
structure Hop where
  sender : Uid
  receiver : Uid
  sqrdist : Rat
deriving DecidableEq, Repr

/-- A field and its hops so far, which no function of the source reads. -/
structure Radio where
  field : Field
  hops : List Hop := []

namespace Radio

open Fadia.Field (FieldEvent)

variable (site : Site) (range : Rat)

/-- The provers that a transmission of prover `u` is sent to. -/
def receivers (f : Field) (u : Uid) (x : Outgoing × Route) : List Uid :=
  match x.2 with
  | .prover => x.1.pkt.target.toList
  | .broadcast => f.inRange site range u
  | .collector => []

/-- The hops of an event that leads from `f` to `f'`. -/
def hopsOf (e : FieldEvent) (f f' : Field) : List Hop :=
  match e with
  | .device u _ =>
    ((f'.device u).sent.drop (f.device u).sent.length).flatMap fun x =>
      (receivers site range f u x).map fun v => ⟨u, v, (f.pos u).sqrdist (f.pos v)⟩
  | _ => []

def step (e : FieldEvent) (s : Radio) : Option Radio :=
  (Field.step site e s.field).map fun f' => ⟨f', s.hops ++ hopsOf site range e s.field f'⟩

def init (pos : Uid → Coord) : Radio := ⟨Field.init pos, []⟩

/-- Every hop was within range. -/
def WithinRange (s : Radio) : Prop := ∀ x ∈ s.hops, x.sqrdist ≤ range * range

/-- A `CommitResp` or `CommitAck` that an event sends on a free channel goes to a prover in
range. -/
def AnswersInRange (e : FieldEvent) (f : Field) : Prop :=
  ∀ u e' d m v, e = .device u e' → (f.device u).atDispatch e' = some (d, m) →
    m.pkt.answerTo = some v → d.Free → (f.surroundings site u).channelBusy = false →
      (f.pos u).sqrdist (f.pos v) ≤ range * range

variable {site range} {f f' : Field} {e : FieldEvent} {s s' : Radio}

theorem target_of_answerTo {pkt : Packet} {v : Uid} (h : pkt.answerTo = some v) :
    pkt.target = some v := by
  unfold Packet.answerTo at h
  split at h
  · exact h
  · exact h
  · cases h

/-- **Step lemma**: the hops of an event are within range exactly if its answers are. -/
theorem hopsOf_within (hm : site.medium = .wireless range) (hs : Field.step site e f = some f') :
    (∀ x ∈ hopsOf site range e f f', x.sqrdist ≤ range * range) ↔
      AnswersInRange site range e f := by
  have hw : ∀ u, (f.surroundings site u).build = .wireless := fun u => by
    simp [Field.surroundings, Site.build, hm]
  have hwithin : ∀ u v, (f.surroundings site u).withinRange v = false ↔
      ¬ (f.pos u).sqrdist (f.pos v) ≤ range * range := fun u v => by
    simp [Field.surroundings, hm]
  obtain ⟨-, ht⟩ := Field.step_cases hs
  cases ht with
  | @device u e' d' hu hd =>
    have hnew : (f.setDevice site u d').device u = d' := by
      rw [Field.device_setDevice, if_pos rfl]
    unfold hopsOf
    dsimp only
    rw [hnew]
    rcases Device.step_dispatch (hw u) hd with ⟨hno, he⟩ | ⟨d, m, hat, hsent, he, -⟩
    · rw [he, List.drop_length]
      refine ⟨fun _ u' e'' d₁ m v heq hat => ?_, fun _ x hx => by cases hx⟩
      cases heq
      cases hno.symm.trans hat
    · rcases Device.dispatch_airs (m := m) (d := d) (hw u) with hair | ⟨x, hair, hout⟩
      · -- nothing goes on the air, so the event sends no answer
        rw [he, hair, hsent, List.drop_length]
        refine ⟨fun _ u' e'' d₁ m₁ v heq hat₁ hans hfree hb => ?_, fun _ x hx => by cases hx⟩
        cases heq
        cases hat.symm.trans hat₁
        rw [Device.dispatch_answer hans hfree hb] at hair
        simp at hair
      · have hdrop : ((d.dispatch (f.surroundings site u) m).sent.drop
            (f.device u).sent.length) = [x] := by
          rw [hair, hsent, List.drop_left]
        rw [he, hdrop, List.flatMap_singleton]
        constructor
        · intro hall u' e'' d₁ m₁ v heq hat₁ hans hfree hb
          cases heq
          cases hat.symm.trans hat₁
          rw [Device.dispatch_answer hans hfree hb] at hair
          obtain rfl : (m, Route.prover) = x := by simpa using hair
          refine hall ⟨u, v, (f.pos u).sqrdist (f.pos v)⟩ (List.mem_map_of_mem ?_)
          simp [receivers, target_of_answerTo hans]
        · intro hans y hy
          obtain ⟨v, hv, rfl⟩ := List.mem_map.mp hy
          unfold receivers at hv
          split at hv
          · next hr =>
            obtain ⟨htarget, hlimit⟩ := hout hr
            rw [htarget] at hv
            by_contra hfar
            obtain ⟨ha, hfree, hb⟩ := hlimit v (by simpa using hv) ((hwithin u v).mpr hfar)
            exact hfar (hans u e' d m v rfl hat ha hfree hb)
          · exact (of_decide_eq_true (List.mem_filter.mp hv).2).2
          · cases hv
  | arrive =>
    exact ⟨fun _ _ _ _ _ _ he => (by cases he), fun _ x hx => by cases hx⟩
  | procDone =>
    exact ⟨fun _ _ _ _ _ _ he => (by cases he), fun _ x hx => by cases hx⟩
  | move =>
    exact ⟨fun _ _ _ _ _ _ he => (by cases he), fun _ x hx => by cases hx⟩

theorem step_field (hs : step site range e s = some s') :
    Field.step site e s.field = some s'.field ∧
      s'.hops = s.hops ++ hopsOf site range e s.field s'.field := by
  obtain ⟨f', hf, rfl⟩ := Option.map_eq_some_iff.mp hs
  exact ⟨hf, rfl⟩

theorem within_step (hm : site.medium = .wireless range) (h : WithinRange range s)
    (hs : step site range e s = some s') :
    WithinRange range s' ↔ AnswersInRange site range e s.field := by
  obtain ⟨hf, hhops⟩ := step_field hs
  rw [← hopsOf_within hm hf]
  unfold WithinRange
  rw [hhops]
  constructor
  · intro hall x hx
    exact hall x (List.mem_append_right _ hx)
  · intro hall x hx
    rcases List.mem_append.mp hx with hx | hx
    · exact h x hx
    · exact hall x hx

/-- An `UpdateReq` whose parent is out of range when it is dispatched is redirected to the
collector, and its device sends, queues or parks it as such. -/
theorem redirected_step {u : Uid} {e' : DeviceEvent} {d : Device} {m : Outgoing}
    {r : UpdateReq} (hm : site.medium = .wireless range)
    (hs : step site range (.device u e') s = some s')
    (hat : (s.field.device u).atDispatch e' = some (d, m)) (hr : m.pkt.report = some r)
    (hk : r.kind = .UPRQ)
    (hfar : range * range < (s.field.pos u).sqrdist (s.field.pos r.destination)) :
    (s'.field.device u).Holds ⟨m.serial, .collector r.redirected⟩ := by
  have hw : (s.field.surroundings site u).build = .wireless := by
    simp [Field.surroundings, Site.build, hm]
  have hout : (s.field.surroundings site u).withinRange r.destination = false := by
    simp [Field.surroundings, hm, hfar]
  obtain ⟨hf, -⟩ := step_field hs
  obtain ⟨-, ht⟩ := Field.step_cases hf
  generalize hf' : s'.field = f' at ht
  cases ht with
  | @device _ _ d' hu hd =>
    rw [Field.device_setDevice, if_pos rfl]
    rcases Device.step_dispatch hw hd with ⟨hno, -⟩ | ⟨d₁, m₁, hat₁, -, hsent, hpup, hqueue⟩
    · cases hno.symm.trans hat
    · cases hat.symm.trans hat₁
      obtain ⟨back, hback, hplace⟩ := Device.redirected_placed (d := d) hw hr hk hout
      rcases hplace with hx | hx | hx
      · exact .inl (hqueue back hback _ hx)
      · exact .inr (.inl (hpup.trans hx))
      · exact .inr (.inr (hsent ▸ hx))

/-- **Messages between provers stay within range** in every run whose answers all go to
provers in range, and the first one that does not ends it; an `UpdateReq` whose parent is out
of range when it is dispatched is redirected to the collector, in any state. -/
theorem hops_within_range {pos : Uid → Coord} (hm : site.medium = .wireless range) :
    (∀ s, Runs.Reaches (step site range) (fun e s => AnswersInRange site range e s.field)
        (init pos) s →
      WithinRange range s ∧ ∀ e s', step site range e s = some s' →
        (WithinRange range s' ↔ AnswersInRange site range e s.field)) ∧
    ∀ (s s' : Radio) u e' d m r, step site range (.device u e') s = some s' →
      (s.field.device u).atDispatch e' = some (d, m) → m.pkt.report = some r → r.kind = .UPRQ →
        range * range < (s.field.pos u).sqrdist (s.field.pos r.destination) →
          (s'.field.device u).Holds ⟨m.serial, .collector r.redirected⟩ := by
  refine ⟨fun s h => ?_, fun s s' u e' d m r => redirected_step hm⟩
  have hinv : WithinRange range s := by
    refine h.invariant (I := WithinRange range) (fun x hx => by cases hx) ?_
    exact fun e s s' ih hok hs => (within_step hm ih hs).mpr hok
  exact ⟨hinv, fun e s' hs => within_step hm hinv hs⟩

/-- Prover 2 has moved away when prover 1 sends it a `CommitAck`. -/
def lateAck (c : Coord) : List FieldEvent :=
  [.move 2 c, .device 1 (.handOver (.prover (.commitAck ⟨1, 2, 7, 0, 5⟩)))]

/-- In `lateAck` the ack is sent over twice the range. -/
theorem lateAck_out_of_range : ¬ ∀ (site : Site) (range : Rat) (pos : Uid → Coord) (s : Radio),
    site.medium = .wireless range →
    Runs.Reaches (step site range) (fun _ _ => True) (init pos) s → WithinRange range s := by
  intro h
  obtain ⟨s, hr, ht⟩ := Runs.exists_of_run (step Field.pair 100) (fun _ _ => True)
    (lateAck ⟨200, 0, 0⟩) (init fun _ => ⟨0, 0, 0⟩) (fun s => s.hops = [⟨1, 2, 200 * 200⟩])
    (by decide +kernel)
  have hhop := h Field.pair 100 _ s rfl hr ⟨1, 2, 200 * 200⟩ (by rw [of_decide_eq_true ht]; simp)
  norm_num at hhop

/-- From the border of the range the ack is fine. -/
theorem hops_within_range_border :
    ∃ s : Radio, s.hops = [⟨1, 2, 100 * 100⟩] ∧ WithinRange 100 s := by
  obtain ⟨s, hr, ht⟩ := Runs.exists_of_run (step Field.pair 100)
    (fun e s => e ∈ lateAck ⟨100, 0, 0⟩ ∧ (s.field.pos 1).sqrdist (s.field.pos 2) ≤ 100 * 100)
    (lateAck ⟨100, 0, 0⟩) (init fun _ => ⟨0, 0, 0⟩) (fun s => s.hops = [⟨1, 2, 100 * 100⟩])
    (by decide +kernel)
  refine ⟨s, of_decide_eq_true ht, ((hops_within_range rfl).1 s (hr.weaken ?_)).1⟩
  rintro e s ⟨hmem, hnear⟩ u e' d m v rfl hat hans - -
  simp only [lateAck, List.mem_cons, reduceCtorEq, FieldEvent.device.injEq, List.not_mem_nil,
    or_false, false_or] at hmem
  obtain ⟨rfl, rfl⟩ := hmem
  unfold Device.atDispatch at hat
  split at hat
  · cases hat
  · cases hat
    obtain rfl : 2 = v := Option.some.inj hans
    exact hnear

end Radio

end Fadia
