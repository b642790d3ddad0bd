import Fadia.Proof.Charge
import Fadia.Proof.Mail
import Fadia.Proof.RadioRange

/-!
# What a device transmits was handed over to it

`Pipeline pkts d` says of a device to which the packets `pkts` were handed over, in this
order, that whatever it transmitted, queued or parked is one of them, or the redirected report
of one (`Copies`), that each went where its kind goes (`Route.Fits`), and that none is there
twice.  Every event keeps this, whether or not a parked report is overwritten
(`pipeline_step`), and transmits at most one packet (`step_sent`).

`overwritten` is the parked report that an event replaces by another one.  Nothing else is ever
lost in a device (`serials_step`).
-/

namespace Fadia

/-- The route of a kind of packet. -/
def Route.Fits : Route → Packet → Prop
  | .broadcast, .creqmsg => True
  | .prover, .prover _ => True
  | .collector, .collector _ => True
  | _, _ => False

/-- The message is a packet that was handed over, or the redirected report of one. -/
inductive Copies (pkts : List Packet) (m : Outgoing) : Prop
  | same (h : pkts[m.serial]? = some m.pkt)
  | redirected {r : UpdateReq} (h : pkts[m.serial]? = some (.prover (.updateReq r)))
      (hk : r.kind = .UPRQ) (hm : m.pkt = .collector r.redirected)

namespace Device

instance (w : Surroundings) (pkt : Packet) : Decidable (ToCollector w pkt) :=
  inferInstanceAs (Decidable (∃ r ∈ pkt.report, _ → _))

/-- What sending a packet clears from `pupmsg`. -/
def cleared (w : Surroundings) (pkt : Packet) (d : Device) : Option Outgoing :=
  if ToCollector w pkt then d.pupmsg else none

/-- The parked report that is lost with an event, as another one goes to the collector; the
parked report itself is sent with `collbusymsg`. -/
def overwritten (w : Surroundings) (e : DeviceEvent) (d : Device) : Option Outgoing :=
  match e with
  | .selfMsg .collbusymsg _ => none
  | .handOver _ | .selfMsg .txmsg _ | .selfMsg .entxmsg _ | .selfMsg .cbusymsg _ | .energyDone _ =>
    (d.atDispatch e).bind fun x => x.1.cleared w x.2.pkt

/-- What is in the pipeline of a device to which `pkts` were handed over. -/
structure Pipeline (pkts : List Packet) (d : Device) : Prop where
  handed : d.handed = pkts.length
  nodup : d.serials.Nodup
  parks : d.ParksReports
  queue : ∀ m ∈ d.msgqueue, Copies pkts m
  parked : ∀ m ∈ d.pupmsg, Copies pkts m
  sent : ∀ x ∈ d.sent, Copies pkts x.1 ∧ x.2.Fits x.1.pkt

section
variable {w : Surroundings} {m : Outgoing} {d d' : Device} {route : Route} {pkts : List Packet}
  {e : DeviceEvent}

theorem Copies.lt (h : Copies pkts m) : m.serial < pkts.length := by
  cases h with
  | same h => exact (List.getElem?_eq_some_iff.mp h).1
  | redirected h => exact (List.getElem?_eq_some_iff.mp h).1

theorem Copies.proper (h : Copies pkts m) (hp : ∀ pkt ∈ pkts, pkt.Proper) : m.pkt.Proper := by
  cases h with
  | same h => exact hp _ (List.mem_of_getElem? h)
  | @redirected r _ _ hm =>
    rw [hm]
    simp [Packet.Proper, UpdateReq.redirected]

theorem Copies.append (h : Copies pkts m) (more : List Packet) : Copies (pkts ++ more) m := by
  have hlt := Copies.lt h
  cases h with
  | same h => exact .same (by rw [List.getElem?_append_left hlt, h])
  | redirected h hk hm => exact .redirected (by rw [List.getElem?_append_left hlt, h]) hk hm

/-- The fields that the three places of a message are. -/
structure Places (pkts : List Packet) (d : Device) : Prop where
  queue : ∀ m ∈ d.msgqueue, Copies pkts m
  parked : ∀ m ∈ d.pupmsg, Copies pkts m
  sent : ∀ x ∈ d.sent, Copies pkts x.1 ∧ x.2.Fits x.1.pkt

theorem Sent.places (h : Sent w m route d d') (hm : Copies pkts m) (hr : route.Fits m.pkt)
    (hd : Places pkts d) : Places pkts d' := by
  have hqueue : ∀ {q : List Outgoing}, q = d.msgqueue ++ [m] → ∀ x ∈ q, Copies pkts x := by
    rintro q rfl x hx
    rcases List.mem_append.mp hx with hx | hx
    · exact hd.queue x hx
    · rw [List.mem_singleton.mp hx]
      exact hm
  have hsent : ∀ {l : List (Outgoing × Route)}, l = d.sent ++ [(m, route)] →
      ∀ x ∈ l, Copies pkts x.1 ∧ x.2.Fits x.1.pkt := by
    rintro l rfl x hx
    rcases List.mem_append.mp hx with hx | hx
    · exact hd.sent x hx
    · rw [List.mem_singleton.mp hx]
      exact ⟨hm, hr⟩
  cases h with
  | queued => exact ⟨hqueue rfl, hd.parked, hd.sent⟩
  | postponed =>
    obtain ⟨h1, h2, h3, -⟩ := scheduleAt_fields .cbusymsg ({ d with chanstat := .BUSY }.push m)
    refine ⟨hqueue h1, ?_, ?_⟩
    · rw [h2]
      exact hd.parked
    · rw [h3]
      exact hd.sent
  | parked =>
    have hfields : (d.postponeUp m).msgqueue = d.msgqueue ∧ (d.postponeUp m).pupmsg = some m ∧
        (d.postponeUp m).sent = d.sent := by
      unfold postponeUp
      dsimp only
      split <;> simp
    obtain ⟨h1, h2, h3⟩ := hfields
    refine ⟨?_, ?_, ?_⟩
    · rw [h1]
      exact hd.queue
    · rw [h2]
      rintro x hx
      rw [← Option.some.inj hx]
      exact hm
    · rw [h3]
      exact hd.sent
  | unheard => exact ⟨hd.queue, hd.parked, hsent rfl⟩
  | transmitted =>
    obtain ⟨h1, h2, h3, -⟩ := transmit_fields (w := w) m route d
    refine ⟨?_, ?_, hsent h3⟩
    · rw [h1]
      exact hd.queue
    · rw [h2]
      exact hd.parked

/-- A dispatched packet goes the way of its kind, redirected or not. -/
theorem dispatch_copies (hw : w.build = .wireless) (hm : Copies pkts m) (hp : m.pkt.Proper) :
    ∃ m' route, Copies pkts m' ∧ route.Fits m'.pkt ∧ (Sent w m' route d (d.dispatch w m) ∨
      Sent w m' route { d with pupmsg := none } (d.dispatch w m)) := by
  unfold dispatch
  cases hpkt : m.pkt with
  | creqmsg =>
    exact ⟨m, .broadcast, hm, by rw [hpkt]; trivial, .inl sendProverBroadcast_cases⟩
  | collector r =>
    have hk : r.kind ≠ .UPRQ := by rwa [hpkt] at hp
    refine ⟨m, .collector, hm, by rw [hpkt]; trivial, .inr ?_⟩
    dsimp only
    unfold dispatchReport
    split
    · next hkind => exact absurd hkind hk
    · exact sendCollector_cases
    · exact sendCollector_cases
  | prover msg =>
    cases msg with
    | commitReq r => rw [hpkt] at hp; exact hp.elim
    | commitResp r => exact ⟨m, .prover, hm, by rw [hpkt]; trivial, .inl sendProver_cases⟩
    | commitAck r => exact ⟨m, .prover, hm, by rw [hpkt]; trivial, .inl sendProver_cases⟩
    | updateReq r =>
      have hk : r.kind = .UPRQ := by rwa [hpkt] at hp
      dsimp only
      unfold dispatchReport
      rw [hk, hw]
      dsimp only
      split
      · exact ⟨m, .prover, hm, by rw [hpkt]; trivial, .inl sendProver_cases⟩
      · refine ⟨{ m with pkt := .collector r.redirected }, .collector, ?_, trivial,
          .inr sendCollector_cases⟩
        cases hm with
        | same h => exact .redirected (by rw [h, hpkt]) hk rfl
        | redirected _ _ hm => cases hm.symm.trans hpkt

theorem places_dispatch (hw : w.build = .wireless) (hm : Copies pkts m) (hp : m.pkt.Proper)
    (hd : Places pkts d) : Places pkts (d.dispatch w m) := by
  obtain ⟨m', route, hm', hr, hs | hs⟩ := dispatch_copies (d := d) hw hm hp
  · exact hs.places hm' hr hd
  · exact hs.places hm' hr ⟨hd.queue, nofun, hd.sent⟩

theorem places_drain (hw : w.build = .wireless) (hp : ∀ pkt ∈ pkts, pkt.Proper)
    (hd : Places pkts d) : Places pkts (d.drain w) := by
  rcases drain_cases w d with ⟨-, he⟩ | ⟨m, rest, hq, he⟩
  · rwa [he]
  · have hm : Copies pkts m := hd.queue m (by rw [hq]; exact List.mem_cons_self)
    have hdisp := places_dispatch hw hm (Copies.proper hm hp) hd
    rw [he]
    exact ⟨fun x hx => hdisp.queue x (List.mem_of_mem_tail hx), hdisp.parked, hdisp.sent⟩

theorem places_onSelfMsg {t : SelfMsg} (depleted : Bool) (hw : w.build = .wireless)
    (hp : ∀ pkt ∈ pkts, pkt.Proper) (hd : Places pkts d) :
    Places pkts (d.onSelfMsg w t depleted) := by
  cases t with
  | txmsg => exact places_drain (d := { d with txrxstat := .DIDLE }) hw hp ⟨hd.queue, hd.parked, hd.sent⟩
  | entxmsg => exact ⟨hd.queue, hd.parked, hd.sent⟩
  | cbusymsg => exact places_drain (d := { d with chanstat := .CIDLE }) hw hp ⟨hd.queue, hd.parked, hd.sent⟩
  | collbusymsg =>
    unfold onSelfMsg handlePostponeUpMsg
    dsimp only
    split
    · next m _ hm => exact places_dispatch hw (hd.parked m hm) (Copies.proper (hd.parked m hm) hp) hd
    · exact hd

/-! ## Serial numbers, without a condition -/

/-- A dispatched message is put into one place; what it clears from `pupmsg` is lost. -/
theorem dispatch_perm : ((d.dispatch w m).serials ++ (d.cleared w m.pkt).toList.map (·.serial)).Perm
      (m.serial :: d.serials) ∧ (d.dispatch w m).handed = d.handed ∧
    ∃ back, (d.dispatch w m).msgqueue = d.msgqueue ++ back := by
  unfold cleared
  split
  · next hc =>
    obtain ⟨hp, hh⟩ := dispatch_parked (w := w) (d := d) hc
    refine ⟨?_, hh, ?_⟩
    · have hback : { d with pupmsg := none }.serials ++ d.pupmsg.toList.map (·.serial) =
          d.serials := by
        simp [serials]
      have hall := hp.append_right (d.pupmsg.toList.map (·.serial))
      rwa [List.cons_append, hback] at hall
    · obtain ⟨m', route, -, ⟨-, hno, -⟩ | ⟨-, -, -, hs⟩⟩ :=
        dispatch_cases (w := w) (m := m) (d := d)
      · exact absurd hc hno
      · rcases (hs.serials fun _ => rfl).2.2 with hq | hq
        · exact ⟨[], by rw [hq, List.append_nil]⟩
        · exact ⟨_, hq⟩
  · next hc =>
    rw [Option.toList_none, List.map_nil, List.append_nil]
    exact dispatch_serials fun h => absurd h hc

theorem drain_perm : ((d.drain w).serials ++
      (d.msgqueue.head?.bind fun m => d.cleared w m.pkt).toList.map (·.serial)).Perm d.serials ∧
    (d.drain w).handed = d.handed := by
  rcases drain_cases w d with ⟨hq, he⟩ | ⟨m, rest, hq, he⟩
  · rw [he, hq]
    simp
  · rw [he, hq]
    obtain ⟨hp, hh, back, hb⟩ := dispatch_perm (w := w) (m := m) (d := d)
    refine ⟨?_, hh⟩
    have hhead : (d.dispatch w m).msgqueue = m :: (rest ++ back) := by rw [hb, hq, List.cons_append]
    have hout : (d.dispatch w m).serials.Perm (m.serial ::
        { d.dispatch w m with msgqueue := (d.dispatch w m).msgqueue.tail }.serials) := by
      simp only [serials, hhead, List.tail_cons, List.map_cons, List.cons_append]
      exact List.perm_middle
    exact ((hout.symm.append_right _).trans hp).cons_inv

/-! ## One event -/

/-- The packets handed over behind an event. -/
def handedOver (e : DeviceEvent) (pkts : List Packet) : List Packet :=
  match e with
  | .handOver pkt => pkts ++ [pkt]
  | _ => pkts

theorem serials_lt (h : Pipeline pkts d) : ∀ n ∈ d.serials, n < pkts.length := by
  intro n hn
  simp only [serials, List.mem_append, List.mem_map, Option.mem_toList] at hn
  rcases hn with ⟨x, hx, rfl⟩ | ⟨m, hm, rfl⟩ | ⟨m, hm, rfl⟩
  · exact Copies.lt (h.sent x hx).1
  · exact Copies.lt (h.queue m hm)
  · exact Copies.lt (h.parked m hm)

theorem atDispatch_pupmsg {d₁ : Device} (h : d.atDispatch e = some (d₁, m)) :
    d₁.pupmsg = d.pupmsg := by
  have hmap : ∀ {o : Option Outgoing} (d₂ : Device), d₂.pupmsg = d.pupmsg →
      o.map (d₂, ·) = some (d₁, m) → d₁.pupmsg = d.pupmsg := by
    intro o d₂ hp ho
    obtain ⟨m', -, he⟩ := Option.map_eq_some_iff.mp ho
    cases he
    exact hp
  unfold atDispatch at h
  split at h
  · cases h
  cases e with
  | handOver pkt =>
    cases h
    rfl
  | energyDone depleted => cases h
  | selfMsg t depleted =>
    cases t with
    | txmsg => exact hmap { d.pop .txmsg with txrxstat := .DIDLE } rfl h
    | entxmsg => cases h
    | cbusymsg => exact hmap { d.pop .cbusymsg with chanstat := .CIDLE } rfl h
    | collbusymsg => exact hmap (d.pop .collbusymsg) rfl h

/-- Only a parked report is overwritten. -/
theorem overwritten_parked (h : m ∈ d.overwritten w e) : m ∈ d.pupmsg := by
  have hcleared : ∀ {o : Option (Device × Outgoing)}, o = d.atDispatch e →
      m ∈ (o.bind fun x => x.1.cleared w x.2.pkt) → m ∈ d.pupmsg := by
    rintro o rfl hm
    obtain ⟨⟨d₁, m₁⟩, hat, hm⟩ := Option.bind_eq_some_iff.mp hm
    unfold cleared at hm
    split at hm
    · exact atDispatch_pupmsg hat ▸ hm
    · cases hm
  unfold overwritten at h
  split at h
  · cases h
  all_goals exact hcleared rfl h

theorem overwritten_crashed (hc : d.crashed = true) : d.overwritten w e = none := by
  unfold overwritten
  split
  · rfl
  all_goals
    rw [atDispatch_crashed hc]
    rfl

/-- **What an event does to the serial numbers**: those of the packets that are handed over are
new, and only that of an overwritten report is lost. -/
theorem serials_step (hp : d.ParksReports) (hs : d.step w e = some d') :
    (d'.serials ++ (d.overwritten w e).toList.map (·.serial)).Perm
      (List.range' d.handed (d'.handed - d.handed) ++ d.serials) := by
  have hsame : ∀ {d₁ : Device} {x : Option Outgoing}, d₁.handed = d.handed → x = none →
      d₁.serials.Perm d.serials → (d₁.serials ++ x.toList.map (·.serial)).Perm
        (List.range' d.handed (d₁.handed - d.handed) ++ d.serials) := by
    intro d₁ x hh hx hperm
    rw [hh, Nat.sub_self, hx]
    simpa using hperm
  have hdrain : ∀ d₁ : Device, d₁.handed = d.handed → d₁.serials = d.serials →
      ((d₁.drain w).serials ++
        ((d₁.msgqueue.head?.map (d₁, ·)).bind fun x => x.1.cleared w x.2.pkt).toList.map
          (·.serial)).Perm
        (List.range' d.handed ((d₁.drain w).handed - d.handed) ++ d.serials) := by
    intro d₁ hh hserials
    obtain ⟨hperm, hhanded⟩ := drain_perm (w := w) (d := d₁)
    rw [hhanded, hh, Nat.sub_self, List.range'_zero, List.nil_append, ← hserials,
      Option.bind_map]
    exact hperm
  obtain ⟨-, ht⟩ := step_cases hs
  cases ht with
  | dropped hc => exact hsame rfl (overwritten_crashed hc) (.refl _)
  | popped hc => exact hsame rfl (overwritten_crashed hc) (.refl _)
  | energyDone hc =>
    refine hsame rfl ?_ (.refl _)
    rw [overwritten, atDispatch_energyDone]
    rfl
  | @handOver pkt hc =>
    obtain ⟨hperm, hhanded, -⟩ := dispatch_perm (w := w) (m := ⟨d.handed, pkt⟩)
      (d := { d with handed := d.handed + 1 })
    have hnew : List.range' d.handed ((d.handOver w pkt).handed - d.handed) = [d.handed] := by
      rw [show (d.handOver w pkt).handed = d.handed + 1 from hhanded, Nat.add_sub_cancel_left]
      rfl
    rw [hnew, overwritten, atDispatch, if_neg (by rw [hc]; decide)]
    exact hperm
  | @selfMsg t depleted hc =>
    cases t with
    | txmsg =>
      rw [overwritten, atDispatch, if_neg (by rw [hc]; decide)]
      exact hdrain { d.pop .txmsg with txrxstat := .DIDLE } rfl rfl
    | entxmsg =>
      refine hsame rfl ?_ (.refl _)
      rw [overwritten, atDispatch, if_neg (by rw [hc]; decide)]
      rfl
    | cbusymsg =>
      rw [overwritten, atDispatch, if_neg (by rw [hc]; decide)]
      exact hdrain { d.pop .cbusymsg with chanstat := .CIDLE } rfl rfl
    | collbusymsg =>
      have hfree : SlotFree (w, .selfMsg .collbusymsg depleted) (d.pop .collbusymsg) := trivial
      obtain ⟨h1, h2, -⟩ := serials_onSelfMsg (d := d.pop .collbusymsg) hp hfree
      exact hsame h2 rfl h1

/-- The next serials are new. -/
theorem nodup_range'_serials (h : Pipeline pkts d) (n : Nat) :
    (List.range' d.handed n ++ d.serials).Nodup := by
  refine List.nodup_append.mpr ⟨List.nodup_range', h.nodup, fun a ha b hb hab => ?_⟩
  have hge := (List.mem_range'_1.mp ha).1
  have hlt := serials_lt h b hb
  rw [h.handed] at hge
  omega

/-- **Every event keeps the pipeline.** -/
theorem pipeline_step (hw : w.build = .wireless) (h : Pipeline pkts d)
    (hp : ∀ pkt ∈ handedOver e pkts, pkt.Proper)
    (hc : ∀ pkt, e = .handOver pkt → d.crashed = false) (hs : d.step w e = some d') :
    Pipeline (handedOver e pkts) d' := by
  have hplaces : Places pkts d := ⟨h.queue, h.parked, h.sent⟩
  have hparks := parksReports_step h.parks hs
  have hnodup : d'.serials.Nodup := by
    have hfresh := (serials_step h.parks hs).nodup_iff.mpr (nodup_range'_serials h _)
    exact hfresh.sublist (List.sublist_append_left _ _)
  obtain ⟨-, ht⟩ := step_cases hs
  cases ht with
  | @dropped e hcr hno =>
    cases e with
    | handOver pkt => cases hcr.symm.trans (hc pkt rfl)
    | selfMsg t depleted => exact absurd rfl (hno t depleted)
    | energyDone depleted => exact h
  | popped => exact ⟨h.handed, hnodup, hparks, h.queue, h.parked, h.sent⟩
  | @handOver pkt =>
    have hnew : Copies (pkts ++ [pkt]) ⟨d.handed, pkt⟩ := by
      refine .same ?_
      rw [h.handed, List.getElem?_append_right (Nat.le_refl _), Nat.sub_self]
      rfl
    have hmore : Places (pkts ++ [pkt]) { d with handed := d.handed + 1 } :=
      ⟨fun m hm => Copies.append (h.queue m hm) _, fun m hm => Copies.append (h.parked m hm) _,
        fun x hx => ⟨Copies.append (h.sent x hx).1 _, (h.sent x hx).2⟩⟩
    have hall := places_dispatch hw hnew (Copies.proper hnew hp) hmore
    refine ⟨?_, hnodup, hparks, hall.queue, hall.parked, hall.sent⟩
    refine (dispatch_perm (w := w) (m := ⟨d.handed, pkt⟩)
      (d := { d with handed := d.handed + 1 })).2.1.trans ?_
    simp [handedOver, h.handed]
  | @selfMsg t depleted =>
    have hall := places_onSelfMsg (d := d.pop t) (t := t) depleted hw hp
      ⟨h.queue, h.parked, h.sent⟩
    have hhanded : ((d.pop t).onSelfMsg w t depleted).handed = d.handed := by
      cases t with
      | txmsg => exact (drain_perm (d := { d.pop .txmsg with txrxstat := .DIDLE })).2
      | entxmsg => rfl
      | cbusymsg => exact (drain_perm (d := { d.pop .cbusymsg with chanstat := .CIDLE })).2
      | collbusymsg =>
        exact (serials_onSelfMsg (t := .collbusymsg) (d := d.pop .collbusymsg) h.parks trivial).2.1
    exact ⟨hhanded.trans h.handed, hnodup, hparks, hall.queue, hall.parked, hall.sent⟩
  | energyDone => exact ⟨h.handed, hnodup, hparks, h.queue, h.parked, h.sent⟩

theorem crashed_drain : (d.drain w).crashed = d.crashed := by
  rcases drain_cases w d with ⟨-, he⟩ | ⟨m, rest, -, he⟩
  · rw [he]
  · rw [he]
    exact crashed_dispatch

/-- What a dispatched message puts on the air, and that the device lives on. -/
theorem dispatch_sent (hw : w.build = .wireless) (h : d'.sent = (d.dispatch w m).sent)
    (hc : d'.crashed = d.crashed) :
    d'.sent = d.sent ∨ ∃ x, d'.sent = d.sent ++ [x] ∧ d'.crashed = d.crashed := by
  rcases dispatch_airs (w := w) (m := m) (d := d) hw with he | ⟨x, he, -⟩
  · exact .inl (h.trans he)
  · exact .inr ⟨x, h.trans he, hc⟩

theorem drain_sent (hw : w.build = .wireless) :
    (d.drain w).sent = d.sent ∨ ∃ x, (d.drain w).sent = d.sent ++ [x] ∧
      (d.drain w).crashed = d.crashed := by
  rcases drain_cases w d with ⟨-, he⟩ | ⟨m, rest, -, he⟩
  · exact .inl (by rw [he])
  · exact dispatch_sent (m := m) hw (by rw [he]) crashed_drain

/-- An event transmits at most one packet, and only of a device that lives. -/
theorem step_sent (hw : w.build = .wireless) (hs : d.step w e = some d') :
    d'.sent = d.sent ∨ ∃ x, d'.sent = d.sent ++ [x] ∧ d.crashed = false ∧ d'.crashed = false := by
  have hlives : d.crashed = false → (d'.sent = d.sent ∨ ∃ x, d'.sent = d.sent ++ [x] ∧
      d'.crashed = d.crashed) → d'.sent = d.sent ∨ ∃ x, d'.sent = d.sent ++ [x] ∧
        d.crashed = false ∧ d'.crashed = false := fun hc h =>
    h.imp_right fun ⟨x, hx, hcr⟩ => ⟨x, hx, hc, hcr.trans hc⟩
  obtain ⟨-, ht⟩ := step_cases hs
  cases ht with
  | dropped => exact .inl rfl
  | popped => exact .inl rfl
  | @handOver pkt hc =>
    exact hlives hc (dispatch_sent (d := { d with handed := d.handed + 1 }) (m := ⟨d.handed, pkt⟩) hw
      rfl crashed_dispatch)
  | energyDone => exact .inl rfl
  | @selfMsg t depleted hc =>
    refine hlives hc ?_
    cases t with
    | txmsg => exact drain_sent (d := { d.pop .txmsg with txrxstat := .DIDLE }) hw
    | entxmsg => exact .inl rfl
    | cbusymsg => exact drain_sent (d := { d.pop .cbusymsg with chanstat := .CIDLE }) hw
    | collbusymsg =>
      unfold onSelfMsg handlePostponeUpMsg
      dsimp only
      split
      · next m _ hm => exact dispatch_sent (d := d.pop .collbusymsg) (m := m) hw rfl crashed_dispatch
      · exact .inl rfl

theorem pipeline_init : Pipeline [] {} :=
  ⟨rfl, List.nodup_nil, nofun, nofun, nofun, nofun⟩

end

end Device

end Fadia
