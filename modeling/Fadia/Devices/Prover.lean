import Fadia.Devices.Report
import Mathlib

/-!
# The prover

`AProver` of the wireless build: its sessions, its timers and the handlers of
`AProver.cpp`, as functions on the state of one prover.

* The reusable self messages are `Timer`s, the `UPTO` messages are kept in
  `uptos`, and a message that waits for its MAC delay is in `outbox`.  Each
  carries the time it is due and its place in the scheduling order.
* `out` is what was handed over to `sendProver`, `sendProverBroadcast` and
  `sendCollector`; when and whether it goes on the air is `Device`'s business.
* A run-time error or a null pointer ends the simulation: `fault` is set and no
  statement behind it is executed.
* `log` records what happened, newest first; no handler reads it.
-/

namespace Fadia

/-- The time an event is due and its place in the scheduling order. -/
structure Stamp where
  due : Nat
  seq : Nat
deriving DecidableEq, Repr

/-- The event queue hands out `a` before `b`. -/
def Stamp.Before (a b : Stamp) : Prop := a.due < b.due ∨ a.due = b.due ∧ a.seq < b.seq

instance (a b : Stamp) : Decidable (a.Before b) :=
  inferInstanceAs (Decidable (_ ∨ _))

/-- The self messages that are allocated once. -/
inductive Timer
  | startmsg
  | attesttimer
  | checkdelaymsg
  | mktreetimer
  | creqmsg
  | cacktomsg
  | cresptomsg
deriving DecidableEq, Repr

def Timer.all : List Timer :=
  [.startmsg, .attesttimer, .checkdelaymsg, .mktreetimer, .creqmsg, .cacktomsg, .cresptomsg]

@[simp] theorem Timer.mem_all (t : Timer) : t ∈ Timer.all := by
  cases t <;> decide

/-- The data of a `CommitTimeOut`. -/
structure CommitTimeOut where
  device : Uid := NOID
  treeID : TreeId := NOID
deriving DecidableEq, Repr

/-- `session_t`; `tomsg` names the `UPTO` message by its place in the scheduling order. -/
structure Session where
  treeID : TreeId := NOID
  deviceID : Uid := NOID
  keyID : KeyId := NOID
  depth : Nat := 0
  valid : Bool := false
  tomsg : Option Nat := none
deriving DecidableEq, Repr

/-- `session_dev_pair_t`. -/
structure ParentSession where
  first : Uid := NOID
  second : Option Session := none
deriving DecidableEq, Repr

/-- `session_dev_map_t`. -/
abbrev SessionMap := AList fun _ : Uid => Session

/-- What was handed over for sending; a broadcast sends `creqmsg` as it is by then. -/
inductive Packet
  | creqmsg
  | prover (m : Msg)
  | collector (m : UpdateReq)
deriving DecidableEq, Repr

inductive Fault
  | alreadyScheduled
  | nullSession
  | arrayIndex
deriving DecidableEq, Repr

/-- What the log records. -/
inductive Mark
  | start
  | root
  | broadcast
  | depthSub (depth : Nat)
  | ack (child : Uid)
  | respClosed
  | upReq (child : Uid)
  | merge (child : Uid)
  | redirect (child : Uid)
  | upTimeOut (child : Uid)
  | sendUpReq
deriving DecidableEq, Repr

/-- What `initialize` reads; `checkMAC` and `recordMac` are placeholders in the source. -/
structure Config where
  UId : Uid
  KeyRing : List KeyId
  maxdepth : Nat
  deltah : Nat
  aggsize : Nat
  device : DeviceType := .SKY
  checkMAC : Msg → KeyId → Bool := fun m _ => m.mac == 0
  recordMac : Uid → Nat → TreeId → Mac := fun _ _ _ => 0

def MAXCHILDREN : Nat := 20

def ckey : KeyId := 0xCAFED00D

/-- `deltag`, clamped to 0. -/
def Config.deltag (c : Config) : Nat :=
  c.deltah - ((timeoutresp + timeoutack) * c.maxdepth + timeoutup)

/-- `unsigned int` subtraction. -/
def subUnsigned (a b : Nat) : Nat := if b ≤ a then a - b else 2 ^ 32 + a - b

structure Prover where
  cfg : Config
  status : Status := .FINISHED
  psessions : ParentSession := {}
  csessions : SessionMap := ∅
  attestcount : Nat := 0
  aggreport : Report := {}
  maxchildren : Nat := MAXCHILDREN
  macdelays : List Nat := []
  creqDepth : Nat := 0
  creqTreeID : TreeId := NOID
  cackto : CommitTimeOut := {}
  crespTreeID : TreeId := NOID
  timers : Timer → Option Stamp
  uptos : List (Stamp × CommitTimeOut) := []
  outbox : List (Stamp × Msg) := []
  out : List Packet := []
  now : Nat := 0
  seq : Nat := 1
  crashed : Bool := false
  fault : Option Fault := none
  log : List Mark := []

/-- What a handler leaves to chance or to the rest of the device: `maxchildren` and
the tree delay, `uniform(0, MAXTREEID)` and `isWithinRange`. -/
structure Choice where
  maxchildren : Nat := MAXCHILDREN
  delay : Nat := 0
  treeID : TreeId := NOID
  inRange : Bool := true
deriving DecidableEq, Repr

namespace Prover

/-! ## Scheduling -/

def fail (f : Fault) (p : Prover) : Prover := { p with fault := some f }

/-- The statements behind one that may end the simulation. -/
def andThen (p : Prover) (f : Prover → Prover) : Prover :=
  match p.fault with
  | some _ => p
  | none => f p

def record (m : Mark) (p : Prover) : Prover := { p with log := m :: p.log }

/-- `scheduleAt(simTime() + delay, …)` of a reusable message. -/
def scheduleAt (t : Timer) (delay : Nat) (p : Prover) : Prover :=
  if (p.timers t).isSome then p.fail .alreadyScheduled
  else
    { p with
      timers := Function.update p.timers t (some ⟨p.now + delay, p.seq⟩)
      seq := p.seq + 1 }

def cancelEvent (t : Timer) (p : Prover) : Prover :=
  { p with timers := Function.update p.timers t none }

/-- `scheduleAt` of a new message, due after its MAC delay and those queued. -/
def prepare (m : Msg) (p : Prover) : Prover :=
  let macd := macDelay p.cfg.device m.byteLength + p.macdelays.sum
  { p with
    outbox := p.outbox ++ [(⟨p.now + macd, p.seq⟩, m)]
    macdelays := []
    seq := p.seq + 1 }

/-- `checkMAC` also queues the time it takes. -/
def queueMacDelay (m : Msg) (p : Prover) : Prover :=
  { p with macdelays := p.macdelays ++ [macDelay p.cfg.device m.byteLength] }

/-- `sendCollector`, called by a handler. -/
def sendCollector (m : UpdateReq) (p : Prover) : Prover :=
  { p with out := p.out ++ [.collector m], log := .redirect m.source :: p.log }

/-! ## Sending -/

def sendUpReq (tid : TreeId) (p : Prover) : Prover :=
  let counter := p.attestcount + 1
  let report := addOwnReport p.cfg.aggsize p.cfg.recordMac p.cfg.UId counter
    { p.aggreport with tid := tid }
  let p := { p with attestcount := counter, aggreport := report, log := .sendUpReq :: p.log }
  match p.psessions.second with
  | none => p.fail .nullSession
  | some parent =>
    let msg :=
      if p.psessions.first ≠ NOID then
        report.toUpdateReq .UPRQ p.cfg.UId p.psessions.first tid parent.keyID
      else report.toUpdateReq .UPRQC p.cfg.UId baseID tid parent.keyID
    let p := p.prepare (.updateReq msg)
    { p with
      csessions := p.csessions.erase NOID
      psessions := {}
      status := .FINISHED }

/-- The session of a prover that starts a tree of its own. -/
def startTree (treeid : TreeId) (p : Prover) : Prover :=
  { p with
    psessions.second := some ⟨treeid, NOID, ckey, p.cfg.maxdepth, true, none⟩
    log := .root :: p.log }

/-- The part of `sendCommitReq` behind the choice of the tree. -/
def broadcastCommitReq (depth : Nat) (treeid : TreeId) (p : Prover) : Prover :=
  let p := { p with status := .CREATING, creqDepth := depth, creqTreeID := treeid }
  (p.scheduleAt .creqmsg 0).andThen fun p =>
    let p := p.record .broadcast
    let p := { p with
      csessions := p.csessions.insert NOID { treeID := treeid }
      crespTreeID := treeid }
    (p.cancelEvent .cresptomsg).scheduleAt .cresptomsg timeoutresp

def sendCommitReq (c : Choice) (tid : TreeId) (p : Prover) : Prover :=
  if p.status = .ATTESTING then { p with status := .ATTESTING_CREATING }
  else
    if p.maxchildren = 0 then (p.startTree c.treeID).sendUpReq c.treeID
    else if p.psessions.first = NOID then
      (p.startTree c.treeID).broadcastCommitReq p.cfg.maxdepth c.treeID
    else
      match p.psessions.second with
      | none => p.fail .nullSession
      | some parent =>
        (p.record (.depthSub parent.depth)).broadcastCommitReq (subUnsigned parent.depth 1) tid

/-- `psessions.second` is `parent`. -/
def sendCommitResp (target : Uid) (tid : TreeId) (parent : Session) (p : Prover) : Prover :=
  let p := { p with status := .ATTESTING }
  let crespmsg : CommitResp :=
    ⟨p.cfg.UId, target, parent.keyID, tid, generateMAC parent.keyID, parent.keyID⟩
  let p := p.prepare (.commitResp crespmsg)
  let p := { p with cackto := ⟨target, tid⟩ }
  p.scheduleAt .cacktomsg timeoutack

/-- `csessions[target]` is `child`. -/
def sendCommitAck (target : Uid) (tid : TreeId) (child : Session) (p : Prover) : Prover :=
  let cackmsg : CommitAck := ⟨p.cfg.UId, target, tid, generateMAC child.keyID, child.keyID⟩
  let p := p.prepare (.commitAck cackmsg)
  match p.psessions.second with
  | none => p.fail .nullSession
  | some parent =>
    let depth := subUnsigned parent.depth 1
    let delaytime := (timeoutack + timeoutresp) * depth + timeoutup
    { p with
      uptos := p.uptos ++ [(⟨p.now + delaytime, p.seq⟩, ⟨target, tid⟩)]
      csessions := p.csessions.insert target { child with tomsg := some p.seq }
      seq := p.seq + 1
      log := .ack target :: .depthSub parent.depth :: p.log }

/-! ## Handlers -/

def startAttestation (c : Choice) (p : Prover) : Prover :=
  let p :=
    { p with
      status := .CHECKING
      csessions := ∅
      psessions := {}
      aggreport := { p.aggreport with uids := [], counters := [], proofs := [] }
      maxchildren := c.maxchildren
      log := .start :: p.log }
  let check := checkFirmwareDelay p.cfg.device
  ((p.scheduleAt .attesttimer p.cfg.deltah).andThen
    (·.scheduleAt .checkdelaymsg check)).andThen
    (·.scheduleAt .mktreetimer (check + c.delay))

def checkSoftConfig (p : Prover) : Prover := { p with status := .READY }

def handleCommitReq (m : CommitReq) (p : Prover) : Prover :=
  if p.status ≠ .READY then p
  else
    match m.kid.find? (· ∈ p.cfg.KeyRing) with
    | none => p
    | some kid =>
      let sess : Session := ⟨m.treeID, m.source, kid, m.depth, false, none⟩
      let p := { p with psessions := ⟨m.source, some sess⟩ }
      p.sendCommitResp m.source m.treeID sess

/-- The ack is accepted: the join is over. -/
def validateParent (parent : Session) (p : Prover) : Prover :=
  { (p.cancelEvent .mktreetimer).cancelEvent .cacktomsg with
    psessions.second := some { parent with valid := true } }

def handleCommitAck (c : Choice) (m : CommitAck) (p : Prover) : Prover :=
  if p.psessions.first ≠ m.source then p
  else if m.destination ≠ p.cfg.UId then p
  else
    match p.psessions.second with
    | none => p.fail .nullSession
    | some parent =>
      if parent.keyID ∉ p.cfg.KeyRing then p
      else
        let p := p.queueMacDelay (.commitAck m)
        if ¬ p.cfg.checkMAC (.commitAck m) parent.keyID then p
        else
          let p := p.validateParent parent
          if parent.depth = 1 ∨ p.maxchildren = 0 then
            { p with status := .FINISHED }.sendUpReq m.treeID
          else { p with status := .CREATING }.sendCommitReq c m.treeID

def handleCommitAckTimeOut (c : Choice) (p : Prover) : Prover :=
  if p.cackto.device ≠ p.psessions.first then p
  else
    let p := { p with psessions := {} }
    if p.status = .ATTESTING_CREATING then { p with status := .CREATING }.sendCommitReq c NOID
    else { p with status := .READY }

/-- No more responses are accepted. -/
def closeWindow (p : Prover) : Prover := { p.record .respClosed with status := .COLLECTING }

def handleCommitRespTimeOut (p : Prover) : Prover :=
  let p := p.closeWindow
  if p.csessions.keys.length = 1 then p.sendUpReq p.crespTreeID else p

def handleCommitResp (m : CommitResp) (p : Prover) : Prover :=
  if p.status ≠ .CREATING then p
  else if p.maxchildren ≤ subSize p.csessions.keys.length 1 then p
  else if m.destination ≠ p.cfg.UId then p
  else if m.source ∈ p.csessions then p
  else if m.kid ∉ p.cfg.KeyRing then p
  else
    let p := p.queueMacDelay (.commitResp m)
    if ¬ p.cfg.checkMAC (.commitResp m) m.kid then p
    else
      let sess : Session := ⟨m.treeID, m.source, m.kid, 0, true, none⟩
      let p := { p with csessions := p.csessions.insert m.source sess }
      (p.sendCommitAck m.source m.treeID sess).andThen fun p =>
        if p.csessions.keys.length = p.maxchildren + 1 then
          p.closeWindow.cancelEvent .cresptomsg
        else p

def dropSession (child : Uid) (p : Prover) : Prover :=
  { p with csessions := p.csessions.erase child }

def handleUpdateTimeOut (tomsg : CommitTimeOut) (p : Prover) : Prover :=
  let p := (p.record (.upTimeOut tomsg.device)).dropSession tomsg.device
  if p.csessions.keys.length = 1 then { p with status := .FINISHED }.sendUpReq tomsg.treeID else p

/-- `cancelAndDelete` of the `UPTO` message of a child session. -/
def cancelUpTimeOut (child : Session) (p : Prover) : Prover :=
  { p with uptos := p.uptos.filter fun u => child.tomsg ≠ some u.1.seq }

/-- The report is accepted: it is merged and the session of the child removed. -/
def mergeChild (m : UpdateReq) (child : Session) (p : Prover) : Prover :=
  let p := { p with aggreport := mergeReport p.cfg.aggsize p.aggreport m }
  ((p.record (.merge m.source)).cancelUpTimeOut child).dropSession m.source

def handleUpReq (m : UpdateReq) (p : Prover) : Prover :=
  let p := p.record (.upReq m.source)
  if m.kind = .UPRQF then p.sendCollector m
  else if m.destination ≠ p.cfg.UId then p
  else if p.status = .FINISHED then
    p.sendCollector { m with kind := .UPRQF, destination := baseID }
  else if p.status ≠ .COLLECTING ∧ p.status ≠ .CREATING then p
  else
    match p.csessions.lookup m.source with
    | none => p
    | some child =>
      match p.psessions.second with
      | none => p.fail .nullSession
      | some parent =>
        if m.treeID ≠ parent.treeID then p
        else
          let p := p.queueMacDelay (.updateReq m)
          if ¬ p.cfg.checkMAC (.updateReq m) child.keyID then p
          else if m.report2.length < m.report1.length then p.fail .arrayIndex
          else
            let p := p.mergeChild m child
            if p.csessions.keys.length = 1 then p.sendUpReq m.treeID else p

/-! ## Events -/

inductive Act
  | timer (t : Timer) (c : Choice)
  | upto (seq : Nat)
  | self (seq : Nat) (c : Choice)
  | recv (m : Msg) (c : Choice)
  | crash
deriving DecidableEq, Repr

structure Event where
  time : Nat
  act : Act
deriving DecidableEq, Repr

/-- All events scheduled by the prover. -/
def pending (p : Prover) : List Stamp :=
  Timer.all.filterMap p.timers ++ (p.uptos.map Prod.fst ++ p.outbox.map Prod.fst)

/-- `s` is the next event of the prover, due at `time`. -/
def Next (p : Prover) (s : Stamp) (time : Nat) : Prop :=
  s.due = time ∧ ∀ s' ∈ p.pending, ¬ s'.Before s

/-- No event of the prover is due before `time`. -/
def NoneBefore (p : Prover) (time : Nat) : Prop := ∀ s ∈ p.pending, time ≤ s.due

instance (p : Prover) (s : Stamp) (time : Nat) : Decidable (p.Next s time) :=
  inferInstanceAs (Decidable (_ ∧ _))

instance (p : Prover) (time : Nat) : Decidable (p.NoneBefore time) :=
  inferInstanceAs (Decidable (∀ s ∈ p.pending, time ≤ s.due))

/-- `handleMessage` of the reusable self messages. -/
def onTimer (t : Timer) (c : Choice) (p : Prover) : Prover :=
  match t with
  | .startmsg | .attesttimer => p.startAttestation c
  | .checkdelaymsg => p.checkSoftConfig
  | .mktreetimer => p.sendCommitReq c NOID
  | .creqmsg => { p with out := p.out ++ [.creqmsg] }
  | .cacktomsg => p.handleCommitAckTimeOut c
  | .cresptomsg => p.handleCommitRespTimeOut

/-- `handleMessage` of a message whose MAC delay is over. -/
def onSelf (m : Msg) (c : Choice) (p : Prover) : Prover :=
  match m with
  | .updateReq m =>
    match m.kind with
    | .UPRQ =>
      if c.inRange then { p with out := p.out ++ [.prover (.updateReq m)] }
      else { p with out := p.out ++ [.collector { m with kind := .UPRQF, destination := baseID }] }
    | .UPRQC | .UPRQF => { p with out := p.out ++ [.collector m] }
  | m => { p with out := p.out ++ [.prover m] }

/-- `handleMessage` of a message from the radio. -/
def onRecv (m : Msg) (c : Choice) (p : Prover) : Prover :=
  match m with
  | .commitReq m => p.handleCommitReq m
  | .commitResp m => p.handleCommitResp m
  | .commitAck m => p.handleCommitAck c m
  | .updateReq m => p.handleUpReq m

/-- `handleMessage`: a crashed prover drops everything. -/
def handleMessage (p : Prover) (f : Prover → Prover) : Prover :=
  if p.crashed then p else f p

def atTime (time : Nat) (p : Prover) : Prover := { p with now := time }

/-- The event queue hands out an `UPTO` message. -/
def popUpto (k : Nat) (p : Prover) : Prover := { p with uptos := p.uptos.filter (·.1.seq ≠ k) }

/-- The event queue hands out a message whose MAC delay is over. -/
def popOutbox (k : Nat) (p : Prover) : Prover := { p with outbox := p.outbox.filter (·.1.seq ≠ k) }

/-- One event of a prover; `none` where it cannot be the next one. -/
def step (e : Event) (p : Prover) : Option Prover :=
  if p.fault.isSome ∨ e.time < p.now then none
  else
    let p := p.atTime e.time
    match e.act with
    | .timer t c =>
      match p.timers t with
      | some s =>
        if p.Next s e.time ∧ c.delay ≤ p.cfg.deltag then
          some ((p.cancelEvent t).handleMessage (·.onTimer t c))
        else none
      | none => none
    | .upto k =>
      match p.uptos.find? (·.1.seq = k) with
      | some u =>
        if p.Next u.1 e.time then
          some ((p.popUpto k).handleMessage (·.handleUpdateTimeOut u.2))
        else none
      | none => none
    | .self k c =>
      match p.outbox.find? (·.1.seq = k) with
      | some o =>
        if p.Next o.1 e.time then
          some ((p.popOutbox k).handleMessage (·.onSelf o.2 c))
        else none
      | none => none
    | .recv m c => if p.NoneBefore e.time then some (p.handleMessage (·.onRecv m c)) else none
    | .crash => if p.NoneBefore e.time then some { p with crashed := true } else none

/-- The state behind `initialize`: `start` is `uniform(0, deltah)`. -/
def init (cfg : Config) (start : Nat) : Prover where
  cfg := cfg
  timers := fun t => if t = .startmsg then some ⟨start, 0⟩ else none

end Prover

end Fadia
