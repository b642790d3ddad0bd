import Fadia.Devices.Collector
import Fadia.Devices.Joining
import Fadia.Devices.Keys
import Fadia.Devices.Node

/-!
# The collector as a device

`ACollector` of the wireless build with what it inherits from `ADevice`.  `deltah`, `maxdepth`
and `energy` have a value only once they are assigned: a read before that ends the run with
`absent`.

* `outbox` holds the messages that wait for their time; the times of the self messages are
  left open.
* `sent`, `reportsize` record what was transmitted and emitted; no function reads them.
-/

namespace Fadia

structure JoinReq where
  source : Uid
  destination : Nat
  kid : List KeyId
  mac : Int
deriving DecidableEq, Repr

/-- What the collector sends. -/
inductive ServMsg
  | joinResp (m : JoinResp)
  | revokeReq (m : RevokeReq)
deriving DecidableEq, Repr

def ServMsg.destination : ServMsg → Uid
  | .joinResp m => m.destination
  | .revokeReq m => m.destination

/-- The fields that `ACollector::initialize` does not set. -/
inductive ServField
  | deltah
  | maxdepth
  | energy
deriving DecidableEq, Repr

inductive ServFault
  | absent (field : ServField)
  | alreadyScheduled
  | noModule
deriving DecidableEq, Repr

/-- `energy` is the `totalPowerConsumption` of the storage. -/
structure CollectorApp extends Collector where
  CId : Nat
  checkMAC : JoinReq → Nat → Bool := fun m _ => m.mac == 0
  deltah : Option Nat := none
  maxdepth : Option Nat := none
  energy : Option Power := none
  proverKeys : Uid → Nat := fun _ => 0
  proverKeyIds : Uid → List KeyId := fun _ => []
  jsessions : List Uid := []
  outbox : List ServMsg := []
  txrxstat : TxRxStat := .DIDLE
  chanstat : ChanStat := .CIDLE
  scheduled : SelfMsg → Bool := fun _ => false
  msgqueue : List ServMsg := []
  crashed : Bool := false
  reportsize : List Nat := []
  sent : List ServMsg := []
  now : Nat := 0
  fault : Option ServFault := none

inductive ServAct
  | joinReq (m : JoinReq)
  | updateReq (m : UpdateReq)
  | revokeReq (m : RevokeReq)
  | outgoing (k : Nat)
  | selfMsg (t : SelfMsg) (depleted : Bool)
  | procDone
deriving DecidableEq, Repr

/-- `channelBusy` is the channel at a prover (`isChannelBusyServ`). -/
structure ServEvent where
  time : Nat
  channelBusy : Uid → Bool
  act : ServAct

def MAXCID : Nat := 2 ^ 31 - 1

namespace CollectorApp

def fail (f : ServFault) (a : CollectorApp) : CollectorApp := { a with fault := some f }

def scheduleAt (t : SelfMsg) (a : CollectorApp) : CollectorApp :=
  if a.scheduled t then a.fail .alreadyScheduled
  else { a with scheduled := Function.update a.scheduled t true }

/-- The statement behind one that may end the simulation. -/
def andThen (a : CollectorApp) (f : CollectorApp → CollectorApp) : CollectorApp :=
  match a.fault with
  | some _ => a
  | none => f a

/-! ## Handlers -/

def sendJoinResp (target : Uid) (a : CollectorApp) : CollectorApp :=
  match a.maxdepth with
  | none => a.fail (.absent .maxdepth)
  | some maxdepth =>
    match a.deltah with
    | none => a.fail (.absent .deltah)
    | some deltah =>
      let msg : JoinResp := ⟨a.CId, target, maxdepth, deltah, generateMAC (a.proverKeys target)⟩
      { a with outbox := a.outbox ++ [.joinResp msg] }

/-- The keys are recorded; `updateProverKey` does not read them. -/
def enrol (m : JoinReq) (a : CollectorApp) : CollectorApp :=
  { a with
    proverKeyIds :=
      Function.update a.proverKeyIds m.source (a.proverKeyIds m.source ++ m.kid)
    proverKeys := Function.update a.proverKeys m.source ckey
    jsessions := a.jsessions ++ [m.source] }

def handleJoinReq (m : JoinReq) (a : CollectorApp) : CollectorApp :=
  if m.destination ≠ a.CId then a
  else if ¬ a.checkMAC m (a.proverKeys m.source) then a
  else (a.enrol m).sendJoinResp m.source

/-- `checkRecordTime` and the emit behind it. -/
def recordSize (size : Nat) (a : CollectorApp) : CollectorApp :=
  match a.deltah with
  | none => a.fail (.absent .deltah)
  | some deltah =>
    if a.now ≤ deltah * 6 then { a with reportsize := a.reportsize ++ [size] } else a

def handleUpReq (m : UpdateReq) (a : CollectorApp) : CollectorApp :=
  let a := { a with toCollector := a.toCollector.handleUpReq m }
  if a.failed then a.fail .alreadyScheduled else a.recordSize m.size

def handleRevReq (provers : List KeyHolder) (m : RevokeReq) (a : CollectorApp) : CollectorApp :=
  { a with outbox := a.outbox ++ (Collector.handleRevReq provers m).map .revokeReq }

/-! ## Sending -/

variable (provers : List KeyHolder) (e : ServEvent)

/-- `getSubmodule("prover", target - baseID)` is a module. -/
def IsProver (target : Uid) : Prop := baseID ≤ target ∧ target < baseID + provers.length

instance (target : Uid) : Decidable (IsProver provers target) :=
  inferInstanceAs (Decidable (_ ∧ _))

def push (m : ServMsg) (a : CollectorApp) : CollectorApp :=
  { a with msgqueue := a.msgqueue ++ [m] }

/-- The message goes on the air and is charged. -/
def transmit (m : ServMsg) (a : CollectorApp) : CollectorApp :=
  let a := { a with sent := a.sent ++ [m], txrxstat := .TRANSMITING }
  match a.energy with
  | none => a.fail (.absent .energy)
  | some _ =>
    ({ a with energy := some .TRANSMITION }.scheduleAt .entxmsg).andThen (·.scheduleAt .txmsg)

def sendProver (m : ServMsg) (a : CollectorApp) : CollectorApp :=
  if a.txrxstat = .TRANSMITING ∨ a.chanstat = .BUSY then a.push m
  else if ¬ IsProver provers m.destination then a.fail .noModule
  else if e.channelBusy m.destination then
    ({ a with chanstat := .BUSY }.push m).scheduleAt .cbusymsg
  else a.transmit m

/-- `handleMessage(msgqueue.front()); msgqueue.pop();` -/
def drain (a : CollectorApp) : CollectorApp :=
  match a.msgqueue with
  | [] => a
  | m :: _ => (a.sendProver provers e m).andThen fun a => { a with msgqueue := a.msgqueue.tail }

/-- The collector is never `FINISHED`. -/
def handleDoneEnMsg (depleted : Bool) (a : CollectorApp) : CollectorApp :=
  match a.energy with
  | none => a.fail (.absent .energy)
  | some _ => { a with energy := some .LISTENING, crashed := a.crashed || depleted }

/-- The collector has no `pupmsg`. -/
def onSelfMsg (t : SelfMsg) (depleted : Bool) (a : CollectorApp) : CollectorApp :=
  match t with
  | .txmsg => { a with txrxstat := .DIDLE }.drain provers e
  | .entxmsg => a.handleDoneEnMsg depleted
  | .cbusymsg => { a with chanstat := .CIDLE }.drain provers e
  | .collbusymsg => a

/-! ## Events -/

/-- A crashed device drops everything. -/
def handleMessage (f : CollectorApp → CollectorApp) (a : CollectorApp) : CollectorApp :=
  if a.crashed then a else f a

/-- The event queue hands out a message. -/
def popOutbox (k : Nat) (a : CollectorApp) : CollectorApp :=
  { a with outbox := a.outbox.eraseIdx k }

def pop (t : SelfMsg) (a : CollectorApp) : CollectorApp :=
  { a with scheduled := Function.update a.scheduled t false }

def popProc (a : CollectorApp) : CollectorApp := { a with procendmsg := false }

def atTime (time : Nat) (a : CollectorApp) : CollectorApp := { a with now := time }

/-- One event, `none` where it cannot happen. -/
def act (a : CollectorApp) : Option CollectorApp :=
  match e.act with
  | .joinReq m => some (a.handleMessage (·.handleJoinReq m))
  | .updateReq m => some (a.handleMessage (·.handleUpReq m))
  | .revokeReq m => some (a.handleMessage (·.handleRevReq provers m))
  | .outgoing k =>
    match a.outbox[k]? with
    | some m => some ((a.popOutbox k).handleMessage (·.sendProver provers e m))
    | none => none
  | .selfMsg t depleted =>
    if a.scheduled t then some ((a.pop t).handleMessage (·.onSelfMsg provers e t depleted))
    else none
  | .procDone =>
    if a.procendmsg then
      some (a.popProc.handleMessage fun a => { a with toCollector := a.handleProcDoneMsg })
    else none

def step (a : CollectorApp) : Option CollectorApp :=
  if a.fault.isSome ∨ e.time < a.now then none else (a.atTime e.time).act provers e

/-- `ACollector::initialize` of the collector with an index; `initUID` does not end where this
is 0. -/
def init (index : Nat) : CollectorApp where
  CId := (baseID + index) % MAXCID

end CollectorApp

end Fadia
