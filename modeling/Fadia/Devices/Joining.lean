import Fadia.Devices.Revocation

/-!
# Joining the network

`AProver::handleJoinResp`: the collector tells a prover the depth of the trees and the length
of a period.  `JoiningProver` is a prover with the fields that this handler reads and writes
besides; `handle` is its handling of any message from the radio.
-/

namespace Fadia

/-- `deltah` is a time like all others. -/
structure JoinResp where
  source : Nat
  destination : Uid
  depth : Nat
  deltah : Nat
  mac : Int
deriving DecidableEq, Repr

def JRP_SIZE : Nat := 48

/-- `cid` is the collector that was asked; `deltag` is what `handleJoinResp` computes without
clamping it.  `checkMAC` of the messages that a `Prover` does not know is kept here. -/
structure JoiningProver extends RevocableProver where
  cid : Nat
  deltag : Int
  jointomsg : Option Stamp := none
  checkJoinResp : JoinResp → KeyId → Bool := fun m _ => m.mac == 0
  checkRevokeReq : RevokeReq → KeyId → Bool := fun m _ => m.mac == 0

inductive Received
  | joinResp (m : JoinResp)
  | revokeReq (m : RevokeReq)
  | message (m : Msg)
deriving DecidableEq, Repr

/-- `deltah - (timeoutresp + timeoutack) * maxdepth - timeoutup` -/
def JoinResp.deltag (m : JoinResp) : Int :=
  (m.deltah : Int) - (timeoutresp + timeoutack : Nat) * m.depth - timeoutup

namespace JoiningProver

/-- The statements of `handleJoinResp` in front of its `checkMAC`. -/
def reconfigure (m : JoinResp) (s : JoiningProver) : JoiningProver :=
  { s with
    jointomsg := none
    prover.cfg.maxdepth := m.depth
    prover.cfg.deltah := m.deltah
    deltag := m.deltag }

/-- `macdelays.push(macDelay(msg))` -/
def queueMacDelay (byteLength : Nat) (s : JoiningProver) : JoiningProver :=
  { s with
    prover.macdelays := s.prover.macdelays ++ [macDelay s.prover.cfg.device byteLength] }

/-- `scheduleAt(simTime() + macDelay(resmsg) + getMacDelays(), attesttimer)` -/
def scheduleAttest (s : JoiningProver) : JoiningProver :=
  let macd := macDelay s.prover.cfg.device JRP_SIZE + s.prover.macdelays.sum
  { s with prover := { s.prover with macdelays := [] }.scheduleAt .attesttimer macd }

def handleJoinResp (m : JoinResp) (s : JoiningProver) : JoiningProver :=
  if m.destination ≠ s.prover.cfg.UId ∨ m.source ≠ s.cid then s
  else
    let s := (s.reconfigure m).queueMacDelay JRP_SIZE
    if s.checkJoinResp m ckey then s.scheduleAttest else s

/-- `RevocableProver.handleRevReq` with any `checkMAC`. -/
def handleRevReq (m : RevokeReq) (s : JoiningProver) : JoiningProver :=
  if m.destination ≠ s.prover.cfg.UId then s
  else
    let s := s.queueMacDelay m.byteLength
    if ¬ s.checkRevokeReq m 0 then s
    else { s with revokesig := s.revokesig ++ [m.kid] }

def handle (c : Choice) (m : Received) (s : JoiningProver) : JoiningProver :=
  match m with
  | .joinResp m => s.handleJoinResp m
  | .revokeReq m => s.handleRevReq m
  | .message m => { s with prover := s.prover.onRecv m c }

end JoiningProver

end Fadia
