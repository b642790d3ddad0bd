import Fadia.Devices.Prover

/-!
# Revocation

`AProver::handleRevReq` and, for a prover that is taken off (`REVOKE`),
`AProver::sendRevReq`.  `RevocableProver` is a prover with what these two handlers
put out; its events are those of the prover, a `RevokeReq` from the collector and
the self message `REVOKE`.
-/

namespace Fadia

structure RevokeReq where
  destination : Uid
  kid : List KeyId
  mac : Int
deriving DecidableEq, Repr

/-- `RVK_SIZE` -/
def RevokeReq.byteLength (m : RevokeReq) : Nat := 32 + m.kid.length * 4

/-- `revokesig` is the statistic of the accepted requests, with their key ids instead
of the number of these; `toCollector` is what `sendRevReq` sent. -/
structure RevocableProver where
  prover : Prover
  revokesig : List (List KeyId) := []
  toCollector : List RevokeReq := []

inductive RevEvent
  | prover (e : Prover.Event)
  | revokeReq (m : RevokeReq) (time : Nat)
  | revoke (time : Nat)
deriving DecidableEq, Repr

/-- The key ids of the requests accepted so far. -/
def RevocableProver.revoked (s : RevocableProver) : List KeyId := s.revokesig.flatten

namespace RevocableProver

/-- `handleRevReq`; `checkMAC` also queues the time it takes. -/
def handleRevReq (m : RevokeReq) (s : RevocableProver) : RevocableProver :=
  if m.destination ≠ s.prover.cfg.UId then s
  else
    let s := { s with
      prover.macdelays := s.prover.macdelays ++ [macDelay s.prover.cfg.device m.byteLength] }
    if m.mac ≠ generateMAC 0 then s
    else { s with revokesig := s.revokesig ++ [m.kid] }

/-- `sendRevReq`; the message goes to the collector without a destination or a MAC. -/
def sendRevReq (s : RevocableProver) : RevocableProver :=
  { s with
    prover.status := .OFFLINE
    toCollector := s.toCollector ++ [⟨NOID, s.prover.cfg.KeyRing, 0⟩] }

/-- `handleMessage` of an event that the prover's schedule does not hold. -/
def external (time : Nat) (f : RevocableProver → RevocableProver) (s : RevocableProver) :
    Option RevocableProver :=
  if s.prover.fault.isSome ∨ time < s.prover.now ∨ ¬ s.prover.NoneBefore time then none
  else
    let s := { s with prover := s.prover.atTime time }
    some (if s.prover.crashed then s else f s)

def step (e : RevEvent) (s : RevocableProver) : Option RevocableProver :=
  match e with
  | .prover e => (s.prover.step e).map fun p => { s with prover := p }
  | .revokeReq m time => s.external time (·.handleRevReq m)
  | .revoke time => s.external time sendRevReq

def init (cfg : Config) (start : Nat) : RevocableProver where
  prover := Prover.init cfg start

end RevocableProver

end Fadia
