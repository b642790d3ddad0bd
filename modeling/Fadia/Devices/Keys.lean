import Fadia.Devices.Revocation
import Fadia.Lib.Sorted

/-!
# Key rings

`keyrng_t`, `NetworkOwner::getKeyRing`, `AProver::sharedKeys` and the collector's
`handleRevReq`.  What `intrand` returns is a list of draws.
-/

namespace Fadia

/-- `keyrng_t`, a map from key ids to keys. -/
structure KeyMap where
  entries : List (KeyId × Nat) := []
  sorted : (entries.map Prod.fst).Pairwise (· < ·) := by decide
deriving DecidableEq, Repr

namespace KeyMap

def size (m : KeyMap) : Nat := m.entries.length

def insert (e : KeyId × Nat) (m : KeyMap) : KeyMap :=
  ⟨Sorted.insertEntry e m.entries, Sorted.sorted_insertEntry m.sorted⟩

/-- `getKeyRingIds` -/
def ids (m : KeyMap) : List KeyId := m.entries.map Prod.fst

/-- The loop of `getKeyRing`: entries of the pool at drawn places, until the ring has its
size; `none` where the draws do not suffice. -/
def drawInto (pool : KeyMap) (KRsize : Nat) (ring : KeyMap) : List Nat → Option KeyMap
  | [] => none
  | i :: draws =>
    match pool.entries[i]? with
    | none => none
    | some e =>
      let ring := ring.insert e
      if ring.size = KRsize then some ring else pool.drawInto KRsize ring draws

def getKeyRing (pool : KeyMap) (KRsize : Nat) (draws : List Nat) : Option KeyMap :=
  pool.drawInto KRsize {} draws

def empty : KeyMap := {}

end KeyMap

/-- `sharedKeys` of a prover with the key ids `v1`: the result, and `v2`, which is sorted in
place. -/
def sharedKeys (v1 v2 : List KeyId) : List KeyId × List KeyId :=
  let v1 := v1.insertionSort (· ≤ ·)
  let v2 := v2.insertionSort (· ≤ ·)
  (Sorted.setIntersection v1 v2, v2)

/-- A prover as the collector reads it: `getUID` and its key ring. -/
structure KeyHolder where
  UId : Uid
  ring : KeyMap
deriving DecidableEq, Repr

namespace Collector

/-- `ACollector::sendRevReq` -/
def sendRevReq (target : Uid) (kids : List KeyId) : RevokeReq := ⟨target, kids, generateMAC 0⟩

/-- The loop of `handleRevReq`; `keyids` is passed by reference. -/
def revokeLoop (keyids : List KeyId) : List KeyHolder → List RevokeReq
  | [] => []
  | mod :: rest =>
    let (revkids, keyids) := sharedKeys mod.ring.ids keyids
    if revkids ≠ [] then sendRevReq mod.UId revkids :: revokeLoop keyids rest
    else revokeLoop keyids rest

/-- `ACollector::handleRevReq`: what it sends to the provers of the network.  The ids of the
request are read from the last to the first. -/
def handleRevReq (provers : List KeyHolder) (m : RevokeReq) : List RevokeReq :=
  revokeLoop m.kid.reverse provers

end Collector

end Fadia
