import Fadia.Devices.Types
import Fadia.Lib.Segments

/-!
# The aggregated report

`report_t`, `AProver::addOwnReport`, `AProver::fixProofs`, the merge in
`AProver::handleUpReq` and the encoding in `AProver::sendUpReq`.  The MAC of a
record is a parameter; the source's placeholder is `fun _ _ _ => 0`.
-/

namespace Fadia

open Segments

structure Report where
  uids : List Uid := []
  counters : List Nat := []
  proofs : List Mac := []
  tid : TreeId := NOID
  size : Nat := 0
  sepsize : Nat := 0
deriving DecidableEq, Repr

/-- The test `uids[i] == NOID`. -/
def isSep (u : Uid) : Bool := u == NOID

/-- `size_t` subtraction. -/
def subSize (a b : Nat) : Nat := if b ≤ a then a - b else 2 ^ 64 + a - b

/-- `proofs.back() ^= mac`; `back()` of an empty vector is undefined. -/
def xorBack (proofs : List Mac) (mac : Mac) : List Mac :=
  match proofs.getLast? with
  | some p => proofs.dropLast ++ [p ^^^ mac]
  | none => []

/-- The number of entries behind the last separator, as the `while` loops count it. -/
def uncompleted (uids : List Uid) : Nat := (openTail isSep uids).length

def fixProofs (aggsize : Nat) (r : Report) : Report :=
  if uncompleted r.uids = aggsize then
    { r with
      uids := r.uids ++ [NOID]
      counters := r.counters ++ [0]
      sepsize := r.sepsize + 1 }
  else r

/-- `addOwnReport`: `counter` is `++attestcount`. -/
def addOwnReport (aggsize : Nat) (mac : Uid → Nat → TreeId → Mac) (uid : Uid) (counter : Nat)
    (r : Report) : Report :=
  let own := mac uid counter r.tid
  let a := r.uids.length % aggsize
  fixProofs aggsize
    { r with
      proofs := if a = 0 then r.proofs ++ [own] else xorBack r.proofs own
      uids := r.uids ++ [uid]
      counters := r.counters ++ [counter]
      size := r.size + 1 }

/-- Cut the entries behind the last separator off, and the last proof with them. -/
def cutTail (r : Report) : Report :=
  let a := r.uids.length - uncompleted r.uids
  { r with
    uids := r.uids.take a
    counters := r.counters.take a
    size := subSize r.size (uncompleted r.uids)
    proofs := r.proofs.dropLast }

/-- Append the entries and the proofs of a message. -/
def appendMsg (r : Report) (m : UpdateReq) : Report :=
  { r with
    uids := r.uids ++ m.entries.map Prod.fst
    counters := r.counters ++ m.entries.map Prod.snd
    sepsize := r.sepsize + (m.entries.filter fun x => isSep x.1).length
    size := r.size + (m.entries.filter fun x => !isSep x.1).length
    proofs := r.proofs ++ m.proof.map macOfInt }

/-- Put a cut off tail back: into the group left open by the message if it fits
there, else into a group of its own. -/
def attachTail (aggsize : Nat) (tmpuids : List Uid) (tmpcounters : List Nat) (tmpproof : Mac)
    (r : Report) : Report :=
  let rem := uncompleted r.uids % aggsize
  if rem + tmpuids.length ≤ aggsize then
    fixProofs aggsize
      { r with
        uids := r.uids ++ tmpuids
        counters := r.counters ++ tmpcounters
        size := r.size + tmpuids.length
        proofs := if rem ≠ 0 then xorBack r.proofs tmpproof else r.proofs ++ [tmpproof] }
  else
    { r with
      uids := r.uids ++ [NOID] ++ tmpuids
      counters := r.counters ++ [0] ++ tmpcounters
      sepsize := r.sepsize + 1
      size := r.size + tmpuids.length
      proofs := r.proofs ++ [tmpproof] }

/-- The merge of a child's `UpdateReq` in `handleUpReq`. -/
def mergeReport (aggsize : Nat) (r : Report) (m : UpdateReq) : Report :=
  if uncompleted r.uids = 0 then appendMsg r m
  else
    let a := r.uids.length - uncompleted r.uids
    attachTail aggsize (r.uids.drop a) (r.counters.drop a) (r.proofs.getLastD 0)
      (appendMsg (cutTail r) m)

/-- The `UpdateReq` that `sendUpReq` fills from the report. -/
def Report.toUpdateReq (r : Report) (kind : UpKind) (source destination : Uid) (tid : TreeId)
    (kid : KeyId) : UpdateReq where
  kind := kind
  source := source
  destination := destination
  report1 := r.uids.map toInt32
  report2 := (r.counters.take r.uids.length).map toInt32
  treeID := tid
  mac := generateMAC kid
  macKid := kid
  proof := r.proofs.map macToInt

end Fadia
