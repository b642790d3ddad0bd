import Fadia.Devices.Report

/-!
# The reports of a tree of provers

A tree says who merges whose report and in which order: `prover p` has merged
nothing, `adopt t c` lets the root of `t` merge, after what it merged in `t`, the
report of the root of `c`.  Each prover then adds its own record and sends.
-/

namespace Fadia

/-- A prover's id and the number of attestations it made before; the counter of
its record stays below `2 ^ 31`, since `attestcount` is an `int`. -/
structure ProverInfo where
  UId : Uid
  attestcount : Nat
  uid_ne : UId ≠ NOID
  uid_lt : UId < 2 ^ 32
  count_lt : attestcount + 1 < 2 ^ 31

/-- The record `addOwnReport` adds. -/
def ProverInfo.record (p : ProverInfo) : Uid × Nat := (p.UId, p.attestcount + 1)

inductive Tree
  | prover (p : ProverInfo)
  | adopt (t child : Tree)

namespace Tree

def root : Tree → ProverInfo
  | prover p => p
  | adopt t _ => t.root

def provers : Tree → List ProverInfo
  | prover p => [p]
  | adopt t child => t.provers ++ child.provers

/-- All trees within a tree whose root sends a report, below the root. -/
def descendants : Tree → List Tree
  | prover _ => []
  | adopt t child => t.descendants ++ child :: child.descendants

/-- The tree and all trees below its root. -/
def subtrees (t : Tree) : List Tree := t :: t.descendants

section
variable (aggsize : Nat) (mac : Uid → Nat → TreeId → Mac) (tid : TreeId)

/-- What `sendUpReq` sends from the report merged so far; `dest` is its parent. -/
def ownReport (p : ProverInfo) (dest : Uid) (merged : Report) : UpdateReq :=
  (addOwnReport aggsize mac p.UId (p.attestcount + 1) { merged with tid := tid }).toUpdateReq
    .UPRQ p.UId dest tid NOID

/-- `aggreport` of the root once its children's reports are merged. -/
def merged : Tree → Report
  | prover _ => {}
  | adopt t child =>
    mergeReport aggsize t.merged (ownReport aggsize mac tid child.root t.root.UId child.merged)

/-- `aggreport` of the root when it sends. -/
def report (t : Tree) : Report :=
  addOwnReport aggsize mac t.root.UId (t.root.attestcount + 1)
    { t.merged aggsize mac tid with tid := tid }

/-- The report the root sends to `dest`. -/
def sent (t : Tree) (dest : Uid) : UpdateReq :=
  ownReport aggsize mac tid t.root dest (t.merged aggsize mac tid)

end

end Tree

end Fadia
