import Mathlib

/-!
# Identifiers, constants and messages

The types and macros of `NetworkOwner.h`, `constants.h` (scenario `FADIA`),
`ADevice.h` and the `.msg` files that the device models use.

* Unsigned 32-bit and `size_t` values are naturals; a wrap is written out where
  the code can reach it.  A message field that is only ever read back through
  the cast to its own unsigned type (`getSource`, `getTreeID`, …) holds that
  unsigned value; the arrays of a report are kept as the `int`s of the wire.
* Time is `simtime_t`, a count of picoseconds, as a natural.
-/

namespace Fadia

abbrev Uid := Nat
abbrev KeyId := Nat
abbrev TreeId := Nat
abbrev Mac := BitVec 32

/-- The reserved identifier: no parent, the root's parent, a separator of a report. -/
abbrev NOID : Nat := 0

/-- `INT32_MAX` -/
def MAXUID : Nat := 2 ^ 31 - 1

/-- `baseID`: the id of collector 0 and of prover 0. -/
def baseID : Nat := 1

/-! ## Durations -/

def second : Nat := 10 ^ 12
def timeoutack : Nat := 4 * second
def timeoutresp : Nat := 12 * second
def timeoutup : Nat := 12 * second

/-- The device types a prover can have; `NA` has no delays and `SERV` is the collector. -/
inductive DeviceType
  | SKY
  | PI2
deriving DecidableEq, Repr

/-- `HMAC_DELAY_S` and `HMAC_DELAY_P` of a message of `len` bytes. -/
def macDelay : DeviceType → Nat → Nat
  | .SKY, len => (237098 * len + 55692900) * 10 ^ 3
  | .PI2, len => 246304 * len + 60118300

/-- `FIRMWARE_CHECK_DELAY_S` and `FIRMWARE_CHECK_DELAY_P`. -/
def checkFirmwareDelay : DeviceType → Nat
  | .SKY => 1960 * 10 ^ 9
  | .PI2 => 8079 * 10 ^ 6

/-! ## The `int` fields of a report -/

/-- Conversion of an unsigned value to `int`. -/
def toInt32 (n : Nat) : Int := (n : Int).bmod (2 ^ 32)

/-- The cast `(uid_t)` of an `int`. -/
def uidOfInt (i : Int) : Nat := (i % 2 ^ 32).toNat

/-- The cast `(size_t)` of an `int`. -/
def sizeOfInt (i : Int) : Nat := (i % 2 ^ 64).toNat

/-- A proof as an `int` field, and read back through `(size_t)` into a `mac_t`. -/
def macToInt (m : Mac) : Int := m.toInt
def macOfInt (i : Int) : Mac := BitVec.ofInt 32 i

theorem uidOfInt_toInt32 {n : Nat} (h : n < 2 ^ 32) : uidOfInt (toInt32 n) = n := by
  unfold uidOfInt toInt32
  rw [Int.bmod_def]
  norm_num at h ⊢
  split <;> omega

theorem sizeOfInt_toInt32 {n : Nat} (h : n < 2 ^ 31) : sizeOfInt (toInt32 n) = n := by
  unfold sizeOfInt toInt32
  rw [Int.bmod_def]
  norm_num at h ⊢
  rw [if_pos] <;> omega

@[simp] theorem macOfInt_macToInt (m : Mac) : macOfInt (macToInt m) = m := by
  simp [macOfInt, macToInt]

/-! ## Status and message kinds -/

inductive Status
  | OFFLINE
  | JOINING
  | CHECKING
  | READY
  | ATTESTING
  | ATTESTING_CREATING
  | CREATING
  | COLLECTING
  | FINISHED
deriving DecidableEq, Repr

/-- The three kinds of an `UpdateReq`: to the parent, a root's report, redirected. -/
inductive UpKind
  | UPRQ
  | UPRQC
  | UPRQF
deriving DecidableEq, Repr

/-! ## Messages

`mac` is what `generateMAC` returned; `macKid`, which the message does not carry,
remembers the key id it was called with. -/

structure CommitReq where
  source : Uid
  depth : Nat
  kid : List KeyId
  treeID : TreeId
deriving DecidableEq, Repr

structure CommitResp where
  source : Uid
  destination : Uid
  kid : KeyId
  treeID : TreeId
  mac : Int
  macKid : KeyId
deriving DecidableEq, Repr

structure CommitAck where
  source : Uid
  destination : Uid
  treeID : TreeId
  mac : Int
  macKid : KeyId
deriving DecidableEq, Repr

structure UpdateReq where
  kind : UpKind
  source : Uid
  destination : Uid
  report1 : List Int
  report2 : List Int
  treeID : TreeId
  mac : Int
  macKid : KeyId
  proof : List Int
deriving DecidableEq, Repr

/-- The entries `(report1[i], report2[i])` as the receiver reads them. -/
def UpdateReq.entries (m : UpdateReq) : List (Uid × Nat) :=
  (m.report1.map uidOfInt).zip (m.report2.map sizeOfInt)

/-- The entries that are records, separators left out. -/
def UpdateReq.records (m : UpdateReq) : List (Uid × Nat) :=
  m.entries.filter fun x => x.1 != NOID

/-- What can arrive at a prover's radio. -/
inductive Msg
  | commitReq (m : CommitReq)
  | commitResp (m : CommitResp)
  | commitAck (m : CommitAck)
  | updateReq (m : UpdateReq)
deriving DecidableEq, Repr

def Msg.source : Msg → Uid
  | .commitReq m => m.source
  | .commitResp m => m.source
  | .commitAck m => m.source
  | .updateReq m => m.source

/-- The report entries a message carries. -/
def Msg.entries : Msg → List (Uid × Nat)
  | .updateReq m => m.entries
  | _ => []

/-- The MAC of a message; a `CommitReq` has none. -/
def Msg.mac : Msg → Int
  | .commitReq _ => 0
  | .commitResp m => m.mac
  | .commitAck m => m.mac
  | .updateReq m => m.mac

/-- `CRQ_SIZE`, `CRP_SIZE`, `CAK_SIZE` and `URQ_SIZE`: bytes of a message. -/
def Msg.byteLength : Msg → Nat
  | .commitReq m => 12 + m.kid.length * 4
  | .commitResp _ => 48
  | .commitAck _ => 44
  | .updateReq m => 44 + 32 * m.proof.length

/-- `generateMAC`: a placeholder in the source. -/
def generateMAC (_kid : KeyId) : Int := 0

end Fadia
