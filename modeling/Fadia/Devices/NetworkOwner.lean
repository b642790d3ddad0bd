import Fadia.Devices.Keys
import Fadia.Lib.Loops

/-!
# The network owner

`NetworkOwner.cpp`: the pool of keys and the rings drawn from it.
-/

namespace Fadia

/-- `cRNG`: what `intrand(rng, n)` returns, call after call. -/
structure Rng where
  intrand : (call n : Nat) → Nat
  lt : ∀ call n, 0 < n → intrand call n < n

/-- `keyPool[keyid] = key` -/
def KeyMap.assign (e : KeyId × Nat) (m : KeyMap) : KeyMap :=
  ⟨Sorted.assignEntry e m.entries, by
    rw [Sorted.keys_assignEntry]
    exact Sorted.sorted_insertEntry m.sorted⟩

/-- `calls` counts the calls of `intrand`. -/
structure NetworkOwner where
  rng : Rng
  calls : Nat := 0
  KPsize : Nat
  KRsize : Nat
  keyPool : KeyMap := .empty

namespace NetworkOwner

/-- The key id that the loop of `generateKeyPool` draws next. -/
def nextKeyId (o : NetworkOwner) : KeyId := o.rng.intrand o.calls MAXUID

/-- The body of that loop. -/
def drawKey (o : NetworkOwner) : NetworkOwner :=
  if o.nextKeyId ≠ NOID then
    { o with
      calls := o.calls + 2
      keyPool := o.keyPool.assign (o.nextKeyId, o.rng.intrand (o.calls + 1) MAXUID) }
  else { o with calls := o.calls + 1 }

def generateKeyPool (fuel : Nat) (o : NetworkOwner) : Option NetworkOwner :=
  if o.keyPool.size = o.KPsize then some o
  else Loops.doWhile drawKey (fun o => o.keyPool.size ≠ o.KPsize) fuel o

/-- The place in the pool that the loop of `getKeyRing` draws next. -/
def nextPlace (o : NetworkOwner) : Nat := o.rng.intrand o.calls o.keyPool.size

/-- The body of that loop, on the ring and the owner; an empty pool has no entry to insert. -/
def drawEntry (s : KeyMap × NetworkOwner) : KeyMap × NetworkOwner :=
  match s.2.keyPool.entries[s.2.nextPlace]? with
  | some e => (s.1.insert e, { s.2 with calls := s.2.calls + 1 })
  | none => (s.1, { s.2 with calls := s.2.calls + 1 })

def getKeyRing (fuel : Nat) (o : NetworkOwner) : Option (KeyMap × NetworkOwner) :=
  Loops.doWhile drawEntry (fun s => s.1.size ≠ s.2.KRsize) fuel (.empty, o)

/-- `NetworkOwner(r, ps, rs)` -/
def create (fuel : Nat) (r : Rng) (ps rs : Nat) : Option NetworkOwner :=
  generateKeyPool fuel { rng := r, KPsize := ps, KRsize := rs }

end NetworkOwner

end Fadia
