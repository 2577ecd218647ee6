import Pintos.Kernel.Stop
import Pintos.Library.Buckets
import Pintos.Library.Calls
import Pintos.Library.KeyedSet
import Pintos.Library.Words

/-!
# Hash tables

`lib/kernel/hash.c`. An element is the address of its `struct hash_elem`, and a bucket
is the list of its elements from front to back. Whether `malloc` has memory for
the buckets is given with every call. The specification is a set keyed by the
equivalence of `less`.
-/

namespace Pintos.Hash

abbrev HashElem := Word

structure Table where
  elemCnt : Word
  bucketCnt : Word
  buckets : ℕ → List HashElem

def listSize : Word := 16

/-- `hash_clear`, with the elements the destructor is called for. -/
def hashClear (destructor : Bool) (table : Table) : List HashElem × Table :=
  (if destructor then bucketItems table.bucketCnt.toNat table.buckets else [],
    { table with
      elemCnt := 0
      buckets := fun bucket =>
        if bucket < table.bucketCnt.toNat then [] else table.buckets bucket })

def hashInit (granted : Bool) (memory : ℕ → List HashElem) : Option Table :=
  if granted then
    some (hashClear false { elemCnt := 0, bucketCnt := 4, buckets := memory }).2
  else none

def turnOffLeast1bit (number : Word) : Word := number &&& (number - 1)

def isPowerOf2 (number : Word) : Bool := number ≠ 0 && turnOffLeast1bit number = 0

def powerLoop : ℕ → Word → Except Stop Word
  | 0, _ => .error .running
  | fuel + 1, number =>
    if isPowerOf2 number then .ok number else powerLoop fuel (turnOffLeast1bit number)

def insertElem (table : Table) (bucket : ℕ) (elem : HashElem) : Table :=
  { table with
    elemCnt := table.elemCnt + 1
    buckets := Function.update table.buckets bucket (elem :: table.buckets bucket) }

def removeElem (table : Table) (elem : HashElem) : Table :=
  { table with
    elemCnt := table.elemCnt - 1
    buckets := fun bucket => (table.buckets bucket).erase elem }

section Functions

variable (hash : HashElem → Word) (less : HashElem → HashElem → Bool)

def findBucket (bucketCnt : Word) (elem : HashElem) : ℕ := (hash elem &&& (bucketCnt - 1)).toNat

def findElem (table : Table) (bucket : ℕ) (elem : HashElem) : Option HashElem :=
  (table.buckets bucket).find? fun found => !less found elem && !less elem found

def bestBucketCnt (elemCnt : Word) : Except Stop Word :=
  powerLoop 32 (if elemCnt / 2 < 4 then 4 else elemCnt / 2)

def moveElems (bucketCnt : Word) (table : Table) : ℕ → List HashElem :=
  (List.range table.bucketCnt.toNat).foldl
    (fun buckets bucket => (table.buckets bucket).foldl (pushBucket (findBucket hash bucketCnt))
      buckets)
    fun _ => []

/-- `rehash`. Buckets that do not fit in the block they are allocated in are a fault. -/
def rehash (granted : Bool) (table : Table) : Except Stop Table := do
  let bucketCnt ← bestBucketCnt table.elemCnt
  if bucketCnt = table.bucketCnt then pure table
  else if granted = false ∨ listSize * bucketCnt = 0 then pure table
  else if (listSize * bucketCnt).toNat < listSize.toNat * bucketCnt.toNat then .error .fault
  else pure { table with bucketCnt := bucketCnt, buckets := moveElems hash bucketCnt table }

def hashInsert (granted : Bool) (new : HashElem) (table : Table) :
    Except Stop (Option HashElem × Table) := do
  let bucket := findBucket hash table.bucketCnt new
  let old := findElem less table bucket new
  let table := if old = none then insertElem table bucket new else table
  let table ← rehash hash granted table
  pure (old, table)

def hashReplace (granted : Bool) (new : HashElem) (table : Table) :
    Except Stop (Option HashElem × Table) := do
  let bucket := findBucket hash table.bucketCnt new
  let old := findElem less table bucket new
  let table := match old with
    | some old => removeElem table old
    | none => table
  let table := insertElem table bucket new
  let table ← rehash hash granted table
  pure (old, table)

def hashFind (elem : HashElem) (table : Table) : Option HashElem :=
  findElem less table (findBucket hash table.bucketCnt elem) elem

def hashDelete (granted : Bool) (elem : HashElem) (table : Table) :
    Except Stop (Option HashElem × Table) := do
  let found := findElem less table (findBucket hash table.bucketCnt elem) elem
  match found with
  | some old =>
    let table ← rehash hash granted (removeElem table old)
    pure (found, table)
  | none => pure (found, table)

end Functions

inductive Call
  | insert (granted : Bool) (new : HashElem)
  | replace (granted : Bool) (new : HashElem)
  | find (elem : HashElem)
  | delete (granted : Bool) (elem : HashElem)
  | clear (destructor : Bool)
deriving DecidableEq

def perform (hash : HashElem → Word) (less : HashElem → HashElem → Bool) (table : Table) :
    Call → Except Stop (Option HashElem × Table)
  | .insert granted new => hashInsert hash less granted new table
  | .replace granted new => hashReplace hash less granted new table
  | .find elem => .ok (hashFind hash less elem table, table)
  | .delete granted elem => hashDelete hash less granted elem table
  | .clear destructor => .ok (none, (hashClear destructor table).2)

def Equivalent (less : HashElem → HashElem → Bool) (one two : HashElem) : Prop :=
  less one two = false ∧ less two one = false

structure StrictWeak (less : HashElem → HashElem → Bool) : Prop where
  irrefl : ∀ elem, less elem elem = false
  trans : ∀ one two three, less one two = true → less two three = true → less one three = true
  equivalent : ∀ one two three, Equivalent less one two → Equivalent less two three →
    Equivalent less one three

namespace Table

def items (table : Table) : List HashElem := bucketItems table.bucketCnt.toNat table.buckets

def members (table : Table) : Set HashElem := { elem | elem ∈ table.items }

end Table

def IsObject (elem : HashElem) : Prop := elem ≠ 0 ∧ elem.toNat + 8 ≤ 2 ^ 32

def Separate (one two : HashElem) : Prop :=
  one.toNat + 8 ≤ two.toNat ∨ two.toNat + 8 ≤ one.toNat

def Permits (table : Table) : Call → Prop
  | .insert _ new | .replace _ new =>
    IsObject new ∧ ∀ old ∈ table.items, old = new ∨ Separate old new
  | .find _ | .delete _ _ | .clear _ => True

noncomputable def abstractCall (less : HashElem → HashElem → Bool) (members : Set HashElem) :
    Call → Option HashElem × Set HashElem
  | .insert _ new => KeyedSet.insert (Equivalent less) members new
  | .replace _ new => KeyedSet.replace (Equivalent less) members new
  | .find elem => (KeyedSet.find (Equivalent less) members elem, members)
  | .delete _ elem => KeyedSet.delete (Equivalent less) members elem
  | .clear _ => (none, ∅)

def Starts (table : Table) : Prop := ∃ memory, hashInit true memory = some table

def Reached (hash : HashElem → Word) (less : HashElem → HashElem → Bool) : Table → Prop :=
  Reachable Starts (Calls.Step (fun table call => (perform hash less table call).map Prod.snd)
    Permits)

/-- The number of buckets is a power of two, every element is in its bucket and counted once, and no
two are equivalent. -/
structure Table.Sound (hash : HashElem → Word) (less : HashElem → HashElem → Bool)
    (table : Table) : Prop where
  power : ∃ exponent ≥ 2, table.bucketCnt.toNat = 2 ^ exponent
  placed : Placed (findBucket hash table.bucketCnt) table.bucketCnt.toNat table.buckets
  nodup : table.items.Nodup
  counted : table.elemCnt.toNat = table.items.length
  keyed : KeyedSet.Keyed (Equivalent less) table.members

end Pintos.Hash
