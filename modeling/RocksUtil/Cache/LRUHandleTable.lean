import Mathlib.Algebra.BigOperators.Intervals
import Mathlib.Data.Nat.Bitwise
import RocksUtil.Library.Chain
import RocksUtil.Status

/-!
# Cache entries and their hash table

`LRUHandle` and `LRUHandleTable` of `lru_cache.h`.  The memory of the handles is
kept field by field: `next_hash` with the table that threads its chains through
it, `next` and `prev` with the list of the shard, the rest in the heap.  Reading
a handle that is not allocated is an error, `none`, as is a failed assertion; so
a result other than `none` also says that every pointer followed was valid.
-/

namespace RocksUtil
namespace Cache

/-- An address of a handle. -/
abbrev Address := Nat

/-- A value or a function the cache is handed and never looks into. -/
abbrev Pointer := UInt64

/-- `struct LRUHandle`, without its three links.  The bits of `flags` are fields
of their own. -/
structure LRUHandle where
  value : Pointer
  /-- The function that `Free` calls, or null. -/
  deleter : Option Pointer
  charge : UInt64
  /-- The `key_length` bytes of `key_data`. -/
  key : Bytes
  /-- The counter of references.  It wraps. -/
  refs : UInt32
  /-- `InCache()`. -/
  inCache : Bool
  /-- `IsHighPri()`. -/
  isHighPri : Bool
  /-- `InHighPriPool()`. -/
  inHighPriPool : Bool
  hash : UInt32
  deriving DecidableEq, Repr

/-- What an entry is inserted with.  No operation changes it. -/
def LRUHandle.identity (handle : LRUHandle) : LRUHandle :=
  { handle with refs := 0, inCache := false, inHighPriPool := false }

theorem LRUHandle.value_eq
    {handle handle' : LRUHandle}
    (same : handle'.identity = handle.identity) : handle'.value = handle.value := by
  have values := congrArg LRUHandle.value same
  exact values

theorem LRUHandle.deleter_eq
    {handle handle' : LRUHandle}
    (same : handle'.identity = handle.identity) : handle'.deleter = handle.deleter := by
  have deleters := congrArg LRUHandle.deleter same
  exact deleters

theorem LRUHandle.charge_eq
    {handle handle' : LRUHandle}
    (same : handle'.identity = handle.identity) : handle'.charge = handle.charge := by
  have charges := congrArg LRUHandle.charge same
  exact charges

theorem LRUHandle.key_eq
    {handle handle' : LRUHandle}
    (same : handle'.identity = handle.identity) : handle'.key = handle.key := by
  have keys := congrArg LRUHandle.key same
  exact keys

theorem LRUHandle.hash_eq
    {handle handle' : LRUHandle}
    (same : handle'.identity = handle.identity) : handle'.hash = handle.hash := by
  have hashes := congrArg LRUHandle.hash same
  exact hashes

/-- The allocated handles. -/
abbrev Heap := Address → Option LRUHandle

/-- `class LRUHandleTable`. -/
structure LRUHandleTable where
  /-- `length_`. -/
  length : Nat
  /-- `elems_`. -/
  elems : Nat
  /-- `list_`, and the `next_hash` of the handles. -/
  buckets : Chain.Buckets Address

namespace LRUHandleTable

/-- `hash & (length - 1)`. -/
def bucketOf (length : Nat) (hash : UInt32) : Nat := hash.toNat &&& (length - 1)

/-- The loop of `FindPointer`, from `slot` on. -/
def findPointerFrom
    (heap : Heap)
    (buckets : Chain.Buckets Address)
    (key : Bytes)
    (hash : UInt32) : Nat → Chain.Slot Address → Option (Chain.Slot Address)
  | 0, _ => none
  | fuel + 1, slot =>
      match buckets.read slot with
      | none => some slot
      | some address => do
          let handle ← heap address
          if handle.hash ≠ hash ∨ key ≠ handle.key then
            findPointerFrom heap buckets key hash fuel (.next address)
          else
            some slot

/-- `FindPointer`: the slot that points to the entry for the key, or the trailing
slot of its chain. -/
def findPointer
    (heap : Heap)
    (table : LRUHandleTable)
    (key : Bytes)
    (hash : UInt32) : Option (Chain.Slot Address) :=
  findPointerFrom heap table.buckets key hash (table.elems + 1)
    (.head (bucketOf table.length hash))

/-- `Lookup`: the entry for the key, if there is one. -/
def lookup
    (heap : Heap)
    (table : LRUHandleTable)
    (key : Bytes)
    (hash : UInt32) : Option (Option Address) := do
  let slot ← table.findPointer heap key hash
  some (table.buckets.read slot)

/-- The first loop of `Resize`: double the length while it is below
`elems_ * 1.5`. -/
def doubleLength (elems : Nat) : Nat → Nat → Option Nat
  | 0, _ => none
  | fuel + 1, length =>
      if 2 * length < 3 * elems then doubleLength elems fuel (length * 2)
      else some length

/-- The inner loop of `Resize`: push the handles of a chain into their new
buckets, counting them. -/
def relinkChain
    (heap : Heap)
    (newLength : Nat) :
    Nat → Option Address → Chain.Buckets Address × Nat →
      Option (Chain.Buckets Address × Nat)
  | 0, _, _ => none
  | _ + 1, none, relinked => some relinked
  | fuel + 1, some address, (buckets, count) => do
      let next := buckets.next address
      let handle ← heap address
      relinkChain heap newLength fuel next
        (buckets.push (bucketOf newLength handle.hash) address, count + 1)

/-- The loop of `Resize` over the old buckets. -/
def relink
    (heap : Heap)
    (table : LRUHandleTable)
    (newLength : Nat) : Option (Chain.Buckets Address × Nat) :=
  (List.range table.length).foldlM
    (fun relinked bucket =>
      relinkChain heap newLength (table.elems + 1) (table.buckets.head bucket) relinked)
    (⟨fun _ => none, table.buckets.next⟩, 0)

/-- `Resize`. -/
def resize (heap : Heap) (table : LRUHandleTable) : Option LRUHandleTable := do
  let newLength ← doubleLength table.elems (table.elems + 1) 16
  let (buckets, count) ← table.relink heap newLength
  guard (table.elems = count)
  some { table with length := newLength, buckets := buckets }

/-- The table after the constructor. -/
def new : LRUHandleTable := ⟨16, 0, ⟨fun _ => none, fun _ => none⟩⟩

/-- It is what `Resize`, which the constructor calls, makes of no buckets. -/
example (heap : Heap) : resize heap ⟨0, 0, ⟨fun _ => none, fun _ => none⟩⟩ = some new := rfl

/-- `Insert`: the entry that was displaced, and the table. -/
def insert
    (heap : Heap)
    (table : LRUHandleTable)
    (address : Address) : Option (Option Address × LRUHandleTable) := do
  let handle ← heap address
  let slot ← table.findPointer heap handle.key handle.hash
  let old := table.buckets.read slot
  let buckets := table.buckets.write (.next address)
    (match old with
      | none => none
      | some old => table.buckets.next old)
  let table := { table with buckets := buckets.write slot (some address) }
  match old with
  | none =>
      let table := { table with elems := table.elems + 1 }
      if table.elems > table.length then
        let table ← table.resize heap
        some (old, table)
      else
        some (old, table)
  | some _ => some (old, table)

/-- `Remove`: the entry that was removed, and the table. -/
def remove
    (heap : Heap)
    (table : LRUHandleTable)
    (key : Bytes)
    (hash : UInt32) : Option (Option Address × LRUHandleTable) := do
  let slot ← table.findPointer heap key hash
  let result := table.buckets.read slot
  match result with
  | none => some (none, table)
  | some address =>
      some (result, { table with
        elems := table.elems - 1
        buckets := table.buckets.write slot (table.buckets.next address) })

/-- The inner loop of `ApplyToAllCacheEntries`.  What `func` works on has the
heap as a part, so that it can free the handle it is given. -/
def applyToChain
    {σ : Type}
    (heap : σ → Heap)
    (func : Address → σ → Option σ)
    (next : Address → Option Address) : Nat → Option Address → σ → Option σ
  | 0, _, _ => none
  | _ + 1, none, state => some state
  | fuel + 1, some address, state => do
      let handle ← heap state address
      guard handle.inCache
      let state ← func address state
      applyToChain heap func next fuel (next address) state

/-- `ApplyToAllCacheEntries`. -/
def applyToAllCacheEntries
    {σ : Type}
    (heap : σ → Heap)
    (func : Address → σ → Option σ)
    (table : LRUHandleTable)
    (state : σ) : Option σ :=
  (List.range table.length).foldlM
    (fun state bucket =>
      applyToChain heap func table.buckets.next (table.elems + 1)
        (table.buckets.head bucket) state)
    state

end LRUHandleTable
end Cache
end RocksUtil
