import Mathlib.Data.Nat.Cast.Order.Ring
import Mathlib.Data.Rat.Defs
import Mathlib.Algebra.Order.Ring.Rat
import RocksUtil.Library.Ring
import RocksUtil.Cache.LRUHandleTable

/-!
# A shard of the cache

`LRUCacheShard` of `lru_cache.cc`, function by function.  A method runs under the
mutex of the shard, so it is one step here, with the deleter calls it makes after
it has let go of the mutex.  An assertion that fails, a null or dangling pointer
that is followed and a loop that runs out of fuel all give `none`.
-/

namespace RocksUtil
namespace Cache

/-- How a result is rounded to a `double`.  Nothing rests on the precision. -/
structure Rounding where
  round : ℚ → ℚ
  monotone : Monotone round
  round_zero : round 0 = 0

/-- Arithmetic without rounding. -/
def Rounding.exact : Rounding := ⟨id, monotone_id, rfl⟩

/-- The capacity of a pool, rounded twice, is not negative. -/
theorem Rounding.poolCapacity_nonneg
    (rounding : Rounding)
    (capacity : UInt64)
    {ratio : ℚ}
    (nonneg : 0 ≤ ratio) :
    0 ≤ rounding.round (rounding.round capacity.toNat * ratio) := by
  have zero := rounding.round_zero
  have capacityNonneg : 0 ≤ rounding.round capacity.toNat := by
    have above := rounding.monotone (Nat.cast_nonneg capacity.toNat)
    rwa [zero] at above
  have above := rounding.monotone (mul_nonneg capacityNonneg nonneg)
  rwa [zero] at above

/-- `Cache::Priority`. -/
inductive Priority
  | high
  | low
  deriving DecidableEq, Repr

/-- A call of a deleter, with the handle it was made for. -/
structure Deletion where
  handle : Address
  deleter : Pointer
  key : Bytes
  value : Pointer
  deriving DecidableEq, Repr

/-- `class LRUCacheShard`, with the memory it works on. -/
structure LRUCacheShard where
  /-- `capacity_`. -/
  capacity : UInt64
  /-- `usage_`. -/
  usage : UInt64
  /-- `lru_usage_`. -/
  lruUsage : UInt64
  /-- `high_pri_pool_usage_`. -/
  highPriPoolUsage : UInt64
  /-- `strict_capacity_limit_`. -/
  strictCapacityLimit : Bool
  /-- `high_pri_pool_ratio_`. -/
  highPriPoolRatio : ℚ
  /-- `high_pri_pool_capacity_`. -/
  highPriPoolCapacity : ℚ
  /-- The `next` and `prev` of the handles and of `lru_`. -/
  links : Ring.Links Address
  /-- `lru_low_pri_`. -/
  lruLowPri : Address
  /-- `table_`. -/
  table : LRUHandleTable
  /-- The handles that are allocated. -/
  heap : Heap
  /-- The address of the next handle.  Addresses are not used again. -/
  fresh : Address
  /-- The deleter calls made so far, in order. -/
  deletions : List Deletion

namespace LRUCacheShard

/-- The address of the dummy head `lru_`. -/
def lru : Address := 0

/-- The constructor.  It leaves four members as they were in memory. -/
def new
    (capacity : UInt64)
    (strictCapacityLimit : Bool)
    (highPriPoolRatio highPriPoolCapacity : ℚ) : LRUCacheShard where
  capacity := capacity
  usage := 0
  lruUsage := 0
  highPriPoolUsage := 0
  strictCapacityLimit := strictCapacityLimit
  highPriPoolRatio := highPriPoolRatio
  highPriPoolCapacity := highPriPoolCapacity
  links :=
    { next := Function.update (fun _ => none) lru (some lru)
      prev := Function.update (fun _ => none) lru (some lru) }
  lruLowPri := lru
  table := LRUHandleTable.new
  heap := fun _ => none
  fresh := 1
  deletions := []

/-- Write to the members of a handle. -/
def modify
    (shard : LRUCacheShard)
    (e : Address)
    (change : LRUHandle → LRUHandle) : Option LRUCacheShard := do
  let handle ← shard.heap e
  some { shard with heap := Function.update shard.heap e (some (change handle)) }

/-- `SetInCache(in_cache)`. -/
def setInCache (shard : LRUCacheShard) (e : Address) (inCache : Bool) :
    Option LRUCacheShard :=
  shard.modify e (fun handle => { handle with inCache := inCache })

/-- `SetInHighPriPool(in_high_pri_pool)`. -/
def setInHighPriPool (shard : LRUCacheShard) (e : Address) (inHighPriPool : Bool) :
    Option LRUCacheShard :=
  shard.modify e (fun handle => { handle with inHighPriPool := inHighPriPool })

/-- `Unref`: whether this was the last reference. -/
def unref (shard : LRUCacheShard) (e : Address) : Option (Bool × LRUCacheShard) := do
  let handle ← shard.heap e
  guard (0 < handle.refs)
  let shard ← shard.modify e (fun handle => { handle with refs := handle.refs - 1 })
  some (decide (handle.refs - 1 = 0), shard)

/-- `Free` as it is compiled without its assertion: call the deleter, if there is one,
and release the memory. -/
def freeUnchecked (shard : LRUCacheShard) (e : Address) : Option LRUCacheShard := do
  let handle ← shard.heap e
  some { shard with
    heap := Function.update shard.heap e none
    deletions := shard.deletions ++
      (handle.deleter.map (⟨e, ·, handle.key, handle.value⟩)).toList }

/-- `Free`. -/
def free (shard : LRUCacheShard) (e : Address) : Option LRUCacheShard := do
  let handle ← shard.heap e
  guard ((handle.refs = 1 ∧ handle.inCache) ∨ (handle.refs = 0 ∧ ¬ handle.inCache))
  shard.freeUnchecked e

/-- `Free` for each entry of a list. -/
def freeAll (shard : LRUCacheShard) (entries : List Address) : Option LRUCacheShard :=
  entries.foldlM free shard

/-- `LRU_Remove`. -/
def lruRemove (shard : LRUCacheShard) (e : Address) : Option LRUCacheShard := do
  let next ← shard.links.next e
  let prev ← shard.links.prev e
  let handle ← shard.heap e
  let shard := { shard with
    lruLowPri := if shard.lruLowPri = e then prev else shard.lruLowPri
    links := shard.links.unlink prev e next
    lruUsage := shard.lruUsage - handle.charge }
  if handle.inHighPriPool then
    guard (shard.highPriPoolUsage ≥ handle.charge)
    some { shard with highPriPoolUsage := shard.highPriPoolUsage - handle.charge }
  else
    some shard

/-- `MaintainPoolSize`: overflow entries of the high-pri pool to the low-pri pool
until it is no larger than its capacity. -/
def maintainPoolSize (rounding : Rounding) : Nat → LRUCacheShard → Option LRUCacheShard
  | 0, _ => none
  | fuel + 1, shard =>
      if rounding.round shard.highPriPoolUsage.toNat > shard.highPriPoolCapacity then do
        let next ← shard.links.next shard.lruLowPri
        let shard := { shard with lruLowPri := next }
        guard (shard.lruLowPri ≠ lru)
        let shard ← shard.setInHighPriPool shard.lruLowPri false
        let handle ← shard.heap shard.lruLowPri
        maintainPoolSize rounding fuel
          { shard with highPriPoolUsage := shard.highPriPoolUsage - handle.charge }
      else
        some shard

/-- `LRU_Insert`. -/
def lruInsert
    (rounding : Rounding)
    (shard : LRUCacheShard)
    (e : Address) : Option LRUCacheShard := do
  guard (shard.links.next e = none)
  guard (shard.links.prev e = none)
  let handle ← shard.heap e
  let shard ←
    if shard.highPriPoolRatio > 0 ∧ handle.isHighPri then do
      let newest ← shard.links.prev lru
      let shard := { shard with links := shard.links.link newest e lru }
      let shard ← shard.setInHighPriPool e true
      maintainPoolSize rounding (shard.fresh + 1)
        { shard with highPriPoolUsage := shard.highPriPoolUsage + handle.charge }
    else do
      let next ← shard.links.next shard.lruLowPri
      let shard := { shard with links := shard.links.link shard.lruLowPri e next }
      let shard ← shard.setInHighPriPool e false
      some { shard with lruLowPri := e }
  some { shard with lruUsage := shard.lruUsage + handle.charge }

/-- The body that the loops of `EvictFromLRU` and `EraseUnRefEntries` share: the
oldest entry of the list, and the shard without it. -/
def evictOldest (shard : LRUCacheShard) : Option (Address × LRUCacheShard) := do
  let old ← shard.links.next lru
  let handle ← shard.heap old
  guard handle.inCache
  guard (handle.refs = 1)
  let shard ← shard.lruRemove old
  let (_, table) ← shard.table.remove shard.heap handle.key handle.hash
  let shard := { shard with table := table }
  let shard ← shard.setInCache old false
  let (_, shard) ← shard.unref old
  some (old, { shard with usage := shard.usage - handle.charge })

/-- `EvictFromLRU`. -/
def evictFromLRU (charge : UInt64) :
    Nat → LRUCacheShard → List Address → Option (List Address × LRUCacheShard)
  | 0, _, _ => none
  | fuel + 1, shard, deleted =>
      if shard.usage + charge > shard.capacity ∧ shard.links.next lru ≠ some lru then do
        let (old, shard) ← shard.evictOldest
        evictFromLRU charge fuel shard (deleted ++ [old])
      else
        some (deleted, shard)

/-- The loop of `EraseUnRefEntries`. -/
def evictAll :
    Nat → LRUCacheShard → List Address → Option (List Address × LRUCacheShard)
  | 0, _, _ => none
  | fuel + 1, shard, lastReferenceList =>
      if shard.links.next lru ≠ some lru then do
        let (old, shard) ← shard.evictOldest
        evictAll fuel shard (lastReferenceList ++ [old])
      else
        some (lastReferenceList, shard)

/-- `EraseUnRefEntries`. -/
def eraseUnRefEntries (shard : LRUCacheShard) : Option LRUCacheShard := do
  let (lastReferenceList, shard) ← evictAll (shard.fresh + 1) shard []
  shard.freeAll lastReferenceList

/-- `SetCapacity`. -/
def setCapacity
    (rounding : Rounding)
    (shard : LRUCacheShard)
    (capacity : UInt64) : Option LRUCacheShard := do
  let shard := { shard with
    capacity := capacity
    highPriPoolCapacity :=
      rounding.round (rounding.round capacity.toNat * shard.highPriPoolRatio) }
  let (lastReferenceList, shard) ← evictFromLRU 0 (shard.fresh + 1) shard []
  shard.freeAll lastReferenceList

/-- `SetStrictCapacityLimit`. -/
def setStrictCapacityLimit (shard : LRUCacheShard) (strictCapacityLimit : Bool) :
    LRUCacheShard :=
  { shard with strictCapacityLimit := strictCapacityLimit }

/-- `SetHighPriorityPoolRatio`. -/
def setHighPriorityPoolRatio
    (rounding : Rounding)
    (shard : LRUCacheShard)
    (highPriPoolRatio : ℚ) : Option LRUCacheShard :=
  maintainPoolSize rounding (shard.fresh + 1) { shard with
    highPriPoolRatio := highPriPoolRatio
    highPriPoolCapacity :=
      rounding.round (rounding.round shard.capacity.toNat * highPriPoolRatio) }

/-- `Lookup`: the handle, or null. -/
def lookup
    (shard : LRUCacheShard)
    (key : Bytes)
    (hash : UInt32) : Option (Option Address × LRUCacheShard) := do
  match ← shard.table.lookup shard.heap key hash with
  | none => some (none, shard)
  | some e =>
      let handle ← shard.heap e
      guard handle.inCache
      let shard ← if handle.refs = 1 then shard.lruRemove e else some shard
      let shard ← shard.modify e (fun handle => { handle with refs := handle.refs + 1 })
      some (some e, shard)

/-- `Release`, of a handle that is not null, with what it calls to free the entry. -/
def releaseWith
    (free : LRUCacheShard → Address → Option LRUCacheShard)
    (rounding : Rounding)
    (shard : LRUCacheShard)
    (e : Address) : Option LRUCacheShard := do
  let (lastReference, shard) ← shard.unref e
  let handle ← shard.heap e
  let shard := if lastReference then
    { shard with usage := shard.usage - handle.charge } else shard
  let (lastReference, shard) ←
    if handle.refs = 1 ∧ handle.inCache then
      if shard.usage > shard.capacity then do
        guard (shard.links.next lru = some lru)
        let (_, table) ← shard.table.remove shard.heap handle.key handle.hash
        let shard := { shard with table := table }
        let shard ← shard.setInCache e false
        let (_, shard) ← shard.unref e
        some (true, { shard with usage := shard.usage - handle.charge })
      else do
        let shard ← shard.lruInsert rounding e
        some (lastReference, shard)
    else
      some (lastReference, shard)
  if lastReference then free shard e else some shard

/-- `Release`. -/
def release
    (rounding : Rounding)
    (shard : LRUCacheShard)
    (e : Address) : Option LRUCacheShard :=
  releaseWith free rounding shard e

/-- The arguments of `Insert`. -/
structure Insertion where
  key : Bytes
  value : Pointer
  charge : UInt64
  deleter : Option Pointer
  /-- Whether a handle is asked for: the argument `handle` is not null. -/
  handle : Bool
  priority : Priority
  /-- The bit of `flags` that is not set before the entry is put on the list. -/
  inHighPriPool : Bool
  deriving DecidableEq, Repr

/-- The entry that `Insert` allocates. -/
def Insertion.entry (insertion : Insertion) (hash : UInt32) : LRUHandle where
  value := insertion.value
  deleter := insertion.deleter
  charge := insertion.charge
  key := insertion.key
  refs := if insertion.handle then 2 else 1
  inCache := true
  isHighPri := decide (insertion.priority = .high)
  inHighPriPool := insertion.inHighPriPool
  hash := hash

/-- The allocation that `Insert` begins with. -/
def allocate (shard : LRUCacheShard) (handle : LRUHandle) : LRUCacheShard :=
  { shard with
    heap := Function.update shard.heap shard.fresh (some handle)
    links :=
      { next := Function.update shard.links.next shard.fresh none
        prev := Function.update shard.links.prev shard.fresh none }
    fresh := shard.fresh + 1 }

/-- The part of `Insert` that gives up the entry `old`, displaced from the table. -/
def dropOld
    (shard : LRUCacheShard)
    (old : Option Address)
    (lastReferenceList : List Address) : Option (List Address × LRUCacheShard) :=
  match old with
  | none => some (lastReferenceList, shard)
  | some old => do
      let shard ← shard.setInCache old false
      let (lastReference, shard) ← shard.unref old
      if lastReference then
        let handle ← shard.heap old
        let shard := { shard with usage := shard.usage - handle.charge }
        let shard ← shard.lruRemove old
        some (lastReferenceList ++ [old], shard)
      else
        some (lastReferenceList, shard)

/-- `Insert` after the eviction: the status, the handle returned, the entries to
free and the shard. -/
def insertEvicted
    (rounding : Rounding)
    (shard : LRUCacheShard)
    (insertion : Insertion)
    (e : Address)
    (lastReferenceList : List Address) :
    Option (Status × Option Address × List Address × LRUCacheShard) :=
  if shard.usage - shard.lruUsage + insertion.charge > shard.capacity ∧
      (shard.strictCapacityLimit ∨ ¬ insertion.handle) then
    if ¬ insertion.handle then
      some (Status.OK, none, lastReferenceList ++ [e], shard)
    else do
      -- The memory is released without a call of the deleter.
      let _ ← shard.heap e
      some (Status.Incomplete "Insert failed due to LRU cache being full.", none,
        lastReferenceList, { shard with heap := Function.update shard.heap e none })
  else do
    let (old, table) ← shard.table.insert shard.heap e
    let shard := { shard with
      table := table
      usage := shard.usage + insertion.charge }
    let (lastReferenceList, shard) ← shard.dropOld old lastReferenceList
    if ¬ insertion.handle then
      let shard ← shard.lruInsert rounding e
      some (Status.OK, none, lastReferenceList, shard)
    else
      some (Status.OK, some e, lastReferenceList, shard)

/-- `Insert`: the status, and the handle when one is asked for. -/
protected def insert
    (rounding : Rounding)
    (shard : LRUCacheShard)
    (hash : UInt32)
    (insertion : Insertion) : Option (Status × Option Address × LRUCacheShard) := do
  let e := shard.fresh
  let shard := shard.allocate (insertion.entry hash)
  let (lastReferenceList, shard) ←
    evictFromLRU insertion.charge (shard.fresh + 1) shard []
  let (status, handle, lastReferenceList, shard) ←
    shard.insertEvicted rounding insertion e lastReferenceList
  let shard ← shard.freeAll lastReferenceList
  some (status, handle, shard)

/-- `Erase`. -/
def erase
    (shard : LRUCacheShard)
    (key : Bytes)
    (hash : UInt32) : Option LRUCacheShard := do
  let (e, table) ← shard.table.remove shard.heap key hash
  let shard := { shard with table := table }
  match e with
  | none => some shard
  | some e =>
      let (lastReference, shard) ← shard.unref e
      let handle ← shard.heap e
      let shard := if lastReference then
        { shard with usage := shard.usage - handle.charge } else shard
      let shard ← if lastReference ∧ handle.inCache then shard.lruRemove e else some shard
      let shard ← shard.setInCache e false
      if lastReference then shard.free e else some shard

/-- `GetUsage`. -/
def getUsage (shard : LRUCacheShard) : UInt64 := shard.usage

/-- `GetPinnedUsage`. -/
def getPinnedUsage (shard : LRUCacheShard) : Option UInt64 := do
  guard (shard.usage ≥ shard.lruUsage)
  some (shard.usage - shard.lruUsage)

/-- The destructor: that of the table frees the entries only it refers to. -/
def destroy (shard : LRUCacheShard) : Option LRUCacheShard :=
  shard.table.applyToAllCacheEntries LRUCacheShard.heap
    (fun e shard => do
      let handle ← shard.heap e
      if handle.refs = 1 then shard.free e else some shard)
    shard

end LRUCacheShard
end Cache
end RocksUtil
