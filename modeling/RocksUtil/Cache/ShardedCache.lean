import Mathlib.Tactic.IntervalCases
import RocksUtil.Cache.Runs

/-!
# The sharded cache

`ShardedCache` and `LRUCache`: the upper bits of the hash of a key say which shard a
call goes to, and `SetCapacity` divides the capacity among the shards, rounding up.  The
sum that it divides is a `size_t`, so that it wraps for the largest capacities
(`toNat_perShard`).
-/

namespace RocksUtil
namespace Cache

/-- A pointer to an entry, with the shard that has allocated it. -/
structure Handle where
  shard : Nat
  address : Address
  deriving DecidableEq, Repr

/-- `class LRUCache`, with the members of `ShardedCache` that it uses. -/
structure ShardedCache where
  /-- `num_shard_bits_`, which is not negative. -/
  numShardBits : Nat
  /-- `capacity_`. -/
  capacity : UInt64
  /-- `strict_capacity_limit_`. -/
  strictCapacityLimit : Bool
  /-- `shards_`. -/
  shards : List LRUCacheShard

namespace ShardedCache

open LRUCacheShard (Op Answer Insertion)

/-- `num_shards`, an `int`. -/
def numShards (numShardBits : Nat) : Int32 := 1 <<< Int32.ofNat numShardBits

/-- An `int` as a `size_t`. -/
def sizeT (number : Int32) : UInt64 := number.toInt64.toUInt64

/-- `per_shard`: the capacity of each shard. -/
def perShard (capacity : UInt64) (numShardBits : Nat) : UInt64 :=
  (capacity + sizeT (numShards numShardBits - 1)) / sizeT (numShards numShardBits)

/-- `Shard`. -/
def shardOf (numShardBits : Nat) (hash : UInt32) : UInt32 :=
  if 0 < numShardBits then hash >>> UInt32.ofNat (32 - numShardBits) else 0

/-! ## The methods -/

section Methods

variable (rounding : Rounding) (hashOf : Bytes → UInt32)

/-- `SetCapacity`. -/
def setCapacity (cache : ShardedCache) (capacity : UInt64) : Option ShardedCache := do
  let shards ← cache.shards.mapM (fun shard =>
    shard.setCapacity rounding (perShard capacity cache.numShardBits))
  some { cache with shards := shards, capacity := capacity }

/-- `SetStrictCapacityLimit`. -/
def setStrictCapacityLimit (cache : ShardedCache) (strictCapacityLimit : Bool) :
    ShardedCache :=
  { cache with
    shards := cache.shards.map (·.setStrictCapacityLimit strictCapacityLimit)
    strictCapacityLimit := strictCapacityLimit }

/-- `EraseUnRefEntries`. -/
def eraseUnRefEntries (cache : ShardedCache) : Option ShardedCache := do
  let shards ← cache.shards.mapM LRUCacheShard.eraseUnRefEntries
  some { cache with shards := shards }

/-- Make a call of one shard. -/
def onShard (cache : ShardedCache) (index : Nat) (op : Op) :
    Option (Answer × ShardedCache) := do
  let shard ← cache.shards[index]?
  let (answer, shard) ← shard.call rounding hashOf op
  some (answer, { cache with shards := cache.shards.set index shard })

/-- The shard that a key belongs to. -/
def shardOfKey (cache : ShardedCache) (key : Bytes) : Nat :=
  (shardOf cache.numShardBits (hashOf key)).toNat

/-- `GetHash`: what is stored in the entry. -/
def getHash (cache : ShardedCache) (handle : Handle) : Option UInt32 := do
  let shard ← cache.shards[handle.shard]?
  let entry ← shard.heap handle.address
  some entry.hash

/-- `Insert`. -/
protected def insert (cache : ShardedCache) (insertion : Insertion) :
    Option (Answer × ShardedCache) :=
  cache.onShard rounding hashOf (cache.shardOfKey hashOf insertion.key) (.insert insertion)

/-- `Lookup`. -/
def lookup (cache : ShardedCache) (key : Bytes) : Option (Answer × ShardedCache) :=
  cache.onShard rounding hashOf (cache.shardOfKey hashOf key) (.lookup key)

/-- `Erase`. -/
def erase (cache : ShardedCache) (key : Bytes) : Option (Answer × ShardedCache) :=
  cache.onShard rounding hashOf (cache.shardOfKey hashOf key) (.erase key)

/-- `Release`, of a handle that is not null.  A shard that is handed an entry which it
has not allocated goes astray. -/
def release (cache : ShardedCache) (handle : Handle) :
    Option (Answer × ShardedCache) := do
  let hash ← cache.getHash handle
  let index := (shardOf cache.numShardBits hash).toNat
  guard (index = handle.shard)
  cache.onShard rounding hashOf index (.release handle.address)

/-- The constructor of `LRUCache`.  What the members of the shards that are not
initialised held before is arbitrary. -/
def construct
    (memory : Nat → UInt64 × Bool × ℚ × ℚ)
    (capacity : UInt64)
    (numShardBits : Nat)
    (strictCapacityLimit : Bool)
    (highPriPoolRatio : ℚ) : Option ShardedCache := do
  let shards := (List.range (sizeT (numShards numShardBits)).toNat).map (fun index =>
    LRUCacheShard.new (memory index).1 (memory index).2.1 (memory index).2.2.1
      (memory index).2.2.2)
  let cache : ShardedCache := ⟨numShardBits, capacity, strictCapacityLimit, shards⟩
  let cache ← cache.setCapacity rounding capacity
  let cache := cache.setStrictCapacityLimit strictCapacityLimit
  let shards ← cache.shards.mapM (fun shard =>
    shard.setHighPriorityPoolRatio rounding highPriPoolRatio)
  some { cache with shards := shards }

/-- `NewLRUCache`: a cache, or null where the arguments are refused. -/
def newLRUCache
    (memory : Nat → UInt64 × Bool × ℚ × ℚ)
    (capacity : UInt64)
    (numShardBits : Nat)
    (strictCapacityLimit : Bool)
    (highPriPoolRatio : ℚ) : Option (Option ShardedCache) :=
  if 20 ≤ numShardBits then
    -- The cache cannot be sharded into too many fine pieces.
    some none
  else if highPriPoolRatio < 0 ∨ 1 < highPriPoolRatio then
    some none
  else
    (construct rounding memory capacity numShardBits strictCapacityLimit
      highPriPoolRatio).map some

end Methods

/-! ## Integers -/

section Integers

variable {numShardBits : Nat}

theorem toNat_numShards (few : numShardBits < 20) :
    (sizeT (numShards numShardBits)).toNat = 2 ^ numShardBits := by
  interval_cases numShardBits <;> decide

theorem toNat_numShards_sub_one (few : numShardBits < 20) :
    (sizeT (numShards numShardBits - 1)).toNat = 2 ^ numShardBits - 1 := by
  interval_cases numShardBits <;> decide

/-- The capacity of a shard, with the sum that is divided taken modulo `2 ^ 64`. -/
theorem toNat_perShard (few : numShardBits < 20) (capacity : UInt64) :
    (perShard capacity numShardBits).toNat =
      (capacity.toNat + (2 ^ numShardBits - 1)) % 2 ^ 64 / 2 ^ numShardBits := by
  rw [perShard, UInt64.toNat_div, UInt64.toNat_add, toNat_numShards few,
    toNat_numShards_sub_one few]

/-- Division that rounds up, as long as the sum does not wrap. -/
theorem perShard_split_iff (few : numShardBits < 20) (capacity : UInt64) :
    (capacity.toNat ≤ 2 ^ numShardBits * (perShard capacity numShardBits).toNat ∧
        2 ^ numShardBits * (perShard capacity numShardBits).toNat <
          capacity.toNat + 2 ^ numShardBits) ↔
      capacity.toNat + 2 ^ numShardBits ≤ 2 ^ 64 := by
  have bound := capacity.toNat_lt
  have positive : 0 < 2 ^ numShardBits := Nat.two_pow_pos numShardBits
  rw [toNat_perShard few]
  constructor
  · intro split
    by_contra wraps
    have small : 2 ^ numShardBits < 2 ^ 20 := Nat.pow_lt_pow_right (by omega) few
    have low : (capacity.toNat + (2 ^ numShardBits - 1)) % 2 ^ 64 < 2 ^ numShardBits := by
      omega
    rw [Nat.div_eq_of_lt low] at split
    omega
  · intro fits
    rw [Nat.mod_eq_of_lt (by omega)]
    have whole := Nat.div_add_mod (capacity.toNat + (2 ^ numShardBits - 1))
      (2 ^ numShardBits)
    have rest := Nat.mod_lt (capacity.toNat + (2 ^ numShardBits - 1)) positive
    constructor <;> omega

/-- Every hash belongs to an existing shard. -/
theorem shardOf_lt (few : numShardBits < 20) (hash : UInt32) :
    (shardOf numShardBits hash).toNat < 2 ^ numShardBits := by
  unfold shardOf
  split
  · rename_i positive
    have bound := hash.toNat_lt
    have shift : (UInt32.ofNat (32 - numShardBits)).toNat % 32 = 32 - numShardBits := by
      rw [UInt32.toNat_ofNat_of_lt' (by change _ < 2 ^ 32; omega)]
      omega
    rw [UInt32.toNat_shiftRight, shift, Nat.shiftRight_eq_div_pow,
      Nat.div_lt_iff_lt_mul (Nat.two_pow_pos _), ← Nat.pow_add,
      Nat.add_sub_cancel' (by omega)]
    exact bound
  · exact Nat.two_pow_pos _

end Integers

end ShardedCache
end Cache
end RocksUtil
