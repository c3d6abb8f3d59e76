import RocksUtil.Cache.ShardedCache
import RocksUtil.Hash

/-!
# How keys spread over the shards

`HashSlice` decides which shard a key belongs to.  The shard is told by the upper bits of
the hash, and all values are hashed to equally often, so that no shard is given more of the
keys of one length than another.
-/

namespace RocksUtil
namespace Cache
namespace ShardedCache

/-- `HashSlice`. -/
def hashSlice (s : Bytes) : UInt32 := Hash.hash s 0

theorem toNat_shardOf
    {numShardBits : Nat}
    (few : numShardBits < 20)
    (hash : UInt32) :
    (shardOf numShardBits hash).toNat = hash.toNat / 2 ^ (32 - numShardBits) := by
  have bound := hash.toNat_lt
  by_cases positive : 0 < numShardBits
  · have shift : (UInt32.ofNat (32 - numShardBits)).toNat % 32 = 32 - numShardBits := by
      rw [UInt32.toNat_ofNat_of_lt' (by change _ < 2 ^ 32; omega)]
      omega
    rw [shardOf, if_pos positive, UInt32.toNat_shiftRight, shift, Nat.shiftRight_eq_div_pow]
  · rw [shardOf, if_neg positive, Nat.eq_zero_of_not_pos positive,
      Nat.div_eq_of_lt (by simpa using bound)]
    rfl

/-- The hash values of a shard are told apart by their lower bits. -/
def shardEquiv
    {numShardBits index : Nat}
    (few : numShardBits < 20)
    (isShard : index < 2 ^ numShardBits) :
    {value : UInt32 // (shardOf numShardBits value).toNat = index} ≃
      Fin (2 ^ (32 - numShardBits)) :=
  have small (lower : Fin (2 ^ (32 - numShardBits))) :
      (UInt32.ofNat (index * 2 ^ (32 - numShardBits) + lower)).toNat =
        index * 2 ^ (32 - numShardBits) + lower := by
    apply UInt32.toNat_ofNat_of_lt'
    calc index * 2 ^ (32 - numShardBits) + lower
        < (index + 1) * 2 ^ (32 - numShardBits) := by
          rw [Nat.succ_mul]
          exact Nat.add_lt_add_left lower.isLt _
      _ ≤ 2 ^ numShardBits * 2 ^ (32 - numShardBits) := Nat.mul_le_mul_right _ isShard
      _ = UInt32.size := by
          rw [← Nat.pow_add, Nat.add_sub_cancel' (by omega), UInt32.size]
  { toFun := fun value =>
      ⟨value.1.toNat % 2 ^ (32 - numShardBits), Nat.mod_lt _ (Nat.two_pow_pos _)⟩
    invFun := fun lower => ⟨.ofNat (index * 2 ^ (32 - numShardBits) + lower), by
      rw [toNat_shardOf few, small, Nat.mul_comm, Nat.mul_add_div (Nat.two_pow_pos _),
        Nat.div_eq_of_lt lower.isLt, Nat.add_zero]⟩
    left_inv := by
      rintro ⟨value, isIndex⟩
      have upper := isIndex
      rw [toNat_shardOf few] at upper
      apply Subtype.ext
      apply UInt32.toNat_inj.mp
      rw [small]
      change index * _ + value.toNat % _ = value.toNat
      rw [← upper, Nat.mul_comm, Nat.div_add_mod]
    right_inv := by
      intro lower
      apply Fin.ext
      change (UInt32.ofNat (index * 2 ^ (32 - numShardBits) + lower)).toNat % _ = _
      rw [small, Nat.mul_comm, Nat.mul_add_mod, Nat.mod_eq_of_lt lower.isLt] }

/-- Every shard is given the same number of the keys of one length. -/
theorem keys_spread_evenly
    {cache : ShardedCache}
    {n index : Nat}
    (few : cache.numShardBits < 20)
    (isLong : 4 ≤ n)
    (isShard : index < 2 ^ cache.numShardBits) :
    Nat.card {key : Bytes // key.length = n ∧ cache.shardOfKey hashSlice key = index} *
      2 ^ cache.numShardBits = 256 ^ n := by
  have keys : Nat.card
      {key : Bytes // key.length = n ∧ cache.shardOfKey hashSlice key = index} = _ :=
    Hash.card_keys isLong 0 (fun value => (shardOf cache.numShardBits value).toNat = index)
  have values : Nat.card
      {value : UInt32 // (shardOf cache.numShardBits value).toNat = index} =
        2 ^ (32 - cache.numShardBits) := by
    rw [Nat.card_congr (shardEquiv few isShard), Nat.card_fin]
  calc _ = 256 ^ (n - 4) * (2 ^ (32 - cache.numShardBits) * 2 ^ cache.numShardBits) := by
        rw [keys, values, Nat.mul_assoc]
    _ = 256 ^ (n - 4) * 256 ^ 4 := by
        rw [← Nat.pow_add, Nat.sub_add_cancel (by omega : cache.numShardBits ≤ 32)]
        rfl
    _ = 256 ^ n := by rw [← Nat.pow_add, Nat.sub_add_cancel isLong]

/-- Of the keys of six bytes, half belong to the second of two shards. -/
theorem keys_spread_evenly_two :
    Nat.card {key : Bytes // key.length = 6 ∧
      ShardedCache.shardOfKey hashSlice ⟨1, 0, false, []⟩ key = 1} = 256 ^ 6 / 2 := by
  have spread := @keys_spread_evenly ⟨1, 0, false, []⟩ 6 1 (by decide) (by decide) (by decide)
  have half : (256 : Nat) ^ 6 = 256 ^ 6 / 2 * 2 ^ 1 := by decide
  rw [half] at spread
  exact Nat.eq_of_mul_eq_mul_right (by decide) spread

end ShardedCache
end Cache
end RocksUtil
