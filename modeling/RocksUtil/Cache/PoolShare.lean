import RocksUtil.Cache.Invariants

/-!
# The share of the high-pri pool

`MaintainPoolSize` overflows entries until the pool is no larger than its capacity.
`LRU_Insert` calls it behind what makes the pool larger and `SetHighPriorityPoolRatio`
behind a change of its capacity, but `SetCapacity` does not: it evicts from the other end
of the list.  The pool keeps to its share in runs in which the entries of the pool that
each `SetCapacity` leaves fit their new share (`poolShare_of_reachable`).
-/

namespace RocksUtil
namespace Cache
namespace LRUCacheShard

variable {rounding : Rounding} {shard shard' shard'' : LRUCacheShard} {e : Address}

/-- The pool is no larger than its capacity. -/
def PoolFits (rounding : Rounding) (shard : LRUCacheShard) : Prop :=
  rounding.round shard.highPriPoolUsage.toNat ≤ shard.highPriPoolCapacity

/-- The capacity of the pool is as before, and the pool has not become larger than that
if it was not. -/
structure KeepsPool (rounding : Rounding) (shard shard' : LRUCacheShard) : Prop where
  capacity : shard'.capacity = shard.capacity
  highPriPoolRatio : shard'.highPriPoolRatio = shard.highPriPoolRatio
  highPriPoolCapacity : shard'.highPriPoolCapacity = shard.highPriPoolCapacity
  usage : shard'.highPriPoolUsage.toNat ≤ shard.highPriPoolUsage.toNat ∨
    PoolFits rounding shard'

namespace KeepsPool

theorem refl (shard : LRUCacheShard) : KeepsPool rounding shard shard :=
  ⟨rfl, rfl, rfl, .inl (Nat.le_refl _)⟩

theorem trans
    (first : KeepsPool rounding shard shard')
    (second : KeepsPool rounding shard' shard'') : KeepsPool rounding shard shard'' where
  capacity := second.capacity.trans first.capacity
  highPriPoolRatio := second.highPriPoolRatio.trans first.highPriPoolRatio
  highPriPoolCapacity := second.highPriPoolCapacity.trans first.highPriPoolCapacity
  usage := by
    rcases second.usage with smaller | fits
    · rcases first.usage with less | fits
      · exact .inl (Nat.le_trans smaller less)
      · right
        rw [PoolFits, second.highPriPoolCapacity]
        exact (rounding.monotone (Nat.cast_le.mpr smaller)).trans fits
    · exact .inr fits

theorem fits
    (keeps : KeepsPool rounding shard shard')
    (before : PoolFits rounding shard) : PoolFits rounding shard' := by
  rcases keeps.usage with smaller | fits
  · rw [PoolFits, keeps.highPriPoolCapacity]
    exact (rounding.monotone (Nat.cast_le.mpr smaller)).trans before
  · exact fits

/-! ## The list -/

theorem modify
    {change : LRUHandle → LRUHandle}
    (returns : shard.modify e change = some shard') :
    KeepsPool rounding shard shard' := by
  simp only [LRUCacheShard.modify, Option.bind_eq_bind, Option.bind_eq_some_iff] at returns
  obtain ⟨handle, -, isShard⟩ := returns
  obtain rfl := Option.some.inj isShard
  exact ⟨rfl, rfl, rfl, .inl (Nat.le_refl _)⟩

theorem unref
    {last : Bool}
    (returns : shard.unref e = some (last, shard')) : KeepsPool rounding shard shard' := by
  simp only [LRUCacheShard.unref, Option.bind_eq_bind, Option.bind_eq_some_iff] at returns
  obtain ⟨handle, -, -, -, middle, modified, isShard⟩ := returns
  obtain ⟨-, rfl⟩ := Prod.mk.inj (Option.some.inj isShard)
  exact modify modified

theorem free (returns : shard.free e = some shard') : KeepsPool rounding shard shard' := by
  simp only [LRUCacheShard.free, LRUCacheShard.freeUnchecked, Option.bind_eq_bind,
    Option.bind_eq_some_iff] at returns
  obtain ⟨-, -, -, -, handle, -, isShard⟩ := returns
  obtain rfl := Option.some.inj isShard
  exact ⟨rfl, rfl, rfl, .inl (Nat.le_refl _)⟩

theorem freeAll
    {entries : List Address}
    (returns : shard.freeAll entries = some shard') : KeepsPool rounding shard shard' := by
  induction entries generalizing shard with
  | nil =>
      obtain rfl := Option.some.inj returns
      exact refl shard
  | cons entry entries inductionHypothesis =>
      obtain ⟨middle, freed, rest⟩ := Option.bind_eq_some_iff.mp returns
      exact (free freed).trans (inductionHypothesis rest)

/-- `LRU_Remove` takes the charge of an entry of the pool off its usage. -/
theorem lruRemove (returns : shard.lruRemove e = some shard') :
    KeepsPool rounding shard shard' := by
  simp only [LRUCacheShard.lruRemove, Option.bind_eq_bind, Option.bind_eq_some_iff]
    at returns
  obtain ⟨next, -, prev, -, handle, -, returns⟩ := returns
  split at returns
  · obtain ⟨_, covered, isShard⟩ := Option.bind_eq_some_iff.mp returns
    obtain rfl := Option.some.inj isShard
    have less := (Option.guard_eq_some' _).mp covered
    refine ⟨rfl, rfl, rfl, .inl ?_⟩
    rw [UInt64.toNat_sub_of_le _ _ less]
    exact Nat.sub_le _ _
  · obtain rfl := Option.some.inj returns
    exact ⟨rfl, rfl, rfl, .inl (Nat.le_refl _)⟩

/-- `MaintainPoolSize` ends when the pool fits. -/
theorem maintainPoolSize
    {fuel : Nat}
    (returns : LRUCacheShard.maintainPoolSize rounding fuel shard = some shard') :
    KeepsPool rounding shard shard' ∧ PoolFits rounding shard' := by
  induction fuel generalizing shard with
  | zero => nomatch returns
  | succ fuel inductionHypothesis =>
      rw [LRUCacheShard.maintainPoolSize] at returns
      split at returns
      · simp only [Option.bind_eq_bind, Option.bind_eq_some_iff] at returns
        obtain ⟨next, -, -, -, middle, modified, handle, -, rest⟩ := returns
        have same : KeepsPool rounding _ middle := modify modified
        obtain ⟨later, fits⟩ := inductionHypothesis rest
        exact ⟨⟨later.capacity.trans same.capacity,
          later.highPriPoolRatio.trans same.highPriPoolRatio,
          later.highPriPoolCapacity.trans same.highPriPoolCapacity, .inr fits⟩, fits⟩
      · rename_i within
        obtain rfl := Option.some.inj returns
        exact ⟨refl shard, not_lt.mp within⟩

/-- `LRU_Insert` makes the pool larger only in front of `MaintainPoolSize`. -/
theorem lruInsert (returns : shard.lruInsert rounding e = some shard') :
    KeepsPool rounding shard shard' := by
  simp only [LRUCacheShard.lruInsert, Option.bind_eq_bind, Option.bind_eq_some_iff]
    at returns
  obtain ⟨-, -, -, -, handle, -, returns⟩ := returns
  split at returns
  · simp only [Option.bind_eq_some_iff] at returns
    obtain ⟨newest, -, flagged, modified, pooled, maintained, isShard⟩ := returns
    have same : KeepsPool rounding _ flagged := modify modified
    obtain ⟨later, fits⟩ := maintainPoolSize maintained
    obtain rfl := Option.some.inj isShard
    exact ⟨later.capacity.trans same.capacity,
      later.highPriPoolRatio.trans same.highPriPoolRatio,
      later.highPriPoolCapacity.trans same.highPriPoolCapacity, .inr fits⟩
  · simp only [Option.bind_eq_some_iff] at returns
    obtain ⟨next, -, flagged, modified, lowest, isLowest, isShard⟩ := returns
    have same : KeepsPool rounding _ flagged := modify modified
    obtain rfl := Option.some.inj isLowest
    obtain rfl := Option.some.inj isShard
    exact ⟨same.capacity, same.highPriPoolRatio, same.highPriPoolCapacity, same.usage⟩

/-! ## Eviction -/

theorem evictOldest
    (returns : shard.evictOldest = some (e, shard')) : KeepsPool rounding shard shard' := by
  simp only [LRUCacheShard.evictOldest, Option.bind_eq_bind, Option.bind_eq_some_iff]
    at returns
  obtain ⟨old, -, handle, -, -, -, -, -, first, removed, ⟨_, table⟩, -, second, uncached,
    ⟨last, third⟩, lowered, isShard⟩ := returns
  obtain ⟨-, rfl⟩ := Prod.mk.inj (Option.some.inj isShard)
  have off : KeepsPool rounding shard first := lruRemove removed
  have flagged : KeepsPool rounding _ second := modify uncached
  have before : KeepsPool rounding shard second :=
    off.trans ⟨flagged.capacity, flagged.highPriPoolRatio, flagged.highPriPoolCapacity,
      flagged.usage⟩
  have after := before.trans (unref lowered)
  exact ⟨after.capacity, after.highPriPoolRatio, after.highPriPoolCapacity, after.usage⟩

theorem evictFromLRU
    {charge : UInt64}
    {fuel : Nat}
    {deleted deleted' : List Address}
    (returns : LRUCacheShard.evictFromLRU charge fuel shard deleted =
      some (deleted', shard')) : KeepsPool rounding shard shard' := by
  induction fuel generalizing shard deleted with
  | zero => nomatch returns
  | succ fuel inductionHypothesis =>
      rw [LRUCacheShard.evictFromLRU] at returns
      split at returns
      · obtain ⟨⟨old, middle⟩, evicted, rest⟩ := Option.bind_eq_some_iff.mp returns
        exact (evictOldest evicted).trans (inductionHypothesis rest)
      · obtain ⟨-, rfl⟩ := Prod.mk.inj (Option.some.inj returns)
        exact refl shard

theorem evictAll
    {fuel : Nat}
    {deleted deleted' : List Address}
    (returns : LRUCacheShard.evictAll fuel shard deleted = some (deleted', shard')) :
    KeepsPool rounding shard shard' := by
  induction fuel generalizing shard deleted with
  | zero => nomatch returns
  | succ fuel inductionHypothesis =>
      rw [LRUCacheShard.evictAll] at returns
      split at returns
      · obtain ⟨⟨old, middle⟩, evicted, rest⟩ := Option.bind_eq_some_iff.mp returns
        exact (evictOldest evicted).trans (inductionHypothesis rest)
      · obtain ⟨-, rfl⟩ := Prod.mk.inj (Option.some.inj returns)
        exact refl shard

/-! ## Operations -/

theorem lookup
    {key : Bytes}
    {hash : UInt32}
    {result : Option Address}
    (returns : shard.lookup key hash = some (result, shard')) :
    KeepsPool rounding shard shard' := by
  simp only [LRUCacheShard.lookup, Option.bind_eq_bind, Option.bind_eq_some_iff] at returns
  obtain ⟨found, -, returns⟩ := returns
  cases found with
  | none =>
      obtain ⟨-, rfl⟩ := Prod.mk.inj (Option.some.inj returns)
      exact refl shard
  | some e =>
      simp only [Option.bind_eq_some_iff] at returns
      obtain ⟨handle, -, -, -, returns⟩ := returns
      split at returns
      · simp only [Option.bind_eq_some_iff] at returns
        obtain ⟨first, removed, second, modified, isShard⟩ := returns
        obtain ⟨-, rfl⟩ := Prod.mk.inj (Option.some.inj isShard)
        exact (lruRemove removed).trans (modify modified)
      · simp only [Option.bind_eq_some_iff] at returns
        obtain ⟨first, same, second, modified, isShard⟩ := returns
        obtain rfl := Option.some.inj same
        obtain ⟨-, rfl⟩ := Prod.mk.inj (Option.some.inj isShard)
        exact modify modified

theorem eraseUnRefEntries
    (returns : shard.eraseUnRefEntries = some shard') : KeepsPool rounding shard shard' := by
  obtain ⟨⟨deleted, middle⟩, evicted, freed⟩ := Option.bind_eq_some_iff.mp returns
  exact (evictAll evicted).trans (freeAll freed)

theorem dropOld
    {old : Option Address}
    {freed freed' : List Address}
    (returns : shard.dropOld old freed = some (freed', shard')) :
    KeepsPool rounding shard shard' := by
  cases old with
  | none =>
      obtain ⟨-, rfl⟩ := Prod.mk.inj (Option.some.inj returns)
      exact refl shard
  | some old =>
      simp only [LRUCacheShard.dropOld, Option.bind_eq_bind, Option.bind_eq_some_iff]
        at returns
      obtain ⟨first, uncached, ⟨last, second⟩, lowered, returns⟩ := returns
      have before : KeepsPool rounding shard second :=
        (modify uncached).trans (unref lowered)
      split at returns
      · simp only [Option.bind_eq_some_iff] at returns
        obtain ⟨handle, -, third, removed, isShard⟩ := returns
        obtain ⟨-, rfl⟩ := Prod.mk.inj (Option.some.inj isShard)
        have off : KeepsPool rounding _ third := lruRemove removed
        exact before.trans ⟨off.capacity, off.highPriPoolRatio, off.highPriPoolCapacity,
          off.usage⟩
      · obtain ⟨-, rfl⟩ := Prod.mk.inj (Option.some.inj returns)
        exact before

theorem insertEvicted
    {insertion : Insertion}
    {freed freed' : List Address}
    {status : Status}
    {handle : Option Address}
    (returns : shard.insertEvicted rounding insertion e freed =
      some (status, handle, freed', shard')) : KeepsPool rounding shard shard' := by
  unfold LRUCacheShard.insertEvicted at returns
  split at returns
  · split at returns
    · simp only [Option.some.injEq, Prod.mk.injEq] at returns
      obtain ⟨-, -, -, rfl⟩ := returns
      exact refl shard
    · simp only [Option.bind_eq_bind, Option.bind_eq_some_iff, Option.some.injEq,
        Prod.mk.injEq] at returns
      obtain ⟨-, -, -, -, -, rfl⟩ := returns
      exact ⟨rfl, rfl, rfl, .inl (Nat.le_refl _)⟩
  · simp only [Option.bind_eq_bind, Option.bind_eq_some_iff] at returns
    obtain ⟨⟨old, table⟩, -, ⟨freed₁, middle⟩, dropped, returns⟩ := returns
    have dropped : KeepsPool rounding _ middle := dropOld dropped
    have before : KeepsPool rounding shard middle := ⟨dropped.capacity,
      dropped.highPriPoolRatio, dropped.highPriPoolCapacity, dropped.usage⟩
    split at returns
    · simp only [Option.bind_eq_some_iff, Option.some.injEq, Prod.mk.injEq] at returns
      obtain ⟨last, inserted, -, -, -, rfl⟩ := returns
      exact before.trans (lruInsert inserted)
    · simp only [Option.some.injEq, Prod.mk.injEq] at returns
      obtain ⟨-, -, -, rfl⟩ := returns
      exact before

protected theorem insert
    {hash : UInt32}
    {insertion : Insertion}
    {status : Status}
    {handle : Option Address}
    (returns : shard.insert rounding hash insertion = some (status, handle, shard')) :
    KeepsPool rounding shard shard' := by
  simp only [LRUCacheShard.insert, Option.bind_eq_bind, Option.bind_eq_some_iff,
    Option.some.injEq, Prod.mk.injEq] at returns
  obtain ⟨⟨deleted, first⟩, evicted, ⟨_, _, freed, second⟩, inserted, third, isFreed, -, -,
    rfl⟩ := returns
  have off : KeepsPool rounding _ first := evictFromLRU evicted
  have before : KeepsPool rounding shard first := ⟨off.capacity, off.highPriPoolRatio,
    off.highPriPoolCapacity, off.usage⟩
  exact (before.trans (insertEvicted inserted)).trans (freeAll isFreed)

/-- The charge of an entry that nothing refers to any more. -/
theorem uncharged
    (keeps : KeepsPool rounding shard shard')
    (last : Bool)
    (charge : UInt64) :
    KeepsPool rounding shard
      (if last then { shard' with usage := shard'.usage - charge } else shard') := by
  cases last with
  | true => exact ⟨keeps.capacity, keeps.highPriPoolRatio, keeps.highPriPoolCapacity,
      keeps.usage⟩
  | false => exact keeps

/-- The call of `Free` at the end of an operation. -/
theorem freeLast
    {last : Bool}
    (returns : (if last then shard.free e else some shard) = some shard') :
    KeepsPool rounding shard shard' := by
  cases last with
  | true => exact free returns
  | false =>
      obtain rfl := Option.some.inj returns
      exact refl shard

theorem erase
    {key : Bytes}
    {hash : UInt32}
    (returns : shard.erase key hash = some shard') : KeepsPool rounding shard shard' := by
  simp only [LRUCacheShard.erase, Option.bind_eq_bind, Option.bind_eq_some_iff] at returns
  obtain ⟨⟨result, table⟩, -, returns⟩ := returns
  cases result with
  | none =>
      obtain rfl := Option.some.inj returns
      exact ⟨rfl, rfl, rfl, .inl (Nat.le_refl _)⟩
  | some e =>
      simp only [Option.bind_eq_some_iff] at returns
      obtain ⟨⟨last, first⟩, lowered, handle, -, returns⟩ := returns
      have lowered : KeepsPool rounding _ first := unref lowered
      have start : KeepsPool rounding shard first := ⟨lowered.capacity,
        lowered.highPriPoolRatio, lowered.highPriPoolCapacity, lowered.usage⟩
      have counted := start.uncharged last handle.charge
      dsimp only at returns
      generalize (if last = true then
        { first with usage := first.usage - handle.charge } else first) = second
          at returns counted
      split at returns
      · simp only [Option.bind_eq_some_iff] at returns
        obtain ⟨third, removed, fourth, uncached, returns⟩ := returns
        exact (counted.trans (lruRemove removed)).trans
          ((modify uncached).trans (freeLast returns))
      · simp only [Option.bind_eq_some_iff] at returns
        obtain ⟨third, same, fourth, uncached, returns⟩ := returns
        obtain rfl := Option.some.inj same
        exact counted.trans ((modify uncached).trans (freeLast returns))

theorem release (returns : shard.release rounding e = some shard') :
    KeepsPool rounding shard shard' := by
  simp only [LRUCacheShard.release, LRUCacheShard.releaseWith, Option.bind_eq_bind,
    Option.bind_eq_some_iff] at returns
  obtain ⟨⟨last, first⟩, lowered, handle, -, returns⟩ := returns
  have lowered : KeepsPool rounding shard first := unref lowered
  have counted := lowered.uncharged last handle.charge
  dsimp only at returns
  generalize (if last = true then
    { first with usage := first.usage - handle.charge } else first) = second
      at returns counted
  split at returns
  · split at returns
    · simp only [Option.bind_eq_some_iff] at returns
      obtain ⟨-, -, ⟨result, table⟩, -, third, uncached, ⟨_, fourth⟩, lowered', _, same,
        returns⟩ := returns
      obtain rfl := Option.some.inj same
      have flagged : KeepsPool rounding _ third := modify uncached
      have before : KeepsPool rounding second fourth := trans ⟨flagged.capacity,
        flagged.highPriPoolRatio, flagged.highPriPoolCapacity, flagged.usage⟩
          (unref lowered')
      rw [if_pos rfl] at returns
      have freed : KeepsPool rounding _ shard' := free returns
      exact counted.trans (before.trans ⟨freed.capacity, freed.highPriPoolRatio,
        freed.highPriPoolCapacity, freed.usage⟩)
    · simp only [Option.bind_eq_some_iff] at returns
      obtain ⟨third, inserted, _, same, returns⟩ := returns
      obtain rfl := Option.some.inj same
      exact counted.trans ((lruInsert inserted).trans (freeLast returns))
  · simp only [Option.bind_eq_some_iff] at returns
    obtain ⟨_, same, returns⟩ := returns
    obtain rfl := Option.some.inj same
    exact counted.trans (freeLast returns)

end KeepsPool

/-- The calls that change the capacity of the pool. -/
def Op.setsPool : Op → Bool
  | .setCapacity _ => true
  | .setHighPriorityPoolRatio _ => true
  | _ => false

/-- The others keep it, and do not make the pool larger than that. -/
theorem KeepsPool.call
    {hashOf : Bytes → UInt32}
    {op : Op}
    {answer : Answer}
    (returns : shard.call rounding hashOf op = some (answer, shard'))
    (others : op.setsPool = false) :
    KeepsPool rounding shard shard' := by
  cases op with
  | setCapacity capacity => nomatch others
  | setHighPriorityPoolRatio ratio => nomatch others
  | setStrictCapacityLimit strictCapacityLimit =>
      obtain ⟨-, rfl⟩ := Prod.mk.inj (Option.some.inj returns)
      exact ⟨rfl, rfl, rfl, .inl (Nat.le_refl _)⟩
  | insert insertion =>
      obtain ⟨⟨status, handle, last⟩, inserted, same⟩ := Option.bind_eq_some_iff.mp returns
      obtain ⟨-, rfl⟩ := Prod.mk.inj (Option.some.inj same)
      exact KeepsPool.insert inserted
  | lookup key =>
      obtain ⟨⟨result, last⟩, found, same⟩ := Option.bind_eq_some_iff.mp returns
      obtain ⟨-, rfl⟩ := Prod.mk.inj (Option.some.inj same)
      exact KeepsPool.lookup found
  | release e =>
      obtain ⟨last, released, same⟩ := Option.bind_eq_some_iff.mp returns
      obtain ⟨-, rfl⟩ := Prod.mk.inj (Option.some.inj same)
      exact KeepsPool.release released
  | erase key =>
      obtain ⟨last, erased, same⟩ := Option.bind_eq_some_iff.mp returns
      obtain ⟨-, rfl⟩ := Prod.mk.inj (Option.some.inj same)
      exact KeepsPool.erase erased
  | eraseUnRefEntries =>
      obtain ⟨last, erased, same⟩ := Option.bind_eq_some_iff.mp returns
      obtain ⟨-, rfl⟩ := Prod.mk.inj (Option.some.inj same)
      exact KeepsPool.eraseUnRefEntries erased

/-! ## `SetCapacity` -/

/-- The entries of the list, the oldest first. -/
def entries (shard : LRUCacheShard) : List Address :=
  shard.links.walk lru (shard.fresh + 1) (shard.links.next lru)

/-- The entry at an address is flagged as in the pool. -/
def pooled (heap : Heap) (address : Address) : Bool :=
  (heap address).elim false LRUHandle.inHighPriPool

/-- The charges of the entries of the pool that are left when as many of the oldest
entries are evicted as do not fit `capacity`. -/
def poolLeft (shard : LRUCacheShard) (capacity : Nat) : Nat :=
  let evicted :=
    evictable capacity 0 (chargeAt shard.heap) shard.usage.toNat shard.entries
  listCharge shard.heap
    ((shard.entries.drop evicted.length).filter (pooled shard.heap))

variable {hashOf : Bytes → UInt32} {handles low high : List Address}

theorem Consistent.entries_eq
    (consistent : Consistent hashOf shard handles ∅ low high) :
    shard.entries = low ++ high :=
  consistent.accounts.list.ring.walk
    (Nat.lt_succ_of_le consistent.accounts.length_list_le)

/-- The pool are the entries of the list that are flagged so. -/
theorem Listed.filter_pooled (listed : Listed shard low high) :
    (low ++ high).filter (pooled shard.heap) = high := by
  have isPooled {address : Address} (within : address ∈ low ++ high) :
      pooled shard.heap address = true ↔ address ∈ high := by
    obtain ⟨handle, found, flag⟩ := listed.flagged address within
    rw [pooled, found]
    exact flag
  have apart := List.disjoint_of_nodup_append listed.distinct
  rw [List.filter_append, List.filter_eq_nil_iff.mpr, List.nil_append,
    List.filter_eq_self.mpr]
  · exact fun address within => (isPooled (List.mem_append_right low within)).mpr within
  · exact fun address within isFlagged => apart within
      ((isPooled (List.mem_append_left high within)).mp isFlagged)

/-- What `SetCapacity` leaves of the pool. -/
theorem setCapacity_pool
    (consistent : Consistent hashOf shard handles ∅ low high)
    (nonneg : 0 ≤ shard.highPriPoolRatio)
    {capacity : UInt64}
    (returns : shard.setCapacity rounding capacity = some shard') :
    shard'.capacity = capacity ∧ shard'.highPriPoolRatio = shard.highPriPoolRatio ∧
      shard'.highPriPoolCapacity =
        rounding.round (rounding.round capacity.toNat * shard.highPriPoolRatio) ∧
      shard'.highPriPoolUsage.toNat = shard.poolLeft capacity.toNat := by
  obtain ⟨⟨deleted, middle⟩, evicts, freed⟩ := Option.bind_eq_some_iff.mp returns
  have keeps : KeepsPool rounding _ shard' :=
    (KeepsPool.evictFromLRU evicts).trans (KeepsPool.freeAll freed)
  refine ⟨keeps.capacity, keeps.highPriPoolRatio, keeps.highPriPoolCapacity, ?_⟩
  obtain ⟨evicted, shard'', low', high', run, isEvictable, split, -, consistent', -, -,
    others⟩ := setCapacity_spec rounding consistent nonneg capacity
  obtain rfl := Option.some.inj (returns.symm.trans run)
  have distinct := consistent.accounts.list.distinct
  rw [split] at distinct
  have same : ∀ address ∈ low' ++ high', shard'.heap address = shard.heap address :=
    fun address within => others address fun isEvicted =>
      List.disjoint_of_nodup_append distinct isEvicted within
  have pool : (low' ++ high').filter (pooled shard.heap) = high' := by
    refine (List.filter_congr fun address within => ?_).trans
      consistent'.accounts.list.filter_pooled
    rw [pooled, pooled, same address within]
  rw [poolLeft, consistent.entries_eq, ← isEvictable, split, List.drop_left, pool,
    consistent'.accounts.list.highPriPoolUsage]
  refine listCharge_congr fun address within => ?_
  rw [chargeAt, chargeAt, same address (List.mem_append_right low' within)]

/-! ## Runs -/

variable {session session' : Session} {op : Op} {answer : Answer}

/-- The call is no `SetCapacity`, or what it leaves of the pool fits the new share. -/
def Session.LeavesShare (rounding : Rounding) (session : Session) : Op → Prop
  | .setCapacity capacity =>
      rounding.round (session.shard.poolLeft capacity.toNat) ≤
        rounding.round (rounding.round capacity.toNat * session.shard.highPriPoolRatio)
  | _ => True

instance (session : Session) : (op : Op) → Decidable (session.LeavesShare Rounding.exact op)
  | .setCapacity capacity => inferInstanceAs (Decidable
      ((session.shard.poolLeft capacity.toNat : ℚ) ≤
        capacity.toNat * session.shard.highPriPoolRatio))
  | .insert _ => isTrue trivial
  | .lookup _ => isTrue trivial
  | .release _ => isTrue trivial
  | .erase _ => isTrue trivial
  | .setStrictCapacityLimit _ => isTrue trivial
  | .setHighPriorityPoolRatio _ => isTrue trivial
  | .eraseUnRefEntries => isTrue trivial

/-- The capacity of the pool is its share of the capacity, and the pool is no larger. -/
structure Shares (rounding : Rounding) (shard : LRUCacheShard) : Prop where
  capacity_eq : shard.highPriPoolCapacity =
    rounding.round (rounding.round shard.capacity.toNat * shard.highPriPoolRatio)
  fits : PoolFits rounding shard

theorem Session.call_of_step
    (steps : session.step rounding hashOf op = some (answer, session')) :
    session.shard.call rounding hashOf op = some (answer, session'.shard) := by
  obtain ⟨⟨answer', shard'⟩, called, same⟩ := Option.bind_eq_some_iff.mp steps
  obtain ⟨rfl, rfl⟩ := Prod.mk.inj (Option.some.inj same)
  exact called

/-- A `SetCapacity` leaves the pool within its share if and only if the entries that it
leaves in it fit. -/
theorem shares_setCapacity_iff
    (resting : Resting hashOf session low high)
    {capacity : UInt64}
    (steps : session.step rounding hashOf (.setCapacity capacity) =
      some (answer, session')) :
    session'.shard.highPriPoolCapacity =
        rounding.round (rounding.round session'.shard.capacity.toNat *
          session'.shard.highPriPoolRatio) ∧
      (PoolFits rounding session'.shard ↔
        session.LeavesShare rounding (.setCapacity capacity)) := by
  have called := Session.call_of_step steps
  obtain ⟨last, returns, same⟩ := Option.bind_eq_some_iff.mp called
  obtain ⟨-, rfl⟩ := Prod.mk.inj (Option.some.inj same)
  obtain ⟨isCapacity, isRatio, isShare, left⟩ :=
    setCapacity_pool resting.consistent resting.ratio returns
  rw [isCapacity, isRatio, PoolFits, isShare, left]
  exact ⟨rfl, Iff.rfl⟩

theorem Shares.step
    (shares : Shares rounding session.shard)
    (resting : Resting hashOf session low high)
    (leaves : session.LeavesShare rounding op)
    (steps : session.step rounding hashOf op = some (answer, session')) :
    Shares rounding session'.shard := by
  have called := Session.call_of_step steps
  have kept (keeps : KeepsPool rounding session.shard session'.shard) :
      Shares rounding session'.shard :=
    ⟨by rw [keeps.highPriPoolCapacity, keeps.capacity, keeps.highPriPoolRatio,
      shares.capacity_eq], keeps.fits shares.fits⟩
  cases op with
  | setCapacity capacity =>
      obtain ⟨isShare, fits⟩ := shares_setCapacity_iff resting steps
      exact ⟨isShare, fits.mpr leaves⟩
  | setHighPriorityPoolRatio ratio =>
      obtain ⟨last, returns, same⟩ := Option.bind_eq_some_iff.mp called
      obtain ⟨-, rfl⟩ := Prod.mk.inj (Option.some.inj same)
      obtain ⟨keeps, fits⟩ := KeepsPool.maintainPoolSize returns
      exact ⟨by rw [keeps.highPriPoolCapacity, keeps.capacity, keeps.highPriPoolRatio],
        fits⟩
  | insert insertion => exact kept (.call called rfl)
  | lookup key => exact kept (.call called rfl)
  | release e => exact kept (.call called rfl)
  | erase key => exact kept (.call called rfl)
  | setStrictCapacityLimit strict => exact kept (.call called rfl)
  | eraseUnRefEntries => exact kept (.call called rfl)

theorem Session.Reachable.shares
    (reachable : session.Reachable rounding hashOf (Session.LeavesShare rounding)) :
    Shares rounding session.shard := by
  obtain ⟨memory, capacity, strictCapacityLimit, ratio, shard, nonneg, start,
    continues⟩ := reachable
  rw [setUp_eq rounding memory capacity strictCapacityLimit nonneg] at start
  obtain rfl := Option.some.inj start
  have poolNonneg := rounding.poolCapacity_nonneg capacity nonneg
  have resting := resting_new hashOf capacity strictCapacityLimit nonneg poolNonneg
  induction continues with
  | refl =>
      refine ⟨rfl, ?_⟩
      change rounding.round ((0 : UInt64).toNat : ℚ) ≤ _
      rw [UInt64.toNat_zero, Nat.cast_zero, rounding.round_zero]
      exact poolNonneg
  | step before admits permits steps inductionHypothesis =>
      obtain ⟨low, high, resting'⟩ := before.resting resting
      exact inductionHypothesis.step resting' permits steps

/-- A new shard with a capacity of four and a pool of half of it. -/
def halfSession : Session := ⟨new 4 false (1 / 2) 2, []⟩

theorem setUp_half :
    setUp Rounding.exact (0, false, 0, 0) 4 false (1 / 2) = some halfSession.shard := by
  have pool : Rounding.exact.round (Rounding.exact.round (4 : UInt64).toNat * (1 / 2)) =
      2 := by
    change ((4 : Nat) : ℚ) * (1 / 2) = 2
    norm_num
  rw [setUp_eq _ _ _ _ (by norm_num), pool]
  rfl

/-- Two entries that fill the pool. -/
def fillPool : List Op :=
  [.insert ⟨[1], 10, 1, none, false, .high, false⟩,
    .insert ⟨[2], 11, 1, none, false, .high, false⟩]

end LRUCacheShard
end Cache
end RocksUtil
