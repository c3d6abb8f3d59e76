import RocksUtil.Cache.Eviction

/-!
# The operations of a shard

What each operation does to a shard whose accounts are complete: the entries it
frees, in order, the list and the reference counts afterwards, and the value it
returns.
-/

namespace RocksUtil
namespace Cache
namespace LRUCacheShard

open LRUHandleTable (Represents Finds without displace)

variable {hashOf : Bytes → UInt32} {shard shard' : LRUCacheShard}
  {handles handles' : List Address} {outside outside' : Finset Address}
  {low high low' high' : List Address} {e : Address} {handle handle' : LRUHandle}

/-- An operation has freed `freed`, calling their deleters in order, and has left
the settings and what the other entries were inserted with alone. -/
structure Settles
    (shard shard' : LRUCacheShard)
    (freed : List Address) : Prop where
  capacity : shard'.capacity = shard.capacity
  strictCapacityLimit : shard'.strictCapacityLimit = shard.strictCapacityLimit
  highPriPoolRatio : shard'.highPriPoolRatio = shard.highPriPoolRatio
  fresh : shard'.fresh = shard.fresh
  deletions : shard'.deletions = shard.deletions ++ freed.flatMap (deletionOf shard.heap)
  distinct : freed.Nodup
  released : ∀ address ∈ freed, shard'.heap address = none ∧
    ∃ handle, shard.heap address = some handle
  missing : ∀ address, shard.heap address = none → shard'.heap address = none
  present : ∀ address handle, shard.heap address = some handle → address ∉ freed →
    ∃ handle', shard'.heap address = some handle' ∧ handle'.identity = handle.identity ∧
      (handle'.inCache = true → handle.inCache = true)

theorem deletionOf_congr
    (keeps : Keeps shard shard')
    (address : Address) :
    deletionOf shard'.heap address = deletionOf shard.heap address := by
  cases found : shard.heap address with
  | none => rw [deletionOf, keeps.missing address found, deletionOf, found]
  | some handle =>
      obtain ⟨handle', found', same, -⟩ := keeps.present address handle found
      simp only [deletionOf, found', found, Option.elim_some, LRUHandle.deleter_eq same,
        LRUHandle.value_eq same, LRUHandle.key_eq same]

/-- Nothing is freed. -/
theorem Keeps.settles (keeps : Keeps shard shard') : Settles shard shard' [] where
  capacity := keeps.capacity
  strictCapacityLimit := keeps.strictCapacityLimit
  highPriPoolRatio := keeps.highPriPoolRatio
  fresh := keeps.fresh
  deletions := by simp [keeps.deletions]
  distinct := List.nodup_nil
  released := by simp
  missing := keeps.missing
  present address handle found _ := keeps.present address handle found

/-- The calls of `Free` at the end of an operation. -/
theorem Keeps.settles_freeAll
    {freed : List Address}
    (keeps : Keeps shard shard')
    (distinct : freed.Nodup)
    (freeable : ∀ address ∈ freed, ∃ handle, shard'.heap address = some handle ∧
      Freeable handle) :
    Settles shard { shard' with
      heap := fun address => if address ∈ freed then none else shard'.heap address
      deletions := shard'.deletions ++ freed.flatMap (deletionOf shard'.heap) } freed where
  capacity := keeps.capacity
  strictCapacityLimit := keeps.strictCapacityLimit
  highPriPoolRatio := keeps.highPriPoolRatio
  fresh := keeps.fresh
  deletions := by
    have sameDeletions : deletionOf shard'.heap = deletionOf shard.heap :=
      funext (deletionOf_congr keeps)
    simp only [keeps.deletions, sameDeletions]
  distinct := distinct
  released address within := by
    refine ⟨if_pos within, ?_⟩
    obtain ⟨handle', found', -⟩ := freeable address within
    cases found : shard.heap address with
    | none =>
        rw [keeps.missing address found] at found'
        exact absurd found'.symm (Option.some_ne_none handle')
    | some handle => exact ⟨handle, rfl⟩
  missing address free := by
    by_cases within : address ∈ freed
    · exact if_pos within
    · simp only [within, if_false]
      exact keeps.missing address free
  present address handle found kept := by
    obtain ⟨handle', found', facts⟩ := keeps.present address handle found
    exact ⟨handle', by simp only [kept, if_false, found'], facts⟩

/-- The end of an operation: the entries not accounted for are freed. -/
theorem Consistent.freeAll_spec
    {freed : List Address}
    (consistent : Consistent hashOf shard' handles outside low high)
    (keeps : Keeps shard shard')
    (distinct : freed.Nodup)
    (all : ∀ address, address ∈ outside ↔ address ∈ freed)
    (freeable : ∀ address ∈ freed, ∃ handle, shard'.heap address = some handle ∧
      Freeable handle) :
    ∃ shard'', shard'.freeAll freed = some shard'' ∧
      Consistent hashOf shard'' handles ∅ low high ∧ Settles shard shard'' freed ∧
      shard''.usage = shard'.usage ∧
      ∀ address, address ∉ freed → shard''.heap address = shard'.heap address := by
  refine ⟨_, freeAll_eq distinct freeable, consistent.settle _ ?_ ?_,
    keeps.settles_freeAll distinct freeable, rfl, ?_⟩
  · intro address within
    simp [(all address).mp within]
  · intro address kept
    simp [(all address).not.mp kept]
  · intro address kept
    simp [kept]

/-- The accounts do not depend on the capacity. -/
theorem Consistent.withCapacity
    (consistent : Consistent hashOf shard handles outside low high)
    (capacity : UInt64)
    {highPriPoolCapacity : ℚ}
    (nonneg : 0 ≤ highPriPoolCapacity) :
    Consistent hashOf { shard with
      capacity := capacity
      highPriPoolCapacity := highPriPoolCapacity } handles outside low high where
  accounts :=
    { consistent.accounts with
      list := consistent.accounts.list.congr rfl rfl rfl rfl
        (fun _ _ handle found => ⟨handle, found, rfl, rfl⟩)
      nonneg := nonneg }
  table := consistent.table

/-- Entries that an eviction has taken off are freed. -/
theorem Evicts.freeAll_spec
    {evicted : List Address}
    (evicts : Evicts hashOf shard handles ∅ low high evicted shard' low' high')
    (distinct : (low ++ high).Nodup) :
    ∃ shard'', shard'.freeAll evicted = some shard'' ∧
      Consistent hashOf shard'' handles ∅ low' high' ∧ Settles shard shard'' evicted ∧
      shard''.usage = shard'.usage ∧
      ∀ address, address ∉ evicted → shard''.heap address = shard.heap address := by
  rw [evicts.split] at distinct
  obtain ⟨shard'', run, consistent, settles, usage, others⟩ :=
    evicts.consistent.freeAll_spec evicts.keeps (List.Nodup.of_append_left distinct)
      (by simp) (fun address within => (evicts.idle address within).imp
        (fun handle facts => ⟨facts.1, Or.inr facts.2⟩))
  refine ⟨shard'', run, consistent, settles, usage, ?_⟩
  intro address kept
  rw [others address kept, evicts.others address kept]

/-- `SetCapacity` evicts what does not fit. -/
theorem setCapacity_spec
    (rounding : Rounding)
    (consistent : Consistent hashOf shard handles ∅ low high)
    (ratio : 0 ≤ shard.highPriPoolRatio)
    (capacity : UInt64) :
    ∃ evicted shard' low' high',
      shard.setCapacity rounding capacity = some shard' ∧
      evicted = evictable capacity.toNat 0 (chargeAt shard.heap) shard.usage.toNat
        (low ++ high) ∧
      low ++ high = evicted ++ (low' ++ high') ∧ high'.Sublist high ∧
      Consistent hashOf shard' handles ∅ low' high' ∧
      Settles { shard with capacity := capacity } shard' evicted ∧
      (shard'.usage.toNat ≤ capacity.toNat ∨ low' ++ high' = []) ∧
      ∀ address, address ∉ evicted → shard'.heap address = shard.heap address := by
  have nonneg := rounding.poolCapacity_nonneg capacity ratio
  have start := consistent.withCapacity capacity nonneg
  have room : shard.usage.toNat + (0 : UInt64).toNat < 2 ^ 64 := shard.usage.toNat_lt
  have enough : (low ++ high).length < shard.fresh + 1 :=
    Nat.lt_succ_of_le consistent.accounts.length_list_le
  obtain ⟨evicted, shard₁, low', high', run, isEvictable, evicts, fits⟩ :=
    evictFromLRU_spec start room enough []
  obtain ⟨shard', freed, consistent', settles, usage, others⟩ :=
    evicts.freeAll_spec consistent.accounts.list.distinct
  refine ⟨evicted, shard', low', high', ?_, isEvictable, evicts.split, evicts.shrinks,
    consistent', ?_, ?_, others⟩
  · simp only [setCapacity, run, Option.bind_eq_bind, Option.bind_some, List.nil_append]
    exact freed
  · exact ⟨settles.capacity, settles.strictCapacityLimit, settles.highPriPoolRatio,
      settles.fresh, settles.deletions, settles.distinct, settles.released,
      settles.missing, settles.present⟩
  · rw [usage]
    simpa using fits

/-- `EraseUnRefEntries` frees the whole list. -/
theorem eraseUnRefEntries_spec
    (consistent : Consistent hashOf shard handles ∅ low high) :
    ∃ shard', shard.eraseUnRefEntries = some shard' ∧
      Consistent hashOf shard' handles ∅ [] [] ∧ Settles shard shard' (low ++ high) ∧
      ∀ address, address ∉ low ++ high → shard'.heap address = shard.heap address := by
  have enough : (low ++ high).length < shard.fresh + 1 :=
    Nat.lt_succ_of_le consistent.accounts.length_list_le
  obtain ⟨shard₁, run, evicts⟩ := evictAll_spec consistent enough []
  obtain ⟨shard', freed, consistent', settles, -, others⟩ :=
    evicts.freeAll_spec consistent.accounts.list.distinct
  refine ⟨shard', ?_, consistent', settles, others⟩
  simp only [eraseUnRefEntries, run, Option.bind_eq_bind, Option.bind_some, List.nil_append]
  exact freed

/-- `SetHighPriorityPoolRatio` overflows what the pool has no room for. -/
theorem setHighPriorityPoolRatio_spec
    (rounding : Rounding)
    (consistent : Consistent hashOf shard handles ∅ low high)
    {ratio : ℚ}
    (nonneg : 0 ≤ ratio) :
    ∃ shard' moved rest, shard.setHighPriorityPoolRatio rounding ratio = some shard' ∧
      Consistent hashOf shard' handles ∅ (low ++ moved) rest ∧ high = moved ++ rest ∧
      Settles { shard with highPriPoolRatio := ratio } shard' [] ∧
      shard'.usage = shard.usage ∧ Reflags shard.heap shard'.heap ∧
      rounding.round shard'.highPriPoolUsage.toNat ≤ shard'.highPriPoolCapacity := by
  have capacityNonneg := rounding.poolCapacity_nonneg shard.capacity nonneg
  have listed : Listed { shard with
      highPriPoolRatio := ratio
      highPriPoolCapacity :=
        rounding.round (rounding.round shard.capacity.toNat * ratio) } low high :=
    consistent.accounts.list.congr rfl rfl rfl rfl
      (fun _ _ handle found => ⟨handle, found, rfl, rfl⟩)
  have enough : high.length < shard.fresh + 1 := by
    have bound := consistent.accounts.length_list_le
    rw [List.length_append] at bound
    omega
  obtain ⟨lruLowPri, highPriPoolUsage, heap, moved, rest, run, listed', split, reflags,
    maintained⟩ := maintainPoolSize_spec rounding listed capacityNonneg enough
  have same : low ++ moved ++ rest = low ++ high := by rw [List.append_assoc, ← split]
  refine ⟨_, moved, rest, run, consistent.reflag reflags rfl rfl rfl capacityNonneg listed'
    (fun address => by rw [same]), split, Keeps.settles ?_, rfl, reflags, maintained⟩
  refine ⟨rfl, rfl, rfl, rfl, rfl, ?_, ?_⟩
  · intro address free
    obtain ⟨flag, after⟩ := reflags address
    exact after.trans (by rw [free, Option.map_none])
  · intro address handle found
    obtain ⟨flag, after⟩ := reflags.of_some found
    exact ⟨_, after, rfl, id⟩

/-- `LRU_Remove` of an entry of the list. -/
theorem lruRemove_erase
    (listed : Listed shard low high)
    (within : e ∈ low ++ high) :
    ∃ links lruLowPri lruUsage highPriPoolUsage low' high',
      shard.lruRemove e = some { shard with
        links := links
        lruLowPri := lruLowPri
        lruUsage := lruUsage
        highPriPoolUsage := highPriPoolUsage } ∧
      Listed { shard with
        links := links
        lruLowPri := lruLowPri
        lruUsage := lruUsage
        highPriPoolUsage := highPriPoolUsage } low' high' ∧
      low' ++ high' = (low ++ high).erase e ∧ high'.Sublist high := by
  obtain ⟨before, after, place⟩ := List.append_of_mem within
  have distinct := listed.distinct
  rw [place] at distinct
  have notBefore : e ∉ before := by grind
  rw [place, List.erase_append_right _ notBefore, List.erase_cons_head]
  exact lruRemove_spec listed place

theorem Consistent.mem_list_iff
    (consistent : Consistent hashOf shard handles ∅ low high)
    (found : shard.heap e = some handle)
    (inCache : handle.inCache = true) :
    e ∈ low ++ high ↔ e ∉ handles := by
  rw [consistent.accounts.onList e]
  constructor
  · rintro ⟨_, _, _, _, notHeld⟩
    exact notHeld
  · exact fun notHeld => ⟨handle, found, Finset.notMem_empty e, inCache, notHeld⟩

/-- The counter of an entry, between two operations. -/
theorem Consistent.counted
    (consistent : Consistent hashOf shard handles ∅ low high)
    (found : shard.heap e = some handle) :
    Counted handle.refs handle.inCache (handles.count e) :=
  consistent.accounts.counted e handle found (Finset.notMem_empty e)

/-- The links of an entry that is not on the list are null. -/
theorem Accounts.lruRemove_offList
    (accounts : Accounts shard handles outside low high)
    (found : shard.heap e = some handle)
    (offList : e ∉ low ++ high)
    {shard' : LRUCacheShard}
    (links : shard'.links = shard.links) : shard'.lruRemove e = none := by
  have allocated := (accounts.bounded e handle found).1
  have null := (accounts.list.ring.null e
    (by simp [Nat.ne_of_gt allocated, List.mem_append.not.mp offList])).1
  simp [lruRemove, links, null]

/-- The cache has at most one entry for a key. -/
theorem Consistent.unique
    {e' : Address}
    (consistent : Consistent hashOf shard handles ∅ low high)
    (found : shard.heap e = some handle)
    (inCache : handle.inCache = true)
    (found' : shard.heap e' = some handle')
    (inCache' : handle'.inCache = true)
    (sameKey : handle.key = handle'.key) : e = e' := by
  obtain ⟨chains, stores, -, members⟩ := consistent.table
  obtain ⟨bucket, within⟩ := (members e).mp ⟨handle, found, by simp, inCache⟩
  obtain ⟨bucket', within'⟩ := (members e').mp ⟨handle', found', by simp, inCache'⟩
  exact stores.unique bucket bucket' e within e' within' handle handle' found found' sameKey

/-- Lists without an entry. -/
theorem mem_erase_elsewhere
    {nodes nodes' : List Address}
    (erased : nodes' = nodes.erase e)
    (other : Address)
    (notHere : other ≠ e) : other ∈ nodes' ↔ other ∈ nodes := by
  rw [erased, List.mem_erase_of_ne notHere]

/-- `Lookup` of a key that the cache has no entry for. -/
theorem lookup_missing
    {key : Bytes}
    (consistent : Consistent hashOf shard handles ∅ low high)
    (missing : Finds shard.heap (cached shard.heap ∅) key none) :
    shard.lookup key (hashOf key) = some (none, shard) := by
  obtain ⟨result, run, finds⟩ := LRUHandleTable.lookup_spec consistent.table key
  cases result with
  | none => simp [lookup, run]
  | some e =>
      obtain ⟨within, handle, found, sameKey⟩ := finds
      exact absurd sameKey (missing e within handle found)

/-- `Lookup` of the key of an entry takes a reference to it. -/
theorem lookup_present
    (consistent : Consistent hashOf shard handles ∅ low high)
    (found : shard.heap e = some handle)
    (inCache : handle.inCache = true)
    (few : handles.count e < 2 ^ 32) :
    ∃ shard' low' high', shard.lookup handle.key (hashOf handle.key) =
        some (some e, shard') ∧
      Consistent hashOf shard' (e :: handles) ∅ low' high' ∧
      low' ++ high' = (low ++ high).erase e ∧ high'.Sublist high ∧ Keeps shard shard' ∧
      shard'.heap = Function.update shard.heap e
        (some { handle with refs := handle.refs + 1 }) ∧
      shard'.usage = shard.usage := by
  have accounts := consistent.accounts
  have within : e ∈ cached shard.heap ∅ := ⟨handle, found, Finset.notMem_empty e, inCache⟩
  have onList := consistent.mem_list_iff found inCache
  obtain ⟨result, run, finds⟩ := LRUHandleTable.lookup_spec consistent.table handle.key
  obtain rfl := consistent.table.finds_self found within finds
  have reflags := Reflags.refl (Function.update shard.heap e
    (some { handle with refs := handle.refs + 1 }))
  have counted := consistent.counted found
  rw [inCache] at counted
  have unpinned : handle.refs = 1 ↔ e ∉ handles := by
    rw [counted.refs_eq_one_iff, ← List.count_eq_zero]
    omega
  rw [← unpinned] at onList
  have removed : ∃ links lruLowPri lruUsage highPriPoolUsage low' high',
      (if handle.refs = 1 then shard.lruRemove e else some shard) = some { shard with
        links := links
        lruLowPri := lruLowPri
        lruUsage := lruUsage
        highPriPoolUsage := highPriPoolUsage } ∧
      Listed { shard with
        links := links
        lruLowPri := lruLowPri
        lruUsage := lruUsage
        highPriPoolUsage := highPriPoolUsage } low' high' ∧
      low' ++ high' = (low ++ high).erase e ∧ high'.Sublist high := by
    by_cases refs : handle.refs = 1
    · rw [if_pos refs]
      exact lruRemove_erase accounts.list (onList.mpr refs)
    · rw [if_neg refs, List.erase_of_not_mem (onList.not.mpr refs)]
      exact ⟨_, _, _, _, low, high, rfl, accounts.list, rfl, List.Sublist.refl high⟩
  obtain ⟨links, lruLowPri, lruUsage, highPriPoolUsage, low', high', run', listed, erased,
    shrinks⟩ := removed
  have offList : e ∉ low' ++ high' := by
    rw [erased]
    exact accounts.list.distinct.not_mem_erase
  refine ⟨{ shard with
    links := links
    lruLowPri := lruLowPri
    lruUsage := lruUsage
    highPriPoolUsage := highPriPoolUsage
    heap := Function.update shard.heap e
      (some { handle with refs := handle.refs + 1 }) }, low', high', ?_, ⟨?_, ?_⟩, erased,
    shrinks, ?_, rfl, rfl⟩
  · have unfolded : shard.lookup handle.key (hashOf handle.key) =
        (if handle.refs = 1 then shard.lruRemove e else some shard).bind (fun shard =>
          (shard.modify e (fun handle => { handle with refs := handle.refs + 1 })).bind
            (fun shard => some (some e, shard))) := by
      by_cases refs : handle.refs = 1 <;> simp [lookup, run, found, inCache, refs]
    rw [unfolded, run']
    simp only [modify, found, Option.bind_eq_bind, Option.bind_some]
  · refine accounts.rehandle found (Finset.notMem_empty e) reflags rfl rfl rfl rfl ?_
      (mem_erase_elsewhere erased) ?_ ?_ ?_
    · refine listed.congr rfl rfl rfl rfl ?_
      intro address within other foundOther
      have notHere : address ≠ e := fun equal => offList (equal ▸ within)
      exact ⟨other, (Function.update_of_ne notHere _ _).trans foundOther, rfl, rfl⟩
    · simp [offList]
    · intro other notHere
      rw [List.count_cons_of_ne (Ne.symm notHere)]
    · simp only [List.count_cons_self, inCache]
      exact counted.raise few
  · rw [cached_rehandle found reflags rfl]
    exact represents_change consistent.table found reflags rfl
  · exact Keeps.of_update found reflags rfl id rfl rfl rfl rfl rfl

/-- `Lookup` of the key of an entry whose counter has wrapped to one follows the null
pointers of an entry that is not on the list. -/
theorem lookup_wrapped
    (consistent : Consistent hashOf shard handles ∅ low high)
    (found : shard.heap e = some handle)
    (inCache : handle.inCache = true)
    (many : 2 ^ 32 ≤ handles.count e) :
    shard.lookup handle.key (hashOf handle.key) = none := by
  have within : e ∈ cached shard.heap ∅ := ⟨handle, found, Finset.notMem_empty e, inCache⟩
  obtain ⟨result, run, finds⟩ := LRUHandleTable.lookup_spec consistent.table handle.key
  obtain rfl := consistent.table.finds_self found within finds
  have counted := consistent.counted found
  rw [inCache] at counted
  have full : handles.count e = 2 ^ 32 := by
    have bound := counted.bound
    omega
  have held : e ∈ handles := by
    rw [← List.count_pos_iff, full]
    exact Nat.two_pow_pos 32
  have offList : e ∉ low ++ high := fun within => consistent.accounts.notHeld within held
  have refs : handle.refs = 1 := counted.refs_eq_one_iff.mpr (Or.inr full)
  have null := consistent.accounts.lruRemove_offList found offList rfl
  simp [lookup, run, found, inCache, refs, null]

theorem Consistent.listed_update
    (listed : Listed shard low high)
    (offList : e ∉ low ++ high)
    (handle : Option LRUHandle) :
    Listed { shard with heap := Function.update shard.heap e handle } low high := by
  refine listed.congr rfl rfl rfl rfl ?_
  intro address within other foundOther
  have notHere : address ≠ e := fun equal => offList (equal ▸ within)
  exact ⟨other, (Function.update_of_ne notHere _ _).trans foundOther, rfl, rfl⟩

theorem count_erase_elsewhere
    (other : Address)
    (notHere : other ≠ e) : (handles.erase e).count other = handles.count other :=
  List.count_erase_of_ne notHere

/-- The last handle is taken back. -/
theorem notMem_erase_last (last : handles.count e = 1) : e ∉ handles.erase e := by
  rw [← List.count_eq_zero, List.count_erase_self, last]

/-- The last reference to an entry is given up, and it is freed. -/
theorem Consistent.retire_free
    {links : Ring.Links Address}
    {lruLowPri : Address}
    {lruUsage highPriPoolUsage : UInt64}
    {table : LRUHandleTable}
    (consistent : Consistent hashOf shard handles ∅ low high)
    (found : shard.heap e = some handle)
    (listed : Listed { shard with
      links := links
      lruLowPri := lruLowPri
      lruUsage := lruUsage
      highPriPoolUsage := highPriPoolUsage } low' high')
    (nodes : ∀ other, other ≠ e → (other ∈ low' ++ high' ↔ other ∈ low ++ high))
    (offList : e ∉ low' ++ high')
    (counts : ∀ other, other ≠ e → handles'.count other = handles.count other)
    (notHeld : e ∉ handles')
    (represents : Represents hashOf shard.heap table
      (without (cached shard.heap ∅) (some e))) :
    ∃ shard', free { shard with
        links := links
        lruLowPri := lruLowPri
        lruUsage := lruUsage
        highPriPoolUsage := highPriPoolUsage
        table := table
        heap := Function.update shard.heap e
          (some { handle with inCache := false, refs := 0 })
        usage := shard.usage - handle.charge } e = some shard' ∧
      Consistent hashOf shard' handles' ∅ low' high' ∧ Settles shard shard' [e] ∧
      shard'.usage = shard.usage - handle.charge ∧
      ∀ address, address ≠ e → shard'.heap address = shard.heap address := by
  have retired := consistent.retire found (Finset.notMem_empty e) listed nodes offList
    counts notHeld represents
  obtain ⟨shard', run, consistent', settles, usage, others⟩ :=
    retired.freeAll_spec
      (Keeps.of_update found (Reflags.refl _) rfl (by simp) rfl rfl rfl rfl rfl)
      (List.nodup_singleton e) (by simp) (by simp [Freeable])
  refine ⟨shard', ?_, consistent', settles, usage, ?_⟩
  · simpa [freeAll] using run
  · intro address notHere
    rw [others address (by simpa using notHere)]
    exact Function.update_of_ne notHere _ _

theorem without_of_notMem
    {members : Set Address}
    (outside : e ∉ members) : without members (some e) = members := by
  ext address
  simp only [without, Set.mem_ofPred_eq, ne_eq, Option.some.injEq]
  grind

/-- Returning the last reference to an entry that is not in the cache frees it. -/
theorem release_last
    (rounding : Rounding)
    (consistent : Consistent hashOf shard handles ∅ low high)
    (found : shard.heap e = some handle)
    (inCache : handle.inCache = false)
    (last : handles.count e = 1) :
    ∃ shard', shard.release rounding e = some shard' ∧
      Consistent hashOf shard' (handles.erase e) ∅ low high ∧
      Settles shard shard' [e] ∧ shard'.usage = shard.usage - handle.charge ∧
      ∀ address, address ≠ e → shard'.heap address = shard.heap address := by
  have accounts := consistent.accounts
  have held : e ∈ handles := List.count_pos_iff.mp (last ▸ Nat.one_pos)
  have offList : e ∉ low ++ high := fun within => accounts.notHeld within held
  have counted := consistent.counted found
  rw [last, inCache] at counted
  have refs : handle.refs = 1 := UInt32.toNat_inj.mp counted.residue
  have notHeld := notMem_erase_last last
  have notCached : e ∉ cached shard.heap ∅ := by
    rintro ⟨other, foundOther, -, isCached⟩
    obtain rfl := Option.some.inj (found.symm.trans foundOther)
    rw [inCache] at isCached
    exact Bool.false_ne_true isCached
  have represents := consistent.table
  rw [← without_of_notMem notCached] at represents
  obtain ⟨shard', freed, facts⟩ := consistent.retire_free found accounts.list
    (fun _ _ => Iff.rfl) offList count_erase_elsewhere notHeld represents
  refine ⟨shard', ?_, facts⟩
  simpa [release, releaseWith, unref, modify, found, refs, inCache] using freed

/-- Returning the last reference that is given out, while the cache is over its
capacity, removes the entry. -/
theorem release_overfull
    (rounding : Rounding)
    (consistent : Consistent hashOf shard handles ∅ [] [])
    (found : shard.heap e = some handle)
    (inCache : handle.inCache = true)
    (last : handles.count e = 1)
    (overfull : shard.usage > shard.capacity) :
    ∃ shard', shard.release rounding e = some shard' ∧
      Consistent hashOf shard' (handles.erase e) ∅ [] [] ∧
      Settles shard shard' [e] ∧ shard'.usage = shard.usage - handle.charge ∧
      ∀ address, address ≠ e → shard'.heap address = shard.heap address := by
  have accounts := consistent.accounts
  have counted := consistent.counted found
  rw [last, inCache] at counted
  have refs : handle.refs = 2 := UInt32.toNat_inj.mp counted.residue
  have notHeld := notMem_erase_last last
  have empty : shard.links.next lru = some lru := accounts.list.ring.next_dummy
  -- The table is searched after the reference count has been lowered.
  have lowered := Reflags.refl (Function.update shard.heap e (some { handle with refs := 1 }))
  have restored : Reflags (Function.update
      (Function.update shard.heap e (some { handle with refs := 1 })) e (some handle))
      shard.heap := by
    rw [Function.update_idem, ← found, Function.update_eq_self]
    exact Reflags.refl shard.heap
  have foundLowered : Function.update shard.heap e (some { handle with refs := 1 }) e =
      some { handle with refs := 1 } := Function.update_self ..
  obtain ⟨table, removed, represents⟩ :=
    (represents_change consistent.table found lowered rfl).remove_self foundLowered
      ⟨handle, found, Finset.notMem_empty e, inCache⟩
  obtain ⟨shard', freed, facts⟩ := consistent.retire_free found accounts.list
    (fun _ _ => Iff.rfl) (by simp) count_erase_elsewhere notHeld
    (represents_change represents foundLowered restored rfl)
  refine ⟨shard', ?_, facts⟩
  simp only [inCache] at removed
  simpa [release, releaseWith, unref, modify, setInCache, found, refs, inCache, overfull,
    empty, removed] using freed

/-- Returning one of several references. -/
theorem release_shared
    (rounding : Rounding)
    (consistent : Consistent hashOf shard handles ∅ low high)
    (found : shard.heap e = some handle)
    (shared : 1 < handles.count e)
    (few : handles.count e + 1 < 2 ^ 32) :
    ∃ shard', shard.release rounding e = some shard' ∧
      Consistent hashOf shard' (handles.erase e) ∅ low high ∧ Keeps shard shard' ∧
      shard'.usage = shard.usage ∧
      shard'.heap = Function.update shard.heap e
        (some { handle with refs := handle.refs - 1 }) := by
  have accounts := consistent.accounts
  have held : e ∈ handles := List.count_pos_iff.mp (Nat.zero_lt_of_lt shared)
  have offList : e ∉ low ++ high := fun within => accounts.notHeld within held
  have counted := consistent.counted found
  have reflags := Reflags.refl (Function.update shard.heap e
    (some { handle with refs := handle.refs - 1 }))
  have lowered : Counted (handle.refs - 1) handle.inCache ((handles.erase e).count e) := by
    rw [List.count_erase_self]
    exact counted.lower few (by omega) (Or.inr (by omega))
  have fewer : (handles.erase e).count e + 1 < 2 ^ 32 := by
    rw [List.count_erase_self]
    omega
  refine ⟨{ shard with
    heap := Function.update shard.heap e
      (some { handle with refs := handle.refs - 1 }) }, ?_, ⟨?_, ?_⟩, ?_, rfl, rfl⟩
  · have positive := counted.pos few
    have notLast : ¬ handle.refs - 1 = 0 := by
      rw [counted.sub_one_eq_zero_iff few]
      omega
    have stillShared : ¬ (handle.refs - 1 = 1 ∧ handle.inCache = true) := by
      rintro ⟨one, inCache⟩
      have exact := lowered.toNat_refs fewer
      rw [one, inCache, UInt32.toNat_one, List.count_erase_self, if_pos rfl] at exact
      omega
    simp [release, releaseWith, unref, modify, found, positive, notLast, stillShared]
  · refine accounts.rehandle found (Finset.notMem_empty e) reflags rfl rfl rfl rfl
      (Consistent.listed_update accounts.list offList _) (fun _ _ => Iff.rfl) ?_
      count_erase_elsewhere lowered
    have stillHeld : e ∈ handles.erase e := by
      rw [← List.count_pos_iff, List.count_erase_self]
      omega
    simp [offList, stillHeld]
  · rw [cached_rehandle found reflags rfl]
    exact represents_change consistent.table found reflags rfl
  · exact Keeps.of_update found reflags rfl id rfl rfl rfl rfl rfl

/-- Returning the last reference that is given out puts the entry on the list. -/
theorem release_listed
    (rounding : Rounding)
    (consistent : Consistent hashOf shard handles ∅ low high)
    (found : shard.heap e = some handle)
    (inCache : handle.inCache = true)
    (last : handles.count e = 1)
    (fits : ¬ shard.usage > shard.capacity) :
    ∃ shard' low' high', shard.release rounding e = some shard' ∧
      Consistent hashOf shard' (handles.erase e) ∅ low' high' ∧ Keeps shard shard' ∧
      shard'.usage = shard.usage ∧
      Reflags (Function.update shard.heap e (some { handle with refs := 1 }))
        shard'.heap ∧
      (low' = low ++ [e] ∧ high' = high ∨
        0 < shard.highPriPoolRatio ∧ low' ++ high' = low ++ high ++ [e]) := by
  have accounts := consistent.accounts
  have held : e ∈ handles := List.count_pos_iff.mp (last ▸ Nat.one_pos)
  have offList : e ∉ low ++ high := fun within => accounts.notHeld within held
  have notHeld := notMem_erase_last last
  have counted := consistent.counted found
  rw [last, inCache] at counted
  have refs : handle.refs = 2 := UInt32.toNat_inj.mp counted.residue
  have bounded := accounts.bounded e handle found
  have foundLowered : Function.update shard.heap e (some { handle with refs := 1 }) e =
      some { handle with refs := 1 } := Function.update_self ..
  have sameCharges : listCharge (Function.update shard.heap e
      (some { handle with refs := 1 })) (low ++ high) =
        listCharge shard.heap (low ++ high) := by
    refine listCharge_congr (fun address within => ?_)
    have notHere : address ≠ e := fun equal => offList (equal ▸ within)
    rw [chargeAt, Function.update_of_ne notHere, chargeAt]
  have room : listCharge shard.heap (low ++ high) + handle.charge.toNat < 2 ^ 64 :=
    (accounts.listCharge_add_le found (Finset.notMem_empty e) offList).trans_lt
      shard.usage.toNat_lt
  have few := accounts.length_high_lt found offList
  obtain ⟨links, lruLowPri, lruUsage, highPriPoolUsage, heap, low', high', run, listed,
    reflags, appended⟩ := lruInsert_spec rounding
      (Consistent.listed_update accounts.list offList (some { handle with refs := 1 }))
      accounts.nonneg foundLowered (Nat.ne_of_gt bounded.1) offList few
      (by simpa only [sameCharges] using room)
  have members : ∀ other, other ∈ low' ++ high' ↔ other = e ∨ other ∈ low ++ high := by
    intro other
    rcases appended with ⟨rfl, rfl⟩ | ⟨-, nodes⟩
    · simp only [List.mem_append, List.mem_singleton]
      tauto
    · rw [nodes, List.mem_append, List.mem_singleton, or_comm]
  refine ⟨{ shard with
    links := links
    lruLowPri := lruLowPri
    lruUsage := lruUsage
    highPriPoolUsage := highPriPoolUsage
    heap := heap }, low', high', ?_, ⟨?_, ?_⟩, ?_, rfl, reflags, appended⟩
  · simp only [gt_iff_lt] at fits
    simpa [release, releaseWith, unref, modify, found, refs, inCache, fits] using run
  · refine accounts.rehandle found (Finset.notMem_empty e) reflags rfl rfl rfl rfl listed ?_
      ?_ count_erase_elsewhere ?_
    · intro other notHere
      simp [members, notHere]
    · simp [members, inCache, notHeld]
    · rw [List.count_eq_zero.mpr notHeld, inCache]
      exact ⟨rfl, Or.inl rfl, Or.inl (by omega)⟩
  · rw [cached_rehandle found reflags rfl]
    exact represents_change consistent.table found reflags rfl
  · exact Keeps.of_update found reflags rfl id rfl rfl rfl rfl rfl

/-- A handle to an entry whose counter has wrapped cannot be returned: an assertion of
`Unref` or of `Free` fails. -/
theorem release_wrapped
    (rounding : Rounding)
    (consistent : Consistent hashOf shard handles ∅ low high)
    (found : shard.heap e = some handle)
    (many : 2 ^ 32 ≤ handles.count e + 1) :
    shard.release rounding e = none := by
  have counted := consistent.counted found
  have inCache : handle.inCache = true := (counted.bound.resolve_left (by omega)).1
  rw [inCache] at counted
  rcases counted.wrapped many with refs | refs
  · simp [release, releaseWith, unref, found, refs]
  · simp [release, releaseWith, unref, modify, free, found, refs, inCache]

/-- `Erase` of a key that the cache has no entry for. -/
theorem erase_missing
    {key : Bytes}
    (consistent : Consistent hashOf shard handles ∅ low high)
    (missing : Finds shard.heap (cached shard.heap ∅) key none) :
    ∃ table, shard.erase key (hashOf key) = some { shard with table := table } ∧
      Consistent hashOf { shard with table := table } handles ∅ low high := by
  obtain ⟨result, table, run, finds, represents⟩ :=
    LRUHandleTable.remove_spec consistent.table key
  cases result with
  | some e =>
      obtain ⟨within, handle, found, sameKey⟩ := finds
      exact absurd sameKey (missing e within handle found)
  | none =>
      rw [LRUHandleTable.without_none] at represents
      refine ⟨table, by simp [erase, run], ⟨?_, represents⟩⟩
      exact { consistent.accounts with
        list := consistent.accounts.list.congr rfl rfl rfl rfl
          (fun _ _ handle found => ⟨handle, found, rfl, rfl⟩) }

/-- `Erase` of an entry that references are given out to. -/
theorem erase_pinned
    (consistent : Consistent hashOf shard handles ∅ low high)
    (found : shard.heap e = some handle)
    (inCache : handle.inCache = true)
    (held : e ∈ handles)
    (few : handles.count e + 1 < 2 ^ 32) :
    ∃ shard', shard.erase handle.key (hashOf handle.key) = some shard' ∧
      Consistent hashOf shard' handles ∅ low high ∧ Keeps shard shard' ∧
      shard'.usage = shard.usage ∧
      shard'.heap = Function.update shard.heap e
        (some { handle with inCache := false, refs := handle.refs - 1 }) := by
  have accounts := consistent.accounts
  have within : e ∈ cached shard.heap ∅ := ⟨handle, found, Finset.notMem_empty e, inCache⟩
  have offList : e ∉ low ++ high := fun within => accounts.notHeld within held
  have counted := consistent.counted found
  have given := List.count_pos_iff.mpr held
  obtain ⟨table, removed, represents⟩ := consistent.table.remove_self found within
  rw [consistent.table.hash_eq found within] at removed
  have reflags := Reflags.refl (Function.update shard.heap e
    (some { handle with inCache := false, refs := handle.refs - 1 }))
  refine ⟨{ shard with
    table := table
    heap := Function.update shard.heap e
      (some { handle with inCache := false, refs := handle.refs - 1 }) }, ?_, ⟨?_, ?_⟩, ?_,
    rfl, rfl⟩
  · have positive := counted.pos few
    have notLast : ¬ handle.refs - 1 = 0 := by
      rw [counted.sub_one_eq_zero_iff few, if_pos inCache]
      omega
    simp [erase, removed, unref, modify, setInCache, found, positive, notLast]
  · refine accounts.rehandle found (Finset.notMem_empty e) reflags rfl rfl rfl rfl ?_
      (fun _ _ => Iff.rfl) ?_ (fun _ _ => rfl) ?_
    · exact (Consistent.listed_update accounts.list offList _).congr rfl rfl rfl rfl
        (fun _ _ handle found => ⟨handle, found, rfl, rfl⟩)
    · simp [offList]
    · exact counted.lower few (by simp [inCache]) (Or.inr given)
  · simp only [cached_without reflags (fun _ _ => Iff.rfl) (Or.inr rfl)]
    exact represents_change represents found reflags rfl
  · exact Keeps.of_update found reflags rfl (by simp) rfl rfl rfl rfl rfl

/-- `Erase` of an entry of the list frees it. -/
theorem erase_unpinned
    (consistent : Consistent hashOf shard handles ∅ low high)
    (found : shard.heap e = some handle)
    (inCache : handle.inCache = true)
    (notHeld : e ∉ handles) :
    ∃ shard' low' high', shard.erase handle.key (hashOf handle.key) = some shard' ∧
      Consistent hashOf shard' handles ∅ low' high' ∧
      low' ++ high' = (low ++ high).erase e ∧ high'.Sublist high ∧
      Settles shard shard' [e] ∧
      shard'.usage = shard.usage - handle.charge ∧
      ∀ address, address ≠ e → shard'.heap address = shard.heap address := by
  have accounts := consistent.accounts
  have within : e ∈ cached shard.heap ∅ := ⟨handle, found, Finset.notMem_empty e, inCache⟩
  have onList : e ∈ low ++ high := (consistent.mem_list_iff found inCache).mpr notHeld
  have refs := accounts.refs_eq_one onList found
  obtain ⟨table, removed, represents⟩ := consistent.table.remove_self found within
  rw [consistent.table.hash_eq found within] at removed
  -- The entry comes off the list after its last reference is gone.
  have listed : Listed { shard with
      table := table
      heap := Function.update shard.heap e (some { handle with refs := 0 })
      usage := shard.usage - handle.charge } low high := by
    refine accounts.list.congr rfl rfl rfl rfl ?_
    intro address _ other foundOther
    by_cases here : address = e
    · subst here
      obtain rfl := Option.some.inj (found.symm.trans foundOther)
      exact ⟨_, Function.update_self .., rfl, rfl⟩
    · exact ⟨other, (Function.update_of_ne here _ _).trans foundOther, rfl, rfl⟩
  obtain ⟨links, lruLowPri, lruUsage, highPriPoolUsage, low', high', run, listed', erased,
    shrinks⟩ := lruRemove_erase listed onList
  have offList : e ∉ low' ++ high' := by
    rw [erased]
    exact accounts.list.distinct.not_mem_erase
  have restored : Listed { shard with
      links := links
      lruLowPri := lruLowPri
      lruUsage := lruUsage
      highPriPoolUsage := highPriPoolUsage } low' high' := by
    refine listed'.congr rfl rfl rfl rfl ?_
    intro address within other foundOther
    have notHere : address ≠ e := fun equal => offList (equal ▸ within)
    exact ⟨other, (Function.update_of_ne notHere _ _).symm.trans foundOther, rfl, rfl⟩
  obtain ⟨shard', freed, consistent', settles, usage, others⟩ :=
    consistent.retire_free found restored (mem_erase_elsewhere erased) offList
      (fun _ _ => rfl) notHeld represents
  refine ⟨shard', low', high', ?_, consistent', erased, shrinks, settles, usage, others⟩
  simp only [inCache] at run
  simpa [erase, removed, unref, modify, setInCache, found, refs, inCache, run] using freed

/-- `Erase` of an entry whose counter has wrapped fails the assertion of `Unref`, or
follows the null pointers of an entry that is not on the list. -/
theorem erase_wrapped
    (consistent : Consistent hashOf shard handles ∅ low high)
    (found : shard.heap e = some handle)
    (inCache : handle.inCache = true)
    (many : 2 ^ 32 ≤ handles.count e + 1) :
    shard.erase handle.key (hashOf handle.key) = none := by
  have within : e ∈ cached shard.heap ∅ := ⟨handle, found, Finset.notMem_empty e, inCache⟩
  obtain ⟨table, removed, -⟩ := consistent.table.remove_self found within
  rw [consistent.table.hash_eq found within] at removed
  have held : e ∈ handles := List.count_pos_iff.mp (by omega)
  have offList : e ∉ low ++ high := fun within => consistent.accounts.notHeld within held
  have counted := consistent.counted found
  rw [inCache] at counted
  rcases counted.wrapped many with refs | refs
  · simp [erase, removed, unref, found, refs]
  · have null : ∀ shard' : LRUCacheShard, shard'.links = shard.links →
        shard'.lruRemove e = none := fun _ => consistent.accounts.lruRemove_offList found offList
    simp [erase, removed, unref, modify, found, refs, inCache, null]

end LRUCacheShard
end Cache
end RocksUtil
