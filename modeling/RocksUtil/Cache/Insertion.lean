import RocksUtil.Cache.Displacement

/-!
# Insertion

`Insert` makes room on the list, and then drops the new entry, rejects it, or
enters it, displacing an entry of the same key.
-/

namespace RocksUtil
namespace Cache
namespace LRUCacheShard

open LRUHandleTable (Represents Finds without displace)

variable {hashOf : Bytes → UInt32} {shard shard' : LRUCacheShard}
  {handles handles' : List Address} {outside outside' : Finset Address}
  {low high low' high' : List Address} {e : Address} {handle handle' : LRUHandle}

theorem heap_allocate_of_ne
    {address : Address}
    (elsewhere : address ≠ shard.fresh)
    (handle : LRUHandle) : (shard.allocate handle).heap address = shard.heap address :=
  Function.update_of_ne elsewhere _ _

theorem heap_allocate_fresh (handle : LRUHandle) :
    (shard.allocate handle).heap shard.fresh = some handle :=
  Function.update_self ..

theorem deletionOf_allocate_of_ne
    {address : Address}
    (elsewhere : address ≠ shard.fresh)
    (handle : LRUHandle) :
    deletionOf (shard.allocate handle).heap address = deletionOf shard.heap address := by
  rw [deletionOf, heap_allocate_of_ne elsewhere, deletionOf]

/-- The next address is not in use. -/
theorem Accounts.heap_fresh (accounts : Accounts shard handles outside low high) :
    shard.heap shard.fresh = none := by
  cases found : shard.heap shard.fresh with
  | none => rfl
  | some handle => exact absurd (accounts.bounded _ handle found).2 (lt_irrefl _)

/-- The new entry is allocated, and not accounted for yet. -/
theorem Consistent.allocate
    (consistent : Consistent hashOf shard handles ∅ low high)
    (handle : LRUHandle) :
    Consistent hashOf (shard.allocate handle) handles {shard.fresh} low high := by
  have accounts := consistent.accounts
  have unused : shard.heap shard.fresh = none := by
    cases found : shard.heap shard.fresh with
    | none => rfl
    | some other => exact absurd (accounts.bounded _ other found).2 (Nat.lt_irrefl _)
  have notHere : ∀ address handle, shard.heap address = some handle →
      address ≠ shard.fresh := by
    intro address handle found
    exact Nat.ne_of_lt (accounts.bounded address handle found).2
  have kept : ∀ address, address ≠ shard.fresh →
      (shard.allocate handle).heap address = shard.heap address :=
    fun address elsewhere => heap_allocate_of_ne elsewhere handle
  have offList : shard.fresh ∉ low ++ high := by
    intro within
    obtain ⟨other, found, -⟩ := (accounts.onList _).mp within
    exact notHere _ other found rfl
  have sameLinks : (shard.allocate handle).links = shard.links := by
    have null := accounts.list.ring.null shard.fresh
      (by simp [Nat.ne_of_gt accounts.started, List.mem_append.not.mp offList])
    have next : Function.update shard.links.next shard.fresh none = shard.links.next := by
      rw [← null.1, Function.update_eq_self]
    have prev : Function.update shard.links.prev shard.fresh none = shard.links.prev := by
      rw [← null.2, Function.update_eq_self]
    simp only [LRUCacheShard.allocate, next, prev]
  have sameCached : cached (shard.allocate handle).heap {shard.fresh} =
      cached shard.heap ∅ := by
    ext address
    constructor
    · rintro ⟨other, found, apart, inCache⟩
      rw [Finset.mem_singleton] at apart
      exact ⟨other, (kept address apart).symm.trans found, Finset.notMem_empty _, inCache⟩
    · rintro ⟨other, found, -, inCache⟩
      have elsewhere := notHere address other found
      exact ⟨other, (kept address elsewhere).trans found, by simpa using elsewhere, inCache⟩
  refine ⟨⟨Nat.lt_succ_of_lt accounts.started, ?_, ?_, ?_, ?_, ?_, ?_, accounts.nonneg⟩, ?_⟩
  · intro address other found
    by_cases here : address = shard.fresh
    · subst here
      exact ⟨accounts.started, Nat.lt_succ_self _⟩
    · obtain ⟨positive, bound⟩ := accounts.bounded address other
        ((kept address here).symm.trans found)
      exact ⟨positive, Nat.lt_succ_of_lt bound⟩
  · refine accounts.list.congr sameLinks rfl rfl rfl ?_
    intro address within other found
    exact ⟨other, (kept address (notHere address other found)).trans found, rfl, rfl⟩
  · have range : Finset.range (shard.fresh + 1) \ {shard.fresh} =
        Finset.range shard.fresh \ ∅ := by
      ext address
      simp only [Finset.mem_sdiff, Finset.mem_range, Finset.mem_singleton,
        Finset.notMem_empty, not_false_eq_true, and_true]
      omega
    have sameUsage : (shard.allocate handle).usage = shard.usage := rfl
    rw [sameUsage, accounts.usage, totalCharge, totalCharge]
    refine (Finset.sum_congr range ?_).symm
    intro address within
    have elsewhere : address ≠ shard.fresh := by
      simp only [Finset.mem_sdiff, Finset.mem_range] at within
      omega
    rw [chargeAt, chargeAt, kept address elsewhere]
  · intro address other found apart
    rw [Finset.mem_singleton] at apart
    exact accounts.counted address other ((kept address apart).symm.trans found)
      (Finset.notMem_empty _)
  · intro address
    rw [accounts.onList address]
    constructor
    · rintro ⟨other, found, -, facts⟩
      have elsewhere := notHere address other found
      exact ⟨other, (kept address elsewhere).trans found, by simpa using elsewhere, facts⟩
    · rintro ⟨other, found, apart, facts⟩
      rw [Finset.mem_singleton] at apart
      exact ⟨other, (kept address apart).symm.trans found, Finset.notMem_empty _, facts⟩
  · intro address within
    obtain ⟨-, other, found⟩ := accounts.held address within
    have elsewhere := notHere address other found
    exact ⟨by simpa using elsewhere, other, (kept address elsewhere).trans found⟩
  · rw [sameCached]
    refine consistent.table.congr ?_
    intro address within other found
    exact ⟨other, (kept address (notHere address other found)).trans found, rfl, rfl⟩

/-- The charges of the entries that references are given out to. -/
def pinnedUsage (shard : LRUCacheShard) : Nat :=
  shard.usage.toNat - shard.lruUsage.toNat

/-- The entry is turned away: what is pinned leaves no room for it, and it is either
not to be pinned itself or not allowed to exceed the capacity. -/
def TurnedAway (shard : LRUCacheShard) (insertion : Insertion) : Prop :=
  shard.capacity.toNat < shard.pinnedUsage + insertion.charge.toNat ∧
    (shard.strictCapacityLimit = true ∨ insertion.handle = false)

theorem Accounts.lruUsage_le
    (accounts : Accounts shard handles outside low high) :
    shard.lruUsage.toNat ≤ shard.usage.toNat := by
  rw [accounts.list.lruUsage]
  refine accounts.listCharge_le accounts.list.distinct ?_
  intro address within
  obtain ⟨handle, found, owned, -⟩ := (accounts.onList address).mp within
  exact ⟨owned, handle, found⟩

/-- The test that `Insert` makes. -/
theorem Accounts.refuses_iff
    {insertion : Insertion}
    (accounts : Accounts shard handles outside low high)
    (room : shard.usage.toNat + insertion.charge.toNat < 2 ^ 64) :
    Refuses shard insertion ↔ TurnedAway shard insertion := by
  have covered := accounts.lruUsage_le
  have difference : (shard.usage - shard.lruUsage).toNat = shard.pinnedUsage :=
    UInt64.toNat_sub_of_le _ _ (UInt64.le_iff_toNat_le.mpr covered)
  have bound : shard.pinnedUsage ≤ shard.usage.toNat := Nat.sub_le _ _
  rw [Refuses, TurnedAway, gt_iff_lt, UInt64.lt_iff_toNat_lt, UInt64.toNat_add, difference,
    Nat.mod_eq_of_lt (by omega), Bool.not_eq_true]

/-- Eviction does not touch what is pinned. -/
theorem Evicts.pinnedUsage_eq
    {evicted : List Address}
    (evicts : Evicts hashOf shard handles outside low high evicted shard' low' high')
    (accounts : Accounts shard handles outside low high) :
    shard'.pinnedUsage = shard.pinnedUsage := by
  have distinct := accounts.list.distinct
  rw [evicts.split] at distinct
  have sameCharges : listCharge shard'.heap (low' ++ high') =
      listCharge shard.heap (low' ++ high') := by
    refine listCharge_congr (fun address within => ?_)
    rw [chargeAt, evicts.others address (by grind), chargeAt]
  have usage := evicts.usage
  have before := accounts.list.lruUsage
  rw [evicts.split, listCharge_append] at before
  have after := evicts.consistent.accounts.list.lruUsage
  rw [sameCharges] at after
  rw [pinnedUsage, pinnedUsage]
  omega

/-- `Insert` up to the eviction. -/
theorem insert_evicts
    (consistent : Consistent hashOf shard handles ∅ low high)
    (insertion : Insertion)
    (room : shard.usage.toNat + insertion.charge.toNat < 2 ^ 64) :
    ∃ evicted shard₁ low₁ high₁,
      evictFromLRU insertion.charge (shard.fresh + 1 + 1)
        (shard.allocate (insertion.entry (hashOf insertion.key))) [] =
          some (evicted, shard₁) ∧
      evicted = evictable shard.capacity.toNat insertion.charge.toNat
        (chargeAt shard.heap) shard.usage.toNat (low ++ high) ∧
      Evicts hashOf (shard.allocate (insertion.entry (hashOf insertion.key))) handles
        {shard.fresh} low high evicted shard₁ low₁ high₁ ∧
      shard₁.usage.toNat + insertion.charge.toNat < 2 ^ 64 ∧
      (shard₁.usage.toNat + insertion.charge.toNat ≤ shard.capacity.toNat ∨
        low₁ ++ high₁ = []) ∧
      (Refuses shard₁ insertion ↔ TurnedAway shard insertion) ∧
      shard₁.heap shard.fresh = some (insertion.entry (hashOf insertion.key)) ∧
      shard.fresh ∉ low ++ high := by
  have start := consistent.allocate (insertion.entry (hashOf insertion.key))
  have enough : (low ++ high).length < shard.fresh + 1 + 1 :=
    Nat.lt_succ_of_le start.accounts.length_list_le
  obtain ⟨evicted, shard₁, low₁, high₁, run, isEvictable, evicts, fits⟩ :=
    evictFromLRU_spec start room enough []
  have offList : shard.fresh ∉ low ++ high := by
    intro within
    obtain ⟨_, found, -⟩ := (consistent.accounts.onList _).mp within
    exact Nat.lt_irrefl _ (consistent.accounts.bounded _ _ found).2
  have kept : shard.fresh ∉ evicted := by
    intro within
    apply offList
    rw [evicts.split]
    exact List.mem_append_left _ within
  have sameCharges : ∀ address ∈ low ++ high,
      chargeAt (shard.allocate (insertion.entry (hashOf insertion.key))).heap address =
        chargeAt shard.heap address := by
    intro address within
    have elsewhere : address ≠ shard.fresh := fun equal => offList (equal ▸ within)
    rw [chargeAt, heap_allocate_of_ne elsewhere, chargeAt]
  have usage := evicts.usage
  have sameUsage : (shard.allocate (insertion.entry (hashOf insertion.key))).usage =
    shard.usage := rfl
  have room₁ : shard₁.usage.toNat + insertion.charge.toNat < 2 ^ 64 := by
    rw [sameUsage] at usage
    omega
  have found : shard₁.heap shard.fresh =
      some (insertion.entry (hashOf insertion.key)) := by
    rw [evicts.others shard.fresh kept, heap_allocate_fresh]
  refine ⟨evicted, shard₁, low₁, high₁, run, ?_, evicts, room₁, fits, ?_, found, offList⟩
  · rw [isEvictable, evictable_congr sameCharges]
    rfl
  · rw [evicts.consistent.accounts.refuses_iff room₁, TurnedAway, TurnedAway,
      evicts.keeps.capacity, evicts.keeps.strictCapacityLimit,
      evicts.pinnedUsage_eq start.accounts]
    rfl

/-- Entries that are turned away have emptied the list. -/
theorem insert_evicts_all
    {insertion : Insertion}
    (consistent : Consistent hashOf shard handles ∅ low high)
    (room : shard.usage.toNat + insertion.charge.toNat < 2 ^ 64)
    (turnedAway : TurnedAway shard insertion) :
    ∃ shard₁, evictFromLRU insertion.charge (shard.fresh + 1 + 1)
        (shard.allocate (insertion.entry (hashOf insertion.key))) [] =
          some (low ++ high, shard₁) ∧
      Evicts hashOf (shard.allocate (insertion.entry (hashOf insertion.key))) handles
        {shard.fresh} low high (low ++ high) shard₁ [] [] ∧
      Refuses shard₁ insertion ∧
      shard₁.heap shard.fresh = some (insertion.entry (hashOf insertion.key)) ∧
      shard.fresh ∉ low ++ high := by
  obtain ⟨evicted, shard₁, low₁, high₁, run, -, evicts, room₁, fits, refuses, found,
    offList⟩ := insert_evicts consistent insertion room
  have start := consistent.allocate (insertion.entry (hashOf insertion.key))
  have pinned := evicts.pinnedUsage_eq start.accounts
  have empty : low₁ ++ high₁ = [] := by
    rcases fits with fits | empty
    · have bound : shard₁.pinnedUsage ≤ shard₁.usage.toNat := Nat.sub_le _ _
      have same : (shard.allocate (insertion.entry (hashOf insertion.key))).pinnedUsage =
        shard.pinnedUsage := rfl
      have overfull := turnedAway.1
      omega
    · exact empty
  have split := evicts.split
  rw [empty, List.append_nil] at split
  obtain ⟨rfl, rfl⟩ := List.append_eq_nil_iff.mp empty
  rw [split] at offList ⊢
  exact ⟨shard₁, run, evicts, refuses.mpr turnedAway, found, offList⟩

/-- The three parts of `Insert`. -/
theorem insert_eq
    {rounding : Rounding}
    {hash : UInt32}
    {insertion : Insertion}
    {shard₁ shard₂ : LRUCacheShard}
    {evicted freed : List Address}
    {status : Status}
    {result : Option Address}
    (evicts : evictFromLRU insertion.charge (shard.fresh + 1 + 1)
      (shard.allocate (insertion.entry hash)) [] = some (evicted, shard₁))
    (inserts : shard₁.insertEvicted rounding insertion shard.fresh evicted =
      some (status, result, freed, shard₂))
    (frees : shard₂.freeAll freed = some shard') :
    shard.insert rounding hash insertion = some (status, result, shard') := by
  have sameFresh : (shard.allocate (insertion.entry hash)).fresh = shard.fresh + 1 := rfl
  simp only [LRUCacheShard.insert, sameFresh, evicts, inserts, frees, Option.bind_eq_bind,
    Option.bind_some]

/-- `Insert` without a handle of an entry that is turned away frees it at once. -/
theorem insert_dropped
    (rounding : Rounding)
    {insertion : Insertion}
    (consistent : Consistent hashOf shard handles ∅ low high)
    (room : shard.usage.toNat + insertion.charge.toNat < 2 ^ 64)
    (turnedAway : TurnedAway shard insertion)
    (noHandle : insertion.handle = false) :
    ∃ shard', shard.insert rounding (hashOf insertion.key) insertion =
        some (Status.OK, none, shard') ∧
      Consistent hashOf shard' handles ∅ [] [] ∧
      Settles (shard.allocate (insertion.entry (hashOf insertion.key))) shard'
        (low ++ high ++ [shard.fresh]) ∧
      ∀ address, address ∉ low ++ high → address ≠ shard.fresh →
        shard'.heap address = shard.heap address := by
  obtain ⟨shard₁, run, evicts, refuses, found, offList⟩ :=
    insert_evicts_all consistent room turnedAway
  have distinct : (low ++ high ++ [shard.fresh]).Nodup := by
    rw [List.nodup_append_comm, List.singleton_append, List.nodup_cons]
    exact ⟨offList, consistent.accounts.list.distinct⟩
  have freeable : ∀ address ∈ low ++ high ++ [shard.fresh], ∃ handle,
      shard₁.heap address = some handle ∧ Freeable handle := by
    intro address within
    rcases List.mem_append.mp within with evicted | isNew
    · obtain ⟨handle, foundThere, idle⟩ := evicts.idle address evicted
      exact ⟨handle, foundThere, Or.inr idle⟩
    · rw [List.mem_singleton.mp isNew]
      exact ⟨_, found, Or.inl ⟨by simp [Insertion.entry, noHandle], rfl⟩⟩
  obtain ⟨shard', freed, consistent', settles, -, others⟩ :=
    evicts.consistent.freeAll_spec evicts.keeps distinct (by
      intro address
      simp only [Finset.mem_union, Finset.mem_singleton, List.mem_toFinset,
        List.mem_append, List.mem_singleton]
      tauto) freeable
  refine ⟨shard', insert_eq run ?_ freed, consistent', settles, ?_⟩
  · rw [Refuses] at refuses
    rw [insertEvicted, if_pos refuses, if_pos (by simp [noHandle])]
  · intro address notEvicted elsewhere
    rw [others address (by simp [List.mem_append.not.mp notEvicted, elsewhere]),
      evicts.others address notEvicted, heap_allocate_of_ne elsewhere]

/-- `Insert` with a handle of an entry that is turned away fails, and forgets the
value without a call of its deleter. -/
theorem insert_rejected
    (rounding : Rounding)
    {insertion : Insertion}
    (consistent : Consistent hashOf shard handles ∅ low high)
    (room : shard.usage.toNat + insertion.charge.toNat < 2 ^ 64)
    (turnedAway : TurnedAway shard insertion)
    (handle : insertion.handle = true) :
    ∃ shard', shard.insert rounding (hashOf insertion.key) insertion =
        some (Status.Incomplete "Insert failed due to LRU cache being full.", none,
          shard') ∧
      Consistent hashOf shard' handles ∅ [] [] ∧
      Settles { shard with fresh := shard.fresh + 1 } shard' (low ++ high) ∧
      ∀ address, address ∉ low ++ high → shard'.heap address = shard.heap address := by
  obtain ⟨shard₁, run, evicts, refuses, found, offList⟩ :=
    insert_evicts_all consistent room turnedAway
  have elsewhere : ∀ address handle, shard.heap address = some handle →
      address ≠ shard.fresh := fun address handle found =>
    Nat.ne_of_lt (consistent.accounts.bounded address handle found).2
  obtain ⟨shard₂, isShard₂⟩ : ∃ shard₂ : LRUCacheShard, shard₂ =
      { shard₁ with heap := Function.update shard₁.heap shard.fresh none } := ⟨_, rfl⟩
  have freeable : ∀ address ∈ low ++ high, ∃ handle,
      shard₂.heap address = some handle ∧ Freeable handle := by
    intro address within
    have notNew : address ≠ shard.fresh := fun equal => offList (equal ▸ within)
    obtain ⟨handle, foundThere, idle⟩ := evicts.idle address within
    rw [isShard₂]
    exact ⟨handle, (Function.update_of_ne notNew _ _).trans foundThere, Or.inr idle⟩
  have keeps : Keeps { shard with fresh := shard.fresh + 1 } shard₂ := by
    subst isShard₂
    refine ⟨evicts.keeps.capacity, evicts.keeps.strictCapacityLimit,
      evicts.keeps.highPriPoolRatio, evicts.keeps.fresh, evicts.keeps.deletions, ?_, ?_⟩
    · intro address free
      by_cases here : address = shard.fresh
      · rw [here]
        exact Function.update_self ..
      · refine (Function.update_of_ne here _ _).trans (evicts.keeps.missing address ?_)
        rw [heap_allocate_of_ne here]
        exact free
    · intro address handle found
      have notNew := elsewhere address handle found
      obtain ⟨handle', found', facts⟩ := evicts.keeps.present address handle
        ((heap_allocate_of_ne notNew _).trans found)
      exact ⟨handle', (Function.update_of_ne notNew _ _).trans found', facts⟩
  have distinct := consistent.accounts.list.distinct
  have frees := freeAll_eq distinct freeable
  have settles := keeps.settles_freeAll distinct freeable
  subst isShard₂
  refine ⟨_, insert_eq run ?_ frees, evicts.consistent.settle _ ?_ ?_, settles, ?_⟩
  · rw [Refuses] at refuses
    rw [insertEvicted, if_pos refuses, if_neg (by simp [handle]), found]
    rfl
  · intro address within
    rcases Finset.mem_union.mp within with isNew | evicted
    · rw [Finset.mem_singleton.mp isNew]
      simp
    · simp [List.mem_append.mp (List.mem_toFinset.mp evicted)]
  · intro address kept
    rw [Finset.mem_union, not_or, Finset.mem_singleton, List.mem_toFinset] at kept
    rw [if_neg kept.2]
    exact Function.update_of_ne kept.1 _ _
  · intro address kept
    simp only [kept, if_false]
    by_cases here : address = shard.fresh
    · have unused : shard.heap shard.fresh = none := by
        rw [Option.eq_none_iff_forall_not_mem]
        exact fun other isUsed => elsewhere _ other isUsed rfl
      rw [here, Function.update_self, unused]
    · rw [Function.update_of_ne here, evicts.others address kept,
        heap_allocate_of_ne here]

/-- The entries that `Insert` frees have no references left. -/
theorem Evicts.freeable
    {evicted : List Address}
    {old : Option Address}
    {heap : Heap}
    (evicts : Evicts hashOf shard handles outside low high evicted shard' low' high')
    (reflags : Reflags (dropHeap shard'.heap old) heap)
    (apart : ∀ address ∈ old, address ∉ evicted) :
    ∀ address ∈ evicted ++ old.toList.filter (· ∈ low' ++ high'), ∃ handle,
      heap address = some handle ∧ Freeable handle := by
  intro address within
  obtain ⟨handle, dropped, refs, inCache⟩ : ∃ handle,
      dropHeap shard'.heap old address = some handle ∧ handle.refs = 0 ∧
        handle.inCache = false := by
    rcases List.mem_append.mp within with isEvicted | isOld
    · obtain ⟨handle, found, idle⟩ := evicts.idle address isEvicted
      refine ⟨handle, ?_, idle⟩
      cases old with
      | none => exact found
      | some old =>
          have notOld : address ≠ old := fun equal => apart old rfl (equal ▸ isEvicted)
          rw [dropHeap, Function.update_of_ne notOld, found]
    · obtain ⟨isOld, onList⟩ := List.mem_filter.mp isOld
      have isOld : old = some address := Option.mem_toList.mp isOld
      have onList := of_decide_eq_true onList
      obtain ⟨handle, found, -⟩ := (evicts.consistent.accounts.onList address).mp onList
      have refs := evicts.consistent.accounts.refs_eq_one onList found
      exact ⟨{ handle with inCache := false, refs := handle.refs - 1 },
        by simp [isOld, dropHeap, found], by simp [refs], rfl⟩
  obtain ⟨flag, after⟩ := reflags.of_some dropped
  exact ⟨_, after, Or.inr ⟨refs, inCache⟩⟩

/-- Searching the table after the eviction. -/
theorem finds_of_evicted
    {evicted : List Address}
    {old : Option Address}
    {heap : Heap}
    {key : Bytes}
    (consistent : Consistent hashOf shard handles ∅ low high)
    (same : ∀ address, address ≠ shard.fresh → address ∉ evicted →
      heap address = shard.heap address)
    (finds : Finds heap (cached heap ({shard.fresh} ∪ evicted.toFinset)) key old) :
    Finds shard.heap (cached shard.heap evicted.toFinset) key old := by
  have isOld : ∀ address handle, shard.heap address = some handle →
      address ≠ shard.fresh := fun address handle found =>
    Nat.ne_of_lt (consistent.accounts.bounded address handle found).2
  have sameMembers : ∀ address, address ∈ cached shard.heap evicted.toFinset ↔
      address ∈ cached heap ({shard.fresh} ∪ evicted.toFinset) := by
    intro address
    simp only [cached, Set.mem_ofPred_eq, Finset.mem_union, Finset.mem_singleton,
      List.mem_toFinset, not_or]
    constructor
    · rintro ⟨handle, found, notEvicted, inCache⟩
      have elsewhere := isOld address handle found
      exact ⟨handle, (same address elsewhere notEvicted).trans found,
        ⟨elsewhere, notEvicted⟩, inCache⟩
    · rintro ⟨handle, found, ⟨elsewhere, notEvicted⟩, inCache⟩
      exact ⟨handle, (same address elsewhere notEvicted).symm.trans found, notEvicted,
        inCache⟩
  have memberHeap : ∀ address ∈ cached shard.heap evicted.toFinset,
      heap address = shard.heap address := by
    rintro address ⟨handle, found, notEvicted, -⟩
    exact same address (isOld address handle found) (by simpa using notEvicted)
  cases old with
  | none =>
      intro address within handle found
      exact finds address ((sameMembers address).mp within) handle
        ((memberHeap address within).trans found)
  | some old =>
      obtain ⟨within, handle, found, sameKey⟩ := finds
      have within' := (sameMembers old).mpr within
      exact ⟨within', handle, (memberHeap old within').symm.trans found, sameKey⟩

theorem dropHeap_congr
    {heap heap' : Heap}
    {address : Address}
    (old : Option Address)
    (same : heap' address = heap address) :
    dropHeap heap' old address = dropHeap heap old address := by
  cases old with
  | none => exact same
  | some old =>
      by_cases here : address = old
      · subst here
        simp [dropHeap, same]
      · rw [dropHeap, dropHeap, Function.update_of_ne here, Function.update_of_ne here, same]

/-- An insertion that is not turned away fits, or nothing is left that could be evicted for
it. -/
theorem Evicts.fits_of_accepted
    {evicted : List Address}
    {insertion : Insertion}
    (evicts : Evicts hashOf shard handles outside low high evicted shard' low' high')
    (accounts : Accounts shard handles outside low high)
    (fits : shard'.usage.toNat + insertion.charge.toNat ≤ shard.capacity.toNat ∨
      low' ++ high' = [])
    (accepted : ¬ TurnedAway shard insertion) :
    shard'.usage.toNat + insertion.charge.toNat ≤ shard.capacity.toNat ∨
      low' ++ high' = [] ∧ shard.strictCapacityLimit = false ∧ insertion.handle = true := by
  rcases fits with fits | empty
  · exact Or.inl fits
  · have pinned := evicts.pinnedUsage_eq accounts
    have emptyList := evicts.consistent.accounts.list.lruUsage
    rw [empty, listCharge_nil] at emptyList
    rw [pinnedUsage, emptyList, Nat.sub_zero] at pinned
    rw [TurnedAway, ← pinned, not_and_or, not_or, not_lt, Bool.not_eq_true,
      Bool.not_eq_false] at accepted
    exact accepted.imp id (fun rest => ⟨empty, rest⟩)

/-- No entry is freed twice: what is displaced has not been evicted. -/
theorem nodup_evicted_dropped
    {evicted : List Address}
    {old : Option Address}
    (distinct : evicted.Nodup)
    (apart : ∀ address ∈ old, address ∉ evicted)
    (onList : Address → Bool) :
    (evicted ++ old.toList.filter onList).Nodup := by
  have single : old.toList.Nodup := by cases old <;> simp
  refine List.nodup_append'.mpr ⟨distinct, single.filter _, ?_⟩
  intro address isEvicted isDropped
  have isOld := Option.mem_toList.mp (List.mem_filter.mp isDropped).1
  exact apart address isOld isEvicted

/-- `Insert` of an entry that there is room for. -/
theorem insert_accepted
    (rounding : Rounding)
    {insertion : Insertion}
    (consistent : Consistent hashOf shard handles ∅ low high)
    (room : shard.usage.toNat + insertion.charge.toNat < 2 ^ 64)
    (accepted : ¬ TurnedAway shard insertion)
    (few : ∀ old handle, shard.heap old = some handle → handle.inCache = true →
      handle.key = insertion.key → handles.count old + 1 < 2 ^ 32) :
    ∃ evicted old shard' low' high',
      shard.insert rounding (hashOf insertion.key) insertion =
        some (Status.OK, if insertion.handle then some shard.fresh else none, shard') ∧
      Consistent hashOf shard' (heldAfter insertion shard.fresh handles) ∅ low' high' ∧
      evicted = evictable shard.capacity.toNat insertion.charge.toNat
        (chargeAt shard.heap) shard.usage.toNat (low ++ high) ∧
      Finds shard.heap (cached shard.heap evicted.toFinset) insertion.key old ∧
      Settles (shard.allocate (insertion.entry (hashOf insertion.key))) shard'
        (evicted ++ old.toList.filter (· ∈ low ++ high)) ∧
      (∃ flag, shard'.heap shard.fresh = some { insertion.entry (hashOf insertion.key) with
        inHighPriPool := flag }) ∧
      (∀ address, address ≠ shard.fresh →
        address ∉ evicted ++ old.toList.filter (· ∈ low ++ high) →
        ∃ flag, shard'.heap address = (dropHeap shard.heap old address).map
          (fun handle => { handle with inHighPriPool := flag })) ∧
      (shard'.usage.toNat ≤ shard.capacity.toNat ∨ low' ++ high' = [] ∧
        shard.strictCapacityLimit = false) ∧
      ∃ low₁ high₁, high₁.Sublist high ∧
        low ++ high = evicted ++ (low₁ ++ high₁) ∧
        ∃ low₂ high₂, high₂.Sublist high₁ ∧
        low₂ ++ high₂ = old.elim (low₁ ++ high₁) ((low₁ ++ high₁).erase ·) ∧
        (if insertion.handle then low' = low₂ ∧ high' = high₂
          else low' = low₂ ++ [shard.fresh] ∧ high' = high₂ ∨
            0 < shard.highPriPoolRatio ∧
              low' ++ high' = low₂ ++ high₂ ++ [shard.fresh]) := by
  obtain ⟨evicted, shard₁, low₁, high₁, run, isEvictable, evicts, room₁, fits, refuses,
    found, offList⟩ := insert_evicts consistent insertion room
  have start := consistent.allocate (insertion.entry (hashOf insertion.key))
  have apart := Finset.mem_union_left evicted.toFinset
    (Finset.mem_singleton_self shard.fresh)
  have split := evicts.split
  have sameHeap : ∀ address, address ≠ shard.fresh → address ∉ evicted →
      shard₁.heap address = shard.heap address := by
    intro address elsewhere notEvicted
    rw [evicts.others address notEvicted, heap_allocate_of_ne elsewhere]
  have mem_apart : ∀ address, address ∈ ({shard.fresh} ∪ evicted.toFinset) ↔
      address = shard.fresh ∨ address ∈ evicted := by
    simp
  obtain ⟨old, shard₂, low', high', inserts, finds, consistent₂, keeps, reflags, bound, low₂,
    high₂, shrinks, erased, placed⟩ := insertEvicted_accepts rounding evicts.consistent apart
      found room₁ (refuses.not.mpr accepted) (by
        intro old handle owned foundOld
        rw [mem_apart, not_or] at owned
        rw [sameHeap old owned.1 owned.2] at foundOld
        exact few old handle foundOld) evicted
  have oldApart : ∀ address ∈ old, address ≠ shard.fresh ∧ address ∉ evicted := by
    intro address isOld
    rw [Option.mem_def.mp isOld] at finds
    obtain ⟨⟨handle, foundOld, owned, -⟩, -⟩ := finds
    rwa [mem_apart, not_or] at owned
  have sameDropped : old.toList.filter (· ∈ low ++ high) =
      old.toList.filter (· ∈ low₁ ++ high₁) := by
    refine List.filter_congr (fun address isOld => ?_)
    have notEvicted := (oldApart address (Option.mem_toList.mp isOld)).2
    rw [split]
    simp [notEvicted]
  rw [← sameDropped] at inserts consistent₂
  have freeable := evicts.freeable reflags (fun address isOld => (oldApart address isOld).2)
  rw [← sameDropped] at freeable
  obtain ⟨dropped, isDropped⟩ : ∃ dropped,
      dropped = old.toList.filter (· ∈ low ++ high) := ⟨_, rfl⟩
  have isOld : ∀ address ∈ dropped, address ∈ old := by
    intro address within
    rw [isDropped] at within
    exact Option.mem_toList.mp (List.mem_filter.mp within).1
  rw [← isDropped] at inserts consistent₂ freeable
  have distinct : (evicted ++ dropped).Nodup := by
    have listDistinct := consistent.accounts.list.distinct
    rw [split] at listDistinct
    rw [isDropped]
    exact nodup_evicted_dropped (List.Nodup.of_append_left listDistinct)
      (fun address isOld => (oldApart address isOld).2) _
  have kept : shard.fresh ∉ evicted ++ dropped := by
    rw [List.mem_append, not_or]
    refine ⟨fun within => offList ?_, fun within => (oldApart _ (isOld _ within)).1 rfl⟩
    rw [split]
    exact List.mem_append_left _ within
  have all : ∀ address, address ∈ ({shard.fresh} ∪ evicted.toFinset ∪
      dropped.toFinset).erase shard.fresh ↔ address ∈ evicted ++ dropped := by
    intro address
    simp only [Finset.mem_erase, Finset.mem_union, Finset.mem_singleton,
      List.mem_toFinset, List.mem_append]
    grind
  obtain ⟨shard', frees, consistent', settles, usage, others⟩ :=
    consistent₂.freeAll_spec (evicts.keeps.trans keeps) distinct all freeable
  refine ⟨evicted, old, shard', low', high', insert_eq run inserts frees, consistent',
    isEvictable, finds_of_evicted consistent sameHeap finds, isDropped ▸ settles, ?_, ?_, ?_,
    low₁, high₁, evicts.shrinks, split, low₂, high₂, shrinks, erased, ?_⟩
  · have foundDropped : dropHeap shard₁.heap old shard.fresh =
        some (insertion.entry (hashOf insertion.key)) := by
      cases old with
      | none => exact found
      | some old =>
          rw [dropHeap, Function.update_of_ne (Ne.symm (oldApart old rfl).1), found]
    obtain ⟨flag, after⟩ := reflags.of_some foundDropped
    exact ⟨flag, (others _ kept).trans after⟩
  · intro address elsewhere notFreed
    rw [← isDropped] at notFreed
    obtain ⟨flag, after⟩ := reflags address
    have notEvicted : address ∉ evicted := fun isEvicted =>
      notFreed (List.mem_append_left _ isEvicted)
    rw [dropHeap_congr old (sameHeap address elsewhere notEvicted)] at after
    exact ⟨flag, (others address notFreed).trans after⟩
  · rw [usage]
    rcases evicts.fits_of_accepted start.accounts fits accepted with
      fits | ⟨empty, notStrict, wanted⟩
    · exact Or.inl (bound.trans fits)
    · rw [if_pos wanted] at placed
      refine Or.inr ⟨?_, notStrict⟩
      rw [placed.1, placed.2, erased, empty]
      cases old <;> rfl
  · rw [evicts.keeps.highPriPoolRatio] at placed
    exact placed

/-- An entry whose counter has wrapped cannot be replaced. -/
theorem insert_wrapped
    (rounding : Rounding)
    {insertion : Insertion}
    (consistent : Consistent hashOf shard handles ∅ low high)
    (room : shard.usage.toNat + insertion.charge.toNat < 2 ^ 64)
    (accepted : ¬ TurnedAway shard insertion)
    (found : shard.heap e = some handle)
    (inCache : handle.inCache = true)
    (sameKey : handle.key = insertion.key)
    (many : 2 ^ 32 ≤ handles.count e + 1) :
    shard.insert rounding (hashOf insertion.key) insertion = none := by
  obtain ⟨evicted, shard₁, low₁, high₁, run, -, evicts, -, -, refuses, foundNew, -⟩ :=
    insert_evicts consistent insertion room
  have apart := Finset.mem_union_left evicted.toFinset
    (Finset.mem_singleton_self shard.fresh)
  obtain ⟨old, table, inserted, finds, -, -⟩ := evicts.consistent.displaces apart foundNew
  have elsewhere : e ≠ shard.fresh := Nat.ne_of_lt (consistent.accounts.bounded e handle found).2
  have held : e ∈ handles := List.count_pos_iff.mp (by omega)
  have notEvicted : e ∉ evicted := by
    intro isEvicted
    refine consistent.accounts.notHeld ?_ held
    rw [evicts.split]
    exact List.mem_append_left _ isEvicted
  have found₁ : shard₁.heap e = some handle := by
    rw [evicts.others e notEvicted, heap_allocate_of_ne elsewhere, found]
  have owned : e ∉ {shard.fresh} ∪ evicted.toFinset := by
    simp [elsewhere, notEvicted]
  rw [← sameKey] at finds
  obtain rfl := evicts.consistent.table.finds_self found₁ ⟨handle, found₁, owned, inCache⟩ finds
  have fails := dropOld_wrapped evicts.consistent found₁ owned inCache many table
    (shard₁.usage + insertion.charge) evicted
  have refused : shard₁.insertEvicted rounding insertion shard.fresh evicted = none := by
    have accepts := refuses.not.mpr accepted
    rw [Refuses] at accepts
    rw [insertEvicted, if_neg accepts, inserted]
    simp [fails]
  have sameFresh : (shard.allocate (insertion.entry (hashOf insertion.key))).fresh =
    shard.fresh + 1 := rfl
  simp only [LRUCacheShard.insert, sameFresh, run, refused, Option.bind_eq_bind,
    Option.bind_some, Option.bind_none]

end LRUCacheShard
end Cache
end RocksUtil
