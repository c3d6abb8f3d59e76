import RocksUtil.Cache.HandleMap
import RocksUtil.Cache.LRUList

/-!
# The accounts of a shard

References, charges and membership of the list and of the table, as they stand
between two operations and inside of one.  Handles that are not accounted for
are kept apart in `outside`: the entry that `Insert` has allocated and not yet
entered, and the entries that have been taken out and not yet been freed.
-/

namespace RocksUtil
namespace Cache
namespace LRUCacheShard

open LRUHandleTable (Represents Finds without displace)

/-- The handles that the cache refers to. -/
def cached (heap : Heap) (outside : Finset Address) : Set Address :=
  {address | ∃ handle, heap address = some handle ∧ address ∉ outside ∧
    handle.inCache = true}

/-- The charges of the handles that are accounted for. -/
def totalCharge (heap : Heap) (fresh : Address) (outside : Finset Address) : Nat :=
  ∑ address ∈ Finset.range fresh \ outside, chargeAt heap address

/-- A counter of references that `given` handles are counted by, and the cache if the
entry is in it.  It is their number modulo `2 ^ 32`. -/
structure Counted (refs : UInt32) (inCache : Bool) (given : Nat) : Prop where
  residue : refs.toNat = (given + if inCache then 1 else 0) % 2 ^ 32
  referred : inCache = true ∨ 0 < given
  /-- Entries that the cache has given up have a counter that has not wrapped. -/
  bound : given + 1 < 2 ^ 32 ∨ inCache = true ∧ given ≤ 2 ^ 32

namespace Counted

variable {refs : UInt32} {inCache : Bool} {given : Nat}

/-- A counter that has not wrapped. -/
theorem toNat_refs
    (counted : Counted refs inCache given)
    (few : given + 1 < 2 ^ 32) :
    refs.toNat = given + if inCache then 1 else 0 := by
  rw [counted.residue]
  cases inCache <;> simp only [Bool.false_eq_true, if_false, if_true] <;> omega

theorem pos
    (counted : Counted refs inCache given)
    (few : given + 1 < 2 ^ 32) : 0 < refs := by
  have exact := counted.toNat_refs few
  rw [UInt32.lt_iff_toNat_lt, UInt32.toNat_zero]
  rcases counted.referred with rfl | someGiven
  · simp only [if_true] at exact
    omega
  · omega

/-- The counter of an entry that has been in the cache since it was allocated. -/
theorem refs_eq_one_iff (counted : Counted refs true given) :
    refs = 1 ↔ given = 0 ∨ given = 2 ^ 32 := by
  have residue := counted.residue
  have bound := counted.bound
  rw [← UInt32.toNat_inj, UInt32.toNat_one]
  simp only [if_true, true_and] at residue bound
  omega

/-- A counter that has wrapped says that nobody or only one refers to the entry. -/
theorem wrapped
    (counted : Counted refs true given)
    (many : 2 ^ 32 ≤ given + 1) : refs = 0 ∨ refs = 1 := by
  have residue := counted.residue
  have bound := counted.bound
  rw [← UInt32.toNat_inj, ← UInt32.toNat_inj, UInt32.toNat_zero, UInt32.toNat_one]
  simp only [if_true, true_and] at residue bound
  omega

/-- One handle is given out. -/
theorem raise
    (counted : Counted refs true given)
    (few : given < 2 ^ 32) : Counted (refs + 1) true (given + 1) where
  residue := by
    have residue := counted.residue
    rw [UInt32.toNat_add, UInt32.toNat_one]
    simp only [if_true] at residue ⊢
    omega
  referred := Or.inl rfl
  bound := Or.inr ⟨rfl, few⟩

/-- One of the references counted is given up. -/
theorem lower
    {inCache' : Bool}
    {given' : Nat}
    (counted : Counted refs inCache given)
    (few : given + 1 < 2 ^ 32)
    (one : given' + (if inCache' then 1 else 0) + 1 = given + if inCache then 1 else 0)
    (referred : inCache' = true ∨ 0 < given') : Counted (refs - 1) inCache' given' where
  residue := by
    have positive := counted.pos few
    have exact := counted.toNat_refs few
    have atLeast : 1 ≤ refs := by
      rw [UInt32.lt_iff_toNat_lt, UInt32.toNat_zero] at positive
      rw [UInt32.le_iff_toNat_le, UInt32.toNat_one]
      exact positive
    rw [UInt32.toNat_sub_of_le _ _ atLeast, UInt32.toNat_one]
    cases inCache <;> cases inCache' <;>
      simp only [Bool.false_eq_true, if_false, if_true] at exact one ⊢ <;> omega
  referred := referred
  bound := by
    refine Or.inl ?_
    cases inCache <;> cases inCache' <;>
      simp only [Bool.false_eq_true, if_false, if_true] at one <;> omega

/-- The last of the references counted. -/
theorem sub_one_eq_zero_iff
    (counted : Counted refs inCache given)
    (few : given + 1 < 2 ^ 32) :
    refs - 1 = 0 ↔ (given + if inCache then 1 else 0) = 1 := by
  have exact := counted.toNat_refs few
  rw [UInt32.sub_eq_iff_eq_add, UInt32.zero_add, ← UInt32.toNat_inj, UInt32.toNat_one, exact]

end Counted

/-- Everything but the table: `handles` are the handles given out and not yet
released, one for each time. -/
structure Accounts
    (shard : LRUCacheShard)
    (handles : List Address)
    (outside : Finset Address)
    (low high : List Address) : Prop where
  started : lru < shard.fresh
  bounded : ∀ address handle, shard.heap address = some handle →
    lru < address ∧ address < shard.fresh
  list : Listed shard low high
  usage : shard.usage.toNat = totalCharge shard.heap shard.fresh outside
  counted : ∀ address handle, shard.heap address = some handle → address ∉ outside →
    Counted handle.refs handle.inCache (handles.count address)
  onList : ∀ address, address ∈ low ++ high ↔ ∃ handle,
    shard.heap address = some handle ∧ address ∉ outside ∧ handle.inCache = true ∧
      address ∉ handles
  held : ∀ address ∈ handles, address ∉ outside ∧
    ∃ handle, shard.heap address = some handle
  nonneg : 0 ≤ shard.highPriPoolCapacity

variable {shard shard' : LRUCacheShard} {handles handles' : List Address}
  {outside outside' : Finset Address} {low high low' high' : List Address}
  {e : Address} {handle handle' : LRUHandle}

/-- Handles elsewhere are as before, up to the pool flag. -/
theorem Reflags.of_update
    {heap heap' : Heap}
    {other : Address}
    (reflags : Reflags (Function.update heap e (some handle')) heap')
    (notHere : other ≠ e)
    (found : heap' other = some handle) :
    ∃ flag, heap other = some { handle with inHighPriPool := flag } := by
  obtain ⟨flag, before⟩ := reflags.of_some' found
  rw [Function.update_of_ne notHere] at before
  exact ⟨flag, before⟩

theorem Reflags.of_update_self
    {heap heap' : Heap}
    (reflags : Reflags (Function.update heap e (some handle')) heap') :
    ∃ flag, heap' e = some { handle' with inHighPriPool := flag } :=
  reflags.of_some (Function.update_self ..)

/-- One handle is changed, together with its place on the list, the references to
it that are given out, and whether it is accounted for. -/
theorem Accounts.change
    (accounts : Accounts shard handles outside low high)
    (found : shard.heap e = some handle)
    (heap : Reflags (Function.update shard.heap e (some handle')) shard'.heap)
    (same : handle'.identity = handle.identity)
    (fresh : shard'.fresh = shard.fresh)
    (nonneg : 0 ≤ shard'.highPriPoolCapacity)
    (list : Listed shard' low' high')
    (usage : shard'.usage.toNat = totalCharge shard.heap shard.fresh outside')
    (elsewhere : ∀ other, other ≠ e → (other ∈ outside' ↔ other ∈ outside) ∧
      (other ∈ low' ++ high' ↔ other ∈ low ++ high) ∧
      handles'.count other = handles.count other)
    (inside : e ∉ outside' →
      Counted handle'.refs handle'.inCache (handles'.count e) ∧
      (e ∈ low' ++ high' ↔ handle'.inCache = true ∧ e ∉ handles'))
    (gone : e ∈ outside' → e ∉ low' ++ high' ∧ e ∉ handles') :
    Accounts shard' handles' outside' low' high' := by
  obtain ⟨flag, foundHere⟩ := heap.of_update_self
  have charges : ∀ address, chargeAt shard'.heap address = chargeAt shard.heap address := by
    intro address
    rw [heap.chargeAt_eq]
    by_cases here : address = e
    · subst here
      rw [chargeAt_of_some found, chargeAt_of_some (Function.update_self ..),
        LRUHandle.charge_eq same]
    · rw [chargeAt, Function.update_of_ne here, chargeAt]
  refine ⟨fresh ▸ accounts.started, ?_, list, ?_, ?_, ?_, ?_, nonneg⟩
  · intro address other foundOther
    rw [fresh]
    by_cases here : address = e
    · subst here
      exact accounts.bounded address handle found
    · obtain ⟨flag, before⟩ := heap.of_update here foundOther
      exact accounts.bounded address _ before
  · rw [usage, fresh, totalCharge, totalCharge]
    exact (Finset.sum_congr rfl (fun address _ => charges address)).symm
  · intro address other foundOther owned
    by_cases here : address = e
    · subst here
      obtain rfl := Option.some.inj (foundHere.symm.trans foundOther)
      exact (inside owned).1
    · obtain ⟨flag, before⟩ := heap.of_update here foundOther
      obtain ⟨sameOutside, -, sameCount⟩ := elsewhere address here
      have counted := accounts.counted address _ before (sameOutside.not.mp owned)
      rwa [← sameCount] at counted
  · intro address
    by_cases here : address = e
    · subst here
      constructor
      · intro within
        have owned : address ∉ outside' := fun out => (gone out).1 within
        obtain ⟨inCache, notHeld⟩ := (inside owned).2.mp within
        exact ⟨_, foundHere, owned, inCache, notHeld⟩
      · rintro ⟨other, foundOther, owned, inCache, notHeld⟩
        obtain rfl := Option.some.inj (foundHere.symm.trans foundOther)
        exact (inside owned).2.mpr ⟨inCache, notHeld⟩
    · obtain ⟨sameOutside, sameList, sameCount⟩ := elsewhere address here
      have sameHeld : address ∉ handles' ↔ address ∉ handles := by
        rw [← List.count_eq_zero, sameCount, List.count_eq_zero]
      rw [sameList, sameHeld, accounts.onList address]
      constructor
      · rintro ⟨other, foundOther, owned, facts⟩
        obtain ⟨flag, after⟩ := heap.of_some
          ((Function.update_of_ne here _ _).trans foundOther)
        exact ⟨_, after, sameOutside.not.mpr owned, facts⟩
      · rintro ⟨other, foundOther, owned, facts⟩
        obtain ⟨flag, before⟩ := heap.of_update here foundOther
        exact ⟨_, before, sameOutside.not.mp owned, facts⟩
  · intro address within
    by_cases here : address = e
    · subst here
      exact ⟨fun out => (gone out).2 within, _, foundHere⟩
    · obtain ⟨sameOutside, -, sameCount⟩ := elsewhere address here
      have before : address ∈ handles := by
        rw [← List.count_pos_iff, ← sameCount, List.count_pos_iff]
        exact within
      obtain ⟨owned, other, foundOther⟩ := accounts.held address before
      obtain ⟨flag, after⟩ := heap.of_some
        ((Function.update_of_ne here _ _).trans foundOther)
      exact ⟨sameOutside.not.mpr owned, _, after⟩

/-- No reference to an entry of the list is given out. -/
theorem Accounts.notHeld
    (accounts : Accounts shard handles outside low high)
    (within : e ∈ low ++ high) : e ∉ handles := by
  obtain ⟨handle, found, owned, inCache, notHeld⟩ := (accounts.onList e).mp within
  exact notHeld

/-- Only the cache refers to an entry of the list. -/
theorem Accounts.refs_eq_one
    (accounts : Accounts shard handles outside low high)
    (within : e ∈ low ++ high)
    (found : shard.heap e = some handle) : handle.refs = 1 := by
  obtain ⟨listed, foundListed, owned, inCache, notHeld⟩ := (accounts.onList e).mp within
  obtain rfl := Option.some.inj (found.symm.trans foundListed)
  have counted := accounts.counted e handle found owned
  rw [inCache] at counted
  exact counted.refs_eq_one_iff.mpr (Or.inl (List.count_eq_zero.mpr notHeld))

/-- Distinct handles are no more than addresses have been used. -/
theorem Accounts.length_le
    (accounts : Accounts shard handles outside low high)
    {addresses : List Address}
    (distinct : addresses.Nodup)
    (allocated : ∀ address ∈ addresses, ∃ handle, shard.heap address = some handle) :
    addresses.length ≤ shard.fresh := by
  have subset : addresses ⊆ List.range shard.fresh := by
    intro address within
    obtain ⟨handle, found⟩ := allocated address within
    exact List.mem_range.mpr (accounts.bounded address handle found).2
  simpa using (List.subperm_of_subset distinct subset).length_le

theorem Accounts.length_list_le
    (accounts : Accounts shard handles outside low high) :
    (low ++ high).length ≤ shard.fresh := by
  refine accounts.length_le accounts.list.distinct ?_
  intro address within
  obtain ⟨handle, found, -⟩ := (accounts.onList address).mp within
  exact ⟨handle, found⟩

/-- The list has room for another handle. -/
theorem Accounts.length_high_lt
    (accounts : Accounts shard handles outside low high)
    (found : shard.heap e = some handle)
    (offList : e ∉ low ++ high) : high.length < shard.fresh := by
  have bound := accounts.length_le
    (List.nodup_cons.mpr ⟨offList, accounts.list.distinct⟩) (by
      intro address within
      rcases List.mem_cons.mp within with rfl | within
      · exact ⟨handle, found⟩
      · obtain ⟨other, foundOther, -⟩ := (accounts.onList address).mp within
        exact ⟨other, foundOther⟩)
  simp only [List.length_cons, List.length_append] at bound
  omega

/-- What the cache refers to after one handle is changed. -/
theorem mem_cached_change
    {heap heap' : Heap}
    (reflags : Reflags (Function.update heap e (some handle')) heap')
    (elsewhere : ∀ other, other ≠ e → (other ∈ outside' ↔ other ∈ outside))
    (address : Address) :
    address ∈ cached heap' outside' ↔
      address = e ∧ e ∉ outside' ∧ handle'.inCache = true ∨
        address ≠ e ∧ address ∈ cached heap outside := by
  obtain ⟨flag, foundHere⟩ := reflags.of_update_self
  by_cases here : address = e
  · subst here
    constructor
    · rintro ⟨other, foundOther, owned, inCache⟩
      obtain rfl := Option.some.inj (foundHere.symm.trans foundOther)
      exact Or.inl ⟨rfl, owned, inCache⟩
    · rintro (⟨-, owned, inCache⟩ | ⟨absurd, -⟩)
      · exact ⟨_, foundHere, owned, inCache⟩
      · exact (absurd rfl).elim
  · constructor
    · rintro ⟨other, foundOther, owned, inCache⟩
      obtain ⟨flag, before⟩ := reflags.of_update here foundOther
      exact Or.inr ⟨here, _, before, (elsewhere address here).not.mp owned, inCache⟩
    · rintro (⟨equal, -⟩ | ⟨-, other, foundOther, owned, inCache⟩)
      · exact absurd equal here
      · obtain ⟨flag, after⟩ := reflags.of_some
          ((Function.update_of_ne here _ _).trans foundOther)
        exact ⟨_, after, (elsewhere address here).not.mpr owned, inCache⟩

/-- The table does not look at what a reference count or a flag says. -/
theorem represents_change
    {hashOf : Bytes → UInt32}
    {heap heap' : Heap}
    {table : LRUHandleTable}
    {members : Set Address}
    (represents : Represents hashOf heap table members)
    (found : heap e = some handle)
    (reflags : Reflags (Function.update heap e (some handle')) heap')
    (same : handle'.identity = handle.identity) :
    Represents hashOf heap' table members := by
  refine represents.congr ?_
  intro address within other foundOther
  by_cases here : address = e
  · subst here
    obtain rfl := Option.some.inj (found.symm.trans foundOther)
    obtain ⟨flag, foundHere⟩ := reflags.of_update_self
    exact ⟨_, foundHere, LRUHandle.key_eq same, LRUHandle.hash_eq same⟩
  · obtain ⟨flag, after⟩ := reflags.of_some
      ((Function.update_of_ne here _ _).trans foundOther)
    exact ⟨_, after, rfl, rfl⟩

theorem represents_reflag
    {hashOf : Bytes → UInt32}
    {heap heap' : Heap}
    {table : LRUHandleTable}
    {members : Set Address}
    (represents : Represents hashOf heap table members)
    (reflags : Reflags heap heap') : Represents hashOf heap' table members := by
  refine represents.congr ?_
  intro address _ handle found
  obtain ⟨flag, after⟩ := reflags.of_some found
  exact ⟨_, after, rfl, rfl⟩

/-- The charge of a handle is part of the total. -/
theorem totalCharge_insert
    (heap : Heap)
    {fresh : Address}
    (allocated : e < fresh)
    (owned : e ∉ outside) :
    totalCharge heap fresh outside =
      totalCharge heap fresh (insert e outside) + chargeAt heap e := by
  have within : e ∈ Finset.range fresh \ outside := by simp [allocated, owned]
  rw [totalCharge, totalCharge, ← Finset.add_sum_erase _ _ within, Finset.sdiff_insert,
    Nat.add_comm]

/-- The usage covers the charge of a handle, and the others. -/
theorem Accounts.usage_split
    (accounts : Accounts shard handles outside low high)
    (found : shard.heap e = some handle)
    (owned : e ∉ outside) :
    shard.usage.toNat = totalCharge shard.heap shard.fresh (insert e outside) +
      handle.charge.toNat := by
  rw [accounts.usage, ← chargeAt_of_some found]
  exact totalCharge_insert shard.heap (accounts.bounded e handle found).2 owned

theorem Accounts.toNat_usage_sub
    (accounts : Accounts shard handles outside low high)
    (found : shard.heap e = some handle)
    (owned : e ∉ outside) :
    (shard.usage - handle.charge).toNat + handle.charge.toNat = shard.usage.toNat := by
  have split := accounts.usage_split found owned
  have covered : handle.charge ≤ shard.usage := by
    rw [UInt64.le_iff_toNat_le]
    omega
  rw [UInt64.toNat_sub_of_le _ _ covered]
  omega

/-- The usage covers the list. -/
theorem Accounts.listCharge_le
    (accounts : Accounts shard handles outside low high)
    {addresses : List Address}
    (distinct : addresses.Nodup)
    (owned : ∀ address ∈ addresses, address ∉ outside ∧
      ∃ handle, shard.heap address = some handle) :
    listCharge shard.heap addresses ≤ shard.usage.toNat := by
  rw [accounts.usage, listCharge, ← List.sum_toFinset _ distinct, totalCharge]
  refine Finset.sum_le_sum_of_subset ?_
  intro address within
  obtain ⟨apart, handle, found⟩ := owned address (List.mem_toFinset.mp within)
  rw [Finset.mem_sdiff, Finset.mem_range]
  exact ⟨(accounts.bounded address handle found).2, apart⟩

theorem Accounts.listCharge_add_le
    (accounts : Accounts shard handles outside low high)
    (found : shard.heap e = some handle)
    (owned : e ∉ outside)
    (offList : e ∉ low ++ high) :
    listCharge shard.heap (low ++ high) + handle.charge.toNat ≤ shard.usage.toNat := by
  have bound := accounts.listCharge_le (List.nodup_cons.mpr ⟨offList, accounts.list.distinct⟩)
    (by
      intro address within
      rcases List.mem_cons.mp within with rfl | within
      · exact ⟨owned, handle, found⟩
      · obtain ⟨other, foundOther, apart, -⟩ := (accounts.onList address).mp within
        exact ⟨apart, other, foundOther⟩)
  rw [listCharge_cons, chargeAt_of_some found] at bound
  omega

/-- A handle that stays accounted for: references to it are taken or returned, or
the cache gives up its own. -/
theorem Accounts.rehandle
    (accounts : Accounts shard handles outside low high)
    (found : shard.heap e = some handle)
    (owned : e ∉ outside)
    (heap : Reflags (Function.update shard.heap e (some handle')) shard'.heap)
    (same : handle'.identity = handle.identity)
    (fresh : shard'.fresh = shard.fresh)
    (usage : shard'.usage = shard.usage)
    (capacity : shard'.highPriPoolCapacity = shard.highPriPoolCapacity)
    (list : Listed shard' low' high')
    (nodes : ∀ other, other ≠ e → (other ∈ low' ++ high' ↔ other ∈ low ++ high))
    (onList : e ∈ low' ++ high' ↔ handle'.inCache = true ∧ e ∉ handles')
    (counts : ∀ other, other ≠ e → handles'.count other = handles.count other)
    (counted : Counted handle'.refs handle'.inCache (handles'.count e)) :
    Accounts shard' handles' outside low' high' := by
  refine accounts.change found heap same fresh (capacity ▸ accounts.nonneg) list ?_
    (fun other notHere => ⟨Iff.rfl, nodes other notHere, counts other notHere⟩)
    (fun _ => ⟨counted, onList⟩) (fun out => absurd out owned)
  rw [usage]
  exact accounts.usage

/-- A handle that nobody refers to any more. -/
theorem Accounts.retire
    (accounts : Accounts shard handles outside low high)
    (found : shard.heap e = some handle)
    (owned : e ∉ outside)
    (heap : Reflags (Function.update shard.heap e (some handle')) shard'.heap)
    (same : handle'.identity = handle.identity)
    (fresh : shard'.fresh = shard.fresh)
    (usage : shard'.usage = shard.usage - handle.charge)
    (capacity : shard'.highPriPoolCapacity = shard.highPriPoolCapacity)
    (list : Listed shard' low' high')
    (nodes : ∀ other, other ≠ e → (other ∈ low' ++ high' ↔ other ∈ low ++ high))
    (offList : e ∉ low' ++ high')
    (counts : ∀ other, other ≠ e → handles'.count other = handles.count other)
    (notHeld : e ∉ handles') :
    Accounts shard' handles' (insert e outside) low' high' := by
  refine accounts.change found heap same fresh (capacity ▸ accounts.nonneg) list ?_
    (fun other notHere => ⟨by simp [notHere], nodes other notHere, counts other notHere⟩)
    (fun out => absurd (Finset.mem_insert_self e outside) out)
    (fun _ => ⟨offList, notHeld⟩)
  have split := accounts.usage_split found owned
  have difference := accounts.toNat_usage_sub found owned
  rw [usage]
  omega

/-- A new handle is accounted for. -/
theorem Accounts.admit
    (accounts : Accounts shard handles outside low high)
    (found : shard.heap e = some handle)
    (apart : e ∈ outside)
    (heap : Reflags shard.heap shard'.heap)
    (fresh : shard'.fresh = shard.fresh)
    (usage : shard'.usage = shard.usage + handle.charge)
    (room : shard.usage.toNat + handle.charge.toNat < 2 ^ 64)
    (capacity : shard'.highPriPoolCapacity = shard.highPriPoolCapacity)
    (list : Listed shard' low' high')
    (nodes : ∀ other, other ≠ e → (other ∈ low' ++ high' ↔ other ∈ low ++ high))
    (onList : e ∈ low' ++ high' ↔ e ∉ handles')
    (counts : ∀ other, other ≠ e → handles'.count other = handles.count other)
    (inCache : handle.inCache = true)
    (counted : Counted handle.refs true (handles'.count e)) :
    Accounts shard' handles' (outside.erase e) low' high' := by
  have unchanged : Reflags (Function.update shard.heap e (some handle)) shard'.heap := by
    rwa [← found, Function.update_eq_self]
  refine accounts.change found unchanged rfl fresh (capacity ▸ accounts.nonneg)
    list ?_ (fun other notHere => ⟨by simp [notHere], nodes other notHere,
      counts other notHere⟩)
    (fun _ => ⟨inCache.symm ▸ counted, by simpa [inCache] using onList⟩)
    (fun out => absurd out (Finset.notMem_erase e outside))
  have total := totalCharge_insert shard.heap
    (accounts.bounded e handle found).2 (Finset.notMem_erase e outside)
  rw [Finset.insert_erase apart, ← accounts.usage, chargeAt_of_some found] at total
  rw [usage, UInt64.toNat_add, Nat.mod_eq_of_lt room]
  exact total.symm

/-- The cache refers to the same handles. -/
theorem cached_rehandle
    {heap heap' : Heap}
    (found : heap e = some handle)
    (reflags : Reflags (Function.update heap e (some handle')) heap')
    (inCache : handle'.inCache = handle.inCache) :
    cached heap' outside = cached heap outside := by
  ext address
  rw [mem_cached_change reflags (fun _ _ => Iff.rfl) address, inCache]
  by_cases here : address = e
  · subst here
    simp [cached, found]
  · simp [here]

/-- The cache does not refer to a handle any more. -/
theorem cached_without
    {heap heap' : Heap}
    (reflags : Reflags (Function.update heap e (some handle')) heap')
    (elsewhere : ∀ other, other ≠ e → (other ∈ outside' ↔ other ∈ outside))
    (gone : e ∈ outside' ∨ handle'.inCache = false) :
    cached heap' outside' = without (cached heap outside) (some e) := by
  ext address
  rw [mem_cached_change reflags elsewhere address]
  simp only [without, Set.mem_ofPred_eq, ne_eq, Option.some.injEq]
  grind

/-- The cache refers to one handle more. -/
theorem mem_cached_erase
    {heap heap' : Heap}
    (found : heap e = some handle)
    (reflags : Reflags heap heap')
    (inCache : handle.inCache = true)
    (address : Address) :
    address ∈ cached heap' (outside.erase e) ↔
      address = e ∨ address ∈ cached heap outside := by
  have unchanged : Reflags (Function.update heap e (some handle)) heap' := by
    rwa [← found, Function.update_eq_self]
  have elsewhere : ∀ other, other ≠ e → (other ∈ outside.erase e ↔ other ∈ outside) := by
    intro other notHere
    simp [notHere]
  rw [mem_cached_change unchanged elsewhere address]
  simp only [Finset.notMem_erase, not_false_eq_true, inCache, and_self, and_true]
  by_cases here : address = e <;> simp [here]

/-- The accounts and the table of a shard. -/
structure Consistent
    (hashOf : Bytes → UInt32)
    (shard : LRUCacheShard)
    (handles : List Address)
    (outside : Finset Address)
    (low high : List Address) : Prop where
  accounts : Accounts shard handles outside low high
  table : Represents hashOf shard.heap shard.table (cached shard.heap outside)

/-- Pool flags and the border of the segments are of no account. -/
theorem Consistent.reflag
    {hashOf : Bytes → UInt32}
    (consistent : Consistent hashOf shard handles outside low high)
    (reflags : Reflags shard.heap shard'.heap)
    (fresh : shard'.fresh = shard.fresh)
    (usage : shard'.usage = shard.usage)
    (table : shard'.table = shard.table)
    (nonneg : 0 ≤ shard'.highPriPoolCapacity)
    (list : Listed shard' low' high')
    (nodes : ∀ address, address ∈ low' ++ high' ↔ address ∈ low ++ high) :
    Consistent hashOf shard' handles outside low' high' := by
  have accounts := consistent.accounts
  have sameCached : cached shard'.heap outside = cached shard.heap outside := by
    ext address
    constructor
    · rintro ⟨handle, found, facts⟩
      obtain ⟨flag, before⟩ := reflags.of_some' found
      exact ⟨_, before, facts⟩
    · rintro ⟨handle, found, facts⟩
      obtain ⟨flag, after⟩ := reflags.of_some found
      exact ⟨_, after, facts⟩
  refine ⟨⟨fresh ▸ accounts.started, ?_, list, ?_, ?_, ?_, ?_, nonneg⟩, ?_⟩
  · intro address handle found
    obtain ⟨flag, before⟩ := reflags.of_some' found
    rw [fresh]
    exact accounts.bounded address _ before
  · rw [usage, fresh, accounts.usage, totalCharge, totalCharge]
    exact (Finset.sum_congr rfl (fun address _ => reflags.chargeAt_eq address)).symm
  · intro address handle found
    obtain ⟨flag, before⟩ := reflags.of_some' found
    have counted := accounts.counted address _ before
    exact counted
  · intro address
    rw [nodes, accounts.onList]
    constructor
    · rintro ⟨handle, found, facts⟩
      obtain ⟨flag, after⟩ := reflags.of_some found
      exact ⟨_, after, facts⟩
    · rintro ⟨handle, found, facts⟩
      obtain ⟨flag, before⟩ := reflags.of_some' found
      exact ⟨_, before, facts⟩
  · intro address within
    obtain ⟨apart, handle, found⟩ := accounts.held address within
    obtain ⟨flag, after⟩ := reflags.of_some found
    exact ⟨apart, _, after⟩
  · rw [sameCached, table]
    exact represents_reflag consistent.table reflags

/-- What is left alone on the way from one state to another: the settings, and what
the entries were inserted with.  The cache may give up its reference to an entry,
but does not take one to an entry it has given up. -/
structure Keeps (shard shard' : LRUCacheShard) : Prop where
  capacity : shard'.capacity = shard.capacity
  strictCapacityLimit : shard'.strictCapacityLimit = shard.strictCapacityLimit
  highPriPoolRatio : shard'.highPriPoolRatio = shard.highPriPoolRatio
  fresh : shard'.fresh = shard.fresh
  deletions : shard'.deletions = shard.deletions
  missing : ∀ address, shard.heap address = none → shard'.heap address = none
  present : ∀ address handle, shard.heap address = some handle → ∃ handle',
    shard'.heap address = some handle' ∧ handle'.identity = handle.identity ∧
      (handle'.inCache = true → handle.inCache = true)

namespace Keeps

theorem refl (shard : LRUCacheShard) : Keeps shard shard :=
  ⟨rfl, rfl, rfl, rfl, rfl, fun _ => id, fun _ handle found => ⟨handle, found, rfl, id⟩⟩

theorem trans
    {shard'' : LRUCacheShard}
    (first : Keeps shard shard')
    (second : Keeps shard' shard'') : Keeps shard shard'' where
  capacity := second.capacity.trans first.capacity
  strictCapacityLimit := second.strictCapacityLimit.trans first.strictCapacityLimit
  highPriPoolRatio := second.highPriPoolRatio.trans first.highPriPoolRatio
  fresh := second.fresh.trans first.fresh
  deletions := second.deletions.trans first.deletions
  missing address free := second.missing address (first.missing address free)
  present address handle found := by
    obtain ⟨handle', found', same, inCache⟩ := first.present address handle found
    obtain ⟨handle'', found'', same', inCache'⟩ := second.present address handle' found'
    exact ⟨handle'', found'', same'.trans same, fun here => inCache (inCache' here)⟩

/-- One handle is changed, and pool flags. -/
theorem of_update
    (found : shard.heap e = some handle)
    (reflags : Reflags (Function.update shard.heap e (some handle')) shard'.heap)
    (same : handle'.identity = handle.identity)
    (inCache : handle'.inCache = true → handle.inCache = true)
    (capacity : shard'.capacity = shard.capacity)
    (strictCapacityLimit : shard'.strictCapacityLimit = shard.strictCapacityLimit)
    (highPriPoolRatio : shard'.highPriPoolRatio = shard.highPriPoolRatio)
    (fresh : shard'.fresh = shard.fresh)
    (deletions : shard'.deletions = shard.deletions) :
    Keeps shard shard' := by
  refine ⟨capacity, strictCapacityLimit, highPriPoolRatio, fresh, deletions, ?_, ?_⟩
  · intro address free
    have elsewhere : address ≠ e := by
      rintro rfl
      rw [found] at free
      exact absurd free (Option.some_ne_none handle)
    obtain ⟨flag, after⟩ := reflags address
    rw [after, Function.update_of_ne elsewhere, free, Option.map_none]
  · intro address other foundOther
    by_cases here : address = e
    · subst here
      obtain rfl := Option.some.inj (found.symm.trans foundOther)
      obtain ⟨flag, after⟩ := reflags.of_update_self
      exact ⟨_, after, same, inCache⟩
    · obtain ⟨flag, after⟩ := reflags.of_some
        ((Function.update_of_ne here _ _).trans foundOther)
      exact ⟨_, after, rfl, id⟩

end Keeps

end LRUCacheShard
end Cache
end RocksUtil
