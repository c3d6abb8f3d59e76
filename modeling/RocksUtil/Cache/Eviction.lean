import RocksUtil.Cache.Accounting

/-!
# Eviction and freeing

The loops that take entries off the list, oldest first, and the calls of `Free`
that an operation ends with.
-/

namespace RocksUtil
namespace Cache
namespace LRUCacheShard

open LRUHandleTable (Represents Finds without displace)

variable {hashOf : Bytes → UInt32} {shard shard' : LRUCacheShard}
  {handles handles' : List Address} {outside outside' : Finset Address}
  {low high low' high' : List Address} {e : Address} {handle handle' : LRUHandle}

/-- The last reference to an entry is given up: it is off the list and out of the
table, and only waits to be freed. -/
theorem Consistent.retire
    {links : Ring.Links Address}
    {lruLowPri : Address}
    {lruUsage highPriPoolUsage : UInt64}
    {table : LRUHandleTable}
    (consistent : Consistent hashOf shard handles outside low high)
    (found : shard.heap e = some handle)
    (owned : e ∉ outside)
    (listed : Listed { shard with
      links := links
      lruLowPri := lruLowPri
      lruUsage := lruUsage
      highPriPoolUsage := highPriPoolUsage } low' high')
    (nodes : ∀ other, other ≠ e → (other ∈ low' ++ high' ↔ other ∈ low ++ high))
    (offList : e ∉ low' ++ high')
    (counts : ∀ other, other ≠ e → handles'.count other = handles.count other)
    (notHeld : e ∉ handles')
    (represents : Represents hashOf shard.heap table
      (without (cached shard.heap outside) (some e))) :
    Consistent hashOf { shard with
      links := links
      lruLowPri := lruLowPri
      lruUsage := lruUsage
      highPriPoolUsage := highPriPoolUsage
      table := table
      heap := Function.update shard.heap e
        (some { handle with inCache := false, refs := 0 })
      usage := shard.usage - handle.charge } handles' (insert e outside) low' high' := by
  have reflags := Reflags.refl (Function.update shard.heap e
    (some { handle with inCache := false, refs := 0 }))
  have elsewhere : ∀ other, other ≠ e →
      (other ∈ insert e outside ↔ other ∈ outside) := by
    intro other notHere
    simp [notHere]
  refine ⟨consistent.accounts.retire found owned reflags rfl rfl rfl rfl ?_ nodes offList
    counts notHeld, ?_⟩
  · refine listed.congr rfl rfl rfl rfl ?_
    intro address within other foundOther
    have notHere : address ≠ e := fun equal => offList (equal ▸ within)
    exact ⟨other, (Function.update_of_ne notHere _ _).trans foundOther, rfl, rfl⟩
  · simp only [cached_without reflags elsewhere (Or.inl (Finset.mem_insert_self e outside))]
    exact represents_change represents found reflags rfl

/-- Evicting the oldest entry. -/
theorem evictOldest_spec
    {rest : List Address}
    (consistent : Consistent hashOf shard handles outside low high)
    (nodes : low ++ high = e :: rest) :
    ∃ shard' low' high' handle, shard.evictOldest = some (e, shard') ∧
      Consistent hashOf shard' handles (insert e outside) low' high' ∧
      low' ++ high' = rest ∧ high'.Sublist high ∧ Keeps shard shard' ∧
      shard.heap e = some handle ∧
      shard'.heap = Function.update shard.heap e
        (some { handle with inCache := false, refs := 0 }) ∧
      shard'.usage = shard.usage - handle.charge := by
  have accounts := consistent.accounts
  have onList : e ∈ low ++ high := by simp [nodes]
  obtain ⟨handle, found, owned, inCache, -⟩ := (accounts.onList e).mp onList
  have refs := accounts.refs_eq_one onList found
  have within : e ∈ cached shard.heap outside := ⟨handle, found, owned, inCache⟩
  have oldest : shard.links.next lru = some e := by
    rw [accounts.list.ring.next_dummy, nodes, List.headD_cons]
  have place : low ++ high = [] ++ e :: rest := nodes
  obtain ⟨links, lruLowPri, lruUsage, highPriPoolUsage, low', high', removed, listed,
    split, shrinks⟩ := lruRemove_spec accounts.list place
  rw [List.nil_append] at split
  obtain ⟨table, removedFromTable, represents⟩ := consistent.table.remove_self found within
  have distinct := accounts.list.distinct
  rw [nodes] at distinct
  have offList : e ∉ low' ++ high' := split ▸ (List.nodup_cons.mp distinct).1
  refine ⟨_, low', high', handle, ?_, consistent.retire found owned listed ?_ offList
    (fun _ _ => rfl) (accounts.notHeld onList) represents, split, shrinks, ?_, found, rfl,
    rfl⟩
  · simp [evictOldest, oldest, found, inCache, refs, removed, removedFromTable, setInCache,
      modify, unref]
  · intro other notHere
    simp [split, nodes, notHere]
  · exact Keeps.of_update found (Reflags.refl _) rfl (by simp) rfl rfl rfl rfl rfl

/-- The entries `evicted` have been taken off the older end of the list, and only
wait to be freed. -/
structure Evicts
    (hashOf : Bytes → UInt32)
    (shard : LRUCacheShard)
    (handles : List Address)
    (outside : Finset Address)
    (low high evicted : List Address)
    (shard' : LRUCacheShard)
    (low' high' : List Address) : Prop where
  consistent : Consistent hashOf shard' handles (outside ∪ evicted.toFinset) low' high'
  split : low ++ high = evicted ++ (low' ++ high')
  shrinks : high'.Sublist high
  keeps : Keeps shard shard'
  others : ∀ address, address ∉ evicted → shard'.heap address = shard.heap address
  idle : ∀ address ∈ evicted, ∃ handle, shard'.heap address = some handle ∧
    handle.refs = 0 ∧ handle.inCache = false
  usage : shard'.usage.toNat + listCharge shard.heap evicted = shard.usage.toNat

theorem Evicts.refl (consistent : Consistent hashOf shard handles outside low high) :
    Evicts hashOf shard handles outside low high [] shard low high where
  consistent := by simpa using consistent
  split := rfl
  shrinks := List.Sublist.refl high
  keeps := Keeps.refl shard
  others _ _ := rfl
  idle := by simp
  usage := by simp

/-- Evicting the oldest entry, and then others. -/
theorem Evicts.step
    {rest evicted : List Address}
    {shard₁ : LRUCacheShard}
    (consistent : Consistent hashOf shard handles outside low high)
    (nodes : low ++ high = e :: rest)
    (consistent₁ : Consistent hashOf shard₁ handles (insert e outside) low' high')
    (keeps : Keeps shard shard₁)
    (found : shard.heap e = some handle)
    (heap : shard₁.heap = Function.update shard.heap e
      (some { handle with inCache := false, refs := 0 }))
    (usage : shard₁.usage = shard.usage - handle.charge)
    (split : low' ++ high' = rest)
    (shrinks : high'.Sublist high)
    {low'' high'' : List Address}
    (later : Evicts hashOf shard₁ handles (insert e outside) low' high' evicted shard'
      low'' high'') :
    Evicts hashOf shard handles outside low high (e :: evicted) shard' low''
      high'' := by
  have distinct := consistent.accounts.list.distinct
  rw [nodes] at distinct
  have notLater : e ∉ evicted := by
    intro within
    apply (List.nodup_cons.mp distinct).1
    rw [← split, later.split]
    exact List.mem_append_left _ within
  have notHere : ∀ address ∈ evicted, address ≠ e :=
    fun address within equal => notLater (equal ▸ within)
  have owned : e ∉ outside := by
    have onList : e ∈ low ++ high := by simp [nodes]
    obtain ⟨_, _, owned, _⟩ := (consistent.accounts.onList e).mp onList
    exact owned
  refine ⟨?_, ?_, later.shrinks.trans shrinks, keeps.trans later.keeps, ?_, ?_, ?_⟩
  · have same : outside ∪ (e :: evicted).toFinset =
        insert e outside ∪ evicted.toFinset := by
      rw [List.toFinset_cons, Finset.union_insert, Finset.insert_union]
    rw [same]
    exact later.consistent
  · rw [nodes, ← split, later.split]
    rfl
  · intro address outsideBoth
    rw [List.mem_cons, not_or] at outsideBoth
    rw [later.others address outsideBoth.2, heap, Function.update_of_ne outsideBoth.1]
  · intro address within
    rcases List.mem_cons.mp within with rfl | within
    · refine ⟨{ handle with inCache := false, refs := 0 }, ?_, rfl, rfl⟩
      rw [later.others address notLater, heap, Function.update_self]
    · exact later.idle address within
  · have sum := later.usage
    have difference := consistent.accounts.toNat_usage_sub found owned
    have sameCharges : listCharge shard₁.heap evicted = listCharge shard.heap evicted := by
      refine listCharge_congr (fun address within => ?_)
      rw [chargeAt, heap, Function.update_of_ne (notHere address within), chargeAt]
    rw [usage, sameCharges] at sum
    rw [listCharge_cons, chargeAt_of_some found]
    omega

/-- The shortest part of a list, from its older end, without which `charge` fits,
or all of it. -/
def evictable (capacity charge : Nat) (chargeOf : Address → Nat) :
    Nat → List Address → List Address
  | _, [] => []
  | usage, address :: rest =>
      if usage + charge > capacity then
        address :: evictable capacity charge chargeOf (usage - chargeOf address) rest
      else
        []

theorem evictable_congr
    {capacity charge : Nat}
    {chargeOf chargeOf' : Address → Nat}
    {nodes : List Address}
    (same : ∀ address ∈ nodes, chargeOf' address = chargeOf address)
    (usage : Nat) :
    evictable capacity charge chargeOf' usage nodes =
      evictable capacity charge chargeOf usage nodes := by
  induction nodes generalizing usage with
  | nil => rfl
  | cons address rest inductionHypothesis =>
      rw [evictable, evictable, same address (by simp),
        inductionHypothesis (fun other within => same other (by simp [within]))]

/-- `EvictFromLRU` takes off what is needed to fit the charge. -/
theorem evictFromLRU_spec
    {charge : UInt64}
    {fuel : Nat}
    (consistent : Consistent hashOf shard handles outside low high)
    (room : shard.usage.toNat + charge.toNat < 2 ^ 64)
    (enough : (low ++ high).length < fuel)
    (deleted : List Address) :
    ∃ evicted shard' low' high',
      evictFromLRU charge fuel shard deleted = some (deleted ++ evicted, shard') ∧
      evicted = evictable shard.capacity.toNat charge.toNat (chargeAt shard.heap)
        shard.usage.toNat (low ++ high) ∧
      Evicts hashOf shard handles outside low high evicted shard' low' high' ∧
      (shard'.usage.toNat + charge.toNat ≤ shard.capacity.toNat ∨ low' ++ high' = []) := by
  induction fuel generalizing shard low high outside deleted with
  | zero => omega
  | succ fuel inductionHypothesis =>
      have overfull : shard.usage + charge > shard.capacity ↔
          shard.usage.toNat + charge.toNat > shard.capacity.toNat := by
        rw [gt_iff_lt, UInt64.lt_iff_toNat_lt, UInt64.toNat_add, Nat.mod_eq_of_lt room]
      cases nodes : low ++ high with
      | nil =>
          have empty : shard.links.next lru = some lru := by
            rw [consistent.accounts.list.ring.next_dummy, nodes, List.headD_nil]
          refine ⟨[], shard, low, high, ?_, rfl, Evicts.refl consistent, Or.inr nodes⟩
          rw [evictFromLRU, if_neg (by simp [empty]), List.append_nil]
      | cons e rest =>
          have notDummy : e ≠ lru := by
            have within : e ∈ low ++ high := by simp [nodes]
            exact consistent.accounts.list.ne_lru within
          have oldest : shard.links.next lru = some e := by
            rw [consistent.accounts.list.ring.next_dummy, nodes, List.headD_cons]
          by_cases full : shard.usage.toNat + charge.toNat > shard.capacity.toNat
          · obtain ⟨shard₁, low₁, high₁, handle, run, consistent₁, split, shrinks, keeps,
              found, heap, usage⟩ := evictOldest_spec consistent nodes
            have owned : e ∉ outside := by
              have onList : e ∈ low ++ high := by simp [nodes]
              obtain ⟨_, _, owned, _⟩ := (consistent.accounts.onList e).mp onList
              exact owned
            have difference := consistent.accounts.toNat_usage_sub found owned
            rw [← usage] at difference
            have distinct := consistent.accounts.list.distinct
            rw [nodes] at distinct
            have sameCharges : ∀ address ∈ rest,
                chargeAt shard₁.heap address = chargeAt shard.heap address := by
              intro address within
              have notHere : address ≠ e := by
                rintro rfl
                exact (List.nodup_cons.mp distinct).1 within
              rw [chargeAt, heap, Function.update_of_ne notHere, chargeAt]
            have shorter : (low₁ ++ high₁).length < fuel := by
              have length := congrArg List.length nodes
              rw [split]
              simp only [List.length_cons] at length
              omega
            obtain ⟨evicted, shard', low', high', run', isEvictable, evicts, fits⟩ :=
              inductionHypothesis consistent₁ (by omega) shorter (deleted ++ [e])
            rw [split] at isEvictable
            refine ⟨e :: evicted, shard', low', high', ?_, ?_, ?_, ?_⟩
            · rw [evictFromLRU, if_pos ⟨overfull.mpr full, by simp [oldest, notDummy]⟩, run]
              simpa using run'
            · rw [evictable, if_pos full, isEvictable, keeps.capacity,
                evictable_congr sameCharges, chargeAt_of_some found]
              congr 2
              omega
            · exact Evicts.step consistent nodes consistent₁ keeps found heap usage split
                shrinks evicts
            · rwa [keeps.capacity] at fits
          · refine ⟨[], shard, low, high, ?_, ?_, Evicts.refl consistent,
              Or.inl (not_lt.mp full)⟩
            · rw [evictFromLRU, if_neg (by rw [overfull]; simp [full]), List.append_nil]
            · rw [evictable, if_neg full]

/-- The loop of `EraseUnRefEntries` takes the whole list off. -/
theorem evictAll_spec
    {fuel : Nat}
    (consistent : Consistent hashOf shard handles outside low high)
    (enough : (low ++ high).length < fuel)
    (deleted : List Address) :
    ∃ shard', evictAll fuel shard deleted = some (deleted ++ (low ++ high), shard') ∧
      Evicts hashOf shard handles outside low high (low ++ high) shard' [] [] := by
  induction fuel generalizing shard low high outside deleted with
  | zero => omega
  | succ fuel inductionHypothesis =>
      cases nodes : low ++ high with
      | nil =>
          have empty : shard.links.next lru = some lru := by
            rw [consistent.accounts.list.ring.next_dummy, nodes, List.headD_nil]
          obtain ⟨rfl, rfl⟩ := List.append_eq_nil_iff.mp nodes
          refine ⟨shard, ?_, Evicts.refl consistent⟩
          rw [evictAll, if_neg (by simp [empty]), List.append_nil]
      | cons e rest =>
          have notDummy : e ≠ lru := by
            have within : e ∈ low ++ high := by simp [nodes]
            exact consistent.accounts.list.ne_lru within
          have oldest : shard.links.next lru = some e := by
            rw [consistent.accounts.list.ring.next_dummy, nodes, List.headD_cons]
          obtain ⟨shard₁, low₁, high₁, handle, run, consistent₁, split, shrinks, keeps, found,
            heap, usage⟩ := evictOldest_spec consistent nodes
          have shorter : (low₁ ++ high₁).length < fuel := by
            have length := congrArg List.length nodes
            rw [split]
            simp only [List.length_cons] at length
            omega
          obtain ⟨shard', run', evicts⟩ :=
            inductionHypothesis consistent₁ shorter (deleted ++ [e])
          rw [split] at evicts run'
          refine ⟨shard', ?_, ?_⟩
          · rw [evictAll, if_pos (by simp [oldest, notDummy]), run]
            simpa using run'
          · exact Evicts.step consistent nodes consistent₁ keeps found heap usage split
              shrinks evicts

/-- The call that `Free` makes for a handle, if it makes one. -/
def deletionOf (heap : Heap) (e : Address) : List Deletion :=
  (heap e).elim [] (fun handle =>
    (handle.deleter.map (⟨e, ·, handle.key, handle.value⟩)).toList)

/-- `Free` may be called. -/
def Freeable (handle : LRUHandle) : Prop :=
  (handle.refs = 1 ∧ handle.inCache = true) ∨ (handle.refs = 0 ∧ handle.inCache = false)

theorem free_eq
    (found : shard.heap e = some handle)
    (freeable : Freeable handle) :
    shard.free e = some { shard with
      heap := Function.update shard.heap e none
      deletions := shard.deletions ++ deletionOf shard.heap e } := by
  rcases freeable with ⟨refs, inCache⟩ | ⟨refs, inCache⟩
  · simp [free, freeUnchecked, found, refs, inCache, deletionOf]
  · simp [free, freeUnchecked, found, refs, inCache, deletionOf]

/-- Freeing several entries, each once. -/
theorem freeAll_eq
    {entries : List Address}
    (distinct : entries.Nodup)
    (freeable : ∀ address ∈ entries, ∃ handle, shard.heap address = some handle ∧
      Freeable handle) :
    shard.freeAll entries = some { shard with
      heap := fun address => if address ∈ entries then none else shard.heap address
      deletions := shard.deletions ++ entries.flatMap (deletionOf shard.heap) } := by
  induction entries generalizing shard with
  | nil => simp [freeAll]
  | cons e entries inductionHypothesis =>
      obtain ⟨handle, found, allowed⟩ := freeable e (by simp)
      obtain ⟨notLater, laterDistinct⟩ := List.nodup_cons.mp distinct
      have elsewhere : ∀ address ∈ entries, address ≠ e :=
        fun address within equal => notLater (equal ▸ within)
      have sameDeletions : entries.flatMap
          (deletionOf (Function.update shard.heap e none)) =
            entries.flatMap (deletionOf shard.heap) := by
        refine List.flatMap_congr (fun address within => ?_)
        rw [deletionOf, Function.update_of_ne (elsewhere address within), deletionOf]
      rw [freeAll, List.foldlM_cons, free_eq found allowed]
      refine (inductionHypothesis laterDistinct ?_).trans ?_
      · intro address within
        obtain ⟨other, foundOther, allowedOther⟩ := freeable address (by simp [within])
        exact ⟨other, (Function.update_of_ne (elsewhere address within) _ _).trans
          foundOther, allowedOther⟩
      · simp only [sameDeletions, List.flatMap_cons, List.append_assoc]
        congr 2
        funext address
        by_cases here : address = e
        · simp [here]
        · simp [here]

/-- Once everything that is not accounted for is freed, the accounts are complete. -/
theorem Consistent.settle
    (consistent : Consistent hashOf shard handles outside low high)
    (deletions : List Deletion)
    {heap : Heap}
    (gone : ∀ address ∈ outside, heap address = none)
    (others : ∀ address, address ∉ outside → heap address = shard.heap address) :
    Consistent hashOf { shard with heap := heap, deletions := deletions } handles ∅ low
      high := by
  have owned : ∀ address handle, heap address = some handle → address ∉ outside := by
    intro address handle found apart
    rw [gone address apart] at found
    exact absurd found.symm (Option.some_ne_none handle)
  have before : ∀ address handle, heap address = some handle →
      shard.heap address = some handle := fun address handle found =>
    (others address (owned address handle found)).symm.trans found
  have sameCached : cached heap ∅ = cached shard.heap outside := by
    ext address
    constructor
    · rintro ⟨handle, found, -, inCache⟩
      exact ⟨handle, before address handle found, owned address handle found, inCache⟩
    · rintro ⟨handle, found, apart, inCache⟩
      exact ⟨handle, (others address apart).trans found, Finset.notMem_empty _, inCache⟩
  have accounts := consistent.accounts
  have listOwned : ∀ address ∈ low ++ high, address ∉ outside := by
    intro address within
    obtain ⟨_, _, apart, _⟩ := (accounts.onList address).mp within
    exact apart
  refine ⟨⟨accounts.started, ?_, ?_, ?_, ?_, ?_, ?_, accounts.nonneg⟩, ?_⟩
  · exact fun address handle found =>
      accounts.bounded address handle (before address handle found)
  · refine accounts.list.congr rfl rfl rfl rfl ?_
    intro address within handle found
    exact ⟨handle, (others address (listOwned address within)).trans found, rfl, rfl⟩
  · rw [accounts.usage, totalCharge, totalCharge, Finset.sdiff_empty]
    refine Finset.sum_subset_zero_on_sdiff Finset.sdiff_subset ?_ ?_
    · intro address within
      simp [chargeAt, gone address (by grind)]
    · intro address within
      simp [chargeAt, others address (Finset.mem_sdiff.mp within).2]
  · exact fun address handle found _ =>
      accounts.counted address handle (before address handle found)
        (owned address handle found)
  · intro address
    rw [accounts.onList address]
    constructor
    · rintro ⟨handle, found, apart, facts⟩
      exact ⟨handle, (others address apart).trans found, Finset.notMem_empty _, facts⟩
    · rintro ⟨handle, found, -, facts⟩
      exact ⟨handle, before address handle found, owned address handle found, facts⟩
  · intro address within
    obtain ⟨apart, handle, found⟩ := accounts.held address within
    exact ⟨Finset.notMem_empty _, handle, (others address apart).trans found⟩
  · simp only [sameCached]
    refine consistent.table.congr ?_
    rintro address ⟨_, _, apart, _⟩ handle found
    exact ⟨handle, (others address apart).trans found, rfl, rfl⟩

end LRUCacheShard
end Cache
end RocksUtil
