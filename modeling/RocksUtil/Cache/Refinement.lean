import RocksUtil.Cache.Policy

/-!
# A shard without a pool follows the policy

The simulation relation between a shard and the policy, the operations of the two
side by side, and the equality of what can be seen of them over whole runs.
-/

namespace RocksUtil
namespace Cache
namespace LRUCacheShard

open LRUHandleTable (Represents Finds without)

variable {rounding : Rounding} {hashOf : Bytes → UInt32} {session session' : Session}
  {low high low' high' : List Address} {op : Op} {answer : Answer} {policy : Policy}
  {heap heap' : Heap} {e : Address} {handle : LRUHandle}

/-- The entries and the map of the policy are those of a heap. -/
structure Shows (heap : Heap) (policy : Policy) : Prop where
  entries : ∀ e, policy.entries e = (heap e).map LRUHandle.toEntry
  map : ∀ key e, policy.map key = some e ↔ ∃ handle, heap e = some handle ∧
    handle.inCache = true ∧ handle.key = key

/-- The policy follows the shard. -/
structure Simulates
    (hashOf : Bytes → UInt32)
    (session : Session)
    (policy : Policy) : Prop where
  resting : Resting hashOf session policy.recency []
  noPool : session.shard.highPriPoolRatio = 0
  shown : Shows session.shard.heap policy
  capacity : policy.capacity = session.shard.capacity.toNat
  strictCapacityLimit : policy.strictCapacityLimit = session.shard.strictCapacityLimit
  pins : ∀ e, policy.pins e = session.handles.count e
  next : policy.next = session.shard.fresh
  deletions : policy.deletions = session.shard.deletions

/-- Reference counts and pool flags are not seen. -/
theorem Shows.congr
    (shown : Shows heap policy)
    (same : ∀ e, (heap' e).map LRUHandle.view = (heap e).map LRUHandle.view) :
    Shows heap' policy where
  entries e := by
    have entry := congrArg (Option.map Prod.fst) (same e)
    simp only [Option.map_map] at entry
    exact (shown.entries e).trans entry.symm
  map key e := by
    have viewed : ∀ heap : Heap, (∃ handle, heap e = some handle ∧ handle.inCache = true ∧
        handle.key = key) ↔ ∃ view ∈ (heap e).map LRUHandle.view, view.2 = true ∧
          view.1.key = key := by
      intro heap
      cases found : heap e with
      | none => simp
      | some handle => simp [LRUHandle.view, LRUHandle.toEntry]
    rw [shown.map key e, viewed heap, viewed heap', same e]

theorem Shows.reflag
    (shown : Shows heap policy)
    (reflags : Reflags heap heap') : Shows heap' policy := by
  refine shown.congr (fun e => ?_)
  obtain ⟨flag, same⟩ := reflags e
  rw [same]
  cases heap e <;> rfl

/-- Entries that are freed disappear. -/
theorem Shows.drop
    {gone : List Address}
    (shown : Shows heap policy)
    (freed : ∀ e ∈ gone, heap' e = none)
    (others : ∀ e, e ∉ gone → heap' e = heap e) : Shows heap' (policy.drop gone) where
  entries e := by
    by_cases isGone : e ∈ gone
    · simp [Policy.drop, isGone, freed e isGone]
    · simp only [Policy.drop, if_neg isGone, others e isGone]
      exact shown.entries e
  map key e := by
    have kept : (policy.drop gone).map key = some e ↔
        policy.map key = some e ∧ e ∉ gone := by
      simp [Policy.drop, Option.filter_eq_some_iff]
    rw [kept, shown.map key e]
    constructor
    · rintro ⟨⟨handle, found, rest⟩, notGone⟩
      exact ⟨handle, (others e notGone).trans found, rest⟩
    · rintro ⟨handle, found, rest⟩
      have notGone : e ∉ gone := by
        intro isGone
        simp [freed e isGone] at found
      exact ⟨⟨handle, (others e notGone).symm.trans found, rest⟩, notGone⟩

/-- The cache gives up its reference to an entry, which lives on. -/
theorem Shows.unmap
    (shown : Shows heap policy)
    (found : heap e = some handle)
    (unique : ∀ e' handle', heap e' = some handle' → handle'.inCache = true →
      handle'.key = handle.key → e' = e)
    (refs : UInt32) :
    Shows (Function.update heap e (some { handle with inCache := false, refs := refs }))
      { policy with map := Function.update policy.map handle.key none } where
  entries e' := by
    rw [shown.entries e']
    by_cases here : e' = e
    · rw [here, found, Function.update_self]
      rfl
    · rw [Function.update_of_ne here]
  map key e' := by
    have kept : Function.update policy.map handle.key none key = some e' ↔
        policy.map key = some e' ∧ e' ≠ e := by
      by_cases sameKey : key = handle.key
      · rw [sameKey, Function.update_self, shown.map]
        constructor
        · intro impossible
          cases impossible
        · rintro ⟨⟨handle', found', inCache, isKey⟩, elsewhere⟩
          exact absurd (unique e' handle' found' inCache isKey) elsewhere
      · rw [Function.update_of_ne sameKey, shown.map]
        constructor
        · rintro ⟨handle', found', inCache, isKey⟩
          refine ⟨⟨handle', found', inCache, isKey⟩, ?_⟩
          rintro rfl
          obtain rfl := Option.some.inj (found.symm.trans found')
          exact sameKey isKey.symm
        · exact And.left
    rw [kept, shown.map]
    by_cases here : e' = e
    · rw [here, Function.update_self]
      simp
    · rw [Function.update_of_ne here]
      simp [here]

/-- The heap after `Erase`. -/
def eraseHeap (heap : Heap) (pins : Address → Nat) : Option Address → Heap
  | none => heap
  | some old =>
      if pins old = 0 then Function.update heap old none
      else Function.update heap old ((heap old).map (fun handle =>
        { handle with inCache := false, refs := handle.refs - 1 }))

theorem Shows.erase
    {key : Bytes}
    (shown : Shows heap policy)
    (unique : ∀ e e' handle handle', heap e = some handle → handle.inCache = true →
      heap e' = some handle' → handle'.inCache = true → handle.key = handle'.key → e = e') :
    Shows (eraseHeap heap policy.pins (policy.map key)) (policy.erase key) := by
  cases mapped : policy.map key with
  | none =>
      rw [Policy.erase, mapped]
      exact shown
  | some old =>
      obtain ⟨handle, found, inCache, rfl⟩ := (shown.map key old).mp mapped
      simp only [Policy.erase, mapped, eraseHeap]
      by_cases notPinned : policy.pins old = 0
      · rw [if_pos notPinned, if_pos notPinned]
        refine shown.drop ?_ ?_
        · intro e isOld
          rw [List.mem_singleton.mp isOld, Function.update_self]
        · intro e elsewhere
          exact Function.update_of_ne (by simpa using elsewhere) _ _
      · rw [if_neg notPinned, if_neg notPinned, found, Option.map_some]
        exact shown.unmap found (fun e' handle' found' inCache' sameKey =>
          unique e' old handle' handle found' inCache' found inCache sameKey) _

/-- Erasing an entry leaves the settings, the pins and the names alone. -/
theorem erase_settings (policy : Policy) (key : Bytes) :
    (policy.erase key).capacity = policy.capacity ∧
      (policy.erase key).strictCapacityLimit = policy.strictCapacityLimit ∧
      (policy.erase key).pins = policy.pins ∧ (policy.erase key).next = policy.next := by
  cases mapped : policy.map key with
  | none => simp [Policy.erase, mapped]
  | some old => by_cases notPinned : policy.pins old = 0 <;>
      simp [Policy.erase, mapped, notPinned, Policy.drop]

/-- The entry for the key is gone from the map. -/
theorem map_erase (policy : Policy) (key : Bytes) : (policy.erase key).map key = none := by
  cases mapped : policy.map key with
  | none => simp [Policy.erase, mapped]
  | some old =>
      by_cases notPinned : policy.pins old = 0
      · simp [Policy.erase, mapped, notPinned, Policy.drop]
      · simp [Policy.erase, mapped, notPinned]

/-- A new entry. -/
theorem Shows.admit
    (shown : Shows heap policy)
    (unmapped : policy.map handle.key = none)
    (isNew : heap e = none)
    (inCache : handle.inCache = true) :
    Shows (Function.update heap e (some handle)) { policy with
      map := Function.update policy.map handle.key (some e)
      entries := Function.update policy.entries e (some handle.toEntry) } where
  entries e' := by
    change Function.update policy.entries e (some handle.toEntry) e' = _
    by_cases here : e' = e
    · rw [here, Function.update_self, Function.update_self]
      rfl
    · rw [Function.update_of_ne here, Function.update_of_ne here]
      exact shown.entries e'
  map key e' := by
    change Function.update policy.map handle.key (some e) key = some e' ↔ _
    by_cases here : e' = e
    · rw [here, Function.update_self]
      by_cases sameKey : key = handle.key
      · simp [sameKey, inCache]
      · rw [Function.update_of_ne sameKey, shown.map]
        simp [isNew, Ne.symm sameKey]
    · rw [Function.update_of_ne here, ← shown.map]
      by_cases sameKey : key = handle.key
      · simp [sameKey, unmapped, Ne.symm here]
      · rw [Function.update_of_ne sameKey]

theorem Shows.chargeOf_eq (shown : Shows heap policy) : policy.chargeOf = chargeAt heap := by
  funext e
  rw [Policy.chargeOf, shown.entries e, chargeAt]
  cases heap e <;> rfl

theorem Shows.deletion_eq
    (shown : Shows heap policy)
    (e : Address) :
    (policy.entries e).elim [] (Policy.deletion e) = deletionOf heap e := by
  rw [shown.entries e, deletionOf]
  cases heap e <;> rfl

theorem Shows.map_eq_none
    {key : Bytes}
    (shown : Shows heap policy)
    (missing : Finds heap (cached heap ∅) key none) : policy.map key = none := by
  rw [Option.eq_none_iff_forall_ne_some]
  intro e mapped
  obtain ⟨handle, found, inCache, sameKey⟩ := (shown.map key e).mp mapped
  exact missing e ⟨handle, found, by simp, inCache⟩ handle found sameKey

namespace Simulates

theorem usage_eq (simulates : Simulates hashOf session policy) :
    policy.usage = session.shard.usage.toNat := by
  rw [Policy.usage, simulates.shown.chargeOf_eq, simulates.next,
    simulates.resting.consistent.accounts.usage, totalCharge, Finset.sdiff_empty]

/-- Entries that are not pinned are on the list. -/
theorem mem_recency_iff
    (simulates : Simulates hashOf session policy)
    (found : session.shard.heap e = some handle) :
    e ∈ policy.recency ↔ policy.pins e = 0 := by
  have accounts := simulates.resting.consistent.accounts
  have counted := accounts.counted e handle found (by simp)
  have onList := accounts.onList e
  rw [List.append_nil] at onList
  rw [onList, simulates.pins e, List.count_eq_zero]
  constructor
  · rintro ⟨_, _, _, _, notHeld⟩
    exact notHeld
  · intro notHeld
    have referred := counted.referred
    rw [List.count_eq_zero.mpr notHeld] at referred
    exact ⟨handle, found, by simp, referred.resolve_right (Nat.lt_irrefl 0), notHeld⟩

theorem pinnedUsage_eq (simulates : Simulates hashOf session policy) :
    policy.pinnedUsage = session.shard.pinnedUsage := by
  have accounts := simulates.resting.consistent.accounts
  have listed := accounts.list
  have onList : ∑ e ∈ Finset.range policy.next,
      (if policy.pins e = 0 then policy.chargeOf e else 0) =
        session.shard.lruUsage.toNat := by
    rw [listed.lruUsage, List.append_nil, listCharge,
      ← List.sum_toFinset _ (by simpa using listed.distinct), ← Finset.sum_filter,
      simulates.shown.chargeOf_eq]
    refine (Finset.sum_subset ?_ ?_).symm
    · intro e within
      obtain ⟨handle, found, -⟩ := listed.flagged e (by simpa using within)
      rw [List.mem_toFinset, simulates.mem_recency_iff found] at within
      rw [Finset.mem_filter, Finset.mem_range, simulates.next]
      exact ⟨(accounts.bounded e handle found).2, within⟩
    · intro e unpinned offList
      cases found : session.shard.heap e with
      | none => simp [chargeAt, found]
      | some handle =>
          rw [List.mem_toFinset, simulates.mem_recency_iff found] at offList
          exact absurd (Finset.mem_filter.mp unpinned).2 offList
  have split : policy.usage = policy.pinnedUsage + ∑ e ∈ Finset.range policy.next,
      (if policy.pins e = 0 then policy.chargeOf e else 0) := by
    rw [Policy.usage, Policy.pinnedUsage, ← Finset.sum_add_distrib]
    refine Finset.sum_congr rfl (fun e _ => ?_)
    by_cases pinned : 0 < policy.pins e
    · simp [pinned, Nat.ne_of_gt pinned]
    · simp [Nat.eq_zero_of_not_pos pinned]
  have total := simulates.usage_eq
  rw [LRUCacheShard.pinnedUsage]
  omega

/-- The deleters are called in the order of the policy. -/
theorem deletions_drop
    (simulates : Simulates hashOf session policy)
    (freed : List Address) :
    (policy.drop freed).deletions =
      session.shard.deletions ++ freed.flatMap (deletionOf session.shard.heap) := by
  have calls := List.flatMap_congr (fun e (_ : e ∈ freed) => simulates.shown.deletion_eq e)
  rw [← calls, ← simulates.deletions]
  rfl

/-- A call that has freed some entries and left the others as they were. -/
theorem drop
    {freed : List Address}
    {capacity : Nat}
    {strictCapacityLimit : Bool}
    {pins : Address → Nat}
    {next : Address}
    {deletions : List Deletion}
    (simulates : Simulates hashOf session policy)
    (resting : Resting hashOf session' (policy.recency.filter (· ∉ freed)) [])
    (noPool : session'.shard.highPriPoolRatio = session.shard.highPriPoolRatio)
    (sameCapacity : session'.shard.capacity.toNat = capacity)
    (sameLimit : session'.shard.strictCapacityLimit = strictCapacityLimit)
    (counts : ∀ e, pins e = session'.handles.count e)
    (fresh : session'.shard.fresh = next)
    (sameDeletions : session'.shard.deletions = deletions)
    (gone : ∀ e ∈ freed, session'.shard.heap e = none)
    (others : ∀ e, e ∉ freed → session'.shard.heap e = session.shard.heap e) :
    Simulates hashOf session' { policy.drop freed with
      capacity := capacity
      strictCapacityLimit := strictCapacityLimit
      pins := pins
      next := next
      deletions := deletions } where
  resting := resting
  noPool := noPool.trans simulates.noPool
  shown :=
    { entries := (simulates.shown.drop gone others).entries
      map := (simulates.shown.drop gone others).map }
  capacity := sameCapacity.symm
  strictCapacityLimit := sameLimit.symm
  pins := counts
  next := fresh.symm
  deletions := sameDeletions.symm

/-- A call that has freed nothing. -/
theorem keep
    {map : Bytes → Option Address}
    {pins : Address → Nat}
    {recency : List Address}
    (simulates : Simulates hashOf session policy)
    (keeps : Keeps session.shard session'.shard)
    (resting : Resting hashOf session' recency [])
    (shown : Shows session'.shard.heap { policy with map := map })
    (counts : ∀ e, pins e = session'.handles.count e) :
    Simulates hashOf session' { policy with
      map := map
      pins := pins
      recency := recency } where
  resting := resting
  noPool := keeps.highPriPoolRatio.trans simulates.noPool
  shown :=
    { entries := shown.entries
      map := shown.map }
  capacity := simulates.capacity.trans (congrArg _ keeps.capacity.symm)
  strictCapacityLimit := simulates.strictCapacityLimit.trans keeps.strictCapacityLimit.symm
  pins := counts
  next := simulates.next.trans keeps.fresh.symm
  deletions := simulates.deletions.trans keeps.deletions.symm

theorem distinct (simulates : Simulates hashOf session policy) : policy.recency.Nodup := by
  have distinct := simulates.resting.consistent.accounts.list.distinct
  rwa [List.append_nil] at distinct

theorem fresh_notMem (simulates : Simulates hashOf session policy) :
    session.shard.fresh ∉ policy.recency := by
  have accounts := simulates.resting.consistent.accounts
  intro within
  obtain ⟨handle, found, -⟩ := accounts.list.flagged _ (List.mem_append_left _ within)
  simp [accounts.heap_fresh] at found

theorem filter_erase
    {nodes : List Address}
    (distinct : nodes.Nodup)
    (e : Address) : nodes.filter (· ∉ [e]) = nodes.erase e := by
  rw [distinct.erase_eq_filter]
  refine List.filter_congr (fun other _ => ?_)
  by_cases here : other = e <;> simp [here]

/-- The lists of a shard without a pool. -/
theorem low_eq
    {nodes : List Address}
    (split : low' ++ high' = nodes)
    (shrinks : high'.Sublist []) : low' = nodes ∧ high' = [] := by
  have noHigh := List.sublist_nil.mp shrinks
  rw [noHigh, List.append_nil] at split
  exact ⟨split, noHigh⟩

theorem filter_victims
    {nodes evicted rest : List Address}
    (distinct : nodes.Nodup)
    (split : nodes = evicted ++ rest) : nodes.filter (· ∉ evicted) = rest := by
  rw [split] at distinct ⊢
  obtain ⟨-, -, disjoint⟩ := List.nodup_append'.mp distinct
  rw [List.filter_append]
  have none : evicted.filter (· ∉ evicted) = [] := by
    simp
  have all : rest.filter (· ∉ evicted) = rest := by
    rw [List.filter_eq_self]
    intro e within
    simpa using fun isEvicted => disjoint isEvicted within
  rw [none, all, List.nil_append]

/-- `SetCapacity` evicts the victims of the policy. -/
theorem setCapacity
    (simulates : Simulates hashOf session policy)
    (capacity : UInt64) :
    ∃ session', session.step rounding hashOf (.setCapacity capacity) =
        some (.done, session') ∧
      Simulates hashOf session' (policy.setCapacity capacity.toNat) := by
  obtain ⟨evicted, shard, low', high', run, isEvicted, split, shrinks, consistent, settles,
    -, others⟩ := setCapacity_spec rounding simulates.resting.consistent
      simulates.resting.ratio capacity
  rw [List.append_nil] at isEvicted split
  have steps : session.step rounding hashOf (.setCapacity capacity) =
      some (.done, ⟨shard, session.handles⟩) := by
    simp [Session.step, call, run, Answer.handle, Op.returned]
  have victims : Policy.victims { policy with capacity := capacity.toNat } 0 = evicted := by
    change evictable capacity.toNat 0 policy.chargeOf policy.usage policy.recency = evicted
    rw [simulates.shown.chargeOf_eq, simulates.usage_eq, isEvicted]
  obtain ⟨rfl, rfl⟩ : low' = policy.recency.filter (· ∉ evicted) ∧ high' = [] :=
    low_eq (filter_victims simulates.distinct split).symm shrinks
  have admits : session.Admits (.setCapacity capacity) := trivial
  refine ⟨_, steps, ?_⟩
  rw [Policy.setCapacity, victims]
  exact simulates.drop (simulates.resting.of_step admits steps consistent)
    settles.highPriPoolRatio (by rw [settles.capacity])
    (settles.strictCapacityLimit.trans simulates.strictCapacityLimit.symm) simulates.pins
    (settles.fresh.trans simulates.next.symm)
    (settles.deletions.trans (simulates.deletions_drop _).symm)
    (fun e isFreed => (settles.released e isFreed).1) others

/-- `EraseUnRefEntries` frees the recency list. -/
theorem eraseUnRefEntries (simulates : Simulates hashOf session policy) :
    ∃ session', session.step rounding hashOf .eraseUnRefEntries = some (.done, session') ∧
      Simulates hashOf session' (policy.drop policy.recency) := by
  obtain ⟨shard, run, consistent, settles, others⟩ :=
    eraseUnRefEntries_spec simulates.resting.consistent
  rw [List.append_nil] at settles others
  have steps : session.step rounding hashOf .eraseUnRefEntries =
      some (.done, ⟨shard, session.handles⟩) := by
    simp [Session.step, call, run, Answer.handle, Op.returned]
  have admits : session.Admits .eraseUnRefEntries := trivial
  have noneLeft : policy.recency.filter (· ∉ policy.recency) = [] := by simp
  refine ⟨_, steps, simulates.drop ?_ settles.highPriPoolRatio
    ((congrArg _ settles.capacity).trans simulates.capacity.symm)
    (settles.strictCapacityLimit.trans simulates.strictCapacityLimit.symm) simulates.pins
    (settles.fresh.trans simulates.next.symm)
    (settles.deletions.trans (simulates.deletions_drop _).symm)
    (fun e isFreed => (settles.released e isFreed).1) others⟩
  rw [noneLeft]
  exact simulates.resting.of_step admits steps consistent

/-- `Erase` of an entry that is not pinned frees it; a pinned one is only forgotten. -/
theorem erase
    (simulates : Simulates hashOf session policy)
    (uncrowded : session.Uncrowded)
    (key : Bytes) :
    ∃ session', session.step rounding hashOf (.erase key) = some (.done, session') ∧
      Simulates hashOf session' (policy.erase key) := by
  have admits : session.Admits (.erase key) := trivial
  obtain ⟨e, handle, found, inCache, rfl⟩ | missing :=
    cached_or_finds_none session.shard.heap key
  · have mapped : policy.map handle.key = some e :=
      (simulates.shown.map handle.key e).mpr ⟨handle, found, inCache, rfl⟩
    have heldIff : policy.pins e = 0 ↔ e ∉ session.handles := by
      rw [simulates.pins, List.count_eq_zero]
    by_cases notPinned : policy.pins e = 0
    · obtain ⟨shard, low', high', run, consistent, nodes, shrinks, settles, -, others⟩ :=
        erase_unpinned simulates.resting.consistent found inCache (heldIff.mp notPinned)
      have steps : session.step rounding hashOf (.erase handle.key) =
          some (.done, ⟨shard, session.handles⟩) := by
        simp [Session.step, call, run, Answer.handle, Op.returned]
      obtain ⟨rfl, rfl⟩ : low' = policy.recency.filter (· ∉ [e]) ∧ high' = [] := by
        rw [List.append_nil] at nodes
        exact low_eq (nodes.trans (filter_erase simulates.distinct e).symm) shrinks
      refine ⟨_, steps, ?_⟩
      simp only [Policy.erase, mapped, if_pos notPinned]
      exact simulates.drop (simulates.resting.of_step admits steps consistent)
        settles.highPriPoolRatio ((congrArg _ settles.capacity).trans simulates.capacity.symm)
        (settles.strictCapacityLimit.trans simulates.strictCapacityLimit.symm) simulates.pins
        (settles.fresh.trans simulates.next.symm)
        (settles.deletions.trans (simulates.deletions_drop _).symm)
        (fun e isFreed => (settles.released e isFreed).1)
        (fun other elsewhere => others other (by simpa using elsewhere))
    · obtain ⟨shard, run, consistent, keeps, -, heap⟩ :=
        erase_pinned simulates.resting.consistent found inCache
          (not_not.mp (heldIff.not.mp notPinned)) (uncrowded.count_lt e)
      have steps : session.step rounding hashOf (.erase handle.key) =
          some (.done, ⟨shard, session.handles⟩) := by
        simp [Session.step, call, run, Answer.handle, Op.returned]
      have unique : ∀ e' handle', session.shard.heap e' = some handle' →
          handle'.inCache = true → handle'.key = handle.key → e' = e :=
        fun e' handle' found' inCache' sameKey =>
          simulates.resting.consistent.unique found' inCache' found inCache sameKey
      refine ⟨_, steps, ?_⟩
      simp only [Policy.erase, mapped, if_neg notPinned]
      refine simulates.keep keeps (simulates.resting.of_step admits steps consistent) ?_
        simulates.pins
      rw [heap]
      exact simulates.shown.unmap found unique _
  · obtain ⟨table, run, consistent⟩ := erase_missing simulates.resting.consistent missing
    have steps : session.step rounding hashOf (.erase key) =
        some (.done, ⟨{ session.shard with table := table }, session.handles⟩) := by
      simp [Session.step, call, run, Answer.handle, Op.returned]
    refine ⟨_, steps, ?_⟩
    rw [Policy.erase, simulates.shown.map_eq_none missing]
    exact { simulates with resting := simulates.resting.of_step admits steps consistent }

/-- Changing the number of references is not seen. -/
theorem view_update
    {refs : UInt32}
    (found : heap e = some handle)
    (e' : Address) :
    (Function.update heap e (some { handle with refs := refs }) e').map LRUHandle.view =
      (heap e').map LRUHandle.view := by
  by_cases here : e' = e
  · rw [here, Function.update_self, found]
    rfl
  · rw [Function.update_of_ne here]

/-- `Lookup` pins the entry that the map leads to. -/
theorem lookup
    (simulates : Simulates hashOf session policy)
    (uncrowded : session.Uncrowded)
    (key : Bytes) :
    ∃ session', session.step rounding hashOf (.lookup key) =
        some ((policy.lookup key).1, session') ∧
      Simulates hashOf session' (policy.lookup key).2 := by
  have admits : session.Admits (.lookup key) := trivial
  obtain ⟨e, handle, found, inCache, rfl⟩ | missing :=
    cached_or_finds_none session.shard.heap key
  · have mapped : policy.map handle.key = some e :=
      (simulates.shown.map handle.key e).mpr ⟨handle, found, inCache, rfl⟩
    obtain ⟨shard, low', high', run, consistent, nodes, shrinks, keeps, heap, -⟩ :=
      lookup_present simulates.resting.consistent found inCache
        (Nat.lt_of_succ_lt (uncrowded.count_lt e))
    have steps : session.step rounding hashOf (.lookup handle.key) =
        some (.found (some e), ⟨shard, e :: session.handles⟩) := by
      simp [Session.step, call, run, Answer.handle, Op.returned]
    obtain ⟨rfl, rfl⟩ : low' = policy.recency.erase e ∧ high' = [] := by
      rw [List.append_nil] at nodes
      exact low_eq nodes shrinks
    simp only [Policy.lookup, mapped]
    refine ⟨_, steps, simulates.keep keeps
      (simulates.resting.of_step admits steps consistent) ?_ ?_⟩
    · rw [heap]
      exact simulates.shown.congr (view_update found)
    · intro e'
      by_cases here : e' = e
      · rw [here, Function.update_self, simulates.pins, List.count_cons_self]
      · rw [Function.update_of_ne here, simulates.pins, List.count_cons_of_ne (Ne.symm here)]
  · have run := lookup_missing simulates.resting.consistent missing
    have steps : session.step rounding hashOf (.lookup key) =
        some (.found none, session) := by
      simp [Session.step, call, run, Answer.handle, Op.returned]
    rw [Policy.lookup, simulates.shown.map_eq_none missing]
    exact ⟨_, steps, simulates⟩

theorem count_release
    (simulates : Simulates hashOf session policy)
    (e e' : Address) :
    Function.update policy.pins e (policy.pins e - 1) e' =
      (session.handles.erase e).count e' := by
  by_cases here : e' = e
  · rw [here, Function.update_self, simulates.pins, List.count_erase_self]
  · rw [Function.update_of_ne here, simulates.pins, count_erase_elsewhere e' here]

theorem mapped_eq
    (simulates : Simulates hashOf session policy)
    (found : session.shard.heap e = some handle) : policy.mapped e = handle.inCache := by
  rw [Policy.mapped, simulates.shown.entries e, found, Option.map_some, Option.any_some,
    Bool.eq_iff_iff, decide_eq_true_iff, simulates.shown.map]
  constructor
  · rintro ⟨handle', found', inCache, -⟩
    obtain rfl := Option.some.inj (found.symm.trans found')
    exact inCache
  · intro inCache
    exact ⟨handle, found, inCache, rfl⟩

/-- `Release` of a handle. -/
theorem release
    (simulates : Simulates hashOf session policy)
    (uncrowded : session.Uncrowded)
    (held : e ∈ session.handles) :
    ∃ session', session.step rounding hashOf (.release e) = some (.done, session') ∧
      Simulates hashOf session' (policy.release e) := by
  have consistent₀ := simulates.resting.consistent
  have admits : session.Admits (.release e) := held
  obtain ⟨-, handle, found⟩ := consistent₀.accounts.held e held
  have heldCount := List.count_pos_iff.mpr held
  have steps : ∀ shard, session.shard.release rounding e = some shard →
      session.step rounding hashOf (.release e) =
        some (.done, ⟨shard, session.handles.erase e⟩) := by
    intro shard run
    simp [Session.step, call, run, Answer.handle, Op.returned]
  have pinned : e ∉ policy.recency := by
    rw [simulates.mem_recency_iff found, simulates.pins]
    omega
  have overfull : policy.capacity < policy.usage ↔
      session.shard.usage > session.shard.capacity := by
    rw [simulates.capacity, simulates.usage_eq]
    exact UInt64.lt_iff_toNat_lt.symm
  have mapped := simulates.mapped_eq found
  have frees : ∀ shard, session.shard.release rounding e = some shard →
      Consistent hashOf shard (session.handles.erase e) ∅ policy.recency [] →
      Settles session.shard shard [e] →
      (∀ e', e' ≠ e → shard.heap e' = session.shard.heap e') →
      Simulates hashOf ⟨shard, session.handles.erase e⟩ (Policy.drop { policy with
        pins := Function.update policy.pins e (policy.pins e - 1) } [e]) := by
    intro shard run consistent settles others
    have noChange : policy.recency.filter (· ∉ [e]) = policy.recency := by
      rw [filter_erase simulates.distinct, List.erase_of_not_mem pinned]
    refine simulates.drop ?_ settles.highPriPoolRatio
      ((congrArg _ settles.capacity).trans simulates.capacity.symm)
      (settles.strictCapacityLimit.trans simulates.strictCapacityLimit.symm)
      (simulates.count_release e) (settles.fresh.trans simulates.next.symm)
      (settles.deletions.trans (simulates.deletions_drop _).symm)
      (fun e isFreed => (settles.released e isFreed).1)
      (fun other elsewhere => others other (by simpa using elsewhere))
    rw [noChange]
    exact simulates.resting.of_step admits (steps shard run) consistent
  by_cases last : policy.pins e = 1
  · have lastHeld : session.handles.count e = 1 := (simulates.pins e).symm.trans last
    cases inCache : handle.inCache with
    | false =>
        obtain ⟨shard, run, consistent, settles, -, others⟩ :=
          release_last rounding consistent₀ found inCache lastHeld
        rw [Policy.release_of_dropped last (Or.inr (mapped.trans inCache))]
        exact ⟨_, steps shard run, frees shard run consistent settles others⟩
    | true =>
        by_cases isOver : session.shard.usage > session.shard.capacity
        · have empty : policy.recency = [] := by
            simpa using simulates.resting.fits (UInt64.lt_iff_toNat_lt.mp isOver)
          rw [empty] at consistent₀
          obtain ⟨shard, run, consistent, settles, -, others⟩ :=
            release_overfull rounding consistent₀ found inCache lastHeld isOver
          rw [Policy.release_of_dropped last (Or.inl (overfull.mpr isOver))]
          refine ⟨_, steps shard run, frees shard run ?_ settles others⟩
          rw [empty]
          exact consistent
        · obtain ⟨shard, low', high', run, consistent, keeps, -, reflags, lists⟩ :=
            release_listed rounding consistent₀ found inCache lastHeld isOver
          obtain ⟨rfl, rfl⟩ : low' = policy.recency ++ [e] ∧ high' = [] := by
            refine lists.resolve_right ?_
            rintro ⟨pool, -⟩
            rw [simulates.noPool] at pool
            exact lt_irrefl _ pool
          rw [Policy.release_of_mapped last (fun exceeds => isOver (overfull.mp exceeds))
            (mapped.trans inCache)]
          refine ⟨_, steps shard run, simulates.keep keeps
            (simulates.resting.of_step admits (steps shard run) consistent) ?_
            (simulates.count_release e)⟩
          exact Shows.reflag (simulates.shown.congr (view_update found)) reflags
  · rw [simulates.pins] at last
    obtain ⟨shard, run, consistent, keeps, -, heap⟩ :=
      release_shared rounding consistent₀ found (by omega) (uncrowded.count_lt e)
    rw [Policy.release_of_shared (by rwa [simulates.pins])]
    refine ⟨_, steps shard run, simulates.keep keeps
      (simulates.resting.of_step admits (steps shard run) consistent) ?_
      (simulates.count_release e)⟩
    rw [heap]
    exact simulates.shown.congr (view_update found)

theorem turnedAway_iff
    {insertion : Insertion}
    (simulates : Simulates hashOf session policy) :
    (policy.capacity < policy.pinnedUsage + insertion.charge.toNat ∧
      (policy.strictCapacityLimit = true ∨ insertion.handle = false)) ↔
        TurnedAway session.shard insertion := by
  rw [simulates.capacity, simulates.pinnedUsage_eq, simulates.strictCapacityLimit]
  exact Iff.rfl

theorem room
    {insertion : Insertion}
    (simulates : Simulates hashOf session policy)
    (admits : session.Admits (.insert insertion)) :
    session.shard.usage.toNat + insertion.charge.toNat < 2 ^ 64 := by
  exact simulates.resting.room admits

theorem victims_eq
    (simulates : Simulates hashOf session policy)
    (charge : Nat) :
    policy.victims charge = evictable session.shard.capacity.toNat charge
      (chargeAt session.shard.heap) session.shard.usage.toNat policy.recency := by
  rw [Policy.victims, simulates.capacity, simulates.shown.chargeOf_eq, simulates.usage_eq]

/-- An insertion that is turned away has made all of the list its victims. -/
theorem victims_of_turnedAway
    {insertion : Insertion}
    (simulates : Simulates hashOf session policy)
    (admits : session.Admits (.insert insertion))
    (turnedAway : TurnedAway session.shard insertion) :
    policy.victims insertion.charge.toNat = policy.recency := by
  obtain ⟨evicted, shard₁, -, -, evicts, isEvicted, -⟩ :=
    insert_evicts simulates.resting.consistent insertion (simulates.room admits)
  obtain ⟨shard₂, evictsAll, -⟩ :=
    insert_evicts_all simulates.resting.consistent (simulates.room admits) turnedAway
  obtain ⟨all, -⟩ := Prod.mk.inj (Option.some.inj (evicts.symm.trans evictsAll))
  rw [List.append_nil] at isEvicted all
  rw [simulates.victims_eq, ← isEvicted, all]

/-- `Insert` of an entry that is turned away. -/
theorem insert_turnedAway
    {insertion : Insertion}
    (simulates : Simulates hashOf session policy)
    (admits : session.Admits (.insert insertion))
    (turnedAway : TurnedAway session.shard insertion) :
    ∃ session', session.step rounding hashOf (.insert insertion) =
        some ((policy.insert insertion).1, session') ∧
      Simulates hashOf session' (policy.insert insertion).2 := by
  have victims := simulates.victims_of_turnedAway admits turnedAway
  have noneLeft : policy.recency.filter (· ∉ policy.recency) = [] := by simp
  have fresh := simulates.next
  simp only [Policy.insert, victims, if_pos (simulates.turnedAway_iff.mpr turnedAway)]
  cases handle : insertion.handle with
  | true =>
      obtain ⟨shard, run, consistent, settles, others⟩ := insert_rejected rounding
        simulates.resting.consistent (simulates.room admits) turnedAway handle
      rw [List.append_nil] at settles others
      have steps : session.step rounding hashOf (.insert insertion) =
          some (.inserted (Status.Incomplete "Insert failed due to LRU cache being full.")
            none, ⟨shard, session.handles⟩) := by
        simp [Session.step, call, run, Answer.handle, Op.returned]
      refine ⟨_, steps, simulates.drop ?_ settles.highPriPoolRatio
        ((congrArg _ settles.capacity).trans simulates.capacity.symm)
        (settles.strictCapacityLimit.trans simulates.strictCapacityLimit.symm) simulates.pins
        (by rw [settles.fresh, fresh]) (settles.deletions.trans (simulates.deletions_drop _).symm)
        (fun e isFreed => (settles.released e isFreed).1) others⟩
      rw [noneLeft]
      exact simulates.resting.of_step admits steps consistent
  | false =>
      obtain ⟨shard, run, consistent, settles, others⟩ := insert_dropped rounding
        simulates.resting.consistent (simulates.room admits) turnedAway handle
      rw [List.append_nil] at settles others
      have steps : session.step rounding hashOf (.insert insertion) =
          some (.inserted Status.OK none, ⟨shard, session.handles⟩) := by
        simp [Session.step, call, run, Answer.handle, Op.returned]
      refine ⟨_, steps, simulates.drop ?_ settles.highPriPoolRatio
        ((congrArg _ settles.capacity).trans simulates.capacity.symm)
        (settles.strictCapacityLimit.trans simulates.strictCapacityLimit.symm) simulates.pins
        ?_ ?_ ?_ ?_⟩
      · rw [noneLeft]
        exact simulates.resting.of_step admits steps consistent
      · rw [settles.fresh, fresh]
        rfl
      · have before : ∀ e ∈ policy.recency, deletionOf (session.shard.allocate
            (insertion.entry (hashOf insertion.key))).heap e =
              deletionOf session.shard.heap e := by
          intro e within
          refine deletionOf_allocate_of_ne ?_ _
          rintro rfl
          exact simulates.fresh_notMem within
        have deletions := settles.deletions
        rw [List.flatMap_append, List.flatMap_congr before, List.flatMap_singleton] at deletions
        rw [deletions, simulates.deletions_drop, List.append_assoc, deletionOf,
          heap_allocate_fresh, simulates.next]
        rfl
      · intro e isFreed
        exact (settles.released e (List.mem_append_left _ isFreed)).1
      · intro e notFreed
        by_cases isNew : e = session.shard.fresh
        · rw [isNew, (settles.released _ (by simp)).1,
            simulates.resting.consistent.accounts.heap_fresh]
        · exact others e notFreed isNew

/-- The heap without the victims. -/
def evictHeap (heap : Heap) (evicted : List Address) : Heap :=
  fun e => if e ∈ evicted then none else heap e

theorem shows_evictHeap
    (simulates : Simulates hashOf session policy)
    (evicted : List Address) :
    Shows (evictHeap session.shard.heap evicted) (policy.drop evicted) :=
  simulates.shown.drop (fun _ isEvicted => if_pos isEvicted)
    (fun _ notEvicted => if_neg notEvicted)

theorem evictHeap_eq_some
    {evicted : List Address} :
    evictHeap heap evicted e = some handle ↔ heap e = some handle ∧ e ∉ evicted := by
  by_cases isEvicted : e ∈ evicted <;> simp [evictHeap, isEvicted]

/-- The entry that an insertion displaces is the one in the map. -/
theorem map_drop_eq
    {evicted : List Address}
    {key : Bytes}
    {old : Option Address}
    (simulates : Simulates hashOf session policy)
    (finds : Finds session.shard.heap (cached session.shard.heap evicted.toFinset) key old) :
    (policy.drop evicted).map key = old := by
  have shown := simulates.shows_evictHeap evicted
  cases old with
  | none =>
      rw [Option.eq_none_iff_forall_ne_some]
      intro e mapped
      obtain ⟨handle, found, inCache, sameKey⟩ := (shown.map key e).mp mapped
      obtain ⟨found, notEvicted⟩ := evictHeap_eq_some.mp found
      exact finds e ⟨handle, found, by simpa using notEvicted, inCache⟩ handle found sameKey
  | some old =>
      obtain ⟨⟨handle, found, notEvicted, inCache⟩, handle', found', sameKey⟩ := finds
      obtain rfl := Option.some.inj (found.symm.trans found')
      refine (shown.map key old).mpr ⟨handle, evictHeap_eq_some.mpr ⟨found, ?_⟩, inCache,
        sameKey⟩
      simpa using notEvicted

/-- What an entry that the map leads to is like. -/
theorem found_of_map_drop
    {evicted : List Address}
    {key : Bytes}
    {old : Address}
    (simulates : Simulates hashOf session policy)
    (mapped : (policy.drop evicted).map key = some old) :
    ∃ handle, session.shard.heap old = some handle ∧ handle.inCache = true ∧
      handle.key = key ∧ old ∉ evicted := by
  obtain ⟨handle, found, inCache, sameKey⟩ :=
    ((simulates.shows_evictHeap evicted).map key old).mp mapped
  obtain ⟨found, notEvicted⟩ := evictHeap_eq_some.mp found
  exact ⟨handle, found, inCache, sameKey, notEvicted⟩

/-- The recency list without the victims and without the entry displaced. -/
theorem recency_erase
    {evicted rest : List Address}
    {key : Bytes}
    {old : Option Address}
    (simulates : Simulates hashOf session policy)
    (split : policy.recency = evicted ++ rest)
    (mapped : (policy.drop evicted).map key = old) :
    ((policy.drop evicted).erase key).recency = old.elim rest (rest.erase ·) := by
  have remaining : (policy.drop evicted).recency = rest :=
    filter_victims simulates.distinct split
  have distinct : rest.Nodup := by
    have whole := simulates.distinct
    rw [split] at whole
    exact (List.nodup_append'.mp whole).2.1
  cases old with
  | none =>
      rw [Policy.erase, mapped]
      exact remaining
  | some old =>
      obtain ⟨handle, found, -⟩ := simulates.found_of_map_drop mapped
      have onList := simulates.mem_recency_iff found
      simp only [Policy.erase, mapped]
      by_cases notPinned : (policy.drop evicted).pins old = 0
      · rw [if_pos notPinned]
        change (policy.drop evicted).recency.filter (· ∉ [old]) = rest.erase old
        rw [remaining, filter_erase distinct]
      · have offList : old ∉ rest := fun within =>
          notPinned (onList.mp (split ▸ List.mem_append_right _ within))
        rw [if_neg notPinned]
        change (policy.drop evicted).recency = rest.erase old
        rw [remaining, List.erase_of_not_mem offList]

/-- The deleter calls for the victims and for the entry displaced. -/
theorem deletions_erase
    {evicted : List Address}
    {key : Bytes}
    {old : Option Address}
    (simulates : Simulates hashOf session policy)
    (mapped : (policy.drop evicted).map key = old) :
    ((policy.drop evicted).erase key).deletions = session.shard.deletions ++
      (evicted ++ old.toList.filter (· ∈ policy.recency)).flatMap
        (deletionOf session.shard.heap) := by
  cases old with
  | none =>
      rw [Policy.erase, mapped, simulates.deletions_drop]
      simp
  | some old =>
      obtain ⟨handle, found, -, -, notEvicted⟩ := simulates.found_of_map_drop mapped
      have onList := simulates.mem_recency_iff found
      have samePins : (policy.drop evicted).pins old = policy.pins old := rfl
      simp only [Policy.erase, mapped, samePins]
      by_cases notPinned : policy.pins old = 0
      · have call := (simulates.shows_evictHeap evicted).deletion_eq old
        have sameHeap : evictHeap session.shard.heap evicted old = session.shard.heap old :=
          if_neg notEvicted
        rw [deletionOf, sameHeap, ← deletionOf] at call
        rw [if_pos notPinned]
        change (policy.drop evicted).deletions ++ [old].flatMap _ = _
        rw [List.flatMap_singleton, call, simulates.deletions_drop]
        simp [onList.mpr notPinned]
      · rw [if_neg notPinned]
        change (policy.drop evicted).deletions = _
        rw [simulates.deletions_drop]
        simp [onList.not.mpr notPinned]

/-- The heap without the victims and without the entry displaced. -/
theorem eraseHeap_eq
    {evicted : List Address}
    {key : Bytes}
    {old : Option Address}
    (simulates : Simulates hashOf session policy)
    (mapped : (policy.drop evicted).map key = old)
    (e : Address) :
    eraseHeap (evictHeap session.shard.heap evicted) policy.pins old e =
      if e ∈ evicted ++ old.toList.filter (· ∈ policy.recency) then none
      else dropHeap session.shard.heap old e := by
  cases old with
  | none => simp [eraseHeap, evictHeap, dropHeap]
  | some old =>
      obtain ⟨handle, found, -, -, notEvicted⟩ := simulates.found_of_map_drop mapped
      have onList := simulates.mem_recency_iff found
      have kept : evictHeap session.shard.heap evicted old = session.shard.heap old :=
        if_neg notEvicted
      by_cases notPinned : policy.pins old = 0
      · by_cases here : e = old
        · simp [eraseHeap, notPinned, here, onList.mpr notPinned]
        · simp [eraseHeap, notPinned, here, evictHeap, dropHeap, onList.mpr notPinned]
      · by_cases here : e = old
        · simp [eraseHeap, notPinned, here, onList.not.mpr notPinned, kept, dropHeap,
            notEvicted]
        · simp [eraseHeap, notPinned, here, evictHeap, dropHeap, onList.not.mpr notPinned]

/-- The heap after an insertion, as the policy sees it. -/
theorem shows_enter
    {evicted : List Address}
    {insertion : Insertion}
    {old : Option Address}
    {flag : Bool}
    (simulates : Simulates hashOf session policy)
    (mapped : (policy.drop evicted).map insertion.key = old)
    (isNew : heap session.shard.fresh =
      some { insertion.entry (hashOf insertion.key) with inHighPriPool := flag })
    (gone : ∀ e ∈ evicted ++ old.toList.filter (· ∈ policy.recency), heap e = none)
    (others : ∀ e, e ≠ session.shard.fresh →
      e ∉ evicted ++ old.toList.filter (· ∈ policy.recency) → ∃ flag,
        heap e = (dropHeap session.shard.heap old e).map
          (fun handle => { handle with inHighPriPool := flag })) :
    Shows heap ((policy.drop evicted).enter ⟨insertion.key, insertion.value,
      insertion.charge.toNat, insertion.deleter⟩ insertion.handle) := by
  have consistent := simulates.resting.consistent
  have erased : Shows (eraseHeap (evictHeap session.shard.heap evicted) policy.pins
      ((policy.drop evicted).map insertion.key)) ((policy.drop evicted).erase insertion.key) := by
    refine (simulates.shows_evictHeap evicted).erase ?_
    intro e e' handle handle' found inCache found' inCache' sameKey
    exact consistent.unique (evictHeap_eq_some.mp found).1 inCache
      (evictHeap_eq_some.mp found').1 inCache' sameKey
  rw [mapped] at erased
  have nextEq : ((policy.drop evicted).erase insertion.key).next = session.shard.fresh :=
    (erase_settings _ _).2.2.2.trans simulates.next
  have freeBefore : eraseHeap (evictHeap session.shard.heap evicted) policy.pins old
      session.shard.fresh = none := by
    rw [simulates.eraseHeap_eq mapped]
    split
    · rfl
    · cases old with
      | none => exact consistent.accounts.heap_fresh
      | some old =>
          by_cases here : session.shard.fresh = old
          · simp [dropHeap, ← here, consistent.accounts.heap_fresh]
          · simp [dropHeap, here, consistent.accounts.heap_fresh]
  have unmapped : ((policy.drop evicted).erase insertion.key).map
      (insertion.entry (hashOf insertion.key)).key = none := map_erase _ _
  have admitted := erased.admit unmapped freeBefore rfl
  have reflags : Reflags (Function.update (eraseHeap (evictHeap session.shard.heap evicted)
      policy.pins old) session.shard.fresh (some (insertion.entry (hashOf insertion.key))))
        heap := by
    intro e
    by_cases here : e = session.shard.fresh
    · rw [here, Function.update_self]
      exact ⟨flag, isNew⟩
    · rw [Function.update_of_ne here, simulates.eraseHeap_eq mapped]
      by_cases isGone : e ∈ evicted ++ old.toList.filter (· ∈ policy.recency)
      · rw [if_pos isGone, gone e isGone]
        exact ⟨false, rfl⟩
      · rw [if_neg isGone]
        exact others e here isGone
  have reflagged := admitted.reflag reflags
  rw [← nextEq] at reflagged
  exact ⟨reflagged.entries, reflagged.map⟩

/-- `Insert` of an entry that there is room for. -/
theorem insert_accepted
    {insertion : Insertion}
    (simulates : Simulates hashOf session policy)
    (admits : session.Admits (.insert insertion))
    (uncrowded : session.Uncrowded)
    (accepted : ¬ TurnedAway session.shard insertion) :
    ∃ session', session.step rounding hashOf (.insert insertion) =
        some ((policy.insert insertion).1, session') ∧
      Simulates hashOf session' (policy.insert insertion).2 := by
  have consistent₀ := simulates.resting.consistent
  obtain ⟨evicted, old, shard, low', high', run, consistent, isEvicted, finds, settles,
    ⟨flag, new⟩, others, -, low₁, high₁, shrinks₁, split, low₂, high₂, shrinks₂, lists,
    shape⟩ := LRUCacheShard.insert_accepted rounding consistent₀ (simulates.room admits)
      accepted (fun old _ _ _ _ => uncrowded.count_lt old)
  rw [List.append_nil] at isEvicted split
  obtain rfl := List.sublist_nil.mp shrinks₁
  obtain rfl := List.sublist_nil.mp shrinks₂
  rw [List.append_nil] at lists split
  rw [List.append_nil] at lists
  have victims : policy.victims insertion.charge.toNat = evicted := by
    rw [simulates.victims_eq, isEvicted]
  have mapped := simulates.map_drop_eq finds
  have steps : session.step rounding hashOf (.insert insertion) =
      some (.inserted Status.OK (if insertion.handle then some session.shard.fresh else none),
        ⟨shard, heldAfter insertion session.shard.fresh session.handles⟩) := by
    cases handle : insertion.handle <;>
      simp [Session.step, call, run, Answer.handle, Op.returned, heldAfter, handle]
  simp only [Policy.insert, victims, if_neg (simulates.turnedAway_iff.not.mpr accepted),
    simulates.next]
  refine ⟨_, steps, ?_⟩
  obtain ⟨capacityEq, strictEq, pinsEq, nextEq⟩ :=
    erase_settings (policy.drop evicted) insertion.key
  have nextEq : ((policy.drop evicted).erase insertion.key).next = session.shard.fresh :=
    nextEq.trans simulates.next
  have recency := simulates.recency_erase split mapped
  have deletions := simulates.deletions_erase mapped
  have heldFresh : session.handles.count session.shard.fresh = 0 := by
    rw [List.count_eq_zero]
    intro held
    obtain ⟨-, handle, found⟩ := consistent₀.accounts.held _ held
    simp [consistent₀.accounts.heap_fresh] at found
  exact
    { resting := by
        have isList : low' = ((policy.drop evicted).enter ⟨insertion.key, insertion.value,
            insertion.charge.toNat, insertion.deleter⟩ insertion.handle).recency ∧
              high' = [] := by
          change low' = ((policy.drop evicted).erase insertion.key).recency ++
            (if insertion.handle then []
              else [((policy.drop evicted).erase insertion.key).next]) ∧ high' = []
          rw [recency, nextEq, ← lists]
          cases handle : insertion.handle with
          | true => simpa [handle] using shape
          | false =>
              have noPool : ¬ 0 < session.shard.highPriPoolRatio := by
                rw [simulates.noPool]
                exact lt_irrefl 0
              simpa [handle, noPool] using shape
        rw [← isList.1, ← isList.2]
        exact simulates.resting.of_step admits steps consistent
      noPool := settles.highPriPoolRatio.trans simulates.noPool
      shown := simulates.shows_enter mapped new
        (by simpa using fun e isFreed => (settles.released e isFreed).1)
        (by simpa using others)
      capacity := by
        change ((policy.drop evicted).erase insertion.key).capacity = _
        rw [capacityEq, settles.capacity]
        exact simulates.capacity
      strictCapacityLimit := by
        change ((policy.drop evicted).erase insertion.key).strictCapacityLimit = _
        rw [strictEq, settles.strictCapacityLimit]
        exact simulates.strictCapacityLimit
      pins := by
        intro e
        change Function.update _ ((policy.drop evicted).erase insertion.key).next _ e = _
        rw [nextEq, pinsEq]
        by_cases isNew : e = session.shard.fresh
        · rw [isNew, Function.update_self]
          cases handle : insertion.handle <;> simp [heldAfter, handle, heldFresh]
        · rw [Function.update_of_ne isNew]
          refine (simulates.pins e).trans ?_
          cases handle : insertion.handle
          · simp [heldAfter, handle]
          · simp [heldAfter, handle, List.count_cons_of_ne (Ne.symm isNew)]
      next := by
        change ((policy.drop evicted).erase insertion.key).next + 1 = _
        rw [nextEq, settles.fresh]
        rfl
      deletions := by
        change ((policy.drop evicted).erase insertion.key).deletions = _
        rw [deletions, settles.deletions, List.append_nil]
        refine congrArg (session.shard.deletions ++ ·) (List.flatMap_congr (fun e within => ?_))
        refine (deletionOf_allocate_of_ne ?_ _).symm
        rintro rfl
        rcases List.mem_append.mp within with isVictim | isOld
        · exact simulates.fresh_notMem (split ▸ List.mem_append_left _ isVictim)
        · have onList := (List.mem_filter.mp isOld).2
          exact simulates.fresh_notMem (by simpa using onList) }

/-- `SetHighPriorityPoolRatio(0)` finds nothing in the pool. -/
theorem setHighPriorityPoolRatio (simulates : Simulates hashOf session policy) :
    ∃ session', session.step rounding hashOf (.setHighPriorityPoolRatio 0) =
        some (.done, session') ∧ Simulates hashOf session' policy := by
  obtain ⟨shard, moved, rest, run, consistent, split, settles, -, reflags, -⟩ :=
    setHighPriorityPoolRatio_spec rounding simulates.resting.consistent (le_refl (0 : ℚ))
  obtain ⟨rfl, rfl⟩ := List.append_eq_nil_iff.mp split.symm
  rw [List.append_nil] at consistent
  have steps : session.step rounding hashOf (.setHighPriorityPoolRatio 0) =
      some (.done, ⟨shard, session.handles⟩) := by
    simp [Session.step, call, run, Answer.handle, Op.returned]
  have admits : session.Admits (.setHighPriorityPoolRatio 0) := le_refl (0 : ℚ)
  exact ⟨_, steps,
    { resting := simulates.resting.of_step admits steps consistent
      noPool := settles.highPriPoolRatio
      shown := simulates.shown.reflag reflags
      capacity := simulates.capacity.trans (congrArg _ settles.capacity.symm)
      strictCapacityLimit :=
        simulates.strictCapacityLimit.trans settles.strictCapacityLimit.symm
      pins := simulates.pins
      next := simulates.next.trans settles.fresh.symm
      deletions := by
        rw [settles.deletions, simulates.deletions]
        simp }⟩

theorem setStrictCapacityLimit
    (simulates : Simulates hashOf session policy)
    (strictCapacityLimit : Bool) :
    ∃ session', session.step rounding hashOf (.setStrictCapacityLimit strictCapacityLimit) =
        some (.done, session') ∧
      Simulates hashOf session' { policy with strictCapacityLimit := strictCapacityLimit } := by
  have admits : session.Admits (.setStrictCapacityLimit strictCapacityLimit) := trivial
  have accounts := simulates.resting.consistent.accounts
  have consistent : Consistent hashOf
      (session.shard.setStrictCapacityLimit strictCapacityLimit) session.handles ∅
      policy.recency [] :=
    { accounts := { accounts with list := { accounts.list with } }
      table := simulates.resting.consistent.table }
  have steps : session.step rounding hashOf (.setStrictCapacityLimit strictCapacityLimit) =
      some (.done, ⟨session.shard.setStrictCapacityLimit strictCapacityLimit,
        session.handles⟩) := rfl
  exact ⟨_, steps,
    { simulates with
      resting := simulates.resting.of_step admits steps consistent
      shown := ⟨simulates.shown.entries, simulates.shown.map⟩
      strictCapacityLimit := rfl }⟩

end Simulates

/-- Calls that do not bring a high-pri pool. -/
def Op.NoPool : Op → Prop
  | .setHighPriorityPoolRatio highPriPoolRatio => highPriPoolRatio = 0
  | _ => True

instance : (op : Op) → Decidable op.NoPool
  | .insert _ => isTrue trivial
  | .lookup _ => isTrue trivial
  | .release _ => isTrue trivial
  | .erase _ => isTrue trivial
  | .setCapacity _ => isTrue trivial
  | .setStrictCapacityLimit _ => isTrue trivial
  | .setHighPriorityPoolRatio ratio => inferInstanceAs (Decidable (ratio = 0))
  | .eraseUnRefEntries => isTrue trivial

/-- Calls that the counters have room for and that do not bring a high-pri pool. -/
def Session.RoomyNoPool (session : Session) (op : Op) : Prop :=
  session.Roomy op ∧ op.NoPool

instance (session : Session) (op : Op) : Decidable (session.RoomyNoPool op) :=
  inferInstanceAs (Decidable (_ ∧ _))

/-- Every call does what the policy does, and returns the same. -/
theorem Simulates.step
    (simulates : Simulates hashOf session policy)
    (admits : session.Admits op)
    (uncrowded : session.Uncrowded)
    (noPool : op.NoPool) :
    ∃ session', session.step rounding hashOf op =
        some ((policy.step Policy.release op).1, session') ∧
      Simulates hashOf session' (policy.step Policy.release op).2 := by
  cases op with
  | insert insertion =>
      by_cases turnedAway : TurnedAway session.shard insertion
      · exact simulates.insert_turnedAway admits turnedAway
      · exact simulates.insert_accepted admits uncrowded turnedAway
  | lookup key => exact simulates.lookup uncrowded key
  | release e => exact simulates.release uncrowded admits
  | erase key => exact simulates.erase uncrowded key
  | setCapacity capacity => exact simulates.setCapacity capacity
  | setStrictCapacityLimit strictCapacityLimit =>
      exact simulates.setStrictCapacityLimit strictCapacityLimit
  | setHighPriorityPoolRatio ratio =>
      obtain rfl : ratio = 0 := noPool
      exact simulates.setHighPriorityPoolRatio
  | eraseUnRefEntries => exact simulates.eraseUnRefEntries

theorem Simulates.getPinnedUsage_eq (simulates : Simulates hashOf session policy) :
    ∃ pinned, session.shard.getPinnedUsage = some pinned ∧
      pinned.toNat = policy.pinnedUsage := by
  have covers := simulates.resting.consistent.accounts.lruUsage_le
  have enough : session.shard.usage ≥ session.shard.lruUsage :=
    UInt64.le_iff_toNat_le.mpr covers
  refine ⟨session.shard.usage - session.shard.lruUsage, by simp [getPinnedUsage, enough], ?_⟩
  rw [UInt64.toNat_sub_of_le _ _ enough, simulates.pinnedUsage_eq, pinnedUsage]

/-- A run of the shard is seen as the run of the policy. -/
theorem Simulates.observations_eq
    {ops : List Op}
    (simulates : Simulates hashOf session policy)
    (admits : session.AdmitsAll rounding hashOf Session.RoomyNoPool ops) :
    session.observations rounding hashOf ops =
      some (policy.observations Policy.release ops) := by
  induction ops generalizing session policy with
  | nil => rfl
  | cons op ops inductionHypothesis =>
      obtain ⟨session', steps, simulates'⟩ :=
        simulates.step admits.1 admits.2.1.1.uncrowded admits.2.1.2
      have rest := admits.2.2
      rw [steps, Option.elim_some] at rest
      obtain ⟨pinned, pinnedUsage, sameUsage⟩ := simulates'.getPinnedUsage_eq
      have after := inductionHypothesis simulates' rest
      simp only [Session.observations, steps, pinnedUsage, after, Option.bind_eq_bind,
        Option.bind_some, Policy.observations, getUsage, sameUsage, simulates'.usage_eq,
        simulates'.deletions]

theorem simulates_new
    (hashOf : Bytes → UInt32)
    (capacity : UInt64)
    (strictCapacityLimit : Bool) :
    Simulates hashOf ⟨new capacity strictCapacityLimit 0 0, []⟩
      (Policy.new capacity.toNat strictCapacityLimit) where
  resting := resting_new hashOf capacity strictCapacityLimit le_rfl le_rfl
  noPool := rfl
  shown := ⟨fun _ => rfl, by simp [Policy.new, new]⟩
  capacity := rfl
  strictCapacityLimit := rfl
  pins _ := rfl
  next := rfl
  deletions := rfl

/-- An entry larger than the capacity is inserted and released. -/
def overfullOps : List Op := [.insert ⟨[1], 10, 2, some 7, true, .low, false⟩, .release 1]

theorem setUp_one :
    setUp Rounding.exact (0, false, 0, 0) 1 false 0 = some (new 1 false 0 0) := by
  rw [setUp_eq _ _ _ _ le_rfl, mul_zero, Rounding.round_zero]

end LRUCacheShard
end Cache
end RocksUtil
