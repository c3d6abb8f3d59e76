import RocksUtil.Cache.Forgetting

/-!
# What a sharded cache reports

`GetUsage`, `GetPinnedUsage` and `ApplyToAllCacheEntries` go over the shards.  They report
the charges of the entries that are not destroyed and of those that are held, and the
entries that a lookup could find, as the history of the cache tells them
(`cache_reports`).
-/

namespace RocksUtil
namespace Cache

namespace LRUCacheShard

/-- `ApplyToAllCacheEntries`: the calls of the callback, behind those made before. -/
def applyToAllCacheEntries
    (shard : LRUCacheShard)
    (calls : List (Pointer × UInt64)) : Option (List (Pointer × UInt64)) :=
  shard.table.applyToAllCacheEntries (fun _ => shard.heap)
    (fun e calls => do
      let handle ← shard.heap e
      some (calls ++ [(handle.value, handle.charge)]))
    calls

variable {hashOf : Bytes → UInt32} {session : Session} {low high : List Address}

/-- What is reported of an entry. -/
def reported (handle : LRUHandle) : Pointer × UInt64 := (handle.value, handle.charge)

/-- The callback is called for the entries that can be found, once for each. -/
theorem Resting.applyToAllCacheEntries_eq
    (resting : Resting hashOf session low high) :
    ∃ entries : List Address, entries.Nodup ∧
      (∀ address, address ∈ entries ↔ ∃ handle, session.shard.heap address = some handle ∧
        handle.inCache = true) ∧
      ∀ calls, session.shard.applyToAllCacheEntries calls =
        some (calls ++ entries.filterMap fun address =>
          (session.shard.heap address).map reported) := by
  obtain ⟨chains, stores, -, members⟩ := resting.consistent.table
  have within (address : Address) :
      address ∈ (List.range session.shard.table.length).flatMap chains ↔
        ∃ handle, session.shard.heap address = some handle ∧ handle.inCache = true := by
    rw [stores.mem_flatMap, ← members address]
    simp [cached]
  refine ⟨_, stores.nodup_flatMap, within, fun calls => ?_⟩
  rw [applyToAllCacheEntries, stores.applyToAllCacheEntries_eq]
  have cached : ∀ address ∈ (List.range session.shard.table.length).flatMap chains,
      ∃ handle, session.shard.heap address = some handle ∧ handle.inCache = true :=
    fun address => (within address).mp
  clear within
  generalize (List.range session.shard.table.length).flatMap chains = entries at cached ⊢
  induction entries generalizing calls with
  | nil =>
      rw [List.filterMap_nil, List.append_nil]
      rfl
  | cons address entries inductionHypothesis =>
      obtain ⟨handle, found, inCache⟩ := cached address List.mem_cons_self
      have visits : LRUHandleTable.visit (fun _ => session.shard.heap)
          (fun e calls => do
            let handle ← session.shard.heap e
            some (calls ++ [(handle.value, handle.charge)])) calls address =
          some (calls ++ [reported handle]) := by
        simp [LRUHandleTable.visit, found, inCache, reported]
      rw [List.foldlM_cons, visits, Option.bind_eq_bind, Option.bind_some,
        inductionHypothesis _ fun other isOther => cached other (List.mem_cons_of_mem _ isOther)]
      rw [List.filterMap_cons, found, Option.map_some, List.append_assoc, List.singleton_append]

theorem sum_map_range (f : Nat → Nat) (n : Nat) :
    ((List.range n).map f).sum = ∑ index ∈ Finset.range n, f index := by
  rw [← List.sum_toFinset _ List.nodup_range, List.toFinset_range]

theorem Resting.usage_eq (resting : Resting hashOf session low high) :
    session.shard.usage.toNat =
      ((List.range session.shard.fresh).map (chargeAt session.shard.heap)).sum := by
  rw [resting.consistent.accounts.usage, totalCharge, Finset.sdiff_empty, sum_map_range]

/-- The entries on the list are those that nobody holds. -/
theorem Resting.mem_list_iff
    {e : Address}
    {handle : LRUHandle}
    (resting : Resting hashOf session low high)
    (found : session.shard.heap e = some handle) :
    e ∈ low ++ high ↔ session.handles.count e = 0 := by
  rw [List.count_eq_zero]
  constructor
  · exact resting.consistent.accounts.notHeld
  · intro notHeld
    have inCache := (resting.consistent.counted found).referred.resolve_right fun given =>
      notHeld (List.count_pos_iff.mp given)
    exact (resting.consistent.mem_list_iff found inCache).mpr notHeld

/-- The pinned usage is the charge of the entries that are held. -/
theorem Resting.getPinnedUsage_eq (resting : Resting hashOf session low high) :
    ∃ pinned, session.shard.getPinnedUsage = some pinned ∧
      pinned.toNat = ((List.range session.shard.fresh).map fun address =>
        if 0 < session.handles.count address then chargeAt session.shard.heap address
        else 0).sum := by
  have accounts := resting.consistent.accounts
  have listed := accounts.list
  have onList : ∑ e ∈ Finset.range session.shard.fresh,
      (if 0 < session.handles.count e then 0 else chargeAt session.shard.heap e) =
        session.shard.lruUsage.toNat := by
    rw [listed.lruUsage, listCharge, ← List.sum_toFinset _ listed.distinct]
    have free (e : Address) (within : e ∈ (low ++ high).toFinset) :
        chargeAt session.shard.heap e =
          if 0 < session.handles.count e then 0 else chargeAt session.shard.heap e := by
      obtain ⟨handle, found, -⟩ := listed.flagged e (List.mem_toFinset.mp within)
      rw [List.mem_toFinset, resting.mem_list_iff found] at within
      rw [if_neg (by omega)]
    rw [Finset.sum_congr rfl free]
    refine (Finset.sum_subset (fun e within => ?_) fun e _ offList => ?_).symm
    · obtain ⟨handle, found, -⟩ := listed.flagged e (List.mem_toFinset.mp within)
      exact Finset.mem_range.mpr (accounts.bounded e handle found).2
    · cases found : session.shard.heap e with
      | none => simp [chargeAt, found]
      | some handle =>
          rw [List.mem_toFinset, resting.mem_list_iff found] at offList
          exact if_pos (Nat.pos_of_ne_zero offList)
  have split : ∑ e ∈ Finset.range session.shard.fresh, chargeAt session.shard.heap e =
      (∑ e ∈ Finset.range session.shard.fresh,
        if 0 < session.handles.count e then chargeAt session.shard.heap e else 0) +
      ∑ e ∈ Finset.range session.shard.fresh,
        (if 0 < session.handles.count e then 0 else chargeAt session.shard.heap e) := by
    rw [← Finset.sum_add_distrib]
    refine Finset.sum_congr rfl fun e _ => ?_
    split <;> omega
  have total := resting.usage_eq
  rw [sum_map_range] at total
  have enough : session.shard.usage ≥ session.shard.lruUsage :=
    UInt64.le_iff_toNat_le.mpr accounts.lruUsage_le
  refine ⟨session.shard.usage - session.shard.lruUsage, by simp [getPinnedUsage, enough], ?_⟩
  rw [UInt64.toNat_sub_of_le _ _ enough, sum_map_range]
  omega

end LRUCacheShard

namespace ShardedCache

open LRUCacheShard (Insertion reported chargeAt)
open ForgetfulMap (Event issued destroyed held latest)

/-! ## The reports -/

/-- `GetUsage`. -/
def getUsage (cache : ShardedCache) : UInt64 :=
  cache.shards.foldl (fun usage shard => usage + shard.getUsage) 0

/-- `GetPinnedUsage`. -/
def getPinnedUsage (cache : ShardedCache) : Option UInt64 :=
  cache.shards.foldlM
    (fun usage shard => do
      let pinned ← shard.getPinnedUsage
      some (usage + pinned))
    0

/-- `ApplyToAllCacheEntries`: the calls of the callback. -/
def applyToAllCacheEntries (cache : ShardedCache) : Option (List (Pointer × UInt64)) :=
  cache.shards.foldlM (fun calls shard => shard.applyToAllCacheEntries calls) []

/-! ## Loops over the shards -/

theorem map_eq_map_range
    {α β : Type}
    (items : List α)
    (f : α → β)
    (other : β) :
    items.map f = (List.range items.length).map fun index => (items[index]?).elim other f := by
  apply List.ext_getElem
  · rw [List.length_map, List.length_map, List.length_range]
  · intro index inside _
    rw [List.length_map] at inside
    simp [List.getElem?_eq_getElem inside]

/-- Additions of a loop, modulo `2 ^ 64`. -/
theorem foldl_add_eq_ofNat
    {α : Type}
    (items : List α)
    (f : α → UInt64)
    (start : Nat) :
    items.foldl (fun sum item => sum + f item) (UInt64.ofNat start) =
      UInt64.ofNat (start + (items.map (fun item => (f item).toNat)).sum) := by
  induction items generalizing start with
  | nil => rfl
  | cons item items inductionHypothesis =>
      rw [List.foldl_cons, List.map_cons, List.sum_cons, ← Nat.add_assoc,
        ← inductionHypothesis, UInt64.ofNat_add, UInt64.ofNat_toNat]

/-- Additions of a loop, each of which returns. -/
theorem foldlM_add_eq_some
    {α : Type}
    {items : List α}
    {f : α → Option UInt64}
    {g : α → UInt64}
    (returns : ∀ item ∈ items, f item = some (g item))
    (start : UInt64) :
    items.foldlM (fun sum item => do
      let value ← f item
      some (sum + value)) start = some (items.foldl (fun sum item => sum + g item) start) := by
  induction items generalizing start with
  | nil => rfl
  | cons item items inductionHypothesis =>
      rw [List.foldlM_cons, returns item List.mem_cons_self]
      exact inductionHypothesis
        (fun other isOther => returns other (List.mem_cons_of_mem _ isOther)) _

/-- Terms that are left out of a sum. -/
theorem sum_map_if
    {α : Type}
    (items : List α)
    (property : α → Prop)
    [DecidablePred property]
    (f : α → Nat) :
    (items.map fun item => if property item then f item else 0).sum =
      ((items.filter property).map f).sum := by
  induction items with
  | nil => rfl
  | cons item items inductionHypothesis =>
      rw [List.map_cons, List.sum_cons, inductionHypothesis, List.filter_cons]
      by_cases holds : property item
      · simp [holds]
      · simp [holds]

/-- The charge of an entry that is there. -/
def chargeOf (cache : ShardedCache) (handle : Handle) : Nat :=
  (cache.entryAt handle).elim 0 (·.charge.toNat)

theorem sum_allocated (cache : ShardedCache) (f : Handle → Nat) :
    (cache.allocated.map f).sum = ((List.range cache.shards.length).map fun index =>
      ((List.range (cache.freshOf index)).map fun address => f ⟨index, address⟩).sum).sum := by
  rw [allocated, List.map_flatMap, List.flatMap_def, List.sum_flatten, List.map_map]
  simp only [List.map_map, Function.comp_def]

section Reports

variable {numShardBits : Nat} {rounding : Rounding} {hashOf : Bytes → UInt32}
  {session : Session} {history : List (Event Bytes Handle Insertion)}

/-- The entries with a property that are there. -/
theorem Mirrors.perm_present
    (mirrors : Mirrors rounding hashOf history session)
    (property : Handle → Prop)
    [DecidablePred property] :
    (session.cache.allocated.filter fun handle =>
        session.cache.entryAt handle ≠ none ∧ property handle).Perm
      (((issued history).filter fun entry =>
        entry.1 ∉ destroyed history ∧ property entry.1).map Prod.fst) := by
  rw [List.perm_ext_iff_of_nodup ((nodup_allocated _).filter _)
    ((List.filter_sublist.map Prod.fst).nodup mirrors.legal.nodup_issued)]
  intro handle
  rw [List.mem_filter, decide_eq_true_eq, mem_allocated, List.mem_map]
  constructor
  · rintro ⟨-, present, holds⟩
    obtain ⟨entry, isEntry⟩ := Option.ne_none_iff_exists'.mp present
    obtain ⟨insertion, isIssued, -⟩ := mirrors.origin handle entry isEntry
    have alive := (mirrors.gone _ isIssued).not.mpr present
    exact ⟨_, List.mem_filter.mpr ⟨isIssued, decide_eq_true ⟨alive, holds⟩⟩, rfl⟩
  · rintro ⟨entry, within, rfl⟩
    obtain ⟨isIssued, holds⟩ := List.mem_filter.mp within
    obtain ⟨alive, holds⟩ := of_decide_eq_true holds
    exact ⟨mirrors.given entry isIssued, (mirrors.gone entry isIssued).not.mp alive, holds⟩

/-- The charge of an entry that is not destroyed is that of its insertion. -/
theorem Mirrors.chargeOf_eq
    (mirrors : Mirrors rounding hashOf history session)
    {entry : Handle × Insertion}
    (within : entry ∈ issued history)
    (alive : entry.1 ∉ destroyed history) :
    session.cache.chargeOf entry.1 = entry.2.charge.toNat := by
  obtain ⟨present, isEntry⟩ := Option.ne_none_iff_exists'.mp
    ((mirrors.gone entry within).not.mp alive)
  rw [chargeOf, isEntry, Option.elim_some,
    LRUHandle.charge_eq (mirrors.insertion_eq within isEntry)]
  rfl

/-- The charges of the entries with a property that are not destroyed. -/
theorem Mirrors.sum_charges
    (mirrors : Mirrors rounding hashOf history session)
    (property : Handle → Prop)
    [DecidablePred property] :
    (session.cache.allocated.map fun handle =>
        if property handle then session.cache.chargeOf handle else 0).sum =
      (((issued history).filter fun entry =>
        entry.1 ∉ destroyed history ∧ property entry.1).map (·.2.charge.toNat)).sum := by
  have present : (session.cache.allocated.map fun handle =>
      if property handle then session.cache.chargeOf handle else 0) =
        session.cache.allocated.map fun handle =>
          if session.cache.entryAt handle ≠ none ∧ property handle then
            session.cache.chargeOf handle
          else 0 := by
    refine List.map_congr_left fun handle _ => ?_
    by_cases missing : session.cache.entryAt handle = none
    · simp [missing, chargeOf]
    · simp [missing]
  rw [present, sum_map_if, ((mirrors.perm_present property).map _).sum_eq, List.map_map]
  congr 1
  refine List.map_congr_left fun entry within => ?_
  obtain ⟨isIssued, holds⟩ := List.mem_filter.mp within
  exact mirrors.chargeOf_eq isIssued (of_decide_eq_true holds).1

/-- A sum over the shards is a sum over all entries, if it is one in each shard. -/
theorem sum_shards
    {cache : ShardedCache}
    {f : LRUCacheShard → Nat}
    {g : Handle → Nat}
    (each : ∀ index shard, cache.shards[index]? = some shard →
      f shard = ((List.range shard.fresh).map fun address => g ⟨index, address⟩).sum) :
    (cache.shards.map f).sum = (cache.allocated.map g).sum := by
  rw [map_eq_map_range cache.shards f 0, sum_allocated]
  congr 1
  refine List.map_congr_left fun index inside => ?_
  obtain ⟨shard, there⟩ : ∃ shard, cache.shards[index]? = some shard :=
    ⟨_, List.getElem?_eq_getElem (List.mem_range.mp inside)⟩
  rw [there, Option.elim_some, each index shard there, freshOf_eq there]

theorem chargeOf_at
    {cache : ShardedCache}
    {index : Nat}
    {shard : LRUCacheShard}
    (there : cache.shards[index]? = some shard)
    (address : Address) :
    cache.chargeOf ⟨index, address⟩ = chargeAt shard.heap address := by
  rw [chargeOf, entryAt_eq there]
  rfl

theorem Mirrors.getUsage_eq
    (mirrors : Mirrors rounding hashOf history session)
    (sharded : Sharded numShardBits hashOf session) :
    session.cache.getUsage = UInt64.ofNat (((issued history).filter fun entry =>
      entry.1 ∉ destroyed history).map (·.2.charge.toNat)).sum := by
  have total := foldl_add_eq_ofNat session.cache.shards LRUCacheShard.getUsage 0
  have shares : (session.cache.shards.map fun shard => shard.getUsage.toNat).sum =
      (session.cache.allocated.map session.cache.chargeOf).sum := by
    refine sum_shards fun index shard there => ?_
    obtain ⟨low, high, resting⟩ := (sharded.homes index shard there).resting
    refine resting.usage_eq.trans (congrArg List.sum ?_)
    exact List.map_congr_left fun address _ => (chargeOf_at there address).symm
  have charges := mirrors.sum_charges fun _ => True
  simp only [if_true, and_true] at charges
  rw [getUsage, ← charges, ← shares]
  rw [Nat.zero_add] at total
  exact total

theorem Mirrors.getPinnedUsage_eq
    (mirrors : Mirrors rounding hashOf history session)
    (sharded : Sharded numShardBits hashOf session) :
    session.cache.getPinnedUsage = some (UInt64.ofNat (((issued history).filter fun entry =>
      entry.1 ∉ destroyed history ∧ 0 < held history entry.1).map (·.2.charge.toNat)).sum) := by
  have each (index : Nat) (shard : LRUCacheShard)
      (there : session.cache.shards[index]? = some shard) :
      shard.getPinnedUsage = some (shard.getPinnedUsage.getD 0) ∧
        (shard.getPinnedUsage.getD 0).toNat = ((List.range shard.fresh).map fun address =>
          if 0 < held history ⟨index, address⟩ then session.cache.chargeOf ⟨index, address⟩
          else 0).sum := by
    obtain ⟨low, high, resting⟩ := (sharded.homes index shard there).resting
    obtain ⟨pinned, returns, isPinned⟩ := resting.getPinnedUsage_eq
    rw [returns, Option.getD_some]
    refine ⟨rfl, isPinned.trans (congrArg List.sum ?_)⟩
    refine List.map_congr_left fun address _ => ?_
    rw [chargeOf_at there, ← mirrors.holds]
  have loops := foldlM_add_eq_some (fun shard (isShard : shard ∈ session.cache.shards) => by
    obtain ⟨index, there⟩ := List.getElem?_of_mem isShard
    exact (each index shard there).1) 0
  have total := foldl_add_eq_ofNat session.cache.shards (·.getPinnedUsage.getD 0) 0
  have shares := @sum_shards session.cache _
    (fun handle => if 0 < held history handle then session.cache.chargeOf handle else 0)
    fun index shard there => (each index shard there).2
  rw [Nat.zero_add, shares,
    mirrors.sum_charges fun handle => 0 < held history handle] at total
  exact loops.trans (congrArg some total)

/-- A loop over the shards, each of which adds to a list. -/
theorem foldlM_append_eq_some
    {α β : Type}
    {items : List α}
    {f : α → List β → Option (List β)}
    {g : α → List β}
    (returns : ∀ item ∈ items, ∀ calls, f item calls = some (calls ++ g item))
    (calls : List β) :
    items.foldlM (fun calls item => f item calls) calls = some (calls ++ items.flatMap g) := by
  induction items generalizing calls with
  | nil =>
      rw [List.flatMap_nil, List.append_nil]
      rfl
  | cons item items inductionHypothesis =>
      rw [List.foldlM_cons, returns item List.mem_cons_self, Option.bind_eq_bind,
        Option.bind_some, inductionHypothesis (fun other isOther =>
          returns other (List.mem_cons_of_mem _ isOther)), List.append_assoc, List.flatMap_cons]

/-- The entry that a key leads to, if it is not destroyed. -/
def current (history : List (Event Bytes Handle Insertion)) (key : Bytes) : Option Handle :=
  (latest history key).filter (· ∉ destroyed history)

/-- The entry that a key leads to, if it is not destroyed, can be found. -/
theorem Mirrors.current_eq_some
    (mirrors : Mirrors rounding hashOf history session)
    {key : Bytes}
    {handle : Handle} :
    current history key = some handle ↔
      ∃ entry, session.cache.entryAt handle = some entry ∧ entry.inCache = true ∧
        entry.key = key := by
  rw [current, Option.filter_eq_some_iff, decide_eq_true_eq]
  constructor
  · rintro ⟨leads, alive⟩
    obtain ⟨insertion, handed, isStored⟩ :
        ∃ insertion handed, .stored key handle insertion handed ∈ history :=
      (ForgetfulMap.foldl_lead leads).resolve_left fun none => by cases none
    have isIssued : (handle, insertion) ∈ issued history :=
      List.mem_filterMap.mpr ⟨_, isStored, rfl⟩
    obtain ⟨entry, isEntry⟩ :=
      Option.ne_none_iff_exists'.mp ((mirrors.gone _ isIssued).not.mp alive)
    have named : entry.key = key :=
      (LRUHandle.key_eq (mirrors.insertion_eq isIssued isEntry)).trans
        (mirrors.named key handle insertion handed isStored)
    subst named
    exact ⟨entry, isEntry, mirrors.stays handle entry isEntry leads, rfl⟩
  · rintro ⟨entry, isEntry, inCache, rfl⟩
    refine ⟨mirrors.leads handle entry isEntry inCache, fun isDestroyed => ?_⟩
    obtain ⟨insertion, isIssued, -⟩ := mirrors.origin handle entry isEntry
    rw [(mirrors.gone _ isIssued).mp isDestroyed] at isEntry
    cases isEntry

/-- A lookup finds the entry that the key leads to, if it is not destroyed. -/
theorem Mirrors.lookup_eq
    (mirrors : Mirrors rounding hashOf history session)
    (sharded : Sharded numShardBits hashOf session)
    (key : Bytes) :
    session.answer rounding hashOf (.lookup key) =
      some (.found ((current history key).map (·.address))) := by
  have admits : session.Admits hashOf (.lookup key) := trivial
  have few (index : Nat) (e : Address) : (session.handles index).count e < 2 ^ 32 := by
    rw [mirrors.holds ⟨index, e⟩]
    exact mirrors.few ⟨index, e⟩
  obtain ⟨session', steps⟩ : ∃ session', session.step rounding hashOf (.lookup key) =
      some session' := sharded.lookup_returns few key
  obtain ⟨answer, answers⟩ := answer_of_step steps
  have called := sharded.called admits answers steps
  obtain ⟨shard, shard', there, -, ⟨low, high, resting⟩, -, steps⟩ :=
    called.target_step (sharded.shardOfKey_lt key) (if_pos rfl)
  obtain ⟨result, rfl⟩ := LRUCacheShard.Session.expects_of_step steps
  rw [answers]
  congr 2
  cases result with
  | some e =>
      obtain ⟨entry, found, inCache, named, -⟩ := resting.lookup_returns steps
      have isCurrent := mirrors.current_eq_some.mpr
        ⟨entry, (entryAt_eq there e).trans found, inCache, named⟩
      rw [isCurrent]
      rfl
  | none =>
      cases isCurrent : current history key with
      | none => rfl
      | some handle =>
          obtain ⟨entry, isEntry, inCache, rfl⟩ := mirrors.current_eq_some.mp isCurrent
          rw [sharded.shardOfKey_eq isEntry inCache] at there steps resting
          have found := (entryAt_eq there handle.address).symm.trans isEntry
          obtain ⟨shard, _, _, run, -⟩ :=
            LRUCacheShard.lookup_present resting.consistent found inCache (few _ _)
          have finds := LRUCacheShard.Session.step_of_run (.found (some handle.address)) shard
            (by simp [LRUCacheShard.call, run]) steps
          cases finds.1

/-- The callback is called for the entries of the shards that can be found. -/
theorem Sharded.applyToAllCacheEntries_eq
    (sharded : Sharded numShardBits hashOf session) :
    ∃ found : List Handle, found.Nodup ∧
      (∀ handle, handle ∈ found ↔
        ∃ entry, session.cache.entryAt handle = some entry ∧ entry.inCache = true) ∧
      session.cache.applyToAllCacheEntries =
        some (found.filterMap fun handle => (session.cache.entryAt handle).map reported) := by
  have each (shard : LRUCacheShard) : ∃ entries : List Address,
      shard ∈ session.cache.shards → entries.Nodup ∧
        (∀ address, address ∈ entries ↔ ∃ handle, shard.heap address = some handle ∧
          handle.inCache = true) ∧
        ∀ calls, shard.applyToAllCacheEntries calls =
          some (calls ++ entries.filterMap fun address =>
            (shard.heap address).map reported) := by
    by_cases isShard : shard ∈ session.cache.shards
    · obtain ⟨index, there⟩ := List.getElem?_of_mem isShard
      obtain ⟨low, high, resting⟩ := (sharded.homes index shard there).resting
      obtain ⟨entries, facts⟩ := resting.applyToAllCacheEntries_eq
      exact ⟨entries, fun _ => facts⟩
    · exact ⟨[], fun is => absurd is isShard⟩
  choose entries facts using each
  refine ⟨(List.range session.cache.shards.length).flatMap fun index =>
    ((session.cache.shards[index]?).elim [] entries).map (Handle.mk index), ?_, ?_, ?_⟩
  · refine nodup_handles _ fun index => ?_
    cases there : session.cache.shards[index]? with
    | none => exact List.nodup_nil
    | some shard => exact (facts shard (List.mem_of_getElem? there)).1
  · rintro ⟨index, address⟩
    cases there : session.cache.shards[index]? with
    | none =>
        have outside := List.getElem?_eq_none_iff.mp there
        simp [entryAt, there]
    | some shard =>
        obtain ⟨inside, isShard⟩ := List.getElem?_eq_some_iff.mp there
        have listed := (facts shard (List.mem_of_getElem? there)).2.1 address
        rw [entryAt_eq there, ← listed]
        simp [inside, isShard]
  · refine (foldlM_append_eq_some (fun shard isShard => (facts shard isShard).2.2) []).trans ?_
    rw [List.nil_append, List.flatMap_def, map_eq_map_range _ _ [], ← List.flatMap_def,
      List.filterMap_flatMap]
    refine congrArg some (List.flatMap_congr fun index _ => ?_)
    cases there : session.cache.shards[index]? with
    | none => rfl
    | some shard =>
        rw [Option.elim_some, Option.elim_some, List.filterMap_map]
        exact List.filterMap_congr fun address _ =>
          congrArg (Option.map reported) (entryAt_eq there address).symm

/-- The callback is called once for each entry that a lookup could find. -/
theorem Mirrors.applyToAllCacheEntries_perm
    (mirrors : Mirrors rounding hashOf history session)
    (sharded : Sharded numShardBits hashOf session) :
    ∃ calls, session.cache.applyToAllCacheEntries = some calls ∧
      calls.Perm (((issued history).filter fun entry =>
        current history entry.2.key = some entry.1).map fun entry =>
          (entry.2.value, entry.2.charge)) := by
  obtain ⟨found, distinct, mem_found, returns⟩ := sharded.applyToAllCacheEntries_eq
  have same : found.Perm (((issued history).filter fun entry =>
      current history entry.2.key = some entry.1).map Prod.fst) := by
    rw [List.perm_ext_iff_of_nodup distinct
      ((List.filter_sublist.map Prod.fst).nodup mirrors.legal.nodup_issued)]
    intro handle
    rw [mem_found, List.mem_map]
    constructor
    · rintro ⟨entry, isEntry, inCache⟩
      obtain ⟨insertion, isIssued, same⟩ := mirrors.origin handle entry isEntry
      have isCurrent := mirrors.current_eq_some.mpr ⟨entry, isEntry, inCache, rfl⟩
      rw [LRUHandle.key_eq same] at isCurrent
      exact ⟨_, List.mem_filter.mpr ⟨isIssued, decide_eq_true isCurrent⟩, rfl⟩
    · rintro ⟨entry, within, rfl⟩
      obtain ⟨isIssued, isCurrent⟩ := List.mem_filter.mp within
      obtain ⟨present, isEntry, inCache, -⟩ :=
        mirrors.current_eq_some.mp (of_decide_eq_true isCurrent)
      exact ⟨present, isEntry, inCache⟩
  refine ⟨_, returns, (same.filterMap _).trans (List.Perm.of_eq ?_)⟩
  rw [List.filterMap_map, List.filterMap_eq_map_iff_forall_eq_some]
  intro entry within
  obtain ⟨isIssued, isCurrent⟩ := List.mem_filter.mp within
  obtain ⟨present, isEntry, -⟩ := mirrors.current_eq_some.mp (of_decide_eq_true isCurrent)
  have same := mirrors.insertion_eq isIssued isEntry
  rw [Function.comp_apply, isEntry, Option.map_some, reported, LRUHandle.value_eq same,
    LRUHandle.charge_eq same]
  rfl

end Reports

end ShardedCache
end Cache
end RocksUtil
