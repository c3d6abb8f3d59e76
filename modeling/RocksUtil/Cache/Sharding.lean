import RocksUtil.Cache.ShardedCache

/-!
# Capacity and entries among the shards

Runs of calls of a sharded cache.  An entry lives in the shard that the hash stored in it
belongs to, so that `Release` finds it there (`Sharded.release`).  The shards split the
capacity evenly, rounded up, except for the capacities that are so large that the sum
which is divided wraps: for these the shards are left with no capacity at all
(`preservesCapacity_iff`).
-/

namespace RocksUtil
namespace Cache
namespace ShardedCache

open LRUCacheShard (Answer Insertion Resting Advances)

/-- A loop over the shards, each of which returns. -/
theorem mapM_returns
    {α β : Type}
    {act : α → Option β}
    {shards : List α}
    (returns : ∀ shard ∈ shards, ∃ shard', act shard = some shard') :
    ∃ shards', shards.mapM act = some shards' ∧ shards'.length = shards.length ∧
      ∀ (index : Nat) (shard' : β), shards'[index]? = some shard' →
        ∃ shard, shards[index]? = some shard ∧ act shard = some shard' := by
  induction shards with
  | nil => exact ⟨[], rfl, rfl, nofun⟩
  | cons shard shards inductionHypothesis =>
      obtain ⟨shard', acts⟩ := returns shard List.mem_cons_self
      obtain ⟨shards', loops, length, origin⟩ := inductionHypothesis
        (fun other isOther => returns other (List.mem_cons_of_mem _ isOther))
      refine ⟨shard' :: shards', ?_, ?_, fun index found there => ?_⟩
      · rw [List.mapM_cons, acts, loops]
        rfl
      · rw [List.length_cons, length, List.length_cons]
      · cases index with
        | zero =>
            rw [List.getElem?_cons_zero, Option.some.injEq] at there
            exact ⟨shard, rfl, there ▸ acts⟩
        | succ index => exact origin index found there

/-! ## Sessions -/

/-- A cache, and the handles that each shard has given out and not got back, one for
each time. -/
structure Session where
  cache : ShardedCache
  handles : Nat → List Address

/-- A call of a method of the cache. -/
inductive Op
  | insert (insertion : Insertion)
  | lookup (key : Bytes)
  | release (handle : Handle)
  | erase (key : Bytes)
  | setCapacity (capacity : UInt64)
  | setStrictCapacityLimit (strictCapacityLimit : Bool)
  | eraseUnRefEntries

/-- Keep account of the handles of a shard that a call went to. -/
def Session.account
    (session : Session)
    (index : Nat)
    (op : LRUCacheShard.Op)
    (result : Answer × ShardedCache) : Session where
  cache := result.2
  handles := Function.update session.handles index
    (result.1.handle.toList ++ op.returned (session.handles index))

section Steps

variable (rounding : Rounding) (hashOf : Bytes → UInt32)

/-- Make a call, and keep account of the handles. -/
def Session.step (session : Session) : Op → Option Session
  | .insert insertion =>
      (session.cache.insert rounding hashOf insertion).map
        (session.account (session.cache.shardOfKey hashOf insertion.key) (.insert insertion))
  | .lookup key =>
      (session.cache.lookup rounding hashOf key).map
        (session.account (session.cache.shardOfKey hashOf key) (.lookup key))
  | .release handle =>
      (session.cache.release rounding hashOf handle).map
        (session.account handle.shard (.release handle.address))
  | .erase key =>
      (session.cache.erase rounding hashOf key).map
        (session.account (session.cache.shardOfKey hashOf key) (.erase key))
  | .setCapacity capacity =>
      (session.cache.setCapacity rounding capacity).map (⟨·, session.handles⟩)
  | .setStrictCapacityLimit strictCapacityLimit =>
      some ⟨session.cache.setStrictCapacityLimit strictCapacityLimit, session.handles⟩
  | .eraseUnRefEntries =>
      session.cache.eraseUnRefEntries.map (⟨·, session.handles⟩)

/-- The calls that may be made: the charges of all entries of a shard stay below
`2 ^ 64`, and a handle is released by someone who holds it. -/
def Session.Admits (session : Session) : Op → Prop
  | .insert insertion =>
      ∀ shard ∈ session.cache.shards[session.cache.shardOfKey hashOf insertion.key]?,
        LRUCacheShard.Session.Admits
          ⟨shard, session.handles (session.cache.shardOfKey hashOf insertion.key)⟩
          (.insert insertion)
  | .release handle => handle.address ∈ session.handles handle.shard
  | _ => True

/-- No entry has `2 ^ 32 - 1` handles given out. -/
def Session.Uncrowded (session : Session) : Prop :=
  ∀ index < session.cache.shards.length, ∀ e ∈ session.handles index,
    (session.handles index).count e + 1 < 2 ^ 32

/-- The 32-bit counters have room for a call: no entry has `2 ^ 32 - 1` handles given out,
and an insertion finds fewer than `2 ^ 31` entries in the table of its shard. -/
def Session.Roomy (session : Session) : Op → Prop
  | .insert insertion => session.Uncrowded ∧
      ∀ shard ∈ session.cache.shards[session.cache.shardOfKey hashOf insertion.key]?,
        shard.table.elems < 2 ^ 31
  | _ => session.Uncrowded

/-- The sessions that calls lead to from a new cache. -/
inductive Session.Reachable (numShardBits : Nat) : Session → Prop
  | new
      {memory : Nat → UInt64 × Bool × ℚ × ℚ}
      {capacity : UInt64}
      {strictCapacityLimit : Bool}
      {highPriPoolRatio : ℚ}
      {cache : ShardedCache}
      (isNew : newLRUCache rounding memory capacity numShardBits strictCapacityLimit
        highPriPoolRatio = some (some cache)) :
      Reachable numShardBits ⟨cache, fun _ => []⟩
  | step
      {session session' : Session}
      {op : Op}
      (before : Reachable numShardBits session)
      (admits : session.Admits hashOf op)
      (steps : session.step rounding hashOf op = some session') :
      Reachable numShardBits session'

end Steps

/-! ## One shard -/

/-- A shard with complete accounts, the entries of which belong to it. -/
structure Home
    (numShardBits : Nat)
    (hashOf : Bytes → UInt32)
    (index : Nat)
    (session : LRUCacheShard.Session) : Prop where
  resting : ∃ low high, Resting hashOf session low high
  hashed : ∀ address entry, session.shard.heap address = some entry →
    (shardOf numShardBits entry.hash).toNat = index

section Homes

variable {numShardBits : Nat} {hashOf : Bytes → UInt32} {index : Nat}
  {shard : LRUCacheShard} {handles : List Address} (rounding : Rounding)

/-- A call leaves a shard at home, if what it inserts belongs there. -/
theorem Home.of_call
    {op : LRUCacheShard.Op}
    {answer : Answer}
    {shard' : LRUCacheShard}
    (home : Home numShardBits hashOf index ⟨shard, handles⟩)
    (admits : LRUCacheShard.Session.Admits ⟨shard, handles⟩ op)
    (belongs : ∀ insertion, op = .insert insertion →
      (shardOf numShardBits (hashOf insertion.key)).toNat = index)
    (calls : shard.call rounding hashOf op = some (answer, shard')) :
    Home numShardBits hashOf index ⟨shard', answer.handle.toList ++ op.returned handles⟩ ∧
      ∀ capacity, op = .setCapacity capacity → shard'.capacity = capacity := by
  obtain ⟨low, high, resting⟩ := home.resting
  have steps : LRUCacheShard.Session.step rounding hashOf ⟨shard, handles⟩ op =
      some (answer, ⟨shard', answer.handle.toList ++ op.returned handles⟩) :=
    LRUCacheShard.Session.step_eq calls
  obtain ⟨freed, advances⟩ := resting.advances_of_step admits steps
  refine ⟨⟨advances.resting, fun address entry' found' => ?_⟩,
    fun capacity isCapacity => ?_⟩
  · obtain ⟨entry, found, same, -⟩ := advances.heap_before found'
    rw [LRUHandle.hash_eq same]
    rcases LRUCacheShard.heap_prepare found with before | ⟨insertion, isInsertion, isEntry⟩
    · exact home.hashed address entry before
    · rw [isEntry]
      exact belongs insertion isInsertion
  · have settled := advances.settles.capacity
    rw [isCapacity] at settled
    exact settled

/-- A call returns if the counter that it works on has not wrapped. -/
theorem Home.call
    (home : Home numShardBits hashOf index ⟨shard, handles⟩)
    (op : LRUCacheShard.Op)
    (admits : LRUCacheShard.Session.Admits ⟨shard, handles⟩ op)
    (counts : LRUCacheShard.Session.Counts ⟨shard, handles⟩ op)
    (belongs : ∀ insertion, op = .insert insertion →
      (shardOf numShardBits (hashOf insertion.key)).toNat = index) :
    ∃ answer shard', shard.call rounding hashOf op = some (answer, shard') ∧
      Home numShardBits hashOf index
        ⟨shard', answer.handle.toList ++ op.returned handles⟩ ∧
      ∀ capacity, op = .setCapacity capacity → shard'.capacity = capacity := by
  obtain ⟨low, high, resting⟩ := home.resting
  obtain ⟨answer, session', steps⟩ := (resting.returns_iff rounding admits).mpr counts
  obtain ⟨⟨answer', shard'⟩, calls, -⟩ := Option.bind_eq_some_iff.mp steps
  obtain ⟨home', settled⟩ := home.of_call rounding admits belongs calls
  exact ⟨answer', shard', calls, home', settled⟩

theorem Home.setCapacity
    (home : Home numShardBits hashOf index ⟨shard, handles⟩)
    (capacity : UInt64) :
    ∃ shard', shard.setCapacity rounding capacity = some shard' ∧
      Home numShardBits hashOf index ⟨shard', handles⟩ ∧ shard'.capacity = capacity := by
  obtain ⟨answer, shard', calls, home', settled⟩ := home.call rounding
    (.setCapacity capacity) trivial trivial nofun
  obtain ⟨called, returns, isResult⟩ := Option.bind_eq_some_iff.mp calls
  obtain ⟨rfl, rfl⟩ := Prod.mk.inj (Option.some.inj isResult)
  exact ⟨called, returns, home', settled capacity rfl⟩

theorem Home.eraseUnRefEntries
    (home : Home numShardBits hashOf index ⟨shard, handles⟩) :
    ∃ shard', shard.eraseUnRefEntries = some shard' ∧
      Home numShardBits hashOf index ⟨shard', handles⟩ := by
  obtain ⟨answer, shard', calls, home', -⟩ := home.call Rounding.exact
    .eraseUnRefEntries trivial trivial nofun
  obtain ⟨called, returns, isResult⟩ := Option.bind_eq_some_iff.mp calls
  obtain ⟨rfl, rfl⟩ := Prod.mk.inj (Option.some.inj isResult)
  exact ⟨called, returns, home'⟩

theorem Home.setStrictCapacityLimit
    (home : Home numShardBits hashOf index ⟨shard, handles⟩)
    (strictCapacityLimit : Bool) :
    Home numShardBits hashOf index
      ⟨shard.setStrictCapacityLimit strictCapacityLimit, handles⟩ := by
  obtain ⟨answer, shard', calls, home', -⟩ := home.call Rounding.exact
    (.setStrictCapacityLimit strictCapacityLimit) trivial trivial nofun
  obtain ⟨rfl, rfl⟩ := Prod.mk.inj (Option.some.inj calls)
  exact home'

end Homes

/-! ## The whole cache -/

/-- Every shard has complete accounts and holds the entries that belong to it. -/
structure Sharded
    (numShardBits : Nat)
    (hashOf : Bytes → UInt32)
    (session : Session) : Prop where
  bits_eq : session.cache.numShardBits = numShardBits
  few : numShardBits < 20
  length : session.cache.shards.length = 2 ^ numShardBits
  homes : ∀ index shard, session.cache.shards[index]? = some shard →
    Home numShardBits hashOf index ⟨shard, session.handles index⟩
  nowhere : ∀ index, 2 ^ numShardBits ≤ index → session.handles index = []

section Caches

variable {numShardBits : Nat} {hashOf : Bytes → UInt32} {session : Session}

theorem Sharded.getElem?
    (sharded : Sharded numShardBits hashOf session)
    {index : Nat}
    (inside : index < 2 ^ numShardBits) :
    ∃ shard, session.cache.shards[index]? = some shard :=
  ⟨_, List.getElem?_eq_getElem (by rw [sharded.length]; exact inside)⟩

theorem Sharded.shardOfKey_lt
    (sharded : Sharded numShardBits hashOf session)
    (key : Bytes) :
    session.cache.shardOfKey hashOf key < 2 ^ numShardBits := by
  rw [shardOfKey, sharded.bits_eq]
  exact shardOf_lt sharded.few _

/-- A call of one shard leaves the cache sharded. -/
theorem Sharded.of_onShard
    (rounding : Rounding)
    (sharded : Sharded numShardBits hashOf session)
    {index : Nat}
    {op : LRUCacheShard.Op}
    {result : Answer × ShardedCache}
    (inside : index < 2 ^ numShardBits)
    (admits : ∀ shard ∈ session.cache.shards[index]?,
      LRUCacheShard.Session.Admits ⟨shard, session.handles index⟩ op)
    (belongs : ∀ insertion, op = .insert insertion →
      (shardOf numShardBits (hashOf insertion.key)).toNat = index)
    (runs : session.cache.onShard rounding hashOf index op = some result) :
    Sharded numShardBits hashOf (session.account index op result) := by
  obtain ⟨shard, there⟩ := sharded.getElem? inside
  rw [ShardedCache.onShard, there, Option.bind_eq_bind, Option.bind_some] at runs
  obtain ⟨⟨answer, shard'⟩, calls, isResult⟩ := Option.bind_eq_some_iff.mp runs
  obtain rfl := Option.some.inj isResult
  have home := ((sharded.homes index shard there).of_call rounding (admits shard there)
    belongs calls).1
  · refine ⟨sharded.bits_eq, sharded.few, ?_, fun other found isThere => ?_,
      fun other beyond => ?_⟩
    · exact (List.length_set ..).trans sharded.length
    · have isThere : (session.cache.shards.set index shard')[other]? = some found := isThere
      unfold Session.account
      dsimp only
      by_cases same : other = index
      · subst same
        rw [List.getElem?_set_self (by rw [sharded.length]; exact inside),
          Option.some.injEq] at isThere
        rw [Function.update_self, ← isThere]
        exact home
      · rw [List.getElem?_set_ne (Ne.symm same)] at isThere
        rw [Function.update_of_ne same]
        exact sharded.homes other found isThere
    · have elsewhere : other ≠ index := by omega
      exact (Function.update_of_ne elsewhere _ _).trans (sharded.nowhere other beyond)

/-- A call of one shard returns if the counter that it works on has not wrapped. -/
theorem Sharded.onShard
    (rounding : Rounding)
    (sharded : Sharded numShardBits hashOf session)
    {index : Nat}
    (inside : index < 2 ^ numShardBits)
    (op : LRUCacheShard.Op)
    (admits : ∀ shard ∈ session.cache.shards[index]?,
      LRUCacheShard.Session.Admits ⟨shard, session.handles index⟩ op)
    (counts : ∀ shard ∈ session.cache.shards[index]?,
      LRUCacheShard.Session.Counts ⟨shard, session.handles index⟩ op)
    (belongs : ∀ insertion, op = .insert insertion →
      (shardOf numShardBits (hashOf insertion.key)).toNat = index) :
    ∃ result, session.cache.onShard rounding hashOf index op = some result := by
  obtain ⟨shard, there⟩ := sharded.getElem? inside
  obtain ⟨answer, shard', calls, -, -⟩ := (sharded.homes index shard there).call
    rounding op (admits shard there) (counts shard there) belongs
  refine ⟨(answer, { session.cache with
    shards := session.cache.shards.set index shard' }), ?_⟩
  rw [ShardedCache.onShard, there, Option.bind_eq_bind, Option.bind_some, calls]
  rfl

/-- A call of every shard. -/
theorem Sharded.onEach
    (sharded : Sharded numShardBits hashOf session)
    (act : LRUCacheShard → Option LRUCacheShard)
    (Done : LRUCacheShard → Prop)
    (acts : ∀ index shard handles, Home numShardBits hashOf index ⟨shard, handles⟩ →
      ∃ shard', act shard = some shard' ∧
        Home numShardBits hashOf index ⟨shard', handles⟩ ∧ Done shard')
    (capacity : UInt64)
    (strictCapacityLimit : Bool) :
    ∃ shards, session.cache.shards.mapM act = some shards ∧
      Sharded numShardBits hashOf
        ⟨⟨session.cache.numShardBits, capacity, strictCapacityLimit, shards⟩,
          session.handles⟩ ∧
      ∀ shard ∈ shards, Done shard := by
  have home (index : Nat) (shard : LRUCacheShard)
      (there : session.cache.shards[index]? = some shard) :=
    acts index shard _ (sharded.homes index shard there)
  obtain ⟨shards, loops, length, origin⟩ := mapM_returns
    (fun shard (isShard : shard ∈ session.cache.shards) => by
      obtain ⟨index, there⟩ := List.getElem?_of_mem isShard
      obtain ⟨shard', returns, -⟩ := home index shard there
      exact ⟨shard', returns⟩)
  have after (index : Nat) (shard' : LRUCacheShard) (there : shards[index]? = some shard') :
      Home numShardBits hashOf index ⟨shard', session.handles index⟩ ∧ Done shard' := by
    obtain ⟨shard, before, returns⟩ := origin index shard' there
    obtain ⟨shard'', returns', facts⟩ := home index shard before
    obtain rfl := Option.some.inj (returns.symm.trans returns')
    exact facts
  refine ⟨shards, loops, ⟨sharded.bits_eq, sharded.few, length.trans sharded.length,
    fun index shard there => (after index shard there).1, sharded.nowhere⟩,
    fun shard isShard => ?_⟩
  obtain ⟨index, there⟩ := List.getElem?_of_mem isShard
  exact (after index shard there).2

theorem Sharded.setCapacity
    (rounding : Rounding)
    (sharded : Sharded numShardBits hashOf session)
    (capacity : UInt64) :
    ∃ cache, session.cache.setCapacity rounding capacity = some cache ∧
      Sharded numShardBits hashOf ⟨cache, session.handles⟩ ∧
      ∀ shard ∈ cache.shards, shard.capacity = perShard capacity numShardBits := by
  obtain ⟨shards, loops, after, each⟩ := sharded.onEach
    (fun shard => shard.setCapacity rounding (perShard capacity numShardBits))
    (fun shard => shard.capacity = perShard capacity numShardBits)
    (fun index shard handles home => home.setCapacity rounding _)
    capacity session.cache.strictCapacityLimit
  refine ⟨_, ?_, after, each⟩
  rw [ShardedCache.setCapacity, sharded.bits_eq, loops]
  rw [← sharded.bits_eq]
  rfl

theorem Sharded.eraseUnRefEntries (sharded : Sharded numShardBits hashOf session) :
    ∃ cache, session.cache.eraseUnRefEntries = some cache ∧
      Sharded numShardBits hashOf ⟨cache, session.handles⟩ := by
  obtain ⟨shards, loops, after, -⟩ := sharded.onEach LRUCacheShard.eraseUnRefEntries
    (fun _ => True)
    (fun index shard handles home => by
      obtain ⟨shard', returns, home'⟩ := home.eraseUnRefEntries
      exact ⟨shard', returns, home', trivial⟩)
    session.cache.capacity session.cache.strictCapacityLimit
  refine ⟨_, ?_, after⟩
  rw [ShardedCache.eraseUnRefEntries, loops]
  rfl

theorem Sharded.setStrictCapacityLimit
    (sharded : Sharded numShardBits hashOf session)
    (strictCapacityLimit : Bool) :
    Sharded numShardBits hashOf
      ⟨session.cache.setStrictCapacityLimit strictCapacityLimit, session.handles⟩ := by
  refine ⟨sharded.bits_eq, sharded.few, ?_, fun index shard' there => ?_, sharded.nowhere⟩
  · exact (List.length_map ..).trans sharded.length
  · obtain ⟨shard, before, rfl⟩ := Option.map_eq_some_iff.mp
      ((List.getElem?_map ..).symm.trans there)
    exact (sharded.homes index shard before).setStrictCapacityLimit strictCapacityLimit

/-- A handle that is held points to an entry of its shard, which the hash stored in it
belongs to. -/
theorem Sharded.held
    (sharded : Sharded numShardBits hashOf session)
    {handle : Handle}
    (held : handle.address ∈ session.handles handle.shard) :
    ∃ shard entry, session.cache.shards[handle.shard]? = some shard ∧
      shard.heap handle.address = some entry ∧
      session.cache.getHash handle = some entry.hash ∧
      (shardOf numShardBits entry.hash).toNat = handle.shard ∧
      (entry.inCache = true →
        shard.table.lookup shard.heap entry.key entry.hash = some (some handle.address)) ∧
      (entry.inCache = false → 0 < entry.refs) := by
  have inside : handle.shard < 2 ^ numShardBits := by
    by_contra beyond
    rw [sharded.nowhere handle.shard (Nat.le_of_not_lt beyond)] at held
    exact absurd held List.not_mem_nil
  obtain ⟨shard, there⟩ := sharded.getElem? inside
  have home := sharded.homes handle.shard shard there
  obtain ⟨low, high, resting⟩ := home.resting
  have consistent := resting.consistent
  obtain ⟨-, entry, found⟩ := consistent.accounts.held handle.address held
  refine ⟨shard, entry, there, found, ?_, home.hashed handle.address entry found,
    fun inCache => ?_, fun notCached => ?_⟩
  · rw [getHash, there, Option.bind_eq_bind, Option.bind_some, found]
    rfl
  · have within : handle.address ∈ LRUCacheShard.cached shard.heap ∅ :=
      ⟨entry, found, by simp, inCache⟩
    obtain ⟨result, looksUp, finds⟩ :=
      LRUHandleTable.lookup_spec consistent.table entry.key
    rw [consistent.table.hash_eq found within, looksUp,
      consistent.table.finds_self found within finds]
  · have counted := consistent.counted found
    refine counted.pos (counted.bound.resolve_right ?_)
    rintro ⟨inCache, -⟩
    exact Bool.false_ne_true (notCached.symm.trans inCache)

/-- `Release` of a handle that is held goes to its shard. -/
theorem Sharded.release_eq
    (rounding : Rounding)
    (sharded : Sharded numShardBits hashOf session)
    {handle : Handle}
    (held : handle.address ∈ session.handles handle.shard) :
    handle.shard < 2 ^ numShardBits ∧
      session.cache.release rounding hashOf handle =
        session.cache.onShard rounding hashOf handle.shard (.release handle.address) := by
  obtain ⟨shard, entry, there, -, hash, belongs, -⟩ := sharded.held held
  have inside : handle.shard < 2 ^ numShardBits := by
    rw [← sharded.length]
    exact (List.getElem?_eq_some_iff.mp there).1
  refine ⟨inside, ?_⟩
  rw [ShardedCache.release, hash, Option.bind_eq_bind, Option.bind_some, sharded.bits_eq]
  dsimp only
  rw [belongs, guard, if_pos rfl]
  rfl

end Caches

/-! ## New caches -/

/-- A loop over shards, each of which returns what is known. -/
theorem mapM_eq_map
    {α β : Type}
    {act : α → Option β}
    {result : α → β}
    {shards : List α}
    (acts : ∀ shard ∈ shards, act shard = some (result shard)) :
    shards.mapM act = some (shards.map result) := by
  induction shards with
  | nil => rfl
  | cons shard shards inductionHypothesis =>
      have rest := inductionHypothesis
        (fun other isOther => acts other (List.mem_cons_of_mem _ isOther))
      rw [List.mapM_cons, acts shard List.mem_cons_self, rest]
      rfl

section Construction

variable {numShardBits : Nat} (rounding : Rounding)

/-- The shards of a new cache are empty, and equal. -/
theorem construct_eq
    (few : numShardBits < 20)
    (memory : Nat → UInt64 × Bool × ℚ × ℚ)
    (capacity : UInt64)
    (strictCapacityLimit : Bool)
    {highPriPoolRatio : ℚ}
    (nonneg : 0 ≤ highPriPoolRatio) :
    construct rounding memory capacity numShardBits strictCapacityLimit highPriPoolRatio =
      some ⟨numShardBits, capacity, strictCapacityLimit,
        List.replicate (2 ^ numShardBits)
          (.new (perShard capacity numShardBits) strictCapacityLimit highPriPoolRatio
            (rounding.round (rounding.round (perShard capacity numShardBits).toNat *
              highPriPoolRatio)))⟩ := by
  have poolNonneg := rounding.poolCapacity_nonneg (perShard capacity numShardBits) nonneg
  have setCapacity (index : Nat) (_ : index ∈ List.range (2 ^ numShardBits)) :
      (LRUCacheShard.new (memory index).1 (memory index).2.1 (memory index).2.2.1
        (memory index).2.2.2).setCapacity rounding (perShard capacity numShardBits) =
      some (.new (perShard capacity numShardBits) (memory index).2.1 (memory index).2.2.1
        (rounding.round (rounding.round (perShard capacity numShardBits).toNat *
          (memory index).2.2.1))) := by
    simp [LRUCacheShard.new, LRUCacheShard.setCapacity, LRUCacheShard.evictFromLRU,
      LRUCacheShard.freeAll]
  have setRatio (index : Nat) (_ : index ∈ List.range (2 ^ numShardBits)) :
      ((LRUCacheShard.new (perShard capacity numShardBits) (memory index).2.1
        (memory index).2.2.1
        (rounding.round (rounding.round (perShard capacity numShardBits).toNat *
          (memory index).2.2.1))).setStrictCapacityLimit
            strictCapacityLimit).setHighPriorityPoolRatio rounding highPriPoolRatio =
      some (.new (perShard capacity numShardBits) strictCapacityLimit highPriPoolRatio
        (rounding.round (rounding.round (perShard capacity numShardBits).toNat *
          highPriPoolRatio))) := by
    simp [LRUCacheShard.new, LRUCacheShard.setStrictCapacityLimit,
      LRUCacheShard.setHighPriorityPoolRatio, LRUCacheShard.maintainPoolSize,
      rounding.round_zero, poolNonneg]
  simp only [construct, toNat_numShards few, ShardedCache.setCapacity, List.mapM_map,
    Function.comp_def]
  rw [mapM_eq_map setCapacity]
  simp only [Option.bind_eq_bind, Option.bind_some, ShardedCache.setStrictCapacityLimit,
    List.mapM_map, Function.comp_def]
  rw [mapM_eq_map setRatio, Option.bind_some, List.map_const', List.length_range]

/-- The arguments that `NewLRUCache` does not refuse. -/
theorem newLRUCache_permits
    {rounding : Rounding}
    {memory : Nat → UInt64 × Bool × ℚ × ℚ}
    {capacity : UInt64}
    {strictCapacityLimit : Bool}
    {highPriPoolRatio : ℚ}
    {cache : ShardedCache}
    (isNew : newLRUCache rounding memory capacity numShardBits strictCapacityLimit
      highPriPoolRatio = some (some cache)) :
    numShardBits < 20 ∧ 0 ≤ highPriPoolRatio ∧ highPriPoolRatio ≤ 1 := by
  unfold newLRUCache at isNew
  by_cases many : 20 ≤ numShardBits
  · rw [if_pos many] at isNew
    exact absurd (Option.some.inj isNew) nofun
  · rw [if_neg many] at isNew
    by_cases outside : highPriPoolRatio < 0 ∨ 1 < highPriPoolRatio
    · rw [if_pos outside] at isNew
      exact absurd (Option.some.inj isNew) nofun
    · rw [not_or, not_lt, not_lt] at outside
      exact ⟨Nat.not_le.mp many, outside⟩

/-- A new cache is sharded, and `NewLRUCache` refuses no arguments that are in range. -/
theorem newLRUCache_spec
    (hashOf : Bytes → UInt32)
    (few : numShardBits < 20)
    (memory : Nat → UInt64 × Bool × ℚ × ℚ)
    (capacity : UInt64)
    (strictCapacityLimit : Bool)
    {highPriPoolRatio : ℚ}
    (nonneg : 0 ≤ highPriPoolRatio)
    (atMost : highPriPoolRatio ≤ 1) :
    ∃ cache, newLRUCache rounding memory capacity numShardBits strictCapacityLimit
        highPriPoolRatio = some (some cache) ∧
      Sharded numShardBits hashOf ⟨cache, fun _ => []⟩ ∧
      ∀ shard ∈ cache.shards, shard.capacity = perShard capacity numShardBits := by
  have permitted : ¬ (highPriPoolRatio < 0 ∨ 1 < highPriPoolRatio) := by
    rw [not_or, not_lt, not_lt]
    exact ⟨nonneg, atMost⟩
  have returns := congrArg (Option.map some)
    (construct_eq rounding few memory capacity strictCapacityLimit nonneg)
  rw [newLRUCache, if_neg (Nat.not_le.mpr few), if_neg permitted]
  refine ⟨_, returns, ⟨rfl, few, List.length_replicate, fun index shard there => ?_,
    fun _ _ => rfl⟩, fun shard isShard => ?_⟩
  · obtain rfl := List.eq_of_mem_replicate (List.mem_of_getElem? there)
    exact ⟨⟨[], [], LRUCacheShard.resting_new hashOf _ _ nonneg
      (rounding.poolCapacity_nonneg _ nonneg)⟩, nofun⟩
  · rw [List.eq_of_mem_replicate isShard]
    rfl

end Construction

/-! ## Every run -/

section Runs

variable {numShardBits : Nat} {rounding : Rounding} {hashOf : Bytes → UInt32}
  {session : Session}

/-- What is inserted under a key belongs to the shard of the key. -/
theorem Sharded.belongs
    (sharded : Sharded numShardBits hashOf session)
    (key : Bytes) :
    (shardOf numShardBits (hashOf key)).toNat = session.cache.shardOfKey hashOf key := by
  rw [shardOfKey, sharded.bits_eq]

/-- A call that returns leaves the cache sharded. -/
theorem Sharded.of_step
    {session' : Session}
    (sharded : Sharded numShardBits hashOf session)
    {op : Op}
    (admits : session.Admits hashOf op)
    (steps : session.step rounding hashOf op = some session') :
    Sharded numShardBits hashOf session' := by
  cases op with
  | insert insertion =>
      obtain ⟨result, runs, rfl⟩ := Option.map_eq_some_iff.mp steps
      refine sharded.of_onShard rounding (sharded.shardOfKey_lt _) admits ?_ runs
      rintro other isOther
      rw [← LRUCacheShard.Op.insert.inj isOther]
      exact sharded.belongs _
  | lookup key =>
      obtain ⟨result, runs, rfl⟩ := Option.map_eq_some_iff.mp steps
      exact sharded.of_onShard rounding (sharded.shardOfKey_lt key) (fun _ _ => trivial)
        (by simp) runs
  | release handle =>
      obtain ⟨result, runs, rfl⟩ := Option.map_eq_some_iff.mp steps
      obtain ⟨inside, goes⟩ := sharded.release_eq rounding admits
      exact sharded.of_onShard rounding inside (fun _ _ => admits) (by simp)
        (goes.symm.trans runs)
  | erase key =>
      obtain ⟨result, runs, rfl⟩ := Option.map_eq_some_iff.mp steps
      exact sharded.of_onShard rounding (sharded.shardOfKey_lt key) (fun _ _ => trivial)
        (by simp) runs
  | setCapacity capacity =>
      obtain ⟨cache, returns, after, -⟩ := sharded.setCapacity rounding capacity
      obtain ⟨cache', returns', rfl⟩ := Option.map_eq_some_iff.mp steps
      obtain rfl := Option.some.inj (returns'.symm.trans returns)
      exact after
  | setStrictCapacityLimit strictCapacityLimit =>
      obtain rfl := Option.some.inj steps
      exact sharded.setStrictCapacityLimit strictCapacityLimit
  | eraseUnRefEntries =>
      obtain ⟨cache, returns, after⟩ := sharded.eraseUnRefEntries
      obtain ⟨cache', returns', rfl⟩ := Option.map_eq_some_iff.mp steps
      obtain rfl := Option.some.inj (returns'.symm.trans returns)
      exact after

theorem Session.Roomy.uncrowded
    {op : Op}
    (roomy : session.Roomy hashOf op) : session.Uncrowded := by
  cases op with
  | insert insertion => exact roomy.1
  | _ => exact roomy

/-- No entry of a shard has too many handles given out. -/
theorem Session.Uncrowded.shard
    (uncrowded : session.Uncrowded)
    {index : Nat}
    {shard : LRUCacheShard}
    (there : session.cache.shards[index]? = some shard) :
    LRUCacheShard.Session.Uncrowded ⟨shard, session.handles index⟩ :=
  uncrowded index (List.getElem?_eq_some_iff.mp there).1

theorem Sharded.count_lt
    (sharded : Sharded numShardBits hashOf session)
    (uncrowded : session.Uncrowded)
    (index : Nat)
    (e : Address) : (session.handles index).count e + 1 < 2 ^ 32 := by
  by_cases inside : index < 2 ^ numShardBits
  · obtain ⟨shard, there⟩ := sharded.getElem? inside
    exact (uncrowded.shard there).count_lt e
  · rw [sharded.nowhere index (Nat.le_of_not_lt inside), List.count_nil]
    omega

/-- A lookup returns if no entry has `2 ^ 32` handles given out. -/
theorem Sharded.lookup_returns
    (sharded : Sharded numShardBits hashOf session)
    (few : ∀ index e, (session.handles index).count e < 2 ^ 32)
    (key : Bytes) :
    ∃ session', session.step rounding hashOf (.lookup key) = some session' := by
  obtain ⟨result, returns⟩ := sharded.onShard rounding (sharded.shardOfKey_lt key)
    (.lookup key) (fun _ _ => trivial) (fun _ _ e _ _ _ _ => few _ e) (by simp)
  exact ⟨_, congrArg (Option.map _) returns⟩

/-- A call that may be made returns if no entry has `2 ^ 32 - 1` handles given out. -/
theorem Sharded.step
    (sharded : Sharded numShardBits hashOf session)
    {op : Op}
    (admits : session.Admits hashOf op)
    (uncrowded : session.Uncrowded) :
    ∃ session', session.step rounding hashOf op = some session' := by
  have counts (index : Nat) (shardOp : LRUCacheShard.Op) :
      ∀ shard ∈ session.cache.shards[index]?,
        LRUCacheShard.Session.Counts ⟨shard, session.handles index⟩ shardOp :=
    fun shard there => (uncrowded.shard (Option.mem_def.mp there)).counts shardOp
  cases op with
  | insert insertion =>
      obtain ⟨result, returns⟩ := sharded.onShard rounding (sharded.shardOfKey_lt insertion.key)
        (.insert insertion) admits (counts _ _) (by
          intro other isOther
          rw [← LRUCacheShard.Op.insert.inj isOther]
          exact sharded.belongs _)
      exact ⟨_, congrArg (Option.map _) returns⟩
  | lookup key =>
      exact sharded.lookup_returns
        (fun index e => Nat.lt_of_succ_lt (sharded.count_lt uncrowded index e)) key
  | release handle =>
      obtain ⟨inside, goes⟩ := sharded.release_eq rounding admits
      obtain ⟨result, returns⟩ := sharded.onShard rounding inside (.release handle.address)
        (fun _ _ => admits) (counts _ _) (by simp)
      exact ⟨_, congrArg (Option.map _) (goes.trans returns)⟩
  | erase key =>
      obtain ⟨result, returns⟩ := sharded.onShard rounding (sharded.shardOfKey_lt key)
        (.erase key) (fun _ _ => trivial) (counts _ _) (by simp)
      exact ⟨_, congrArg (Option.map _) returns⟩
  | setCapacity capacity =>
      obtain ⟨cache, returns, -, -⟩ := sharded.setCapacity rounding capacity
      exact ⟨_, congrArg (Option.map _) returns⟩
  | setStrictCapacityLimit strictCapacityLimit => exact ⟨_, rfl⟩
  | eraseUnRefEntries =>
      obtain ⟨cache, returns, -⟩ := sharded.eraseUnRefEntries
      exact ⟨_, congrArg (Option.map _) returns⟩

theorem Session.Reachable.sharded
    (reachable : Session.Reachable rounding hashOf numShardBits session) :
    Sharded numShardBits hashOf session := by
  induction reachable with
  | @new memory capacity strictCapacityLimit highPriPoolRatio cache isNew =>
      obtain ⟨few, nonneg, atMost⟩ := newLRUCache_permits isNew
      obtain ⟨cache', isCache, sharded, -⟩ := newLRUCache_spec rounding hashOf few memory
        capacity strictCapacityLimit nonneg atMost
      obtain rfl := Option.some.inj (Option.some.inj (isNew.symm.trans isCache))
      exact sharded
  | step before admits steps inductionHypothesis =>
      exact inductionHypothesis.of_step admits steps

end Runs

/-! ## Capacity -/

/-- All shards have one capacity, and their sum is the capacity, rounded up. -/
structure SplitsEvenly
    (numShardBits : Nat)
    (capacity : UInt64)
    (cache : ShardedCache) : Prop where
  length : cache.shards.length = 2 ^ numShardBits
  equal : ∀ shard ∈ cache.shards, ∀ other ∈ cache.shards, shard.capacity = other.capacity
  enough : capacity.toNat ≤ (cache.shards.map (·.capacity.toNat)).sum
  tight : (cache.shards.map (·.capacity.toNat)).sum < capacity.toNat + 2 ^ numShardBits

/-- The sum of the capacities, when each shard has the capacity that it is given. -/
theorem sum_capacity
    {shards : List LRUCacheShard}
    {share : UInt64}
    (each : ∀ shard ∈ shards, shard.capacity = share) :
    (shards.map (·.capacity.toNat)).sum = shards.length * share.toNat := by
  have constant : shards.map (·.capacity.toNat) =
      List.replicate shards.length share.toNat := by
    rw [List.eq_replicate_iff, List.length_map]
    refine ⟨rfl, fun number isNumber => ?_⟩
    obtain ⟨shard, isShard, rfl⟩ := List.mem_map.mp isNumber
    rw [each shard isShard]
  rw [constant, List.sum_replicate_nat]

theorem splitsEvenly_iff
    {numShardBits : Nat}
    (few : numShardBits < 20)
    {capacity : UInt64}
    {cache : ShardedCache}
    (length : cache.shards.length = 2 ^ numShardBits)
    (each : ∀ shard ∈ cache.shards, shard.capacity = perShard capacity numShardBits) :
    SplitsEvenly numShardBits capacity cache ↔
      capacity.toNat + 2 ^ numShardBits ≤ 2 ^ 64 := by
  have sum := sum_capacity each
  rw [length] at sum
  rw [← perShard_split_iff few capacity, ← sum]
  constructor
  · intro even
    exact ⟨even.enough, even.tight⟩
  · rintro ⟨enough, tight⟩
    exact ⟨length, fun shard isShard other isOther =>
      (each shard isShard).trans (each other isOther).symm, enough, tight⟩

/-- A new cache, and one that is given a capacity, split it evenly.  Every hash belongs
to one of the shards, and `Release` of a handle goes to the shard that has the entry in
its table or pinned. -/
structure PreservesCapacity
    (rounding : Rounding)
    (hashOf : Bytes → UInt32)
    (numShardBits : Nat)
    (capacity : UInt64) : Prop where
  constructed : ∀ memory strictCapacityLimit highPriPoolRatio,
    0 ≤ highPriPoolRatio → highPriPoolRatio ≤ 1 →
    ∃ cache, newLRUCache rounding memory capacity numShardBits strictCapacityLimit
        highPriPoolRatio = some (some cache) ∧
      SplitsEvenly numShardBits capacity cache
  resized : ∀ session, Session.Reachable rounding hashOf numShardBits session →
    ∃ session', session.step rounding hashOf (.setCapacity capacity) = some session' ∧
      SplitsEvenly numShardBits capacity session'.cache
  hashed : ∀ session, Session.Reachable rounding hashOf numShardBits session →
    ∀ hash, ∃ shard, session.cache.shards[(shardOf numShardBits hash).toNat]? = some shard
  released : ∀ session, Session.Reachable rounding hashOf numShardBits session →
    ∀ handle : Handle, handle.address ∈ session.handles handle.shard →
    ∃ shard entry,
      session.cache.shards[handle.shard]? = some shard ∧
      shard.heap handle.address = some entry ∧
      (shardOf numShardBits entry.hash).toNat = handle.shard ∧
      (entry.inCache = true →
        shard.table.lookup shard.heap entry.key entry.hash = some (some handle.address)) ∧
      (entry.inCache = false → 0 < entry.refs) ∧
      ((session.handles handle.shard).count handle.address + 1 < 2 ^ 32 →
        ∃ result, session.cache.release rounding hashOf handle = some result) ∧
      session.cache.release rounding hashOf handle =
        session.cache.onShard rounding hashOf handle.shard (.release handle.address)

/-- Sharding preserves the capacities that leave room for rounding up, and no others. -/
theorem preservesCapacity_iff
    (rounding : Rounding)
    (hashOf : Bytes → UInt32)
    (numShardBits : Nat)
    (few : numShardBits < 20)
    (capacity : UInt64) :
    PreservesCapacity rounding hashOf numShardBits capacity ↔
      capacity.toNat + 2 ^ numShardBits ≤ 2 ^ 64 := by
  constructor
  · intro preserves
    obtain ⟨cache, isNew, even⟩ := preserves.constructed (fun _ => (0, false, 0, 0)) false 0
      le_rfl zero_le_one
    obtain ⟨cache', isNew', -, each⟩ := newLRUCache_spec rounding hashOf few
      (fun _ => (0, false, 0, 0)) capacity false le_rfl zero_le_one
    obtain rfl := Option.some.inj (Option.some.inj (isNew.symm.trans isNew'))
    exact (splitsEvenly_iff few even.length each).mp even
  · intro fits
    refine ⟨?_, ?_, ?_, ?_⟩
    · intro memory strictCapacityLimit highPriPoolRatio nonneg atMost
      obtain ⟨cache, isNew, sharded, each⟩ := newLRUCache_spec rounding hashOf few memory
        capacity strictCapacityLimit nonneg atMost
      exact ⟨cache, isNew, (splitsEvenly_iff few sharded.length each).mpr fits⟩
    · intro session reachable
      obtain ⟨cache, returns, sharded, each⟩ :=
        reachable.sharded.setCapacity rounding capacity
      exact ⟨_, congrArg (Option.map _) returns,
        (splitsEvenly_iff few sharded.length each).mpr fits⟩
    · intro session reachable hash
      exact reachable.sharded.getElem? (shardOf_lt few hash)
    · intro session reachable handle held
      have sharded := reachable.sharded
      obtain ⟨shard, entry, there, found, -, belongs, inTable, pinned⟩ := sharded.held held
      obtain ⟨inside, goes⟩ := sharded.release_eq rounding held
      refine ⟨shard, entry, there, found, belongs, inTable, pinned, fun counts => ?_, goes⟩
      rw [goes]
      exact sharded.onShard rounding inside (.release handle.address) (fun _ _ => held)
        (fun _ _ => counts) (by simp)

/-- A hundred, among the sixteen shards that are the default. -/
theorem preservesCapacity_iff_hundred :
    4 < 20 ∧
      (PreservesCapacity Rounding.exact (fun _ => 0) 4 100 ↔
        (100 : UInt64).toNat + 2 ^ 4 ≤ 2 ^ 64) :=
  ⟨by decide, preservesCapacity_iff Rounding.exact (fun _ => 0) 4 (by decide) 100⟩

/-- The largest capacity is no capacity: each of the sixteen shards has none. -/
theorem shards_without_capacity :
    (∃ cache, newLRUCache Rounding.exact (fun _ => (0, false, 0, 0)) 0xffffffffffffffff 4
        false 0 = some (some cache) ∧
      (∀ shard ∈ cache.shards, shard.capacity = 0) ∧
      ¬ SplitsEvenly 4 0xffffffffffffffff cache) ∧
    ¬ PreservesCapacity Rounding.exact (fun _ => 0) 4 0xffffffffffffffff := by
  obtain ⟨cache, isNew, sharded, each⟩ := newLRUCache_spec Rounding.exact (fun _ => 0)
    (show 4 < 20 by decide) (fun _ => (0, false, 0, 0)) 0xffffffffffffffff false
    le_rfl zero_le_one
  have none : perShard 0xffffffffffffffff 4 = 0 := by decide
  have uneven : ¬ SplitsEvenly 4 0xffffffffffffffff cache := by
    rw [splitsEvenly_iff (by decide) sharded.length each]
    decide
  refine ⟨⟨cache, isNew, fun shard isShard => (each shard isShard).trans none, uneven⟩, ?_⟩
  intro preserves
  obtain ⟨cache', isNew', even⟩ := preserves.constructed (fun _ => (0, false, 0, 0)) false 0
    le_rfl zero_le_one
  obtain rfl := Option.some.inj (Option.some.inj (isNew.symm.trans isNew'))
  exact uneven even

end ShardedCache
end Cache
end RocksUtil
