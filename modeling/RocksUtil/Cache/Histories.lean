import RocksUtil.Cache.Effects
import RocksUtil.Cache.Sharding
import RocksUtil.Library.ForgetfulMap

/-!
# The history of a sharded cache

From outside, the shards are one map from keys to entries that may forget.  Each call does
something to this map, and each shard does its part of it: from what it does to the entries
of a shard and to the handles that are held follows what it does to those of the cache.
-/

namespace RocksUtil
namespace Cache
namespace ShardedCache

open LRUCacheShard (Answer Insertion Resting Advances)
open ForgetfulMap (Event Legal Allowed issued destroyed held latest)

/-! ## What happens in a call -/

/-- The entry that a handle points to. -/
def entryAt (cache : ShardedCache) (handle : Handle) : Option LRUHandle :=
  (cache.shards[handle.shard]?).bind (·.heap handle.address)

/-- The address that a shard gives out next. -/
def freshOf (cache : ShardedCache) (index : Nat) : Address :=
  (cache.shards[index]?).elim 0 (·.fresh)

/-- The handles that the shards have allocated so far. -/
def allocated (cache : ShardedCache) : List Handle :=
  (List.range cache.shards.length).flatMap fun index =>
    (List.range (cache.freshOf index)).map (⟨index, ·⟩)

section Steps

variable (rounding : Rounding) (hashOf : Bytes → UInt32)

/-- What a call returns. -/
def Session.answer (session : Session) : Op → Option Answer
  | .insert insertion =>
      (session.cache.insert rounding hashOf insertion).map Prod.fst
  | .lookup key => (session.cache.lookup rounding hashOf key).map Prod.fst
  | .release handle => (session.cache.release rounding hashOf handle).map Prod.fst
  | .erase key => (session.cache.erase rounding hashOf key).map Prod.fst
  | _ => some .done

/-- What a call does to the map. -/
def Session.event
    (session after : Session)
    (answer : Answer) : Op → Option (Event Bytes Handle Insertion)
  | .insert insertion =>
      let index := session.cache.shardOfKey hashOf insertion.key
      let handle : Handle := ⟨index, session.cache.freshOf index⟩
      match answer with
      | .inserted status result =>
          if !status.ok then none
          else if (after.cache.entryAt handle).isSome then
            some (.stored insertion.key handle insertion result.isSome)
          else some (.dropped insertion.key handle insertion)
      | _ => none
  | .lookup key =>
      answer.handle.map fun address =>
        .found key ⟨session.cache.shardOfKey hashOf key, address⟩
  | .release handle => some (.released handle)
  | .erase key => some (.erased key)
  | _ => none

/-- The entries that a call frees: they were there before it, or it has brought them in, and
they are not there behind it. -/
def Session.vanished
    (session after : Session)
    (event : Option (Event Bytes Handle Insertion)) : List Handle :=
  after.cache.allocated.filter fun handle =>
    ((session.cache.entryAt handle).isSome ||
      (event.bind Event.issue).any (·.1 == handle)) && (after.cache.entryAt handle).isNone

/-- What happens in a call: what it does to the map, and the entries that it frees. -/
def Session.happens
    (session after : Session)
    (answer : Answer)
    (op : Op) : List (Event Bytes Handle Insertion) :=
  let event := session.event hashOf after answer op
  event.toList ++ (session.vanished after event).map .destroyed

/-- What has happened since a cache was new, in calls that the counters had room for. -/
inductive Session.Records (numShardBits : Nat) :
    List (Event Bytes Handle Insertion) → Session → Prop
  | new
      {memory : Nat → UInt64 × Bool × ℚ × ℚ}
      {capacity : UInt64}
      {strictCapacityLimit : Bool}
      {highPriPoolRatio : ℚ}
      {cache : ShardedCache}
      (isNew : newLRUCache rounding memory capacity numShardBits strictCapacityLimit
        highPriPoolRatio = some (some cache)) :
      Records numShardBits [] ⟨cache, fun _ => []⟩
  | step
      {history : List (Event Bytes Handle Insertion)}
      {session session' : Session}
      {op : Op}
      {answer : Answer}
      (before : Records numShardBits history session)
      (admits : session.Admits hashOf op)
      (roomy : session.Roomy hashOf op)
      (answers : session.answer rounding hashOf op = some answer)
      (steps : session.step rounding hashOf op = some session') :
      Records numShardBits (history ++ session.happens hashOf session' answer op) session'

/-! ## One shard of a call -/

/-- What a call asks a shard to do. -/
def Op.part (session : Session) (index : Nat) : Op → Option LRUCacheShard.Op
  | .insert insertion =>
      if session.cache.shardOfKey hashOf insertion.key = index then
        some (.insert insertion)
      else none
  | .lookup key =>
      if session.cache.shardOfKey hashOf key = index then some (.lookup key) else none
  | .release handle =>
      if handle.shard = index then some (.release handle.address) else none
  | .erase key =>
      if session.cache.shardOfKey hashOf key = index then some (.erase key) else none
  | .setCapacity capacity =>
      some (.setCapacity (perShard capacity session.cache.numShardBits))
  | .setStrictCapacityLimit strictCapacityLimit =>
      some (.setStrictCapacityLimit strictCapacityLimit)
  | .eraseUnRefEntries => some .eraseUnRefEntries

/-- A shard does its part of a call. -/
structure Takes
    (session session' : Session)
    (op : Op)
    (answer : Answer)
    (index : Nat)
    (shard shard' : LRUCacheShard) : Prop where
  idle : op.part hashOf session index = none →
    shard' = shard ∧ session'.handles index = session.handles index
  busy : ∀ part, op.part hashOf session index = some part →
    LRUCacheShard.Session.Admits ⟨shard, session.handles index⟩ part ∧
      LRUCacheShard.Session.step rounding hashOf ⟨shard, session.handles index⟩ part =
        some (answer, ⟨shard', session'.handles index⟩)

end Steps

section Parts

variable {numShardBits : Nat} {rounding : Rounding} {hashOf : Bytes → UInt32}
  {session session' : Session} {op : Op} {answer : Answer} {index : Nat}
  {shard : LRUCacheShard}

/-- A loop that has returned. -/
theorem mapM_eq_some
    {α β : Type}
    {act : α → Option β}
    {shards : List α}
    {shards' : List β}
    (loops : shards.mapM act = some shards') :
    shards.length = shards'.length ∧ ∀ (index : Nat) (shard' : β),
      shards'[index]? = some shard' →
        ∃ shard, shards[index]? = some shard ∧ act shard = some shard' := by
  induction shards generalizing shards' with
  | nil =>
      rw [List.mapM_nil] at loops
      obtain rfl := Option.some.inj loops
      exact ⟨rfl, fun index shard' there => by cases there⟩
  | cons shard shards inductionHypothesis =>
      rw [List.mapM_cons] at loops
      obtain ⟨first, acts, rest⟩ := Option.bind_eq_some_iff.mp loops
      obtain ⟨others, otherLoops, isList⟩ := Option.bind_eq_some_iff.mp rest
      obtain rfl := Option.some.inj isList
      obtain ⟨length, origin⟩ := inductionHypothesis otherLoops
      refine ⟨congrArg Nat.succ length, fun index shard' there => ?_⟩
      cases index with
      | zero => exact ⟨shard, rfl, acts.trans there⟩
      | succ index => exact origin index shard' there

/-- A call of one shard. -/
theorem onShard_eq_some
    {cache cache' : ShardedCache}
    {part : LRUCacheShard.Op}
    (calls : cache.onShard rounding hashOf index part = some (answer, cache')) :
    ∃ shard shard', cache.shards[index]? = some shard ∧
      shard.call rounding hashOf part = some (answer, shard') ∧
      cache' = { cache with shards := cache.shards.set index shard' } := by
  obtain ⟨shard, there, rest⟩ := Option.bind_eq_some_iff.mp calls
  obtain ⟨⟨answer', shard'⟩, returns, isResult⟩ := Option.bind_eq_some_iff.mp rest
  obtain ⟨rfl, rfl⟩ := Prod.mk.inj (Option.some.inj isResult)
  exact ⟨shard, shard', there, returns, rfl⟩

/-- The shard that a call goes to, and the others. -/
theorem takes_onShard
    {target : Nat}
    {part : LRUCacheShard.Op}
    {cache' : ShardedCache}
    (asks : ∀ index, op.part hashOf session index = if target = index then some part else none)
    (admits : ∀ shard ∈ session.cache.shards[target]?,
      LRUCacheShard.Session.Admits ⟨shard, session.handles target⟩ part)
    (calls : session.cache.onShard rounding hashOf target part = some (answer, cache'))
    (there : session.cache.shards[index]? = some shard) :
    ∃ shard', cache'.shards[index]? = some shard' ∧
      Takes rounding hashOf session (session.account target part (answer, cache')) op answer
        index shard shard' := by
  obtain ⟨asked, asked', isThere, returns, rfl⟩ := onShard_eq_some calls
  by_cases here : target = index
  · subst here
    obtain rfl := Option.some.inj (there.symm.trans isThere)
    refine ⟨asked', ?_, ?_, fun other isPart => ?_⟩
    · exact List.getElem?_set_self (List.getElem?_eq_some_iff.mp there).1
    · intro isIdle
      rw [asks, if_pos rfl] at isIdle
      cases isIdle
    · rw [asks, if_pos rfl] at isPart
      obtain rfl := Option.some.inj isPart
      refine ⟨admits shard isThere, ?_⟩
      simp [LRUCacheShard.Session.step, returns, Session.account]
  · refine ⟨shard, ?_, fun _ => ⟨rfl, ?_⟩, fun other isPart => ?_⟩
    · exact (List.getElem?_set_ne here).trans there
    · exact Function.update_of_ne (Ne.symm here) _ _
    · rw [asks, if_neg here] at isPart
      cases isPart

/-- A loop over the shards, each of which is asked to do the same. -/
theorem takes_onEach
    {part : LRUCacheShard.Op}
    {act : LRUCacheShard → Option LRUCacheShard}
    {shards : List LRUCacheShard}
    {after : ShardedCache}
    (asks : ∀ index, op.part hashOf session index = some part)
    (admits : ∀ session : LRUCacheShard.Session, session.Admits part)
    (does : ∀ shard shard', act shard = some shard' →
      shard.call rounding hashOf part = some (.done, shard'))
    (returned : ∀ handles : List Address, part.returned handles = handles)
    (loops : session.cache.shards.mapM act = some shards)
    (isAfter : after.shards = shards)
    (there : session.cache.shards[index]? = some shard) :
    ∃ shard', after.shards[index]? = some shard' ∧
      Takes rounding hashOf session ⟨after, session.handles⟩ op .done index shard shard' := by
  obtain ⟨length, origin⟩ := mapM_eq_some loops
  obtain ⟨shard', isThere⟩ : ∃ shard', shards[index]? = some shard' :=
    ⟨_, List.getElem?_eq_getElem (length ▸ (List.getElem?_eq_some_iff.mp there).1)⟩
  obtain ⟨source, isSource, acts⟩ := origin index shard' isThere
  obtain rfl := Option.some.inj (there.symm.trans isSource)
  refine ⟨shard', isAfter ▸ isThere, fun isIdle => ?_, fun other isPart => ?_⟩
  · rw [asks] at isIdle
    cases isIdle
  · rw [asks] at isPart
    obtain rfl := Option.some.inj isPart
    refine ⟨admits _, ?_⟩
    simp [LRUCacheShard.Session.step, does shard shard' acts, Answer.handle, returned]

/-- Every shard does its part of a call. -/
theorem Sharded.takes
    (sharded : Sharded numShardBits hashOf session)
    (admits : session.Admits hashOf op)
    (answers : session.answer rounding hashOf op = some answer)
    (steps : session.step rounding hashOf op = some session')
    (there : session.cache.shards[index]? = some shard) :
    ∃ shard', session'.cache.shards[index]? = some shard' ∧
      Takes rounding hashOf session session' op answer index shard shard' := by
  cases op with
  | insert insertion =>
      obtain ⟨⟨answer', cache⟩, calls, rfl⟩ := Option.map_eq_some_iff.mp steps
      rw [Session.answer, calls] at answers
      obtain rfl := Option.some.inj answers
      exact takes_onShard (fun _ => rfl) admits calls there
  | lookup key =>
      obtain ⟨⟨answer', cache⟩, calls, rfl⟩ := Option.map_eq_some_iff.mp steps
      rw [Session.answer, calls] at answers
      obtain rfl := Option.some.inj answers
      exact takes_onShard (fun _ => rfl) (fun _ _ => trivial) calls there
  | release handle =>
      obtain ⟨⟨answer', cache⟩, calls, rfl⟩ := Option.map_eq_some_iff.mp steps
      rw [Session.answer, calls] at answers
      obtain rfl := Option.some.inj answers
      obtain ⟨-, goes⟩ := sharded.release_eq rounding admits
      rw [goes] at calls
      exact takes_onShard (fun _ => rfl) (fun _ _ => admits) calls there
  | erase key =>
      obtain ⟨⟨answer', cache⟩, calls, rfl⟩ := Option.map_eq_some_iff.mp steps
      rw [Session.answer, calls] at answers
      obtain rfl := Option.some.inj answers
      exact takes_onShard (fun _ => rfl) (fun _ _ => trivial) calls there
  | setCapacity capacity =>
      obtain ⟨cache, calls, rfl⟩ := Option.map_eq_some_iff.mp steps
      obtain ⟨shards, loops, isCache⟩ := Option.bind_eq_some_iff.mp calls
      obtain rfl := Option.some.inj isCache
      obtain rfl := Option.some.inj answers
      refine takes_onEach (fun _ => rfl) (fun _ => trivial) (fun shard shard' acts => ?_)
        (fun _ => rfl) loops rfl there
      rw [LRUCacheShard.call, acts]
      rfl
  | setStrictCapacityLimit strictCapacityLimit =>
      obtain rfl := Option.some.inj steps
      obtain rfl := Option.some.inj answers
      have loops := mapM_eq_map fun (shard : LRUCacheShard) (_ : shard ∈ session.cache.shards) =>
        Eq.refl (some (shard.setStrictCapacityLimit strictCapacityLimit))
      refine takes_onEach (fun _ => rfl) (fun _ => trivial) (fun shard shard' acts => ?_)
        (fun _ => rfl) loops rfl there
      rw [← Option.some.inj acts]
      rfl
  | eraseUnRefEntries =>
      obtain ⟨cache, calls, rfl⟩ := Option.map_eq_some_iff.mp steps
      obtain ⟨shards, loops, isCache⟩ := Option.bind_eq_some_iff.mp calls
      obtain rfl := Option.some.inj isCache
      obtain rfl := Option.some.inj answers
      refine takes_onEach (fun _ => rfl) (fun _ => trivial) (fun shard shard' acts => ?_)
        (fun _ => rfl) loops rfl there
      rw [LRUCacheShard.call, acts]
      rfl

/-- A shard that does something advances. -/
theorem Sharded.advances
    {part : LRUCacheShard.Op}
    {shard' : LRUCacheShard}
    (sharded : Sharded numShardBits hashOf session)
    (there : session.cache.shards[index]? = some shard)
    (takes : Takes rounding hashOf session session' op answer index shard shard')
    (isPart : op.part hashOf session index = some part) :
    ∃ low high freed, Resting hashOf ⟨shard, session.handles index⟩ low high ∧
      Advances rounding hashOf ⟨shard, session.handles index⟩ part answer
        ⟨shard', session'.handles index⟩ freed := by
  obtain ⟨admits, steps⟩ := takes.busy part isPart
  obtain ⟨low, high, resting⟩ := (sharded.homes index shard there).resting
  obtain ⟨freed, advances⟩ := resting.advances_of_step admits steps
  exact ⟨low, high, freed, resting, advances⟩

theorem entryAt_eq_some {cache : ShardedCache} {handle : Handle} {entry : LRUHandle} :
    cache.entryAt handle = some entry ↔
      ∃ shard, cache.shards[handle.shard]? = some shard ∧
        shard.heap handle.address = some entry :=
  Option.bind_eq_some_iff

theorem entryAt_eq
    {cache : ShardedCache}
    (there : cache.shards[index]? = some shard)
    (address : Address) :
    cache.entryAt ⟨index, address⟩ = shard.heap address := by
  rw [entryAt, there]
  rfl

theorem freshOf_eq
    {cache : ShardedCache}
    (there : cache.shards[index]? = some shard) :
    cache.freshOf index = shard.fresh := by
  rw [freshOf, there]
  rfl

theorem event_insert
    {insertion : Insertion}
    {shard' : LRUCacheShard}
    {status : Status}
    {result : Option Address}
    (there : session.cache.shards[session.cache.shardOfKey hashOf insertion.key]? = some shard)
    (there' : session'.cache.shards[session.cache.shardOfKey hashOf insertion.key]? =
      some shard') :
    session.event hashOf session' (.inserted status result) (.insert insertion) =
      if !status.ok then none
      else if (shard'.heap shard.fresh).isSome then
        some (.stored insertion.key
          ⟨session.cache.shardOfKey hashOf insertion.key, shard.fresh⟩ insertion result.isSome)
      else some (.dropped insertion.key
        ⟨session.cache.shardOfKey hashOf insertion.key, shard.fresh⟩ insertion) := by
  simp only [Session.event, freshOf_eq there, entryAt_eq there']

theorem issue_event_insert (after : Session) (answer : Answer) (insertion : Insertion) :
    (session.event hashOf after answer (.insert insertion)).bind Event.issue =
      (LRUCacheShard.taken
        (session.cache.freshOf (session.cache.shardOfKey hashOf insertion.key))
        (.insert insertion) answer).map fun entry =>
          (⟨session.cache.shardOfKey hashOf insertion.key, entry.1⟩, entry.2) := by
  cases answer with
  | inserted status result =>
      cases isOk : status.ok with
      | false => simp [Session.event, LRUCacheShard.taken, LRUCacheShard.Event.insertion, isOk]
      | true =>
          simp only [Session.event, isOk, Bool.not_true, Bool.false_eq_true, if_false]
          split <;> simp [Event.issue, LRUCacheShard.taken, LRUCacheShard.Event.insertion, isOk]
  | _ => rfl

/-- A shard is asked to insert what the call inserts, if the key belongs to it. -/
theorem Op.part_insert
    {insertion : Insertion}
    (isPart : op.part hashOf session index = some (.insert insertion)) :
    op = .insert insertion ∧ session.cache.shardOfKey hashOf insertion.key = index := by
  cases op with
  | insert inserted =>
      obtain ⟨here, isInsert⟩ := Option.ite_none_right_eq_some.mp isPart
      obtain rfl := LRUCacheShard.Op.insert.inj (Option.some.inj isInsert)
      exact ⟨rfl, here⟩
  | lookup key => cases (Option.ite_none_right_eq_some.mp isPart).2
  | release handle => cases (Option.ite_none_right_eq_some.mp isPart).2
  | erase key => cases (Option.ite_none_right_eq_some.mp isPart).2
  | _ => cases isPart

theorem Op.part_erase
    {key : Bytes}
    (isPart : op.part hashOf session index = some (.erase key)) :
    op = .erase key := by
  cases op with
  | erase erased =>
      have isErase := (Option.ite_none_right_eq_some.mp isPart).2
      rw [LRUCacheShard.Op.erase.inj (Option.some.inj isErase)]
  | insert insertion => cases (Option.ite_none_right_eq_some.mp isPart).2
  | lookup key => cases (Option.ite_none_right_eq_some.mp isPart).2
  | release handle => cases (Option.ite_none_right_eq_some.mp isPart).2
  | _ => cases isPart

/-- What a call brings in is what the shard has taken in that was asked to insert it. -/
theorem issue_event
    (after : Session)
    (answer : Answer)
    (op : Op)
    (handle : Handle)
    (insertion : Insertion) :
    (session.event hashOf after answer op).bind Event.issue = some (handle, insertion) ↔
      ∃ part, op.part hashOf session handle.shard = some part ∧
        LRUCacheShard.taken (session.cache.freshOf handle.shard) part answer =
          some (handle.address, insertion) := by
  obtain ⟨index, address⟩ := handle
  have elsewhere
      (none : (session.event hashOf after answer op).bind Event.issue = none)
      (other : ∀ inserted, op ≠ .insert inserted) :
      (session.event hashOf after answer op).bind Event.issue =
          some (⟨index, address⟩, insertion) ↔
        ∃ part, op.part hashOf session index = some part ∧
          LRUCacheShard.taken (session.cache.freshOf index) part answer =
            some (address, insertion) := by
    rw [none]
    constructor
    · intro isSome
      cases isSome
    · rintro ⟨part, isPart, isTaken⟩
      obtain ⟨-, rfl, -⟩ := LRUCacheShard.taken_eq_some isTaken
      exact absurd (Op.part_insert isPart).1 (other _)
  cases op with
  | insert inserted =>
      rw [issue_event_insert, Option.map_eq_some_iff]
      constructor
      · rintro ⟨⟨taken, other⟩, isTaken, isEntry⟩
        obtain ⟨isHandle, rfl⟩ := Prod.mk.inj isEntry
        obtain ⟨rfl, rfl⟩ := Handle.mk.inj isHandle
        exact ⟨_, if_pos rfl, isTaken⟩
      · rintro ⟨part, isPart, isTaken⟩
        obtain ⟨here, isInsert⟩ := Option.ite_none_right_eq_some.mp isPart
        obtain rfl := Option.some.inj isInsert
        exact ⟨_, here ▸ isTaken, by rw [here]⟩
  | lookup key =>
      refine elsewhere ?_ fun inserted isInsert => by cases isInsert
      rw [Session.event]
      cases answer.handle <;> rfl
  | _ => exact elsewhere rfl fun inserted isInsert => by cases isInsert

end Parts

/-! ## What a call does -/

/-- An entry that can be found for its key is in the shard of its key. -/
theorem Sharded.shardOfKey_eq
    {numShardBits : Nat}
    {hashOf : Bytes → UInt32}
    {session : Session}
    {handle : Handle}
    {entry : LRUHandle}
    (sharded : Sharded numShardBits hashOf session)
    (found : session.cache.entryAt handle = some entry)
    (inCache : entry.inCache = true) :
    session.cache.shardOfKey hashOf entry.key = handle.shard := by
  obtain ⟨shard, there, isEntry⟩ := entryAt_eq_some.mp found
  have home := sharded.homes handle.shard shard there
  obtain ⟨low, high, resting⟩ := home.resting
  have hash := resting.consistent.table.hash_eq isEntry
    ⟨entry, isEntry, Finset.notMem_empty _, inCache⟩
  rw [shardOfKey, ← hash, sharded.bits_eq]
  exact home.hashed handle.address entry isEntry

theorem count_given
    (target index : Nat)
    (e address : Address)
    (handles : List Address) :
    (if target = index then e :: handles else handles).count address =
      if (⟨target, e⟩ : Handle) = ⟨index, address⟩ then handles.count address + 1
      else handles.count address := by
  by_cases sameShard : target = index
  · by_cases sameAddress : e = address
    · simp [sameShard, sameAddress]
    · simp [sameShard, sameAddress, List.count_cons_of_ne]
  · simp [sameShard]

theorem count_taken
    (handle : Handle)
    (index : Nat)
    (address : Address)
    (handles : List Address) :
    (if handle.shard = index then handles.erase handle.address else handles).count address =
      if handle = ⟨index, address⟩ then handles.count address - 1
      else handles.count address := by
  obtain ⟨shard, e⟩ := handle
  by_cases sameShard : shard = index
  · by_cases sameAddress : e = address
    · simp [sameShard, sameAddress]
    · simp [sameShard, sameAddress, List.count_erase_of_ne (Ne.symm sameAddress)]
  · simp [sameShard]

/-- A call that every shard has done its part of. -/
structure Called
    (rounding : Rounding)
    (hashOf : Bytes → UInt32)
    (numShardBits : Nat)
    (session session' : Session)
    (op : Op)
    (answer : Answer) : Prop where
  before : Sharded numShardBits hashOf session
  admits : session.Admits hashOf op
  after : Sharded numShardBits hashOf session'
  takes : ∀ index shard, session.cache.shards[index]? = some shard →
    ∃ shard', session'.cache.shards[index]? = some shard' ∧
      Takes rounding hashOf session session' op answer index shard shard'

theorem Sharded.called
    {numShardBits : Nat}
    {rounding : Rounding}
    {hashOf : Bytes → UInt32}
    {session session' : Session}
    {op : Op}
    {answer : Answer}
    (sharded : Sharded numShardBits hashOf session)
    (admits : session.Admits hashOf op)
    (answers : session.answer rounding hashOf op = some answer)
    (steps : session.step rounding hashOf op = some session') :
    Called rounding hashOf numShardBits session session' op answer := by
  have after := sharded.of_step admits steps
  exact ⟨sharded, admits, after, fun _ _ there => sharded.takes admits answers steps there⟩

namespace Called

variable {numShardBits : Nat} {rounding : Rounding} {hashOf : Bytes → UInt32}
  {session session' : Session} {op : Op} {answer : Answer}
  (called : Called rounding hashOf numShardBits session session' op answer)

include called

theorem takes_at
    {index : Nat}
    {shard' : LRUCacheShard}
    (there' : session'.cache.shards[index]? = some shard') :
    ∃ shard, session.cache.shards[index]? = some shard ∧
      Takes rounding hashOf session session' op answer index shard shard' := by
  have inside := (List.getElem?_eq_some_iff.mp there').1
  rw [called.after.length] at inside
  obtain ⟨shard, there⟩ := called.before.getElem? inside
  obtain ⟨other, isThere, takes⟩ := called.takes index shard there
  obtain rfl := Option.some.inj (there'.symm.trans isThere)
  exact ⟨shard, there, takes⟩

/-- An entry behind a call was there before it, or is the one that it has brought in. -/
theorem comes_from
    {handle : Handle}
    {entry' : LRUHandle}
    (found' : session'.cache.entryAt handle = some entry') :
    (∃ entry, session.cache.entryAt handle = some entry ∧
        entry'.identity = entry.identity ∧ (entry'.inCache = true → entry.inCache = true)) ∨
      ∃ insertion, (session.event hashOf session' answer op).bind Event.issue =
          some (handle, insertion) ∧
        entry'.identity = (insertion.entry (hashOf insertion.key)).identity := by
  obtain ⟨shard', there', isEntry⟩ := entryAt_eq_some.mp found'
  obtain ⟨shard, there, takes⟩ := called.takes_at there'
  cases isPart : op.part hashOf session handle.shard with
  | none =>
      obtain ⟨rfl, -⟩ := takes.idle isPart
      exact Or.inl ⟨entry', entryAt_eq_some.mpr ⟨shard', there, isEntry⟩, rfl, id⟩
  | some part =>
      obtain ⟨_, _, _, -, advances⟩ := called.before.advances there takes isPart
      rcases advances.comes_from isEntry with
        ⟨entry, found, same, cached⟩ | ⟨insertion, isTaken, same⟩
      · exact Or.inl ⟨entry, entryAt_eq_some.mpr ⟨shard, there, found⟩, same, cached⟩
      · refine Or.inr ⟨insertion, (issue_event ..).mpr ⟨part, isPart, ?_⟩, same⟩
        rw [freshOf_eq there]
        exact isTaken

/-- Addresses are given out in order, in each shard. -/
theorem freshOf_le (index : Nat) :
    session.cache.freshOf index ≤ session'.cache.freshOf index := by
  cases there : session.cache.shards[index]? with
  | none =>
      rw [freshOf, there]
      exact Nat.zero_le _
  | some shard =>
      obtain ⟨shard', there', takes⟩ := called.takes index shard there
      rw [freshOf_eq there, freshOf_eq there']
      cases isPart : op.part hashOf session index with
      | none =>
          obtain ⟨rfl, -⟩ := takes.idle isPart
          exact Nat.le_refl _
      | some part =>
          obtain ⟨_, _, _, resting, advances⟩ := called.before.advances there takes isPart
          exact (advances.fresh_le resting).1

/-- The entry that a call brings in has the next address of its shard. -/
theorem issue_fresh
    {handle : Handle}
    {insertion : Insertion}
    (isIssue : (session.event hashOf session' answer op).bind Event.issue =
      some (handle, insertion)) :
    handle.shard < session.cache.shards.length ∧
      handle.address = session.cache.freshOf handle.shard ∧
      handle.address < session'.cache.freshOf handle.shard := by
  obtain ⟨part, isPart, isTaken⟩ := (issue_event ..).mp isIssue
  obtain ⟨-, rfl, -⟩ := LRUCacheShard.taken_eq_some isTaken
  have inside := called.before.shardOfKey_lt insertion.key
  rw [(Op.part_insert isPart).2] at inside
  obtain ⟨shard, there⟩ := called.before.getElem? inside
  obtain ⟨shard', there', takes⟩ := called.takes handle.shard shard there
  obtain ⟨_, _, _, resting, advances⟩ := called.before.advances there takes isPart
  rw [freshOf_eq there] at isTaken
  rw [freshOf_eq there, freshOf_eq there', called.before.length]
  exact ⟨inside, (advances.fresh_le resting).2 _ isTaken⟩

/-- What a call of one shard does to the handles that are held. -/
theorem handles_eq
    {target : Nat}
    {part : LRUCacheShard.Op}
    (inside : target < 2 ^ numShardBits)
    (asks : ∀ index, op.part hashOf session index = if target = index then some part else none)
    (index : Nat) :
    session'.handles index =
      if target = index then answer.handle.toList ++ part.returned (session.handles index)
      else session.handles index := by
  by_cases here : target = index
  · subst here
    obtain ⟨shard, there⟩ := called.before.getElem? inside
    obtain ⟨shard', there', takes⟩ := called.takes target shard there
    rw [if_pos rfl]
    exact LRUCacheShard.Session.handles_of_step
      (takes.busy part ((asks target).trans (if_pos rfl))).2
  · rw [if_neg here]
    by_cases within : index < 2 ^ numShardBits
    · obtain ⟨shard, there⟩ := called.before.getElem? within
      obtain ⟨shard', there', takes⟩ := called.takes index shard there
      exact (takes.idle ((asks index).trans (if_neg here))).2
    · rw [called.before.nowhere index (Nat.le_of_not_lt within),
        called.after.nowhere index (Nat.le_of_not_lt within)]

/-- The shard that a call goes to. -/
theorem target_step
    {target : Nat}
    {part : LRUCacheShard.Op}
    (inside : target < 2 ^ numShardBits)
    (asks : op.part hashOf session target = some part) :
    ∃ shard shard', session.cache.shards[target]? = some shard ∧
      session'.cache.shards[target]? = some shard' ∧
      (∃ low high, Resting hashOf ⟨shard, session.handles target⟩ low high) ∧
      LRUCacheShard.Session.Admits ⟨shard, session.handles target⟩ part ∧
      LRUCacheShard.Session.step rounding hashOf ⟨shard, session.handles target⟩ part =
        some (answer, ⟨shard', session'.handles target⟩) := by
  obtain ⟨shard, there⟩ := called.before.getElem? inside
  obtain ⟨shard', there', takes⟩ := called.takes target shard there
  obtain ⟨admits, steps⟩ := takes.busy part asks
  exact ⟨shard, shard', there, there', (called.before.homes target shard there).resting,
    admits, steps⟩

theorem handles_of_all
    {part : LRUCacheShard.Op}
    (asks : ∀ index, op.part hashOf session index = some part)
    (expects : ∀ answer, part.Expects answer → answer = .done)
    (returned : ∀ handles : List Address, part.returned handles = handles)
    (index : Nat) :
    session'.handles index = session.handles index := by
  by_cases within : index < 2 ^ numShardBits
  · obtain ⟨shard, shard', -, -, -, -, steps⟩ := called.target_step within (asks index)
    have handles := LRUCacheShard.Session.handles_of_step steps
    rw [expects answer (LRUCacheShard.Session.expects_of_step steps), returned] at handles
    exact handles
  · rw [called.before.nowhere index (Nat.le_of_not_lt within),
      called.after.nowhere index (Nat.le_of_not_lt within)]

/-- What a call does to the handles that are held. -/
theorem count_eq (handle : Handle) :
    (session'.handles handle.shard).count handle.address =
      (session.event hashOf session' answer op).toList.foldl (Event.hold handle)
        ((session.handles handle.shard).count handle.address) := by
  obtain ⟨index, address⟩ := handle
  cases op with
  | insert insertion =>
      have inside := called.before.shardOfKey_lt insertion.key
      obtain ⟨shard, shard', there, there', ⟨low, high, resting⟩, admits, steps⟩ :=
        called.target_step inside (if_pos rfl)
      obtain ⟨status, result, rfl⟩ := LRUCacheShard.Session.expects_of_step steps
      obtain ⟨handedOut, -⟩ := resting.insert_outcome admits steps
      rw [called.handles_eq inside (fun _ => rfl)]
      rw [event_insert there there']
      cases result with
      | none =>
          have kept : (if session.cache.shardOfKey hashOf insertion.key = index then
              (Answer.inserted status none).handle.toList ++
                (LRUCacheShard.Op.insert insertion).returned (session.handles index)
              else session.handles index) = session.handles index := by
            split <;> rfl
          rw [kept]
          split
          · rfl
          · split <;> simp [Event.hold]
      | some e =>
          obtain ⟨rfl, isOk, kept⟩ := handedOut e rfl
          simp only [isOk, kept, Bool.not_true, Bool.false_eq_true, if_false, if_true]
          refine (count_given ..).trans ?_
          simp [Event.hold, LRUCacheShard.Op.returned]
  | lookup key =>
      have inside := called.before.shardOfKey_lt key
      obtain ⟨_, _, -, -, -, -, steps⟩ := called.target_step inside (if_pos rfl)
      obtain ⟨result, rfl⟩ := LRUCacheShard.Session.expects_of_step steps
      rw [called.handles_eq inside (fun _ => rfl)]
      cases result with
      | none => split <;> rfl
      | some e => exact count_given ..
  | release handle =>
      have inside : handle.shard < 2 ^ numShardBits := by
        by_contra beyond
        have held : handle.address ∈ session.handles handle.shard := called.admits
        rw [called.before.nowhere _ (Nat.le_of_not_lt beyond)] at held
        cases held
      obtain ⟨_, _, -, -, -, -, steps⟩ := called.target_step inside (if_pos rfl)
      obtain rfl := LRUCacheShard.Session.expects_of_step steps
      rw [called.handles_eq inside (fun _ => rfl)]
      exact count_taken ..
  | erase key =>
      have inside := called.before.shardOfKey_lt key
      obtain ⟨_, _, -, -, -, -, steps⟩ := called.target_step inside (if_pos rfl)
      obtain rfl := LRUCacheShard.Session.expects_of_step steps
      rw [called.handles_eq inside (fun _ => rfl)]
      split <;> rfl
  | setCapacity capacity =>
      rw [called.handles_of_all (fun _ => rfl) (fun _ => id) fun _ => rfl]
      rfl
  | setStrictCapacityLimit strictCapacityLimit =>
      rw [called.handles_of_all (fun _ => rfl) (fun _ => id) fun _ => rfl]
      rfl
  | eraseUnRefEntries =>
      rw [called.handles_of_all (fun _ => rfl) (fun _ => id) fun _ => rfl]
      rfl

/-- Unless a call inserts, the entries behind it were there before. -/
theorem comes_from_before
    (other : ∀ insertion, op ≠ .insert insertion)
    {handle : Handle}
    {entry' : LRUHandle}
    (found' : session'.cache.entryAt handle = some entry') :
    ∃ entry, session.cache.entryAt handle = some entry ∧
      entry'.identity = entry.identity ∧ (entry'.inCache = true → entry.inCache = true) := by
  rcases called.comes_from found' with before | ⟨insertion, isIssue, -⟩
  · exact before
  · obtain ⟨part, isPart, isTaken⟩ := (issue_event ..).mp isIssue
    obtain ⟨-, rfl, -⟩ := LRUCacheShard.taken_eq_some isTaken
    exact absurd (Op.part_insert isPart).1 (other _)

/-- Where the keys of the entries lead that can be found behind a call. -/
theorem leads
    {leadsTo : Bytes → Option Handle}
    (before : ∀ handle entry, session.cache.entryAt handle = some entry →
      entry.inCache = true → leadsTo entry.key = some handle)
    {handle : Handle}
    {entry' : LRUHandle}
    (found' : session'.cache.entryAt handle = some entry')
    (inCache' : entry'.inCache = true) :
    (session.event hashOf session' answer op).toList.foldl (Event.lead entry'.key)
      (leadsTo entry'.key) = some handle := by
  have kept (old : ∃ entry, session.cache.entryAt handle = some entry ∧
      entry'.identity = entry.identity ∧ (entry'.inCache = true → entry.inCache = true)) :
      leadsTo entry'.key = some handle := by
    obtain ⟨entry, found, same, cached⟩ := old
    rw [LRUHandle.key_eq same]
    exact before handle entry found (cached inCache')
  have belongs := called.after.shardOfKey_eq found' inCache'
  rw [shardOfKey, called.after.bits_eq, ← called.before.bits_eq, ← shardOfKey] at belongs
  obtain ⟨shard'', there'', isEntry⟩ := entryAt_eq_some.mp found'
  cases op with
  | insert insertion =>
      have inside := called.before.shardOfKey_lt insertion.key
      obtain ⟨shard, shard', there, there', ⟨low, high, resting⟩, admits, steps⟩ :=
        called.target_step inside (if_pos rfl)
      obtain ⟨status, result, rfl⟩ := LRUCacheShard.Session.expects_of_step steps
      obtain ⟨-, unique⟩ := resting.insert_outcome admits steps
      have comes := called.comes_from found'
      rw [event_insert there there'] at comes ⊢
      cases isOk : status.ok with
      | false =>
          simp only [isOk, Bool.not_false, if_true] at comes ⊢
          rcases comes with old | ⟨inserted, isIssue, -⟩
          · exact kept old
          · cases isIssue
      | true =>
          simp only [isOk, Bool.not_true, Bool.false_eq_true, if_false] at comes ⊢
          by_cases stored : (shard'.heap shard.fresh).isSome
          · simp only [stored, if_true] at comes ⊢
            by_cases sameKey : insertion.key = entry'.key
            · have here := sameKey ▸ belongs
              rw [here] at there'
              obtain rfl := Option.some.inj (there''.symm.trans there')
              have isNew := unique isOk stored handle.address entry' isEntry inCache'
                sameKey.symm
              refine (if_pos sameKey).trans (congrArg some ?_)
              rw [here, ← isNew]
            · refine (if_neg sameKey).trans (kept ?_)
              rcases comes with old | ⟨inserted, isIssue, same⟩
              · exact old
              · obtain ⟨-, rfl⟩ := Prod.mk.inj (Option.some.inj isIssue)
                exact absurd (LRUHandle.key_eq same).symm sameKey
          · simp only [stored, Bool.false_eq_true, if_false] at comes ⊢
            rcases comes with old | ⟨inserted, isIssue, -⟩
            · exact kept old
            · obtain ⟨rfl, -⟩ := Prod.mk.inj (Option.some.inj isIssue)
              rw [entryAt_eq there'] at found'
              rw [found'] at stored
              exact absurd rfl stored
  | erase key =>
      have inside := called.before.shardOfKey_lt key
      obtain ⟨shard, shard', there, there', ⟨low, high, resting⟩, -, steps⟩ :=
        called.target_step inside (if_pos rfl)
      have differs : key ≠ entry'.key := by
        rintro rfl
        rw [belongs] at there' steps resting
        obtain rfl := Option.some.inj (there''.symm.trans there')
        exact resting.uncached_of_erase steps isEntry inCache' rfl
      refine Eq.trans ?_ (kept (called.comes_from_before (fun _ isInsert => by cases isInsert)
        found'))
      exact if_neg differs
  | lookup key =>
      refine Eq.trans ?_ (kept (called.comes_from_before (fun _ isInsert => by cases isInsert)
        found'))
      rw [Session.event]
      cases answer.handle <;> rfl
  | _ => exact kept (called.comes_from_before (fun _ isInsert => by cases isInsert) found')

/-- An entry that its key still leads to behind a call is still in the cache. -/
theorem stays
    {handle : Handle}
    {entry entry' : LRUHandle}
    (found : session.cache.entryAt handle = some entry)
    (inCache : entry.inCache = true)
    (found' : session'.cache.entryAt handle = some entry')
    (leads : (session.event hashOf session' answer op).toList.foldl (Event.lead entry.key)
      (some handle) = some handle) :
    entry'.inCache = true := by
  obtain ⟨shard', there', isEntry'⟩ := entryAt_eq_some.mp found'
  obtain ⟨shard, there, takes⟩ := called.takes_at there'
  have isEntry := (entryAt_eq there handle.address).symm.trans found
  cases isPart : op.part hashOf session handle.shard with
  | none =>
      obtain ⟨rfl, -⟩ := takes.idle isPart
      rwa [Option.some.inj (isEntry'.symm.trans isEntry)]
  | some part =>
      obtain ⟨admits, steps⟩ := takes.busy part isPart
      obtain ⟨low, high, resting⟩ := (called.before.homes handle.shard shard there).resting
      rcases resting.still_cached admits steps isEntry isEntry' inCache with
        inCache' | rfl | ⟨insertion, result, rfl, sameKey, rfl, isNew⟩
      · exact inCache'
      · obtain rfl := Op.part_erase isPart
        cases (if_pos rfl).symm.trans leads
      · obtain ⟨rfl, here⟩ := Op.part_insert isPart
        rw [← here] at there there'
        rw [event_insert there there', if_neg (by decide), if_pos isNew] at leads
        have isHandle := Option.some.inj ((if_pos sameKey).symm.trans leads)
        have unused : handle.address = shard.fresh := (congrArg Handle.address isHandle).symm
        exact absurd (unused ▸ resting.bounded isEntry) (Nat.lt_irrefl _)

/-- An entry that a call has brought in is in the cache, if it is there. -/
theorem brought_cached
    {handle : Handle}
    {insertion : Insertion}
    {entry' : LRUHandle}
    (isIssue : (session.event hashOf session' answer op).bind Event.issue =
      some (handle, insertion))
    (found' : session'.cache.entryAt handle = some entry') :
    entry'.inCache = true := by
  obtain ⟨part, isPart, isTaken⟩ := (issue_event ..).mp isIssue
  obtain ⟨shard', there', isEntry'⟩ := entryAt_eq_some.mp found'
  obtain ⟨shard, there, takes⟩ := called.takes_at there'
  obtain ⟨admits, steps⟩ := takes.busy part isPart
  obtain ⟨low, high, resting⟩ := (called.before.homes handle.shard shard there).resting
  rw [freshOf_eq there] at isTaken
  obtain ⟨isFresh, rfl, -⟩ := LRUCacheShard.taken_eq_some isTaken
  have isFresh : handle.address = shard.fresh := isFresh
  rw [isFresh] at isEntry'
  exact resting.kept_cached admits steps isEntry'

end Called

end ShardedCache
end Cache
end RocksUtil
