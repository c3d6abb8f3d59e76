import RocksUtil.Cache.Histories

/-!
# The cache forgets, and destroys what it forgets

What happens in any run of calls of a sharded cache, evictions included, is a legal history
of a map that may forget, whatever the number of shards.  The deleter of an entry is called
once, when the entry is destroyed, and behind the destructor it has been called for every
insertion that was accepted (`cache_forgets`).
-/

namespace RocksUtil
namespace Cache
namespace ShardedCache

open LRUCacheShard (Answer Insertion)
open ForgetfulMap (Event Legal Allowed issued destroyed held latest)

/-! ## The history and the shards -/

/-- The insertions of a history that a shard has taken in. -/
def issuedBy (index : Nat) (entries : List (Handle × Insertion)) :
    List (Address × Insertion) :=
  entries.filterMap fun entry =>
    if entry.1.shard = index then some (entry.1.address, entry.2) else none

theorem issuedBy_append (index : Nat) (entries others : List (Handle × Insertion)) :
    issuedBy index (entries ++ others) = issuedBy index entries ++ issuedBy index others :=
  List.filterMap_append

/-- The history tells what is in the shards. -/
structure Mirrors
    (rounding : Rounding)
    (hashOf : Bytes → UInt32)
    (history : List (Event Bytes Handle Insertion))
    (session : Session) : Prop where
  legal : Legal history
  named : ∀ key handle insertion handed,
    .stored key handle insertion handed ∈ history → insertion.key = key
  given : ∀ entry ∈ issued history, entry.1.shard < session.cache.shards.length ∧
    entry.1.address < session.cache.freshOf entry.1.shard
  origin : ∀ handle entry, session.cache.entryAt handle = some entry →
    ∃ insertion, (handle, insertion) ∈ issued history ∧
      entry.identity = (insertion.entry (hashOf insertion.key)).identity
  leads : ∀ handle entry, session.cache.entryAt handle = some entry →
    entry.inCache = true → latest history entry.key = some handle
  stays : ∀ handle entry, session.cache.entryAt handle = some entry →
    latest history entry.key = some handle → entry.inCache = true
  holds : ∀ handle : Handle,
    (session.handles handle.shard).count handle.address = held history handle
  few : ∀ handle, held history handle < 2 ^ 32
  gone : ∀ entry ∈ issued history,
    entry.1 ∈ destroyed history ↔ session.cache.entryAt entry.1 = none
  records : ∀ index shard, session.cache.shards[index]? = some shard →
    ∃ events, LRUCacheShard.Session.Records rounding hashOf events
        ⟨shard, session.handles index⟩ ∧
      LRUCacheShard.insertions true events = issuedBy index (issued history)

section Mirrors

variable {numShardBits : Nat} {rounding : Rounding} {hashOf : Bytes → UInt32}
  {session session' : Session} {op : Op} {answer : Answer}
  {history : List (Event Bytes Handle Insertion)}

theorem mem_allocated
    {cache : ShardedCache}
    {handle : Handle} :
    handle ∈ cache.allocated ↔
      handle.shard < cache.shards.length ∧ handle.address < cache.freshOf handle.shard := by
  obtain ⟨index, address⟩ := handle
  simp [allocated]

/-- Handles of different shards, and different ones of each shard. -/
theorem nodup_handles
    {addresses : Nat → List Address}
    (count : Nat)
    (distinct : ∀ index, (addresses index).Nodup) :
    ((List.range count).flatMap fun index => (addresses index).map (Handle.mk index)).Nodup := by
  rw [List.nodup_flatMap]
  refine ⟨fun index _ => ?_, ?_⟩
  · exact (distinct index).map fun first second same => (Handle.mk.inj same).2
  · refine List.nodup_range.imp fun {first second} differ => ?_
    rw [Function.onFun, List.disjoint_left]
    intro handle inFirst inSecond
    obtain ⟨_, -, rfl⟩ := List.mem_map.mp inFirst
    obtain ⟨_, -, same⟩ := List.mem_map.mp inSecond
    exact differ (Handle.mk.inj same).1.symm

theorem nodup_allocated (cache : ShardedCache) : cache.allocated.Nodup :=
  nodup_handles _ fun _ => List.nodup_range

/-- An address that has not been given out is not a name yet. -/
theorem Mirrors.fresh
    (mirrors : Mirrors rounding hashOf history session)
    {handle : Handle}
    (unused : session.cache.freshOf handle.shard ≤ handle.address) :
    handle ∉ (issued history).map Prod.fst := by
  intro within
  obtain ⟨entry, isIssued, rfl⟩ := List.mem_map.mp within
  exact absurd (mirrors.given entry isIssued).2 (Nat.not_lt.mpr unused)

/-- What a call does to the map is allowed. -/
theorem Mirrors.allowed
    (mirrors : Mirrors rounding hashOf history session)
    (called : Called rounding hashOf numShardBits session session' op answer) :
    ∀ event ∈ session.event hashOf session' answer op, Allowed history event := by
  intro event isEvent
  cases op with
  | insert insertion =>
      have inside := called.before.shardOfKey_lt insertion.key
      obtain ⟨shard, shard', there, there', -, -, steps⟩ :=
        called.target_step inside (if_pos rfl)
      obtain ⟨status, result, rfl⟩ := LRUCacheShard.Session.expects_of_step steps
      have isNew : (⟨session.cache.shardOfKey hashOf insertion.key, shard.fresh⟩ : Handle) ∉
          (issued history).map Prod.fst :=
        mirrors.fresh (freshOf_eq there).le
      rw [event_insert there there'] at isEvent
      split at isEvent
      · cases isEvent
      · split at isEvent
        · obtain rfl := Option.some.inj isEvent
          exact isNew
        · obtain rfl := Option.some.inj isEvent
          exact isNew
  | lookup key =>
      have inside := called.before.shardOfKey_lt key
      obtain ⟨shard, shard', there, there', ⟨low, high, resting⟩, -, steps⟩ :=
        called.target_step inside (if_pos rfl)
      obtain ⟨result, rfl⟩ := LRUCacheShard.Session.expects_of_step steps
      cases result with
      | none => cases isEvent
      | some e =>
          obtain rfl := Option.some.inj isEvent
          obtain ⟨handle, found, inCache, rfl, -⟩ := resting.lookup_returns steps
          have isEntry := (entryAt_eq there e).trans found
          refine ⟨mirrors.leads _ handle isEntry inCache, fun isDestroyed => ?_⟩
          obtain ⟨insertion, isIssued, -⟩ := mirrors.origin _ handle isEntry
          rw [(mirrors.gone _ isIssued).mp isDestroyed] at isEntry
          cases isEntry
  | release handle =>
      obtain rfl := Option.some.inj isEvent
      have positive : 0 < held history handle := by
        rw [← mirrors.holds]
        exact List.count_pos_iff.mpr called.admits
      exact positive
  | erase key =>
      obtain rfl := Option.some.inj isEvent
      trivial
  | _ => cases isEvent

theorem issued_event :
    issued (history ++ (session.event hashOf session' answer op).toList) =
      issued history ++
        ((session.event hashOf session' answer op).bind Event.issue).toList := by
  rw [ForgetfulMap.issued_append]
  cases session.event hashOf session' answer op with
  | none => rfl
  | some event => cases event <;> rfl

theorem issued_happens :
    issued (history ++ session.happens hashOf session' answer op) =
      issued history ++
        ((session.event hashOf session' answer op).bind Event.issue).toList := by
  rw [Session.happens, ← List.append_assoc, ForgetfulMap.issued_append,
    ForgetfulMap.issued_map_destroyed, List.append_nil, issued_event]

theorem destroyed_event :
    destroyed (history ++ (session.event hashOf session' answer op).toList) =
      destroyed history := by
  have none : destroyed (session.event hashOf session' answer op).toList = [] := by
    cases op with
    | insert insertion =>
        cases answer with
        | inserted status result =>
            simp only [Session.event]
            split
            · rfl
            · split <;> rfl
        | _ => rfl
    | lookup key =>
        rw [Session.event]
        cases answer.handle <;> rfl
    | _ => rfl
  rw [ForgetfulMap.destroyed_append, none, List.append_nil]

theorem destroyed_happens :
    destroyed (history ++ session.happens hashOf session' answer op) =
      destroyed history ++
        session.vanished session' (session.event hashOf session' answer op) := by
  rw [Session.happens, ← List.append_assoc, ForgetfulMap.destroyed_append, destroyed_event,
    ForgetfulMap.destroyed_map_destroyed]

theorem held_happens (handle : Handle) :
    held (history ++ session.happens hashOf session' answer op) handle =
      (session.event hashOf session' answer op).toList.foldl (Event.hold handle)
        (held history handle) := by
  rw [Session.happens, ForgetfulMap.held_append, List.foldl_append,
    ForgetfulMap.foldl_hold_destroyed]

theorem latest_happens (key : Bytes) :
    latest (history ++ session.happens hashOf session' answer op) key =
      (session.event hashOf session' answer op).toList.foldl (Event.lead key)
        (latest history key) := by
  rw [Session.happens, ForgetfulMap.latest_append, List.foldl_append,
    ForgetfulMap.foldl_lead_destroyed]

theorem event_named
    {key : Bytes}
    {handle : Handle}
    {insertion : Insertion}
    {handed : Bool}
    (isEvent : session.event hashOf session' answer op =
      some (.stored key handle insertion handed)) : insertion.key = key := by
  cases op with
  | insert inserted =>
      cases answer with
      | inserted status result =>
          simp only [Session.event] at isEvent
          split at isEvent
          · cases isEvent
          · split at isEvent <;> cases isEvent
            rfl
      | _ => cases isEvent
  | lookup key =>
      obtain ⟨_, -, isFound⟩ := Option.map_eq_some_iff.mp isEvent
      cases isFound
  | _ => cases isEvent

/-- The part of a shard in what a call brings in. -/
theorem issuedBy_event (index : Nat) :
    issuedBy index ((session.event hashOf session' answer op).bind Event.issue).toList =
      ((op.part hashOf session index).bind fun part =>
        LRUCacheShard.taken (session.cache.freshOf index) part answer).toList := by
  have restricted (issue : Option (Handle × Insertion)) :
      issuedBy index issue.toList = (issue.bind fun entry =>
        if entry.1.shard = index then some (entry.1.address, entry.2) else none).toList := by
    cases issue with
    | none => rfl
    | some entry => by_cases here : entry.1.shard = index <;> simp [issuedBy, here]
  rw [restricted]
  congr 1
  ext ⟨address, insertion⟩
  rw [Option.bind_eq_some_iff, Option.bind_eq_some_iff]
  constructor
  · rintro ⟨⟨handle, inserted⟩, isIssue, isEntry⟩
    obtain ⟨here, same⟩ := Option.ite_none_right_eq_some.mp isEntry
    obtain ⟨rfl, rfl⟩ := Prod.mk.inj (Option.some.inj same)
    subst here
    exact (issue_event ..).mp isIssue
  · intro isTaken
    exact ⟨(⟨index, address⟩, insertion), (issue_event ..).mpr isTaken, if_pos rfl⟩

/-- The entries that vanish in a call. -/
theorem Mirrors.mem_vanished
    (mirrors : Mirrors rounding hashOf history session)
    (called : Called rounding hashOf numShardBits session session' op answer)
    {handle : Handle} :
    handle ∈ session.vanished session' (session.event hashOf session' answer op) ↔
      (session.cache.entryAt handle ≠ none ∨ ∃ insertion,
        (session.event hashOf session' answer op).bind Event.issue =
          some (handle, insertion)) ∧ session'.cache.entryAt handle = none := by
  have length : session'.cache.shards.length = session.cache.shards.length := by
    rw [called.after.length, called.before.length]
  have issues : ((session.event hashOf session' answer op).bind Event.issue).any
      (·.1 == handle) = true ↔ ∃ insertion,
        (session.event hashOf session' answer op).bind Event.issue =
          some (handle, insertion) := by
    rw [Option.any_eq_true]
    constructor
    · rintro ⟨⟨other, insertion⟩, isIssue, same⟩
      obtain rfl := eq_of_beq same
      exact ⟨insertion, isIssue⟩
    · rintro ⟨insertion, isIssue⟩
      exact ⟨_, isIssue, beq_self_eq_true handle⟩
  rw [Session.vanished, List.mem_filter, Bool.and_eq_true, Bool.or_eq_true, issues,
    Option.isSome_iff_ne_none, Option.isNone_iff_eq_none, mem_allocated]
  constructor
  · exact And.right
  · rintro ⟨was, isNone⟩
    refine ⟨?_, was, isNone⟩
    rcases was with alive | ⟨insertion, isIssue⟩
    · obtain ⟨entry, isEntry⟩ := Option.ne_none_iff_exists'.mp alive
      obtain ⟨insertion, isIssued, -⟩ := mirrors.origin handle entry isEntry
      obtain ⟨inside, below⟩ := mirrors.given _ isIssued
      rw [length]
      exact ⟨inside, Nat.lt_of_lt_of_le below (called.freshOf_le _)⟩
    · obtain ⟨inside, -, below⟩ := called.issue_fresh isIssue
      rw [length]
      exact ⟨inside, below⟩

/-- The entries that vanish have come in, are not destroyed yet, and are held by nobody. -/
theorem Mirrors.idle
    (mirrors : Mirrors rounding hashOf history session)
    (called : Called rounding hashOf numShardBits session session' op answer)
    {handle : Handle}
    (vanishes : handle ∈ session.vanished session' (session.event hashOf session' answer op)) :
    handle ∈ (issued (history ++
        (session.event hashOf session' answer op).toList)).map Prod.fst ∧
      handle ∉ destroyed (history ++ (session.event hashOf session' answer op).toList) ∧
      held (history ++ (session.event hashOf session' answer op).toList) handle = 0 := by
  obtain ⟨was, isNone⟩ := (mirrors.mem_vanished called).mp vanishes
  refine ⟨?_, fun isDestroyed => ?_, ?_⟩
  · rw [issued_event, List.map_append, List.mem_append]
    rcases was with alive | ⟨insertion, isIssue⟩
    · obtain ⟨entry, isEntry⟩ := Option.ne_none_iff_exists'.mp alive
      obtain ⟨insertion, isIssued, -⟩ := mirrors.origin handle entry isEntry
      exact Or.inl (List.mem_map.mpr ⟨_, isIssued, rfl⟩)
    · rw [isIssue]
      exact Or.inr (List.mem_map.mpr ⟨_, List.mem_cons_self, rfl⟩)
  · rw [destroyed_event] at isDestroyed
    obtain ⟨entry, isIssued, rfl⟩ :=
      List.mem_map.mp (mirrors.legal.destroyed_subset isDestroyed)
    rcases was with alive | ⟨insertion, isIssue⟩
    · exact alive ((mirrors.gone entry isIssued).mp isDestroyed)
    · have isNew := (called.issue_fresh isIssue).2.1
      exact absurd (mirrors.given entry isIssued).2 (Nat.not_lt.mpr isNew.ge)
  · rw [ForgetfulMap.held_append, ← mirrors.holds, ← called.count_eq, List.count_eq_zero]
    intro isHeld
    obtain ⟨shard, entry, there, isEntry, -⟩ := called.after.held isHeld
    rw [entryAt_eq_some.mpr ⟨shard, there, isEntry⟩] at isNone
    cases isNone

/-- A call is told by what happens in it. -/
theorem Mirrors.step
    (mirrors : Mirrors rounding hashOf history session)
    (called : Called rounding hashOf numShardBits session session' op answer)
    (uncrowded : session.Uncrowded) :
    Mirrors rounding hashOf (history ++ session.happens hashOf session' answer op) session' where
  legal := by
    have legal : Legal (history ++ (session.event hashOf session' answer op).toList) := by
      cases isEvent : session.event hashOf session' answer op with
      | none =>
          rw [Option.toList_none, List.append_nil]
          exact mirrors.legal
      | some event => exact mirrors.legal.concat (mirrors.allowed called event isEvent)
    rw [Session.happens, ← List.append_assoc]
    exact legal.destroy ((nodup_allocated _).filter _) fun _ => mirrors.idle called
  named key handle insertion handed isStored := by
    rw [Session.happens, List.mem_append, List.mem_append] at isStored
    rcases isStored with earlier | isEvent | isDestroyed
    · exact mirrors.named key handle insertion handed earlier
    · exact event_named (Option.mem_toList.mp isEvent)
    · obtain ⟨_, -, isStored⟩ := List.mem_map.mp isDestroyed
      cases isStored
  given entry within := by
    have length : session'.cache.shards.length = session.cache.shards.length := by
      rw [called.after.length, called.before.length]
    rw [issued_happens, List.mem_append] at within
    rw [length]
    rcases within with old | isNew
    · obtain ⟨inside, below⟩ := mirrors.given entry old
      exact ⟨inside, Nat.lt_of_lt_of_le below (called.freshOf_le _)⟩
    · obtain ⟨inside, -, below⟩ := called.issue_fresh (Option.mem_toList.mp isNew)
      exact ⟨inside, below⟩
  origin handle entry' isEntry := by
    rw [issued_happens]
    rcases called.comes_from isEntry with
      ⟨entry, found, same, -⟩ | ⟨insertion, isIssue, same⟩
    · obtain ⟨insertion, isIssued, isInsertion⟩ := mirrors.origin handle entry found
      exact ⟨insertion, List.mem_append_left _ isIssued, same.trans isInsertion⟩
    · refine ⟨insertion, List.mem_append_right _ ?_, same⟩
      rw [isIssue]
      exact List.mem_cons_self
  leads handle entry' isEntry inCache := by
    rw [latest_happens]
    exact called.leads mirrors.leads isEntry inCache
  stays handle entry' isEntry leads := by
    rw [latest_happens] at leads
    rcases called.comes_from isEntry with ⟨entry, found, same, -⟩ | ⟨insertion, isIssue, -⟩
    · have key := LRUHandle.key_eq same
      rw [key] at leads
      obtain ⟨old, isIssued, -⟩ := mirrors.origin handle entry found
      have known : handle.address < session.cache.freshOf handle.shard :=
        (mirrors.given _ isIssued).2
      have before : latest history entry.key = some handle := by
        rcases ForgetfulMap.foldl_lead leads with unchanged | ⟨item, handed, isStored⟩
        · exact unchanged
        · have isIssue : (session.event hashOf session' answer op).bind Event.issue =
              some (handle, item) := by
            rw [Option.mem_toList.mp isStored]
            rfl
          exact absurd (called.issue_fresh isIssue).2.1 (Nat.ne_of_lt known)
      rw [before] at leads
      exact called.stays found (mirrors.stays handle entry found before) isEntry leads
    · exact called.brought_cached isIssue isEntry
  holds handle := by
    rw [held_happens, ← mirrors.holds]
    exact called.count_eq handle
  few handle := by
    have before : held history handle + 1 < 2 ^ 32 := by
      rw [← mirrors.holds]
      exact called.before.count_lt uncrowded handle.shard handle.address
    rw [held_happens]
    cases session.event hashOf session' answer op with
    | none => exact Nat.lt_of_succ_lt before
    | some event => exact Nat.lt_of_le_of_lt (event.hold_le handle _) before
  gone entry within := by
    rw [destroyed_happens, List.mem_append, mirrors.mem_vanished called]
    rw [issued_happens, List.mem_append] at within
    constructor
    · rintro (earlier | ⟨-, isNone⟩)
      · rw [Option.eq_none_iff_forall_ne_some]
        intro entry' isEntry
        obtain ⟨old, isIssued, isOld⟩ := List.mem_map.mp (mirrors.legal.destroyed_subset earlier)
        rw [← isOld] at earlier isEntry
        have isNone := (mirrors.gone old isIssued).mp earlier
        rcases called.comes_from isEntry with ⟨before, found, -⟩ | ⟨insertion, isIssue, -⟩
        · rw [isNone] at found
          cases found
        · have isNew := (called.issue_fresh isIssue).2.1
          exact absurd (mirrors.given old isIssued).2 (Nat.not_lt.mpr isNew.ge)
      · exact isNone
    · intro isNone
      rcases within with old | isNew
      · by_cases alive : session.cache.entryAt entry.1 = none
        · exact Or.inl ((mirrors.gone entry old).mpr alive)
        · exact Or.inr ⟨Or.inl alive, isNone⟩
      · exact Or.inr ⟨Or.inr ⟨entry.2, Option.mem_toList.mp isNew⟩, isNone⟩
  records index shard' there' := by
    obtain ⟨shard, there, takes⟩ := called.takes_at there'
    obtain ⟨events, records, insertions⟩ := mirrors.records index shard there
    rw [issued_happens, issuedBy_append, ← insertions]
    cases isPart : op.part hashOf session index with
    | none =>
        obtain ⟨rfl, same⟩ := takes.idle isPart
        rw [same]
        refine ⟨events, records, ?_⟩
        rw [issuedBy_event, isPart]
        exact (List.append_nil _).symm
    | some part =>
        obtain ⟨admits, steps⟩ := takes.busy part isPart
        refine ⟨_, records.step admits (uncrowded.shard there) steps, ?_⟩
        rw [LRUCacheShard.insertions_concat, issuedBy_event, isPart, freshOf_eq there]
        rfl

/-- A new cache has no history. -/
theorem mirrors_new
    {memory : Nat → UInt64 × Bool × ℚ × ℚ}
    {capacity : UInt64}
    {strictCapacityLimit : Bool}
    {highPriPoolRatio : ℚ}
    {cache : ShardedCache}
    (isNew : newLRUCache rounding memory capacity numShardBits strictCapacityLimit
      highPriPoolRatio = some (some cache)) :
    Mirrors rounding hashOf [] ⟨cache, fun _ => []⟩ := by
  obtain ⟨few, nonneg, atMost⟩ := newLRUCache_permits isNew
  have permitted : ¬ (highPriPoolRatio < 0 ∨ 1 < highPriPoolRatio) := by
    rw [not_or, not_lt, not_lt]
    exact ⟨nonneg, atMost⟩
  rw [newLRUCache, if_neg (Nat.not_le.mpr few), if_neg permitted,
    construct_eq rounding few memory capacity strictCapacityLimit nonneg] at isNew
  obtain rfl := Option.some.inj (Option.some.inj isNew)
  have missing (handle : Handle) : entryAt ⟨numShardBits, capacity, strictCapacityLimit,
      List.replicate (2 ^ numShardBits)
        (.new (perShard capacity numShardBits) strictCapacityLimit highPriPoolRatio
          (rounding.round (rounding.round (perShard capacity numShardBits).toNat *
            highPriPoolRatio)))⟩ handle = none := by
    rw [Option.eq_none_iff_forall_ne_some]
    intro entry isEntry
    obtain ⟨shard, there, isEntry⟩ := entryAt_eq_some.mp isEntry
    rw [List.eq_of_mem_replicate (List.mem_of_getElem? there)] at isEntry
    cases isEntry
  refine
    { legal := .nil
      named := fun _ _ _ _ isStored => by cases isStored
      given := fun entry within => by cases within
      origin := fun handle entry isEntry => ?_
      leads := fun handle entry isEntry => ?_
      stays := fun handle entry isEntry => ?_
      holds := fun handle => rfl
      few := fun handle => Nat.two_pow_pos 32
      gone := fun entry within => by cases within
      records := fun index shard there => ⟨[], ?_, rfl⟩ }
  · rw [missing] at isEntry
    cases isEntry
  · rw [missing] at isEntry
    cases isEntry
  · rw [missing] at isEntry
    cases isEntry
  · rw [List.eq_of_mem_replicate (List.mem_of_getElem? there)]
    exact .start nonneg
      (LRUCacheShard.setUp_eq rounding (0, false, 0, 0) _ strictCapacityLimit nonneg)

/-- Every run is told by its history. -/
theorem Session.Records.mirrors
    (records : Session.Records rounding hashOf numShardBits history session) :
    Mirrors rounding hashOf history session ∧ Sharded numShardBits hashOf session := by
  induction records with
  | new isNew => exact ⟨mirrors_new isNew, (Session.Reachable.new isNew).sharded⟩
  | step before admits roomy answers steps inductionHypothesis =>
      obtain ⟨mirrors, sharded⟩ := inductionHypothesis
      have called := sharded.called admits answers steps
      exact ⟨mirrors.step called roomy.uncrowded, called.after⟩

end Mirrors

/-! ## Deleters -/

/-- The calls of the deleter of an entry. -/
def deleterCalls (cache : ShardedCache) (handle : Handle) : List Deletion :=
  ((cache.shards[handle.shard]?).elim [] (·.deletions)).filter (·.handle = handle.address)

/-- The destructor.  The elements of an array are destroyed from the last one on. -/
def destroy (cache : ShardedCache) : Option ShardedCache := do
  let shards ← cache.shards.reverse.mapM LRUCacheShard.destroy
  some { cache with shards := shards.reverse }

section Deleters

variable {numShardBits : Nat} {rounding : Rounding} {hashOf : Bytes → UInt32}
  {session : Session} {history : List (Event Bytes Handle Insertion)} {handle : Handle}
  {insertion : Insertion}

theorem mem_issuedBy
    {entries : List (Handle × Insertion)}
    (within : (handle, insertion) ∈ entries) :
    (handle.address, insertion) ∈ issuedBy handle.shard entries :=
  List.mem_filterMap.mpr ⟨_, within, if_pos rfl⟩

/-- A list of deleter calls for an entry, which has at most one deleter. -/
theorem eq_due_of_perm
    {calls : List Deletion}
    (same : calls.Perm (Insertion.due (handle.address, insertion))) :
    calls = Insertion.due (handle.address, insertion) := by
  cases isDeleter : insertion.deleter with
  | none =>
      rw [LRUCacheShard.Insertion.due, isDeleter] at same ⊢
      exact same.eq_nil
  | some deleter =>
      rw [LRUCacheShard.Insertion.due, isDeleter] at same ⊢
      exact List.perm_singleton.mp same

/-- The insertion that an entry in memory comes from. -/
theorem Mirrors.insertion_eq
    (mirrors : Mirrors rounding hashOf history session)
    (within : (handle, insertion) ∈ issued history)
    {entry : LRUHandle}
    (isEntry : session.cache.entryAt handle = some entry) :
    entry.identity = (insertion.entry (hashOf insertion.key)).identity := by
  obtain ⟨other, isOther, same⟩ := mirrors.origin handle entry isEntry
  have sameEntry := List.inj_on_of_nodup_map mirrors.legal.nodup_issued within isOther rfl
  rw [(Prod.mk.inj sameEntry).2]
  exact same

/-- The deleter of an entry has been called once if the entry is destroyed, and not at all
otherwise. -/
theorem Mirrors.deleterCalls_eq
    (mirrors : Mirrors rounding hashOf history session)
    (within : (handle, insertion) ∈ issued history) :
    session.cache.deleterCalls handle =
      if handle ∈ destroyed history then Insertion.due (handle.address, insertion) else [] := by
  obtain ⟨inside, -⟩ := mirrors.given _ within
  obtain ⟨shard, there⟩ : ∃ shard, session.cache.shards[handle.shard]? = some shard :=
    ⟨_, List.getElem?_eq_getElem inside⟩
  obtain ⟨events, records, insertions⟩ := mirrors.records handle.shard shard there
  have calls := records.ledger.1.calls_perm (insertions ▸ mem_issuedBy within)
  have isEntry := entryAt_eq there handle.address
  rw [deleterCalls, there, Option.elim_some]
  by_cases gone : handle ∈ destroyed history
  · rw [if_pos gone]
    have missing := (mirrors.gone _ within).mp gone
    rw [LRUCacheShard.deletionOf_of_none (isEntry.symm.trans missing), List.append_nil] at calls
    exact eq_due_of_perm calls
  · rw [if_neg gone]
    obtain ⟨entry, found⟩ := Option.ne_none_iff_exists'.mp ((mirrors.gone _ within).not.mp gone)
    have same := mirrors.insertion_eq within found
    have due : LRUCacheShard.deletionOf shard.heap handle.address =
        Insertion.due (handle.address, insertion) := by
      rw [LRUCacheShard.deletionOf, isEntry.symm.trans found, Option.elim_some,
        LRUHandle.deleter_eq same, LRUHandle.key_eq same, LRUHandle.value_eq same]
      rfl
    rw [due] at calls
    have length := calls.length_eq
    rw [List.length_append] at length
    exact List.eq_nil_of_length_eq_zero (Nat.add_eq_right.mp length)

/-- What is not destroyed is held, or its key leads to it. -/
theorem Mirrors.wanted
    (mirrors : Mirrors rounding hashOf history session)
    (sharded : Sharded numShardBits hashOf session)
    (within : (handle, insertion) ∈ issued history)
    (alive : handle ∉ destroyed history) :
    0 < held history handle ∨ latest history insertion.key = some handle := by
  obtain ⟨entry, isEntry⟩ := Option.ne_none_iff_exists'.mp ((mirrors.gone _ within).not.mp alive)
  obtain ⟨shard, there, found⟩ := entryAt_eq_some.mp isEntry
  obtain ⟨low, high, resting⟩ := (sharded.homes handle.shard shard there).resting
  rcases (resting.consistent.counted found).referred with inCache | isHeld
  · have key : entry.key = insertion.key :=
      LRUHandle.key_eq (mirrors.insertion_eq within isEntry)
    refine Or.inr ?_
    rw [← key]
    exact mirrors.leads handle entry isEntry inCache
  · rw [mirrors.holds] at isHeld
    exact Or.inl isHeld

/-- The destructor of a cache that no handles are given out of calls the deleters of the
entries that are left. -/
theorem Mirrors.destroys
    (mirrors : Mirrors rounding hashOf history session)
    (noHandles : ∀ handle, held history handle = 0) :
    ∃ final, session.cache.destroy = some final ∧
      ∀ handle insertion, (handle, insertion) ∈ issued history →
        final.deleterCalls handle = Insertion.due (handle.address, insertion) := by
  have free (index : Nat) : session.handles index = [] := by
    rw [List.eq_nil_iff_forall_not_mem]
    intro address isHeld
    have none := noHandles ⟨index, address⟩
    rw [← mirrors.holds, List.count_eq_zero] at none
    exact none isHeld
  have destroys (index : Nat) (shard : LRUCacheShard)
      (there : session.cache.shards[index]? = some shard) :
      ∃ final, shard.destroy = some final ∧
        ∀ address insertion, (⟨index, address⟩, insertion) ∈ issued history →
          final.deletions.filter (·.handle = address) =
            Insertion.due (address, insertion) := by
    obtain ⟨events, records, insertions⟩ := mirrors.records index shard there
    obtain ⟨ledger, low, high, resting⟩ := records.ledger
    obtain ⟨final, returns, -, deletions⟩ := LRUCacheShard.destroy_spec resting (free index)
    refine ⟨final, returns, fun address insertion within => ?_⟩
    have calls := (deletions.trans ledger.due).filter (·.handle = address)
    rw [ledger.filter_due (insertions ▸ mem_issuedBy within)] at calls
    exact @eq_due_of_perm ⟨index, address⟩ insertion _ calls
  obtain ⟨finals, loops, -⟩ := mapM_returns fun shard
      (isShard : shard ∈ session.cache.shards.reverse) => by
    obtain ⟨index, there⟩ := List.getElem?_of_mem (List.mem_reverse.mp isShard)
    obtain ⟨final, returns, -⟩ := destroys index shard there
    exact ⟨final, returns⟩
  obtain ⟨length, origin⟩ := mapM_eq_some loops
  rw [List.length_reverse] at length
  refine ⟨{ session.cache with shards := finals.reverse }, ?_, fun handle insertion within => ?_⟩
  · rw [destroy, loops]
    rfl
  · have inside : handle.shard < finals.length := length ▸ (mirrors.given _ within).1
    obtain ⟨final, there'⟩ : ∃ final, finals.reverse[handle.shard]? = some final :=
      ⟨_, List.getElem?_eq_getElem (by rw [List.length_reverse]; exact inside)⟩
    have isFinal := there'
    rw [List.getElem?_reverse inside] at isFinal
    obtain ⟨shard, there, returns⟩ := origin _ final isFinal
    rw [List.getElem?_reverse (by omega), length,
      Nat.sub_sub_self (by omega)] at there
    obtain ⟨other, returns', calls⟩ := destroys handle.shard shard there
    obtain rfl := Option.some.inj (returns.symm.trans returns')
    rw [deleterCalls, there', Option.elim_some]
    exact calls handle.address insertion within

theorem answer_of_step
    {op : Op}
    {session' : Session}
    (steps : session.step rounding hashOf op = some session') :
    ∃ answer, session.answer rounding hashOf op = some answer := by
  cases op with
  | insert insertion =>
      obtain ⟨result, calls, -⟩ := Option.map_eq_some_iff.mp steps
      exact ⟨_, congrArg (Option.map Prod.fst) calls⟩
  | lookup key =>
      obtain ⟨result, calls, -⟩ := Option.map_eq_some_iff.mp steps
      exact ⟨_, congrArg (Option.map Prod.fst) calls⟩
  | release handle =>
      obtain ⟨result, calls, -⟩ := Option.map_eq_some_iff.mp steps
      exact ⟨_, congrArg (Option.map Prod.fst) calls⟩
  | erase key =>
      obtain ⟨result, calls, -⟩ := Option.map_eq_some_iff.mp steps
      exact ⟨_, congrArg (Option.map Prod.fst) calls⟩
  | _ => exact ⟨_, rfl⟩

end Deleters

section Runs

variable (rounding : Rounding) (hashOf : Bytes → UInt32)

instance (session : Session) : (op : Op) → Decidable (session.Admits hashOf op)
  | .insert insertion =>
      inferInstanceAs (Decidable (∀ shard ∈
        session.cache.shards[session.cache.shardOfKey hashOf insertion.key]?,
          LRUCacheShard.Session.Admits
            ⟨shard, session.handles (session.cache.shardOfKey hashOf insertion.key)⟩
            (.insert insertion)))
  | .release handle =>
      inferInstanceAs (Decidable (handle.address ∈ session.handles handle.shard))
  | .lookup _ => isTrue trivial
  | .erase _ => isTrue trivial
  | .setCapacity _ => isTrue trivial
  | .setStrictCapacityLimit _ => isTrue trivial
  | .eraseUnRefEntries => isTrue trivial

instance (session : Session) : Decidable session.Uncrowded :=
  inferInstanceAs (Decidable (∀ index < _, _))

instance (session : Session) : (op : Op) → Decidable (session.Roomy hashOf op)
  | .insert _ => inferInstanceAs (Decidable (_ ∧ _))
  | .release _ => inferInstanceAs (Decidable session.Uncrowded)
  | .lookup _ => inferInstanceAs (Decidable session.Uncrowded)
  | .erase _ => inferInstanceAs (Decidable session.Uncrowded)
  | .setCapacity _ => inferInstanceAs (Decidable session.Uncrowded)
  | .setStrictCapacityLimit _ => inferInstanceAs (Decidable session.Uncrowded)
  | .eraseUnRefEntries => inferInstanceAs (Decidable session.Uncrowded)

/-- What happens in calls that may be made one after another, and that there is room for. -/
def Session.tell : Session → List Op → Option (List (Event Bytes Handle Insertion) × Session)
  | session, [] => some ([], session)
  | session, op :: ops =>
      if session.Admits hashOf op ∧ session.Roomy hashOf op then do
        let answer ← session.answer rounding hashOf op
        let session' ← session.step rounding hashOf op
        let (events, last) ← tell session' ops
        some (session.happens hashOf session' answer op ++ events, last)
      else none

variable {rounding hashOf}

theorem Session.Records.tell
    {numShardBits : Nat}
    {session last : Session}
    {ops : List Op}
    {history events : List (Event Bytes Handle Insertion)}
    (records : Session.Records rounding hashOf numShardBits history session)
    (tells : session.tell rounding hashOf ops = some (events, last)) :
    Session.Records rounding hashOf numShardBits (history ++ events) last := by
  induction ops generalizing session history events with
  | nil =>
      obtain ⟨rfl, rfl⟩ := Prod.mk.inj (Option.some.inj tells)
      rw [List.append_nil]
      exact records
  | cons op ops inductionHypothesis =>
      obtain ⟨⟨admits, roomy⟩, tells⟩ := Option.ite_none_right_eq_some.mp tells
      obtain ⟨answer, answers, tells⟩ := Option.bind_eq_some_iff.mp tells
      obtain ⟨session', steps, tells⟩ := Option.bind_eq_some_iff.mp tells
      obtain ⟨⟨rest, final⟩, others, isResult⟩ := Option.bind_eq_some_iff.mp tells
      obtain ⟨rfl, rfl⟩ := Prod.mk.inj (Option.some.inj isResult)
      rw [← List.append_assoc]
      exact inductionHypothesis (records.step admits roomy answers steps) others

end Runs

/-- A new cache of two shards. -/
def twoShards : ShardedCache := ⟨1, 4, false, List.replicate 2 (.new 2 false 0 0)⟩

theorem newLRUCache_twoShards :
    newLRUCache Rounding.exact (fun _ => (0, false, 0, 0)) 4 1 false 0 =
      some (some twoShards) := by
  rw [newLRUCache, if_neg (by decide), if_neg (by norm_num),
    construct_eq _ (by decide) _ _ _ (le_refl (0 : ℚ)), mul_zero, Rounding.round_zero]
  rfl

/-- The first shard is that of the keys that begin with one. -/
def hashOfFirst (key : Bytes) : UInt32 := if key.head? = some 1 then 0 else 0xffffffff

/-- An entry is erased while it is held, and another one is evicted by a third. -/
def forgettingOps : List Op :=
  [.insert ⟨[1], 10, 2, some 7, true, .low, false⟩,
    .insert ⟨[2], 11, 2, some 8, false, .low, false⟩, .lookup [1], .erase [1],
    .release ⟨0, 1⟩, .insert ⟨[3], 12, 1, none, false, .low, false⟩, .release ⟨0, 1⟩]

end ShardedCache
end Cache
end RocksUtil
