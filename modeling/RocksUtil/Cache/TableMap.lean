import Mathlib.Data.Finmap
import RocksUtil.Cache.HandleMap

/-!
# The hash table as a finite map

`LRUHandleTable` against a finite map from keys to entries, over any sequence of
`Insert`, `Remove` and `Lookup` (`refines_map`).  The hashes may collide; all that is
asked of them is that equal keys have equal hashes.

The length and the number of entries are numbers of 32 bits in the source.  With at most
`2 ^ 31` entries none of them wraps: the length is at most `2 ^ 31` (`Refines`).
-/

namespace RocksUtil
namespace Cache
namespace LRUHandleTable

/-! ## Calls -/

/-- A call of the table.  An entry comes with what its memory is filled with. -/
inductive Request
  | insert (address : Address) (handle : LRUHandle)
  | remove (key : Bytes) (hash : UInt32)
  | lookup (key : Bytes) (hash : UInt32)

/-- The table and the memory of the entries. -/
structure Session where
  heap : Heap
  table : LRUHandleTable

/-- A call, with the entry that it returns. -/
def Session.call (session : Session) : Request → Option (Option Address × Session)
  | .insert address handle => do
      let heap := Function.update session.heap address (some handle)
      let (old, table) ← session.table.insert heap address
      some (old, ⟨heap, table⟩)
  | .remove key hash => do
      let (result, table) ← session.table.remove session.heap key hash
      some (result, ⟨session.heap, table⟩)
  | .lookup key hash => do
      let result ← session.table.lookup session.heap key hash
      some (result, session)

/-- Calls one after another, with what they return. -/
def Session.serve (session : Session) :
    List Request → Option (List (Option Address) × Session)
  | [] => some ([], session)
  | request :: requests => do
      let (result, session) ← session.call request
      let (results, session) ← session.serve requests
      some (result :: results, session)

/-! ## The finite map -/

/-- The entry stored for each key. -/
abbrev EntryMap := Finmap fun _ : Bytes => Address

/-- What a call does to the map, and returns. -/
def Request.answer (map : EntryMap) : Request → Option Address × EntryMap
  | .insert address handle => (map.lookup handle.key, map.insert handle.key address)
  | .remove key _ => (map.lookup key, map.erase key)
  | .lookup key _ => (map.lookup key, map)

/-- Calls one after another, with what they return. -/
def answers (map : EntryMap) : List Request → List (Option Address) × EntryMap
  | [] => ([], map)
  | request :: requests =>
      let first := request.answer map
      let rest := answers first.2 requests
      (first.1 :: rest.1, rest.2)

/-- A call with the hash of its key.  An entry that is inserted is not in the table, and
is at most the 2147483648th. -/
def Request.Proper (hashOf : Bytes → UInt32) (map : EntryMap) : Request → Prop
  | .insert address handle =>
      handle.hash = hashOf handle.key ∧ (∀ key, map.lookup key ≠ some address) ∧
        (map.insert handle.key address).keys.card ≤ 2 ^ 31
  | .remove key hash => hash = hashOf key
  | .lookup key hash => hash = hashOf key

/-- Proper calls. -/
def ProperRun (hashOf : Bytes → UInt32) (map : EntryMap) : List Request → Prop
  | [] => True
  | request :: requests =>
      request.Proper hashOf map ∧ ProperRun hashOf (request.answer map).2 requests

variable {hashOf : Bytes → UInt32} {heap : Heap} {table : LRUHandleTable}
  {members : Set Address} {map : EntryMap} {key : Bytes}

/-- The entries of the map are the members, under their keys. -/
def Maps (heap : Heap) (members : Set Address) (map : EntryMap) : Prop :=
  ∀ key address, map.lookup key = some address ↔
    address ∈ members ∧ ∃ handle, heap address = some handle ∧ handle.key = key

/-- The entry that is found is the one the map has. -/
theorem Maps.lookup_eq
    (maps : Maps heap members map)
    {result : Option Address}
    (finds : Finds heap members key result) : map.lookup key = result := by
  cases result with
  | none =>
      rw [Option.eq_none_iff_forall_ne_some]
      intro address stored
      obtain ⟨within, handle, found, isKey⟩ := (maps key address).mp stored
      exact finds address within handle found isKey
  | some address => exact (maps key address).mpr finds

theorem Maps.erase (maps : Maps heap members map) (key : Bytes) :
    Maps heap (without members (map.lookup key)) (map.erase key) := by
  intro other address
  by_cases same : other = key
  · rw [same, Finmap.lookup_erase]
    refine iff_of_false (nomatch ·) ?_
    rintro ⟨⟨within, kept⟩, isKey⟩
    exact kept ((maps key address).mpr ⟨within, isKey⟩).symm
  · rw [Finmap.lookup_erase_ne same, maps other address]
    refine and_congr_left fun isOther => ⟨fun within => ⟨within, ?_⟩, fun kept => kept.1⟩
    intro erased
    obtain ⟨handle, found, isKey⟩ := ((maps key address).mp erased.symm).2
    obtain ⟨handle', found', isOther⟩ := isOther
    obtain rfl := Option.some.inj (found.symm.trans found')
    exact same (isOther.symm.trans isKey)

theorem Maps.insert
    (maps : Maps heap members map)
    {address : Address}
    (isNew : address ∉ members)
    (handle : LRUHandle) :
    Maps (Function.update heap address (some handle))
      (displace members (map.lookup handle.key) address)
      (map.insert handle.key address) := by
  intro other address'
  by_cases here : address' = address
  · rw [here, Function.update_self]
    by_cases same : other = handle.key
    · rw [same, Finmap.lookup_insert]
      exact iff_of_true rfl ⟨.inl rfl, handle, rfl, rfl⟩
    · rw [Finmap.lookup_insert_of_ne _ same]
      refine iff_of_false (fun stored => isNew ((maps other address).mp stored).1) ?_
      rintro ⟨-, handle', found, isOther⟩
      obtain rfl := Option.some.inj found
      exact same isOther.symm
  · have member : address' ∈ displace members (map.lookup handle.key) address ↔
        address' ∈ without members (map.lookup handle.key) := or_iff_right here
    rw [member, Function.update_of_ne here]
    by_cases same : other = handle.key
    · rw [same, Finmap.lookup_insert]
      refine iff_of_false (fun equal => here (Option.some.inj equal).symm) ?_
      exact fun stored => nomatch (Finmap.lookup_erase handle.key map).symm.trans
        ((maps.erase handle.key handle.key address').mpr stored)
    · rw [Finmap.lookup_insert_of_ne _ same, ← Finmap.lookup_erase_ne same]
      exact maps.erase handle.key other address'

/-! ## Lengths -/

theorem le_of_isPowerOfTwo
    {length exponent : Nat}
    (powerOfTwo : length.isPowerOfTwo)
    (less : length < 2 ^ (exponent + 1)) : length ≤ 2 ^ exponent := by
  obtain ⟨own, rfl⟩ := powerOfTwo
  have least := (Nat.pow_lt_pow_iff_right (Nat.lt_succ_self 1)).mp less
  exact Nat.pow_le_pow_right Nat.two_pos (Nat.le_of_lt_succ least)

/-- Doubling stops at the first length that is not below three halves of the entries. -/
theorem doubleLength_lt
    {elems fuel length newLength : Nat}
    (doubled : doubleLength elems fuel length = some newLength) :
    newLength = length ∨ newLength < 3 * elems := by
  induction fuel generalizing length with
  | zero => nomatch doubled
  | succ fuel inductionHypothesis =>
      rw [doubleLength] at doubled
      split at doubled
      · rename_i short
        rcases inductionHypothesis doubled with rfl | less
        · right
          omega
        · exact .inr less
      · exact .inl (Option.some.inj doubled).symm

theorem length_resize
    {table' : LRUHandleTable}
    (resized : table.resize heap = some table') :
    table'.elems = table.elems ∧
      (table'.length = 16 ∨ table'.length < 3 * table.elems) := by
  simp only [resize, Option.bind_eq_bind, Option.bind_eq_some_iff] at resized
  obtain ⟨newLength, doubled, relinked, -, guarded, -, isTable⟩ := resized
  obtain rfl := Option.some.inj isTable
  exact ⟨rfl, doubleLength_lt doubled⟩

/-- `Insert` resizes the table when there are more entries than buckets. -/
theorem length_insert
    {address : Address}
    {old : Option Address}
    {table' : LRUHandleTable}
    (inserted : table.insert heap address = some (old, table')) :
    table'.length = table.length ∨
      table'.elems = table.elems + 1 ∧ table.length < table'.elems ∧
        (table'.length = 16 ∨ table'.length < 3 * table'.elems) := by
  simp only [insert, Option.bind_eq_bind, Option.bind_eq_some_iff] at inserted
  obtain ⟨handle, -, slot, -, inserted⟩ := inserted
  split at inserted
  · split at inserted
    · rename_i full
      obtain ⟨resized, isResized, same⟩ := Option.bind_eq_some_iff.mp inserted
      obtain ⟨-, rfl⟩ := Prod.mk.inj (Option.some.inj same)
      obtain ⟨elems, length⟩ := length_resize isResized
      right
      rw [elems]
      exact ⟨rfl, full, length⟩
    · obtain ⟨-, rfl⟩ := Prod.mk.inj (Option.some.inj inserted)
      exact .inl rfl
  · obtain ⟨-, rfl⟩ := Prod.mk.inj (Option.some.inj inserted)
    exact .inl rfl

theorem length_remove
    {hash : UInt32}
    {result : Option Address}
    {table' : LRUHandleTable}
    (removed : table.remove heap key hash = some (result, table')) :
    table'.length = table.length := by
  simp only [remove, Option.bind_eq_bind, Option.bind_eq_some_iff] at removed
  obtain ⟨slot, -, removed⟩ := removed
  split at removed <;>
  · obtain ⟨-, rfl⟩ := Prod.mk.inj (Option.some.inj removed)
    rfl

/-! ## What the table stores -/

/-- The table has the entries of the map, each in the bucket of its hash and once. -/
structure Tabulates
    (heap : Heap)
    (table : LRUHandleTable)
    (map : EntryMap)
    (chains : Nat → List Address) : Prop where
  powerOfTwo : table.length.isPowerOfTwo
  loaded : table.elems ≤ table.length
  counted : table.elems = map.keys.card
  linked : ∀ bucket,
    Chain.Linked table.buckets.next (table.buckets.head bucket) (chains bucket)
  once : ∀ key address, map.lookup key = some address → ∃ handle,
    heap address = some handle ∧ handle.key = key ∧
      ∀ bucket, (chains bucket).count address =
        if bucket = bucketOf table.length handle.hash then 1 else 0
  others : ∀ bucket, ∀ address ∈ chains bucket, ∃ key, map.lookup key = some address

/-- The keys of the map are those of the handles in the chains. -/
theorem Stores.card_keys
    {chains : Nat → List Address}
    (stores : Stores hashOf heap table chains)
    (membership : ∀ address, address ∈ members ↔ ∃ bucket, address ∈ chains bucket)
    (maps : Maps heap members map) :
    table.elems = map.keys.card := by
  have size : ((List.range table.length).flatMap chains).toFinset.card = table.elems := by
    rw [List.toFinset_card_of_nodup stores.nodup_flatMap, List.length_flatMap,
      stores.counted, Finset.sum_eq_multiset_sum, Finset.range_val, ← Multiset.coe_range,
      Multiset.map_coe, Multiset.sum_coe]
  have stored {address : Address} :
      address ∈ ((List.range table.length).flatMap chains).toFinset ↔ address ∈ members := by
    rw [List.mem_toFinset, stores.mem_flatMap, membership]
  rw [← size]
  refine Finset.card_bij (fun address _ => ((heap address).map LRUHandle.key).getD [])
    ?_ ?_ ?_
  · intro address within
    obtain ⟨bucket, inBucket⟩ := (membership address).mp (stored.mp within)
    obtain ⟨handle, found, -, -⟩ := stores.placed bucket address inBucket
    rw [found, Finmap.mem_keys]
    exact Finmap.mem_of_lookup_eq_some
      ((maps handle.key address).mpr ⟨stored.mp within, handle, found, rfl⟩)
  · intro address within address' within' sameKey
    obtain ⟨bucket, inBucket⟩ := (membership address).mp (stored.mp within)
    obtain ⟨bucket', inBucket'⟩ := (membership address').mp (stored.mp within')
    obtain ⟨handle, found, -, -⟩ := stores.placed bucket address inBucket
    obtain ⟨handle', found', -, -⟩ := stores.placed bucket' address' inBucket'
    rw [found, found'] at sameKey
    exact stores.unique bucket bucket' address inBucket address' inBucket' handle handle'
      found found' sameKey
  · intro key isKey
    obtain ⟨address, stored'⟩ := Finmap.mem_iff.mp (Finmap.mem_keys.mp isKey)
    obtain ⟨within, handle, found, sameKey⟩ := (maps key address).mp stored'
    refine ⟨address, stored.mpr within, ?_⟩
    rw [found]
    exact sameKey

theorem Represents.tabulates
    (represents : Represents hashOf heap table members)
    (maps : Maps heap members map) : ∃ chains, Tabulates heap table map chains := by
  obtain ⟨chains, stores, loaded, membership⟩ := represents
  refine ⟨chains, stores.powerOfTwo, loaded, stores.card_keys membership maps,
    stores.holds.linked, fun key address stored => ?_, fun bucket address inBucket => ?_⟩
  · obtain ⟨within, handle, found, isKey⟩ := (maps key address).mp stored
    obtain ⟨place, inPlace⟩ := (membership address).mp within
    obtain ⟨handle', found', -, isPlace⟩ := stores.placed place address inPlace
    obtain rfl := Option.some.inj (found.symm.trans found')
    refine ⟨handle, found, isKey, fun bucket => ?_⟩
    split
    · rename_i here
      rw [here, ← isPlace]
      exact List.count_eq_one_of_mem (stores.holds.distinct place) inPlace
    · rename_i elsewhere
      apply List.count_eq_zero_of_not_mem
      intro inBucket
      obtain ⟨handle', found', -, isBucket⟩ := stores.placed bucket address inBucket
      obtain rfl := Option.some.inj (found.symm.trans found')
      exact elsewhere isBucket
  · obtain ⟨handle, found, -, -⟩ := stores.placed bucket address inBucket
    exact ⟨handle.key, (maps handle.key address).mpr
      ⟨(membership address).mpr ⟨bucket, inBucket⟩, handle, found, rfl⟩⟩

/-! ## Visiting the entries -/

/-- `entries` are those of the map, and `ApplyToAllCacheEntries` visits them in this order,
each once. -/
structure Visits
    (table : LRUHandleTable)
    (map : EntryMap)
    (entries : List Address) : Prop where
  distinct : entries.Nodup
  stored : ∀ address, address ∈ entries ↔ ∃ key, map.lookup key = some address
  inTurn : ∀ (σ : Type) (heap : σ → Heap) (func : Address → σ → Option σ) (state : σ),
    applyToAllCacheEntries heap func table state = entries.foldlM (visit heap func) state

/-- The members are the entries of the map. -/
theorem Represents.mem_iff
    (represents : Represents hashOf heap table members)
    (maps : Maps heap members map)
    (address : Address) :
    address ∈ members ↔ ∃ key, map.lookup key = some address := by
  obtain ⟨chains, stores, -, membership⟩ := represents
  constructor
  · intro within
    obtain ⟨bucket, inBucket⟩ := (membership address).mp within
    obtain ⟨handle, found, -, -⟩ := stores.placed bucket address inBucket
    exact ⟨handle.key, (maps handle.key address).mpr ⟨within, handle, found, rfl⟩⟩
  · rintro ⟨key, stored⟩
    exact ((maps key address).mp stored).1

theorem Represents.visits
    (represents : Represents hashOf heap table members)
    (maps : Maps heap members map) : ∃ entries, Visits table map entries := by
  have isMember := represents.mem_iff maps
  obtain ⟨chains, stores, -, membership⟩ := represents
  refine ⟨_, stores.nodup_flatMap, fun address => ?_, fun σ heap func state =>
    stores.applyToAllCacheEntries_eq heap func state⟩
  rw [stores.mem_flatMap, ← membership, isMember]

/-! ## Runs -/

/-- The table refines the map, and its length has not left the numbers of 32 bits. -/
structure Refines
    (hashOf : Bytes → UInt32)
    (session : Session)
    (map : EntryMap) : Prop where
  stores : ∃ members, Represents hashOf session.heap session.table members ∧
    Maps session.heap members map
  inRange : session.table.length ≤ 2 ^ 31

theorem refines_new (hashOf : Bytes → UInt32) (heap : Heap) :
    Refines hashOf ⟨heap, new⟩ ∅ := by
  refine ⟨⟨∅, represents_new hashOf heap, fun key address => ?_⟩, (by decide : 16 ≤ 2 ^ 31)⟩
  rw [Finmap.lookup_empty]
  exact iff_of_false (nomatch ·) fun stored => stored.1

variable {session : Session}

/-- `Insert` of an entry that is not in the table. -/
theorem Refines.insert
    (refines : Refines hashOf session map)
    {address : Address}
    {handle : LRUHandle}
    (proper : (Request.insert address handle).Proper hashOf map) :
    ∃ session', session.call (.insert address handle) =
        some (map.lookup handle.key, session') ∧
      Refines hashOf session' (map.insert handle.key address) := by
  obtain ⟨hash, fresh, few⟩ := proper
  obtain ⟨members, represents, maps⟩ := refines.stores
  have isNew : address ∉ members := by
    intro within
    obtain ⟨key, stored⟩ := (represents.mem_iff maps address).mp within
    exact fresh key stored
  have same : ∀ other ∈ members,
      Function.update session.heap address (some handle) other = session.heap other :=
    fun other within => Function.update_of_ne (ne_of_mem_of_not_mem within isNew) _ _
  have unchanged : Represents hashOf (Function.update session.heap address (some handle))
      session.table members :=
    represents.congr fun other within handle' found =>
      ⟨handle', (same other within).trans found, rfl, rfl⟩
  obtain ⟨old, table', inserted, finds, represents'⟩ :=
    insert_spec unchanged (Function.update_self ..) hash isNew
  have maps' := maps.insert isNew handle
  have isOld : map.lookup handle.key = old := by
    apply maps.lookup_eq
    cases old with
    | none =>
        exact fun other within handle' found =>
          finds other within handle' ((same other within).trans found)
    | some other =>
        obtain ⟨within, handle', found, sameKey⟩ := finds
        exact ⟨within, handle', (same other within).symm.trans found, sameKey⟩
  rw [isOld] at maps' ⊢
  refine ⟨⟨Function.update session.heap address (some handle), table'⟩, by
    simp only [Session.call, inserted, Option.bind_eq_bind, Option.bind_some],
    ⟨_, represents', maps'⟩, ?_⟩
  obtain ⟨chains, tabulates⟩ := represents'.tabulates maps'
  obtain ⟨chains', tabulates'⟩ := represents.tabulates maps
  change table'.length ≤ 2 ^ 31
  have inRange := refines.inRange
  rcases length_insert inserted with same | ⟨elems, full, sixteen | less⟩
  · rw [same]
    exact inRange
  · rw [sixteen]
    decide
  · -- The old table was full, so its length is one less than a number up to 2 ^ 31.
    have counted := tabulates.counted
    have loaded := tabulates'.loaded
    have half : session.table.length ≤ 2 ^ 30 :=
      le_of_isPowerOfTwo tabulates'.powerOfTwo (by omega)
    exact le_of_isPowerOfTwo tabulates.powerOfTwo (by omega)

/-- A call returns what the map does. -/
theorem Refines.call
    (refines : Refines hashOf session map)
    {request : Request}
    (proper : request.Proper hashOf map) :
    ∃ session', session.call request = some ((request.answer map).1, session') ∧
      Refines hashOf session' (request.answer map).2 := by
  obtain ⟨members, represents, maps⟩ := refines.stores
  cases request with
  | insert address handle => exact refines.insert proper
  | remove key hash =>
      obtain rfl : hash = hashOf key := proper
      obtain ⟨result, table', removed, finds, represents'⟩ := remove_spec represents key
      have isResult := maps.lookup_eq finds
      have maps' := maps.erase key
      rw [isResult] at maps'
      refine ⟨⟨session.heap, table'⟩, ?_, ⟨_, represents', maps'⟩, ?_⟩
      · simp [Session.call, removed, Request.answer, isResult]
      · exact (length_remove removed).trans_le refines.inRange
  | lookup key hash =>
      obtain rfl : hash = hashOf key := proper
      obtain ⟨result, found, finds⟩ := lookup_spec represents key
      have isResult := maps.lookup_eq finds
      exact ⟨session, by simp [Session.call, found, Request.answer, isResult], refines⟩

theorem Refines.serve
    (requests : List Request)
    {session : Session}
    {map : EntryMap}
    (refines : Refines hashOf session map)
    (proper : ProperRun hashOf map requests) :
    ∃ session', session.serve requests = some ((answers map requests).1, session') ∧
      Refines hashOf session' (answers map requests).2 := by
  induction requests generalizing session map with
  | nil => exact ⟨session, rfl, refines⟩
  | cons request requests inductionHypothesis =>
      obtain ⟨middle, called, refines'⟩ := refines.call proper.1
      obtain ⟨session', served, last⟩ := inductionHypothesis refines' proper.2
      refine ⟨session', ?_, last⟩
      simp [Session.serve, called, served, answers]

/-- `Resize` keeps the map.  Its new length is a number of 32 bits if three halves of the
entries are at most `2 ^ 31`. -/
theorem Refines.resize
    (refines : Refines hashOf session map)
    (few : 3 * session.table.elems ≤ 2 ^ 32) :
    ∃ table', session.table.resize session.heap = some table' ∧
      Refines hashOf ⟨session.heap, table'⟩ map := by
  obtain ⟨members, ⟨chains, stores, -, membership⟩, maps⟩ := refines.stores
  obtain ⟨table', chains', resized, stores', loaded, same⟩ := resize_spec stores
  refine ⟨table', resized, ⟨members, ⟨chains', stores', loaded, fun address => ?_⟩, maps⟩,
    ?_⟩
  · rw [membership, same]
  · change table'.length ≤ 2 ^ 31
    rcases (length_resize resized).2 with sixteen | less
    · rw [sixteen]
      decide
    · exact le_of_isPowerOfTwo stores'.powerOfTwo (by omega)

/-- From the constructor on, any proper calls: they return what those of the map do, the
table has the entries of the map, each once and in the bucket of its hash, it does not
grow past `2 ^ 31` buckets, `ApplyToAllCacheEntries` visits each entry once, and a
`Resize` keeps the map. -/
theorem refines_map
    (hashOf : Bytes → UInt32)
    (heap : Heap)
    (requests : List Request)
    (proper : ProperRun hashOf ∅ requests) :
    let answered := answers ∅ requests
    ∃ session, (⟨heap, new⟩ : Session).serve requests = some (answered.1, session) ∧
      session.table.length ≤ 2 ^ 31 ∧
      (∃ chains, Tabulates session.heap session.table answered.2 chains) ∧
      (∃ entries, Visits session.table answered.2 entries) ∧
      (3 * session.table.elems ≤ 2 ^ 32 →
        ∃ table', session.table.resize session.heap = some table' ∧
          table'.length ≤ 2 ^ 31 ∧
          (∃ chains, Tabulates session.heap table' answered.2 chains) ∧
          ∀ key, table'.lookup session.heap key (hashOf key) =
            some (answered.2.lookup key)) := by
  intro answered
  obtain ⟨session, served, refines⟩ := (refines_new hashOf heap).serve requests proper
  obtain ⟨members, represents, maps⟩ := refines.stores
  refine ⟨session, served, refines.inRange, represents.tabulates maps,
    represents.visits maps, fun few => ?_⟩
  obtain ⟨table', resized, refines'⟩ := refines.resize few
  obtain ⟨members', represents', maps'⟩ := refines'.stores
  refine ⟨table', resized, refines'.inRange, represents'.tabulates maps', fun key => ?_⟩
  obtain ⟨result, found, finds⟩ := lookup_spec represents' key
  rw [found, ← maps'.lookup_eq finds]

/-- Two entries with the same hash. -/
theorem refines_map_two :
    ∃ session, (⟨fun _ => none, new⟩ : Session).serve
        [.insert 1 ⟨0, none, 1, [1], 1, true, false, false, 7⟩,
          .insert 2 ⟨0, none, 1, [2], 1, true, false, false, 7⟩, .lookup [1] 7] =
          some ([none, none, some 1], session) ∧
      ∃ chains, Tabulates session.heap session.table
        ((Finmap.insert [1] 1 (∅ : EntryMap)).insert [2] 2) chains := by
  have fresh (key : Bytes) : (Finmap.insert [1] 1 (∅ : EntryMap)).lookup key ≠ some 2 := by
    by_cases same : key = [1]
    · rw [same, Finmap.lookup_insert]
      decide
    · rw [Finmap.lookup_insert_of_ne _ same, Finmap.lookup_empty]
      exact nofun
  obtain ⟨session, served, -, tabulates, -⟩ := refines_map (fun _ => 7) (fun _ => none)
    [.insert 1 ⟨0, none, 1, [1], 1, true, false, false, 7⟩,
      .insert 2 ⟨0, none, 1, [2], 1, true, false, false, 7⟩, .lookup [1] 7]
    ⟨⟨rfl, nofun, by decide⟩, ⟨rfl, fresh, by decide⟩, rfl, trivial⟩
  exact ⟨session, served, tabulates⟩

end LRUHandleTable
end Cache
end RocksUtil
