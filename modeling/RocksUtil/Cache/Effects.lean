import RocksUtil.Cache.Lifetimes
import RocksUtil.Cache.StaleReads

/-!
# What a call does to the entries

The entries behind a call of a shard: those that were there before, and the one that the
call has taken in.  Behind an insertion that is kept no other entry can be found for its
key, and behind `Erase` no entry at all.
-/

namespace RocksUtil
namespace Cache
namespace LRUCacheShard

variable {rounding : Rounding} {hashOf : Bytes → UInt32} {session session' : Session}
  {low high : List Address} {op : Op} {answer : Answer} {freed : List Address}
  {address : Address} {handle handle' : LRUHandle}

/-- The insertion that a call has taken in. -/
def taken (fresh : Address) (op : Op) (answer : Answer) : Option (Address × Insertion) :=
  Event.insertion ⟨fresh, op, answer⟩ true

theorem taken_eq_some
    {entry : Address × Insertion}
    (isTaken : taken address op answer = some entry) :
    entry.1 = address ∧ op = .insert entry.2 ∧
      ∃ status result, answer = .inserted status result ∧ status.ok = true := by
  cases op with
  | insert insertion =>
      cases answer with
      | inserted status result =>
          cases isOk : status.ok with
          | true =>
              simp only [taken, Event.insertion, isOk, if_true, Option.some.injEq] at isTaken
              subst isTaken
              exact ⟨rfl, rfl, status, result, rfl, isOk⟩
          | false => simp [taken, Event.insertion, isOk] at isTaken
      | found result => cases isTaken
      | done => cases isTaken
  | _ => cases isTaken

/-- An entry is there before a call, or is the one that the call allocates. -/
theorem heap_prepare_taken
    {shard : LRUCacheShard}
    (found : (prepare hashOf shard op answer).heap address = some handle) :
    shard.heap address = some handle ∨
      ∃ insertion, taken shard.fresh op answer = some (address, insertion) ∧
        handle = insertion.entry (hashOf insertion.key) := by
  cases op with
  | insert insertion =>
      cases answer with
      | inserted status result =>
          cases isOk : status.ok with
          | true =>
              simp only [prepare, isOk, if_true] at found
              by_cases isNew : address = shard.fresh
              · subst isNew
                rw [heap_allocate_fresh] at found
                refine Or.inr ⟨insertion, ?_, (Option.some.inj found).symm⟩
                simp [taken, Event.insertion, isOk]
              · rw [heap_allocate_of_ne isNew] at found
                exact Or.inl found
          | false =>
              simp only [prepare, isOk] at found
              exact Or.inl found
      | found result => exact Or.inl found
      | done => exact Or.inl found
  | _ => exact Or.inl found

/-- An entry behind a call was there before it, or is what the call has taken in. -/
theorem Advances.comes_from
    (advances : Advances rounding hashOf session op answer session' freed)
    (found' : session'.shard.heap address = some handle') :
    (∃ handle, session.shard.heap address = some handle ∧
        handle'.identity = handle.identity ∧
        (handle'.inCache = true → handle.inCache = true)) ∨
      ∃ insertion, taken session.shard.fresh op answer = some (address, insertion) ∧
        handle'.identity = (insertion.entry (hashOf insertion.key)).identity := by
  obtain ⟨handle, found, same, cached⟩ := advances.heap_before found'
  rcases heap_prepare_taken found with before | ⟨insertion, isTaken, rfl⟩
  · exact Or.inl ⟨handle, before, same, cached⟩
  · exact Or.inr ⟨insertion, isTaken, same⟩

theorem Resting.bounded
    (resting : Resting hashOf session low high)
    (found : session.shard.heap address = some handle) :
    address < session.shard.fresh :=
  (resting.consistent.accounts.bounded address handle found).2

/-- Addresses are given out in order. -/
theorem Advances.fresh_le
    (advances : Advances rounding hashOf session op answer session' freed)
    (resting : Resting hashOf session low high) :
    session.shard.fresh ≤ session'.shard.fresh ∧
      ∀ entry ∈ taken session.shard.fresh op answer,
        entry.1 = session.shard.fresh ∧ entry.1 < session'.shard.fresh := by
  have prepared := prepares hashOf (fun _ _ => resting.bounded) op answer
  rw [advances.settles.fresh]
  refine ⟨prepared.fresh, fun entry isTaken => ?_⟩
  obtain ⟨isFresh, below⟩ := prepared.insertion true entry isTaken
  exact ⟨isFresh, isFresh ▸ below⟩

/-- The kind of answer that a call has. -/
def Op.Expects : Op → Answer → Prop
  | .insert _, answer => ∃ status result, answer = .inserted status result
  | .lookup _, answer => ∃ result, answer = .found result
  | _, answer => answer = .done

theorem Session.expects_of_step
    (steps : session.step rounding hashOf op = some (answer, session')) :
    op.Expects answer := by
  obtain ⟨⟨answer', shard⟩, calls, isStep⟩ := Option.bind_eq_some_iff.mp steps
  obtain rfl := (Prod.mk.inj (Option.some.inj isStep)).1
  cases op with
  | setStrictCapacityLimit strict => exact (Prod.mk.inj (Option.some.inj calls)).1.symm
  | insert insertion =>
      obtain ⟨result, -, isResult⟩ := Option.bind_eq_some_iff.mp calls
      exact ⟨_, _, (Prod.mk.inj (Option.some.inj isResult)).1.symm⟩
  | lookup key =>
      obtain ⟨result, -, isResult⟩ := Option.bind_eq_some_iff.mp calls
      exact ⟨_, (Prod.mk.inj (Option.some.inj isResult)).1.symm⟩
  | _ =>
      obtain ⟨result, -, isResult⟩ := Option.bind_eq_some_iff.mp calls
      exact (Prod.mk.inj (Option.some.inj isResult)).1.symm

/-- What a call that returns leaves behind. -/
theorem Session.step_of_run
    (answer' : Answer)
    (shard : LRUCacheShard)
    (run : session.shard.call rounding hashOf op = some (answer', shard))
    (steps : session.step rounding hashOf op = some (answer, session')) :
    answer = answer' ∧ session'.shard = shard := by
  rw [Session.step_eq run] at steps
  obtain ⟨rfl, rfl⟩ := Prod.mk.inj (Option.some.inj steps)
  exact ⟨rfl, rfl⟩

/-! ## Insertions -/

/-- A handle that `Insert` gives out is that of the entry it has taken in.  If that entry
is kept, then no other entry can be found for its key. -/
theorem Resting.insert_outcome
    {insertion : Insertion}
    {status : Status}
    {result : Option Address}
    (resting : Resting hashOf session low high)
    (admits : session.Admits (.insert insertion))
    (steps : session.step rounding hashOf (.insert insertion) =
      some (.inserted status result, session')) :
    (∀ e ∈ result, e = session.shard.fresh ∧ status.ok = true ∧
        (session'.shard.heap session.shard.fresh).isSome = true) ∧
      (status.ok = true → (session'.shard.heap session.shard.fresh).isSome = true →
        ∀ address handle, session'.shard.heap address = some handle →
          handle.inCache = true → handle.key = insertion.key →
            address = session.shard.fresh) := by
  have room := resting.room admits
  by_cases turnedAway : TurnedAway session.shard insertion
  · cases handle : insertion.handle with
    | false =>
        obtain ⟨shard, run, -, settles, -⟩ :=
          insert_dropped rounding resting.consistent room turnedAway handle
        obtain ⟨isAnswer, rfl⟩ := Session.step_of_run (.inserted .OK none) shard
          (by simp [call, run]) steps
        obtain ⟨-, rfl⟩ := Answer.inserted.inj isAnswer
        refine ⟨fun _ isResult => (by cases isResult), fun _ kept => ?_⟩
        rw [(settles.released _ (by simp)).1] at kept
        cases kept
    | true =>
        obtain ⟨shard, run, -⟩ :=
          insert_rejected rounding resting.consistent room turnedAway handle
        obtain ⟨isAnswer, rfl⟩ := Session.step_of_run
          (.inserted (.Incomplete "Insert failed due to LRU cache being full.") none) shard
          (by simp [call, run]) steps
        obtain ⟨rfl, rfl⟩ := Answer.inserted.inj isAnswer
        exact ⟨fun _ isResult => (by cases isResult), fun isOk => (by cases isOk)⟩
  · obtain ⟨evicted, old, shard, low', high', run, consistent, -, -, -, ⟨flag, new⟩, -⟩ :=
      insert_accepted rounding resting.consistent room turnedAway
        ((resting.counts_of_step admits steps).resolve_left turnedAway)
    obtain ⟨isAnswer, rfl⟩ := Session.step_of_run
      (.inserted .OK (if insertion.handle then some session.shard.fresh else none)) shard
      (by simp [call, run]) steps
    obtain ⟨rfl, rfl⟩ := Answer.inserted.inj isAnswer
    constructor
    · intro e isResult
      have isNew : e = session.shard.fresh := by
        cases handle : insertion.handle with
        | false => simp [handle] at isResult
        | true => simpa [handle, eq_comm] using isResult
      exact ⟨isNew, rfl, by rw [new]; rfl⟩
    · intro _ _ address handle found inCache sameKey
      exact consistent.unique found inCache new rfl sameKey

/-! ## Erasing -/

/-- Behind `Erase` no entry can be found for the key. -/
theorem Resting.uncached_of_erase
    {key : Bytes}
    (resting : Resting hashOf session low high)
    (steps : session.step rounding hashOf (.erase key) = some (answer, session'))
    (found' : session'.shard.heap address = some handle')
    (inCache' : handle'.inCache = true) :
    handle'.key ≠ key := by
  have consistent := resting.consistent
  have admits : session.Admits (.erase key) := trivial
  have counts := resting.counts_of_step admits steps
  intro sameKey
  obtain ⟨e, handle, found, inCache, rfl⟩ | missing :=
    cached_or_finds_none session.shard.heap key
  · by_cases held : e ∈ session.handles
    · obtain ⟨shard, run, -, -, -, heap⟩ := erase_pinned consistent found inCache held
        (counts e handle found inCache rfl)
      obtain ⟨-, rfl⟩ := Session.step_of_run .done shard (by simp [call, run]) steps
      rw [heap] at found'
      by_cases here : address = e
      · rw [here, Function.update_self, Option.some.injEq] at found'
        rw [← found'] at inCache'
        cases inCache'
      · rw [Function.update_of_ne here] at found'
        exact here (consistent.unique found' inCache' found inCache sameKey)
    · obtain ⟨shard, low', high', run, -, -, -, settles, -, others⟩ :=
        erase_unpinned consistent found inCache held
      obtain ⟨-, rfl⟩ := Session.step_of_run .done shard (by simp [call, run]) steps
      have elsewhere : address ≠ e := by
        rintro rfl
        rw [(settles.released _ List.mem_cons_self).1] at found'
        cases found'
      rw [others address elsewhere] at found'
      exact elsewhere (consistent.unique found' inCache' found inCache sameKey)
  · obtain ⟨table, run, -⟩ := erase_missing consistent missing
    obtain ⟨-, same⟩ := Session.step_of_run .done
      { session.shard with table := table } (by simp [call, run]) steps
    rw [same] at found'
    exact missing address ⟨handle', found', by simp, inCache'⟩ handle' found' sameKey

/-! ## Entries that stay in the cache -/

/-- A call that frees some entries leaves the others in the cache. -/
theorem inCache_of_freed
    {heap heap' : Heap}
    {freed : List Address}
    (released : ∀ address ∈ freed, heap' address = none)
    (others : address ∉ freed → heap' address = heap address)
    (found : heap address = some handle)
    (found' : heap' address = some handle') : handle'.inCache = handle.inCache := by
  have kept : address ∉ freed := by
    intro isFreed
    rw [released address isFreed] at found'
    cases found'
  rw [others kept, found] at found'
  rw [Option.some.inj found']

/-- The references to an entry do not say whether it is in the cache. -/
theorem inCache_of_update
    {heap heap' : Heap}
    {e : Address}
    {held : LRUHandle}
    (held' : LRUHandle)
    (isHeld : heap e = some held)
    (same : held'.inCache = held.inCache)
    (reflags : Reflags (Function.update heap e (some held')) heap')
    (found : heap address = some handle)
    (found' : heap' address = some handle') : handle'.inCache = handle.inCache := by
  by_cases here : address = e
  · subst here
    obtain ⟨flag, after⟩ := reflags.of_update_self
    obtain rfl := Option.some.inj (found.symm.trans isHeld)
    rw [← Option.some.inj (after.symm.trans found')]
    exact same
  · obtain ⟨flag, before⟩ := reflags.of_update here found'
    rw [Option.some.inj (found.symm.trans before)]

/-- `Release` takes entries out of the cache only by freeing them. -/
theorem Resting.inCache_of_release
    {e : Address}
    (resting : Resting hashOf session low high)
    (held : e ∈ session.handles)
    (steps : session.step rounding hashOf (.release e) = some (answer, session'))
    (found : session.shard.heap address = some handle)
    (found' : session'.shard.heap address = some handle') :
    handle'.inCache = handle.inCache := by
  have after {shard : LRUCacheShard} (run : session.shard.release rounding e = some shard) :
      session'.shard = shard := by
    exact (Session.step_of_run .done shard (by simp [call, run]) steps).2
  obtain ⟨-, entry, isEntry⟩ := resting.consistent.accounts.held e held
  have admits : session.Admits (.release e) := held
  have few : session.handles.count e + 1 < 2 ^ 32 := resting.counts_of_step admits steps
  have heldCount := List.count_pos_iff.mpr held
  have freed {shard : LRUCacheShard} (settles : Settles session.shard shard [e])
      (others : ∀ address, address ≠ e → shard.heap address = session.shard.heap address)
      (isShard : session'.shard = shard) : handle'.inCache = handle.inCache :=
    inCache_of_freed (fun address isFreed => (settles.released address isFreed).1)
      (fun kept => others address (List.ne_of_not_mem_cons kept)) found (isShard ▸ found')
  by_cases last : session.handles.count e = 1
  · cases inCache : entry.inCache with
    | true =>
        by_cases overfull : session.shard.usage > session.shard.capacity
        · have empty := resting.fits (UInt64.lt_iff_toNat_lt.mp overfull)
          obtain ⟨rfl, rfl⟩ := List.append_eq_nil_iff.mp empty
          obtain ⟨shard, run, -, settles, -, others⟩ :=
            release_overfull rounding resting.consistent isEntry inCache last overfull
          exact freed settles others (after run)
        · obtain ⟨shard, low', high', run, -, -, -, reflags, -⟩ :=
            release_listed rounding resting.consistent isEntry inCache last overfull
          exact inCache_of_update { entry with refs := 1 } isEntry rfl reflags found
            (after run ▸ found')
    | false =>
        obtain ⟨shard, run, -, settles, -, others⟩ :=
          release_last rounding resting.consistent isEntry inCache last
        exact freed settles others (after run)
  · obtain ⟨shard, run, -, -, -, heap⟩ :=
      release_shared rounding resting.consistent isEntry (by omega) few
    refine inCache_of_update { entry with refs := entry.refs - 1 } isEntry rfl ?_ found
      (after run ▸ found')
    rw [heap]
    exact Reflags.refl _

/-- `Insert` takes entries out of the cache only by freeing them, unless it keeps an entry
for their key. -/
theorem Resting.inCache_of_insert
    {insertion : Insertion}
    (resting : Resting hashOf session low high)
    (admits : session.Admits (.insert insertion))
    (steps : session.step rounding hashOf (.insert insertion) = some (answer, session'))
    (found : session.shard.heap address = some handle)
    (found' : session'.shard.heap address = some handle') :
    handle'.inCache = handle.inCache ∨ insertion.key = handle.key ∧
      ∃ result, answer = .inserted .OK result ∧
        (session'.shard.heap session.shard.fresh).isSome = true := by
  have room := resting.room admits
  have old : address ≠ session.shard.fresh := Nat.ne_of_lt (resting.bounded found)
  by_cases turnedAway : TurnedAway session.shard insertion
  · refine Or.inl ?_
    cases isHandle : insertion.handle with
    | false =>
        obtain ⟨shard, run, -, settles, others⟩ :=
          insert_dropped rounding resting.consistent room turnedAway isHandle
        obtain ⟨-, rfl⟩ := Session.step_of_run (.inserted .OK none) shard
          (by simp [call, run]) steps
        refine inCache_of_freed (fun address isFreed => (settles.released address isFreed).1)
          (fun kept => others address (fun within => kept ?_) old) found found'
        exact List.mem_append_left _ within
    | true =>
        obtain ⟨shard, run, -, settles, others⟩ :=
          insert_rejected rounding resting.consistent room turnedAway isHandle
        obtain ⟨-, rfl⟩ := Session.step_of_run
          (.inserted (.Incomplete "Insert failed due to LRU cache being full.") none) shard
          (by simp [call, run]) steps
        exact inCache_of_freed (fun address isFreed => (settles.released address isFreed).1)
          (others address) found found'
  · obtain ⟨evicted, replaced, shard, low', high', run, -, -, finds, settles, ⟨flag, new⟩,
      others, -⟩ := insert_accepted rounding resting.consistent room turnedAway
        ((resting.counts_of_step admits steps).resolve_left turnedAway)
    obtain ⟨rfl, rfl⟩ := Session.step_of_run
      (.inserted .OK (if insertion.handle then some session.shard.fresh else none)) shard
      (by simp [call, run]) steps
    have kept : address ∉ evicted ++ replaced.toList.filter (· ∈ low ++ high) := by
      intro isFreed
      rw [(settles.released address isFreed).1] at found'
      cases found'
    obtain ⟨flag', after⟩ := others address old kept
    by_cases isReplaced : replaced = some address
    · rw [isReplaced] at finds
      obtain ⟨-, other, foundOther, sameKey⟩ := finds
      obtain rfl := Option.some.inj (found.symm.trans foundOther)
      exact Or.inr ⟨sameKey.symm, _, rfl, Option.isSome_of_eq_some new⟩
    · refine Or.inl ?_
      have same : dropHeap session.shard.heap replaced address =
          session.shard.heap address := by
        cases replaced with
        | none => rfl
        | some other =>
            have differs : address ≠ other := fun here => isReplaced (congrArg some here.symm)
            exact Function.update_of_ne differs _ _
      rw [same, found] at after
      rw [← Option.some.inj (after.symm.trans found')]

/-- An entry that has been taken in is in the cache, if it is there. -/
theorem Resting.kept_cached
    {insertion : Insertion}
    (resting : Resting hashOf session low high)
    (admits : session.Admits (.insert insertion))
    (steps : session.step rounding hashOf (.insert insertion) = some (answer, session'))
    (kept : session'.shard.heap session.shard.fresh = some handle') :
    handle'.inCache = true := by
  have room := resting.room admits
  have unused : session.shard.fresh ∉ low ++ high := fun within => by
    obtain ⟨handle, found, -⟩ := (resting.consistent.accounts.onList _).mp within
    exact Nat.lt_irrefl _ (resting.bounded found)
  by_cases turnedAway : TurnedAway session.shard insertion
  · cases isHandle : insertion.handle with
    | false =>
        obtain ⟨shard, run, -, settles, -⟩ :=
          insert_dropped rounding resting.consistent room turnedAway isHandle
        obtain ⟨-, rfl⟩ := Session.step_of_run (.inserted .OK none) shard
          (by simp [call, run]) steps
        rw [(settles.released _ (by simp)).1] at kept
        cases kept
    | true =>
        obtain ⟨shard, run, -, settles, others⟩ :=
          insert_rejected rounding resting.consistent room turnedAway isHandle
        obtain ⟨-, rfl⟩ := Session.step_of_run
          (.inserted (.Incomplete "Insert failed due to LRU cache being full.") none) shard
          (by simp [call, run]) steps
        rw [others _ unused] at kept
        exact absurd (resting.bounded kept) (Nat.lt_irrefl _)
  · obtain ⟨_, _, shard, _, _, run, -, -, -, -, ⟨flag, new⟩, -⟩ :=
      insert_accepted rounding resting.consistent room turnedAway
        ((resting.counts_of_step admits steps).resolve_left turnedAway)
    obtain ⟨-, rfl⟩ := Session.step_of_run
      (.inserted .OK (if insertion.handle then some session.shard.fresh else none)) shard
      (by simp [call, run]) steps
    rw [← Option.some.inj (new.symm.trans kept)]
    rfl

/-- A call takes entries out of the cache by freeing them, by `Erase` of their key, or by an
insertion under it that is kept. -/
theorem Resting.still_cached
    (resting : Resting hashOf session low high)
    (admits : session.Admits op)
    (steps : session.step rounding hashOf op = some (answer, session'))
    (found : session.shard.heap address = some handle)
    (found' : session'.shard.heap address = some handle')
    (inCache : handle.inCache = true) :
    handle'.inCache = true ∨ op = .erase handle.key ∨
      ∃ insertion result, op = .insert insertion ∧ insertion.key = handle.key ∧
        answer = .inserted .OK result ∧
        (session'.shard.heap session.shard.fresh).isSome = true := by
  have consistent := resting.consistent
  have counts := resting.counts_of_step admits steps
  refine Or.imp_left (fun same : handle'.inCache = handle.inCache => same.trans inCache) ?_
  cases op with
  | insert insertion =>
      rcases resting.inCache_of_insert admits steps found found' with
        same | ⟨sameKey, result, isAnswer, isNew⟩
      · exact Or.inl same
      · exact Or.inr (Or.inr ⟨insertion, result, rfl, sameKey, isAnswer, isNew⟩)
  | lookup key =>
      refine Or.inl ?_
      obtain ⟨e, entry, isEntry, entryCached, rfl⟩ | missing :=
        cached_or_finds_none session.shard.heap key
      · obtain ⟨shard, low', high', run, -, -, -, -, heap, -⟩ :=
          lookup_present consistent isEntry entryCached (counts e entry isEntry entryCached rfl)
        obtain ⟨-, rfl⟩ := Session.step_of_run (.found (some e)) shard
          (by simp [call, run]) steps
        refine inCache_of_update { entry with refs := entry.refs + 1 } isEntry rfl ?_ found found'
        rw [heap]
        exact Reflags.refl _
      · have run := lookup_missing consistent missing
        obtain ⟨-, same⟩ := Session.step_of_run (.found none) session.shard
          (by simp [call, run]) steps
        rw [same, found] at found'
        rw [Option.some.inj found']
  | release e => exact Or.inl (resting.inCache_of_release admits steps found found')
  | erase key =>
      obtain ⟨e, entry, isEntry, entryCached, rfl⟩ | missing :=
        cached_or_finds_none session.shard.heap key
      · by_cases here : address = e
        · subst here
          obtain rfl := Option.some.inj (found.symm.trans isEntry)
          exact Or.inr (Or.inl rfl)
        · refine Or.inl ?_
          by_cases held : e ∈ session.handles
          · obtain ⟨shard, run, -, -, -, heap⟩ := erase_pinned consistent isEntry entryCached held
              (counts e entry isEntry entryCached rfl)
            obtain ⟨-, rfl⟩ := Session.step_of_run .done shard (by simp [call, run]) steps
            rw [heap, Function.update_of_ne here, found] at found'
            rw [Option.some.inj found']
          · obtain ⟨shard, _, _, run, -, -, -, -, -, others⟩ :=
              erase_unpinned consistent isEntry entryCached held
            obtain ⟨-, rfl⟩ := Session.step_of_run .done shard (by simp [call, run]) steps
            have same := (others address here).symm.trans found'
            rw [Option.some.inj (found.symm.trans same)]
      · obtain ⟨table, run, -⟩ := erase_missing consistent missing
        obtain ⟨-, same⟩ := Session.step_of_run .done
          { session.shard with table := table } (by simp [call, run]) steps
        rw [same] at found'
        exact Or.inl (congrArg _ (Option.some.inj (found'.symm.trans found)))
  | setCapacity capacity =>
      obtain ⟨evicted, shard, _, _, run, -, -, -, -, settles, -, others⟩ :=
        setCapacity_spec rounding consistent resting.ratio capacity
      obtain ⟨-, rfl⟩ := Session.step_of_run .done shard (by simp [call, run]) steps
      exact Or.inl (inCache_of_freed
        (fun address isFreed => (settles.released address isFreed).1) (others address)
        found found')
  | setStrictCapacityLimit strictCapacityLimit =>
      obtain ⟨-, rfl⟩ := Prod.mk.inj (Option.some.inj steps)
      exact Or.inl (congrArg _ (Option.some.inj (found'.symm.trans found)))
  | setHighPriorityPoolRatio ratio =>
      obtain ⟨shard, _, _, run, -, -, -, -, reflags, -⟩ :=
        setHighPriorityPoolRatio_spec rounding consistent admits
      obtain ⟨-, rfl⟩ := Session.step_of_run .done shard (by simp [call, run]) steps
      obtain ⟨flag, after⟩ := reflags.of_some found
      refine Or.inl ?_
      rw [← Option.some.inj (after.symm.trans found')]
  | eraseUnRefEntries =>
      obtain ⟨shard, run, -, settles, others⟩ := eraseUnRefEntries_spec consistent
      obtain ⟨-, rfl⟩ := Session.step_of_run .done shard (by simp [call, run]) steps
      exact Or.inl (inCache_of_freed
        (fun address isFreed => (settles.released address isFreed).1) (others address)
        found found')

/-! ## Deleters -/

/-- Of the calls for different entries, those for one entry. -/
theorem filter_flatMap_handle
    {ι : Type}
    {entries : List ι}
    {address : ι → Address}
    {calls : ι → List Deletion}
    (own : ∀ entry, ∀ deletion ∈ calls entry, deletion.handle = address entry)
    (distinct : (entries.map address).Nodup)
    {entry : ι}
    (within : entry ∈ entries) :
    (entries.flatMap calls).filter (·.handle = address entry) = calls entry := by
  have all (entry : ι) : (calls entry).filter (·.handle = address entry) = calls entry :=
    List.filter_eq_self.mpr fun deletion isCall => decide_eq_true (own entry deletion isCall)
  have none {other : ι} (differs : address other ≠ address entry) :
      (calls other).filter (·.handle = address entry) = [] := by
    rw [List.filter_eq_nil_iff]
    intro deletion isCall same
    exact differs ((own other deletion isCall).symm.trans (of_decide_eq_true same))
  induction entries with
  | nil => cases within
  | cons other entries inductionHypothesis =>
      rw [List.map_cons, List.nodup_cons] at distinct
      rw [List.flatMap_cons, List.filter_append]
      rcases List.mem_cons.mp within with rfl | later
      · have rest : (entries.flatMap calls).filter (·.handle = address entry) = [] := by
          rw [List.filter_eq_nil_iff]
          intro deletion isCall same
          obtain ⟨other, isOther, isCall⟩ := List.mem_flatMap.mp isCall
          have sameAddress := (own other deletion isCall).symm.trans (of_decide_eq_true same)
          exact distinct.1 (List.mem_map.mpr ⟨other, isOther, sameAddress⟩)
        rw [all, rest, List.append_nil]
      · have differs : address other ≠ address entry := fun same =>
          distinct.1 (List.mem_map.mpr ⟨entry, later, same.symm⟩)
        rw [none differs, List.nil_append, inductionHypothesis distinct.2 later]

/-- Among the calls that are due after some calls, those for one entry. -/
theorem Ledger.filter_due
    {events : List Event}
    {shard : LRUCacheShard}
    {insertion : Insertion}
    (ledger : Ledger events shard)
    (within : (address, insertion) ∈ insertions true events) :
    (LRUCacheShard.due events).filter (·.handle = address) =
      Insertion.due (address, insertion) := by
  have distinct := ledger.distinct
  rw [List.map_append] at distinct
  exact filter_flatMap_handle (fun _ _ => handle_of_mem_due)
    (List.nodup_append.mp distinct).1 within

/-- The calls of the deleter of an entry that were made, and the one that is due when it is
freed. -/
theorem Ledger.calls_perm
    {events : List Event}
    {shard : LRUCacheShard}
    {insertion : Insertion}
    (ledger : Ledger events shard)
    (within : (address, insertion) ∈ insertions true events) :
    (shard.deletions.filter (·.handle = address) ++ deletionOf shard.heap address).Perm
      (Insertion.due (address, insertion)) := by
  have below : address < shard.fresh := ledger.below _ (List.mem_append_left _ within)
  have calls := ledger.due.filter (·.handle = address)
  have remaining : ((List.range shard.fresh).flatMap (deletionOf shard.heap)).filter
      (·.handle = address) = deletionOf shard.heap address :=
    @filter_flatMap_handle Address _ id _ (fun _ _ => handle_of_mem_deletionOf)
      (by rw [List.map_id]; exact List.nodup_range) address (List.mem_range.mpr below)
  rw [List.filter_append, ledger.filter_due within, remaining] at calls
  exact calls

end LRUCacheShard
end Cache
end RocksUtil
