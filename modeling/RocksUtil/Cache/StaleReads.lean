import RocksUtil.Cache.Runs

/-!
# What `Lookup` returns after an insertion

An insertion that returns `OK` is followed by lookups that find its entry or
nothing, except when it was dropped and left a pinned entry of the key in place.
-/

namespace RocksUtil
namespace Cache
namespace LRUCacheShard

open LRUHandleTable (Represents Finds Stores)

variable {rounding : Rounding} {hashOf : Bytes → UInt32}
  {permitted : Session → Op → Prop} {session session' : Session}
  {low high low' high' : List Address} {op : Op} {answer : Answer} {key : Bytes}

/-- Calls other than an insertion for the key. -/
def Op.Omits (key : Bytes) : Op → Prop
  | .insert insertion => insertion.key ≠ key
  | _ => True

/-- If the insertion returns `OK`, then from there on, until another insertion for
the key, `Lookup` returns nothing or the entry that was inserted. -/
def Session.ReadsBack
    (rounding : Rounding)
    (hashOf : Bytes → UInt32)
    (session : Session)
    (insertion : Insertion) : Prop :=
  ∀ result inserted,
    session.step rounding hashOf (.insert insertion) =
      some (.inserted Status.OK result, inserted) →
    ∀ later, Session.Continues rounding hashOf (fun _ => Op.Omits insertion.key) inserted
        later →
      ∀ e later', later.step rounding hashOf (.lookup insertion.key) =
          some (.found (some e), later') →
        e = session.shard.fresh ∧ ∃ handle, later.shard.heap e = some handle ∧
          handle.value = insertion.value

/-- `Lookup` can find no entry for the key but this one: others have a counter that has
wrapped to one, and `Lookup` follows their null pointers. -/
def Only (session : Session) (key : Bytes) (e : Address) (value : Pointer) : Prop :=
  ∀ address handle, session.shard.heap address = some handle → handle.inCache = true →
    handle.key = key →
      address = e ∧ handle.value = value ∨ 2 ^ 32 ≤ session.handles.count address

/-- An entry that handles can no longer be returned to keeps them. -/
theorem Resting.count_le_of_step
    {address : Address}
    (resting : Resting hashOf session low high)
    (admits : session.Admits op)
    (steps : session.step rounding hashOf op = some (answer, session'))
    (many : 2 ^ 32 ≤ session.handles.count address) :
    session.handles.count address ≤ session'.handles.count address := by
  have counts := resting.counts_of_step admits steps
  have kept : op.returned session.handles = session.handles ∨
      ∃ e, e ≠ address ∧ op.returned session.handles = session.handles.erase e := by
    cases op with
    | release e =>
        refine Or.inr ⟨e, ?_, rfl⟩
        rintro rfl
        have few : session.handles.count e + 1 < 2 ^ 32 := counts
        omega
    | _ => exact Or.inl rfl
  rw [Session.handles_of_step steps, List.count_append]
  rcases kept with same | ⟨e, elsewhere, erased⟩
  · rw [same]
    exact Nat.le_add_left _ _
  · rw [erased, List.count_erase_of_ne elsewhere.symm]
    exact Nat.le_add_left _ _

/-- A call that does not insert for the key brings no entry for it. -/
theorem Only.step
    {e : Address}
    {value : Pointer}
    (only : Only session key e value)
    (resting : Resting hashOf session low high)
    (admits : session.Admits op)
    (steps : session.step rounding hashOf op = some (answer, session'))
    (omits : op.Omits key) : Only session' key e value := by
  obtain ⟨freed, advances⟩ := resting.advances_of_step admits steps
  intro address handle' found' inCache' sameKey
  obtain ⟨handle, found, same, inCache⟩ := advances.heap_before found'
  have keyEq := LRUHandle.key_eq same
  rcases heap_prepare found with before | ⟨insertion, rfl, isEntry⟩
  · rw [LRUHandle.value_eq same]
    refine (only address handle before (inCache inCache') (keyEq.symm.trans sameKey)).imp_right ?_
    exact fun many => many.trans (resting.count_le_of_step admits steps many)
  · have isKey : handle.key = insertion.key := congrArg LRUHandle.key isEntry
    exact absurd (isKey.symm.trans (keyEq.symm.trans sameKey)) omits

theorem Only.continues
    {start : Session}
    {e : Address}
    {value : Pointer}
    (only : Only start key e value)
    (resting : Resting hashOf start low high)
    (continues : Session.Continues rounding hashOf (fun _ => Op.Omits key) start session) :
    Only session key e value := by
  induction continues with
  | refl => exact only
  | step before admits permits steps inductionHypothesis =>
      obtain ⟨low', high', resting'⟩ := before.resting resting
      exact inductionHypothesis.step resting' admits steps permits

/-- `Lookup` returns an entry of the cache for the key, whose counter it can still use. -/
theorem Resting.lookup_returns
    {e : Address}
    (resting : Resting hashOf session low high)
    (steps : session.step rounding hashOf (.lookup key) = some (.found (some e), session')) :
    ∃ handle, session.shard.heap e = some handle ∧ handle.inCache = true ∧
      handle.key = key ∧ session.handles.count e < 2 ^ 32 := by
  have admits : session.Admits (.lookup key) := trivial
  have counts := resting.counts_of_step admits steps
  obtain ⟨e', handle, found, inCache, rfl⟩ | missing :=
    cached_or_finds_none session.shard.heap key
  · have few := counts e' handle found inCache rfl
    obtain ⟨shard, low', high', run, -⟩ :=
      lookup_present resting.consistent found inCache few
    simp [Session.step, call, run] at steps
    obtain ⟨rfl, -⟩ := steps
    exact ⟨handle, found, inCache, rfl, few⟩
  · have run := lookup_missing resting.consistent missing
    simp [Session.step, call, run] at steps

/-- The insertion is going to be dropped and leaves behind an entry for its key that is not
on the list and that `Lookup` can take another reference to. -/
def LeavesPinned (shard : LRUCacheShard) (insertion : Insertion) : Prop :=
  insertion.handle = false ∧
    shard.capacity.toNat < shard.pinnedUsage + insertion.charge.toNat ∧
    ∃ e handle, shard.heap e = some handle ∧ handle.inCache = true ∧
      handle.key = insertion.key ∧ handle.refs ≠ 1

/-- An insertion that returns `OK` leaves no other entry for its key, unless it leaves
a pinned one. -/
theorem Resting.only_of_insert
    {insertion : Insertion}
    {result : Option Address}
    {inserted : Session}
    (resting : Resting hashOf session low high)
    (admits : session.Admits (.insert insertion))
    (notPinned : ¬ LeavesPinned session.shard insertion)
    (steps : session.step rounding hashOf (.insert insertion) =
      some (.inserted Status.OK result, inserted)) :
    Only inserted insertion.key session.shard.fresh insertion.value := by
  have counts := resting.counts_of_step admits steps
  have room := resting.room admits
  by_cases turnedAway : TurnedAway session.shard insertion
  · cases handle : insertion.handle with
    | false =>
        obtain ⟨shard, run, -, settles, others⟩ :=
          insert_dropped rounding resting.consistent room turnedAway handle
        simp only [Session.step, call, run, Option.bind_eq_bind, Option.bind_some,
          Option.some.injEq, Prod.mk.injEq] at steps
        obtain ⟨-, rfl⟩ := steps
        intro address entry found inCache sameKey
        have notFreed : address ∉ low ++ high ++ [session.shard.fresh] := by
          intro isFreed
          simp [(settles.released address isFreed).1] at found
        simp only [List.mem_append, List.mem_singleton, not_or] at notFreed
        rw [others address (by simp [notFreed]) notFreed.2] at found
        -- An entry that is not on the list is held.
        have held : address ∈ session.handles := by
          by_contra notHeld
          have onList := (resting.consistent.mem_list_iff found inCache).mpr notHeld
          simp [notFreed] at onList
        by_cases refs : entry.refs = 1
        · have counted := resting.consistent.counted found
          rw [inCache] at counted
          have given := List.count_pos_iff.mpr held
          have full := (counted.refs_eq_one_iff.mp refs).resolve_left (by omega)
          exact Or.inr full.ge
        · exact absurd ⟨handle, turnedAway.1, address, entry, found, inCache, sameKey, refs⟩
            notPinned
    | true =>
        obtain ⟨shard, run, -⟩ :=
          insert_rejected rounding resting.consistent room turnedAway handle
        simp [Session.step, call, run, Status.OK, Status.Incomplete] at steps
  · obtain ⟨evicted, old, shard, low', high', run, consistent, -, -, -, ⟨flag, new⟩, -⟩ :=
      insert_accepted rounding resting.consistent room turnedAway
        (counts.resolve_left turnedAway)
    simp only [Session.step, call, run, Option.bind_eq_bind, Option.bind_some,
      Option.some.injEq, Prod.mk.injEq] at steps
    obtain ⟨-, rfl⟩ := steps
    intro address entry found inCache sameKey
    have isNew := consistent.unique found inCache new rfl sameKey
    rw [isNew, new] at found
    obtain rfl := Option.some.inj found
    exact Or.inl ⟨isNew, rfl⟩

/-- An entry that is kept pinned. -/
def pinnedInsertion : Insertion := ⟨[1], 10, 2, some 7, true, .low, false⟩

/-- An insertion for the same key, without a handle, that there is no room for. -/
def droppedInsertion : Insertion := ⟨[1], 11, 2, some 7, false, .low, false⟩

theorem setUp_three :
    setUp Rounding.exact (0, false, 0, 0) 3 false 0 = some (new 3 false 0 0) := by
  rw [setUp_eq _ _ _ _ le_rfl, mul_zero, Rounding.round_zero]

theorem pinned_admits :
    Session.AdmitsAll Rounding.exact (fun _ => 0) (fun _ _ => True) ⟨new 3 false 0 0, []⟩
      [.insert pinnedInsertion, .insert droppedInsertion, .lookup [1]] := by
  decide +kernel

end LRUCacheShard
end Cache
end RocksUtil
