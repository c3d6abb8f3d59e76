import RocksUtil.Cache.Crowding

/-!
# When values are deleted

Over a whole run, the calls of deleters are those of the insertions that were
accepted, each made once and none of them while the entry can still be reached.
-/

namespace RocksUtil
namespace Cache
namespace LRUCacheShard

open LRUHandleTable (Represents Finds Stores)

variable {rounding : Rounding} {hashOf : Bytes → UInt32} {session session' : Session}
  {low high low' high' : List Address} {op : Op} {answer : Answer}

/-- A call that was made and its answer, with the address that an entry allocated
by it has. -/
structure Event where
  fresh : Address
  op : Op
  answer : Answer

/-- The entry that a call of `Insert` was made for, if it returned this. -/
def Event.insertion (event : Event) (accepted : Bool) : Option (Address × Insertion) :=
  match event.op, event.answer with
  | .insert insertion, .inserted status _ =>
      if status.ok = accepted then some (event.fresh, insertion) else none
  | _, _ => none

/-- The call of the deleter that is due for an insertion. -/
def Insertion.due (entry : Address × Insertion) : List Deletion :=
  (entry.2.deleter.map (⟨entry.1, ·, entry.2.key, entry.2.value⟩)).toList

/-- The insertions that were accepted, or those that were rejected. -/
def insertions (accepted : Bool) (events : List Event) : List (Address × Insertion) :=
  events.filterMap (Event.insertion · accepted)

/-- The calls of deleters that are due after some calls. -/
def due (events : List Event) : List Deletion :=
  (insertions true events).flatMap Insertion.due

/-- The calls made since the set-up of a new shard, each while no entry had `2 ^ 32 - 1`
handles given out. -/
inductive Session.Records
    (rounding : Rounding)
    (hashOf : Bytes → UInt32) : List Event → Session → Prop
  | start
      {memory : UInt64 × Bool × ℚ × ℚ}
      {capacity : UInt64}
      {strictCapacityLimit : Bool}
      {highPriPoolRatio : ℚ}
      {shard : LRUCacheShard}
      (nonneg : 0 ≤ highPriPoolRatio)
      (run : setUp rounding memory capacity strictCapacityLimit highPriPoolRatio =
        some shard) :
      Records rounding hashOf [] ⟨shard, []⟩
  | step
      {events : List Event}
      {session session' : Session}
      {op : Op}
      {answer : Answer}
      (before : Records rounding hashOf events session)
      (admits : session.Admits op)
      (uncrowded : session.Uncrowded)
      (steps : session.step rounding hashOf op = some (answer, session')) :
      Records rounding hashOf (events ++ [⟨session.shard.fresh, op, answer⟩]) session'

/-- The deleter calls made so far, and those due for the entries in memory, are the
calls that are due. -/
structure Ledger (events : List Event) (shard : LRUCacheShard) : Prop where
  due : (shard.deletions ++
    (List.range shard.fresh).flatMap (deletionOf shard.heap)).Perm (due events)
  gone : ∀ deletion ∈ shard.deletions,
    shard.heap deletion.handle = none ∧ deletion.handle < shard.fresh
  distinct : ((insertions true events ++ insertions false events).map Prod.fst).Nodup
  below : ∀ entry ∈ insertions true events ++ insertions false events,
    entry.1 < shard.fresh

theorem deletionOf_of_none
    {heap : Heap}
    {e : Address}
    (missing : heap e = none) : deletionOf heap e = [] := by
  simp [deletionOf, missing]

theorem handle_of_mem_deletionOf
    {heap : Heap}
    {e : Address}
    {deletion : Deletion}
    (within : deletion ∈ deletionOf heap e) : deletion.handle = e := by
  cases found : heap e with
  | none => simp [deletionOf, found] at within
  | some handle =>
      cases deleter : handle.deleter with
      | none => simp [deletionOf, found, deleter] at within
      | some deleter => simp_all [deletionOf]

/-- Entries that are freed, and those that are left. -/
theorem perm_flatMap_freed
    {freed nodes : List Address}
    (calls : Address → List Deletion)
    (distinct : freed.Nodup)
    (distinctNodes : nodes.Nodup)
    (within : ∀ address ∈ freed, address ∈ nodes) :
    (freed.flatMap calls ++
      nodes.flatMap (fun address => if address ∈ freed then [] else calls address)).Perm
        (nodes.flatMap calls) := by
  have isFreed : freed.Perm (nodes.filter (· ∈ freed)) := by
    rw [List.perm_ext_iff_of_nodup distinct (distinctNodes.filter _)]
    intro address
    simp only [List.mem_filter, decide_eq_true_eq]
    exact ⟨fun freed => ⟨within address freed, freed⟩, And.right⟩
  have rest : nodes.flatMap (fun address => if address ∈ freed then [] else calls address) =
      (nodes.filter (fun address => ¬ address ∈ freed)).flatMap calls := by
    clear distinctNodes within isFreed
    induction nodes with
    | nil => rfl
    | cons address nodes inductionHypothesis =>
        by_cases isFreed : address ∈ freed
        · simp [isFreed, inductionHypothesis]
        · simp [isFreed, inductionHypothesis]
  rw [rest]
  have parts := (isFreed.append_right (nodes.filter (fun address => ¬ address ∈ freed))).trans
    (by simpa using List.filter_append_perm (· ∈ freed) nodes)
  simpa using parts.flatMap_right calls

/-- The deleter call due for a call that has been made. -/
def Event.due (event : Event) : List Deletion :=
  (event.insertion true).toList.flatMap Insertion.due

theorem insertions_concat
    (accepted : Bool)
    (events : List Event)
    (event : Event) :
    insertions accepted (events ++ [event]) =
      insertions accepted events ++ (event.insertion accepted).toList := by
  cases found : event.insertion accepted <;> simp [insertions, found]

theorem due_concat (events : List Event) (event : Event) :
    due (events ++ [event]) = due events ++ event.due := by
  simp [due, insertions_concat, Event.due]

/-- The entry of an accepted insertion has been allocated, which makes its deleter
call due. -/
structure Prepares (shard prepared : LRUCacheShard) (event : Event) : Prop where
  deletions : prepared.deletions = shard.deletions
  others : ∀ address < shard.fresh, prepared.heap address = shard.heap address
  bounded : ∀ address handle, prepared.heap address = some handle →
    address < prepared.fresh
  due : (List.range prepared.fresh).flatMap (deletionOf prepared.heap) =
    (List.range shard.fresh).flatMap (deletionOf shard.heap) ++ event.due
  fresh : shard.fresh ≤ prepared.fresh
  insertion : ∀ accepted, ∀ entry ∈ event.insertion accepted,
    entry.1 = shard.fresh ∧ shard.fresh < prepared.fresh

/-- Calls that allocate nothing. -/
theorem Prepares.of_unchanged
    {shard prepared : LRUCacheShard}
    {event : Event}
    (bounded : ∀ address handle, shard.heap address = some handle → address < shard.fresh)
    (none : ∀ accepted, event.insertion accepted = none)
    (deletions : prepared.deletions = shard.deletions)
    (heap : prepared.heap = shard.heap)
    (fresh : prepared.fresh = shard.fresh) : Prepares shard prepared event where
  deletions := deletions
  others := by simp [heap]
  bounded := by
    rw [heap, fresh]
    exact bounded
  due := by simp [heap, fresh, Event.due, none]
  fresh := fresh.ge
  insertion := by simp [none]

theorem prepares
    (hashOf : Bytes → UInt32)
    {shard : LRUCacheShard}
    (bounded : ∀ address handle, shard.heap address = some handle → address < shard.fresh)
    (op : Op)
    (answer : Answer) :
    Prepares shard (prepare hashOf shard op answer) ⟨shard.fresh, op, answer⟩ := by
  cases op with
  | insert insertion =>
      cases answer with
      | inserted status handle =>
          cases isOk : status.ok with
          | true =>
              simp only [prepare, isOk, if_true]
              exact
                { deletions := rfl
                  others := fun address below =>
                    heap_allocate_of_ne (Nat.ne_of_lt below) _
                  bounded := by
                    intro address handle found
                    by_cases isNew : address = shard.fresh
                    · rw [isNew]
                      exact Nat.lt_succ_self _
                    · rw [heap_allocate_of_ne isNew] at found
                      exact Nat.lt_succ_of_lt (bounded address handle found)
                  due := by
                    have below : ∀ address ∈ List.range shard.fresh,
                        deletionOf (shard.allocate
                          (insertion.entry (hashOf insertion.key))).heap address =
                            deletionOf shard.heap address := by
                      intro address within
                      exact deletionOf_allocate_of_ne
                        (Nat.ne_of_lt (List.mem_range.mp within)) _
                    have here : deletionOf (shard.allocate
                        (insertion.entry (hashOf insertion.key))).heap shard.fresh =
                          Insertion.due (shard.fresh, insertion) := by
                      rw [deletionOf, heap_allocate_fresh]
                      rfl
                    change (List.range (shard.fresh + 1)).flatMap _ = _
                    rw [List.range_succ, List.flatMap_append, List.flatMap_congr below,
                      List.flatMap_singleton, here]
                    simp [Event.due, Event.insertion, isOk]
                  fresh := Nat.le_succ _
                  insertion := by
                    intro accepted entry within
                    have isEntry : entry = (shard.fresh, insertion) := by
                      cases accepted <;> simp_all [Event.insertion]
                    exact ⟨by rw [isEntry], Nat.lt_succ_self _⟩ }
          | false =>
              simp only [prepare, isOk]
              exact
                { deletions := rfl
                  others := fun _ _ => rfl
                  bounded := fun address handle found =>
                    Nat.lt_succ_of_lt (bounded address handle found)
                  due := by
                    have unused : shard.heap shard.fresh = none := by
                      cases found : shard.heap shard.fresh with
                      | none => rfl
                      | some handle => exact absurd (bounded _ handle found) (lt_irrefl _)
                    change (List.range (shard.fresh + 1)).flatMap _ = _
                    rw [List.range_succ, List.flatMap_append, List.flatMap_singleton]
                    simp [Event.due, Event.insertion, isOk, deletionOf_of_none unused]
                  fresh := Nat.le_succ _
                  insertion := by
                    intro accepted entry within
                    have isEntry : entry = (shard.fresh, insertion) := by
                      cases accepted <;> simp_all [Event.insertion]
                    exact ⟨by rw [isEntry], Nat.lt_succ_self _⟩ }
      | found handle => exact .of_unchanged bounded (fun _ => rfl) rfl rfl rfl
      | done => exact .of_unchanged bounded (fun _ => rfl) rfl rfl rfl
  | _ => exact .of_unchanged bounded (fun _ => rfl) rfl rfl rfl

theorem Settles.deletionOf_eq
    {shard shard' : LRUCacheShard}
    {freed : List Address}
    (settles : Settles shard shard' freed)
    (address : Address) :
    deletionOf shard'.heap address =
      if address ∈ freed then [] else deletionOf shard.heap address := by
  by_cases isFreed : address ∈ freed
  · rw [if_pos isFreed, deletionOf_of_none (settles.released address isFreed).1]
  · rw [if_neg isFreed]
    cases found : shard.heap address with
    | none => rw [deletionOf_of_none found,
        deletionOf_of_none (settles.missing address found)]
    | some handle =>
        obtain ⟨handle', found', same, -⟩ := settles.present address handle found isFreed
        simp only [deletionOf, found', found, Option.elim_some, LRUHandle.deleter_eq same,
          LRUHandle.value_eq same, LRUHandle.key_eq same]

/-- An insertion is accepted or rejected, and not both. -/
theorem Event.insertion_exclusive (event : Event) :
    event.insertion true = none ∨ event.insertion false = none := by
  obtain ⟨fresh, op, answer⟩ := event
  cases op with
  | insert insertion =>
      cases answer with
      | inserted status handle => cases isOk : status.ok <;> simp [Event.insertion, isOk]
      | found handle => exact Or.inl rfl
      | done => exact Or.inl rfl
  | _ => exact Or.inl rfl

theorem concat_insertions_perm {events : List Event} {event : Event} :
    (insertions true (events ++ [event]) ++ insertions false (events ++ [event])).Perm
      (insertions true events ++ insertions false events ++
        ((event.insertion true).toList ++ (event.insertion false).toList)) := by
  rw [insertions_concat, insertions_concat, List.append_assoc, List.append_assoc]
  refine List.Perm.append_left _ ?_
  rw [← List.append_assoc, ← List.append_assoc]
  exact List.perm_append_comm.append_right _

/-- A call makes deleter calls that were due. -/
theorem Ledger.step
    {events : List Event}
    {event : Event}
    {shard prepared shard' : LRUCacheShard}
    {freed : List Address}
    (ledger : Ledger events shard)
    (prepares : Prepares shard prepared event)
    (settles : Settles prepared shard' freed) :
    Ledger (events ++ [event]) shard' where
  due := by
    have freedBelow : ∀ address ∈ freed, address ∈ List.range prepared.fresh := by
      intro address isFreed
      obtain ⟨-, handle, found⟩ := settles.released address isFreed
      exact List.mem_range.mpr (prepares.bounded address handle found)
    have moves := perm_flatMap_freed (deletionOf prepared.heap) settles.distinct
      List.nodup_range freedBelow
    rw [settles.deletions, settles.fresh, prepares.deletions, due_concat,
      List.flatMap_congr (fun address _ => settles.deletionOf_eq address),
      List.append_assoc]
    refine (moves.append_left _).trans ?_
    rw [prepares.due, ← List.append_assoc]
    exact ledger.due.append_right _
  gone := by
    intro deletion within
    rw [settles.deletions, prepares.deletions, List.mem_append] at within
    rcases within with earlier | now
    · obtain ⟨gone, below⟩ := ledger.gone deletion earlier
      refine ⟨settles.missing _ ?_, ?_⟩
      · rw [prepares.others _ below]
        exact gone
      · rw [settles.fresh]
        exact lt_of_lt_of_le below prepares.fresh
    · obtain ⟨address, isFreed, here⟩ := List.mem_flatMap.mp now
      rw [handle_of_mem_deletionOf here]
      obtain ⟨gone, handle, found⟩ := settles.released address isFreed
      refine ⟨gone, ?_⟩
      rw [settles.fresh]
      exact prepares.bounded address handle found
  distinct := by
    rw [(concat_insertions_perm.map Prod.fst).nodup_iff, List.map_append, List.nodup_append]
    refine ⟨ledger.distinct, ?_, ?_⟩
    · rcases event.insertion_exclusive with none | none
      · cases event.insertion false <;> simp [none]
      · cases event.insertion true <;> simp [none]
    · intro address earlier address' now same
      obtain ⟨entry, within, rfl⟩ := List.mem_map.mp earlier
      obtain ⟨entry', within', rfl⟩ := List.mem_map.mp now
      have below : entry.1 < shard.fresh := ledger.below entry within
      have isFresh : entry'.1 = shard.fresh := by
        rcases List.mem_append.mp within' with isNow | isNow
        · exact (prepares.insertion true entry' (Option.mem_toList.mp isNow)).1
        · exact (prepares.insertion false entry' (Option.mem_toList.mp isNow)).1
      rw [same, isFresh] at below
      exact lt_irrefl _ below
  below := by
    intro entry within
    rw [concat_insertions_perm.mem_iff, List.mem_append] at within
    rw [settles.fresh]
    rcases within with earlier | now
    · exact lt_of_lt_of_le (ledger.below entry earlier) prepares.fresh
    · rcases List.mem_append.mp now with now | now
      · obtain ⟨isFresh, moves⟩ := prepares.insertion true entry (Option.mem_toList.mp now)
        rw [isFresh]
        exact moves
      · obtain ⟨isFresh, moves⟩ := prepares.insertion false entry (Option.mem_toList.mp now)
        rw [isFresh]
        exact moves

theorem ledger_new
    (capacity : UInt64)
    (strictCapacityLimit : Bool)
    (highPriPoolRatio highPriPoolCapacity : ℚ) :
    Ledger [] (new capacity strictCapacityLimit highPriPoolRatio highPriPoolCapacity) where
  due := by simp [new, due, insertions, deletionOf]
  gone := by simp [new]
  distinct := by simp [insertions]
  below := by simp [insertions]

/-- The ledger is kept over every run. -/
theorem Session.Records.ledger
    {events : List Event}
    (records : Session.Records rounding hashOf events session) :
    Ledger events session.shard ∧ ∃ low high, Resting hashOf session low high := by
  induction records with
  | @start memory capacity strictCapacityLimit highPriPoolRatio shard nonneg run =>
      rw [setUp_eq rounding memory capacity strictCapacityLimit nonneg] at run
      obtain rfl := Option.some.inj run
      exact ⟨ledger_new _ _ _ _, [], [], resting_new hashOf capacity strictCapacityLimit
        nonneg (rounding.poolCapacity_nonneg capacity nonneg)⟩
  | @step events session session' op answer before admits uncrowded steps inductionHypothesis =>
      obtain ⟨ledger, low, high, resting⟩ := inductionHypothesis
      obtain ⟨freed, advances⟩ := resting.advances_of_step admits steps
      have bounded : ∀ address handle, session.shard.heap address = some handle →
          address < session.shard.fresh := fun address handle found =>
        (resting.consistent.accounts.bounded address handle found).2
      exact ⟨ledger.step (prepares hashOf bounded op answer) advances.settles,
        advances.resting⟩

/-- The function that the destructor of the table applies to its entries. -/
def freeUnreferenced (e : Address) (shard : LRUCacheShard) : Option LRUCacheShard := do
  let handle ← shard.heap e
  if handle.refs = 1 then shard.free e else some shard

/-- Entries that only the cache refers to. -/
def Idle (shard : LRUCacheShard) (nodes : List Address) : Prop :=
  ∀ address ∈ nodes, ∃ handle, shard.heap address = some handle ∧ handle.refs = 1 ∧
    handle.inCache = true

theorem Idle.freeable
    {shard : LRUCacheShard}
    {nodes : List Address}
    (idle : Idle shard nodes) :
    ∀ address ∈ nodes, ∃ handle, shard.heap address = some handle ∧ Freeable handle := by
  intro address within
  obtain ⟨handle, found, refs, inCache⟩ := idle address within
  exact ⟨handle, found, Or.inl ⟨refs, inCache⟩⟩

/-- The destructor frees idle entries one by one. -/
theorem foldlM_visit_freeUnreferenced
    {shard : LRUCacheShard}
    {nodes : List Address}
    (distinct : nodes.Nodup)
    (idle : Idle shard nodes) :
    nodes.foldlM (LRUHandleTable.visit LRUCacheShard.heap freeUnreferenced) shard =
      shard.freeAll nodes := by
  induction nodes generalizing shard with
  | nil => rfl
  | cons address nodes inductionHypothesis =>
      obtain ⟨handle, found, refs, inCache⟩ := idle address (by simp)
      have frees := free_eq found (Or.inl ⟨refs, inCache⟩)
      have visits : LRUHandleTable.visit LRUCacheShard.heap freeUnreferenced shard address =
          shard.free address := by
        simp [LRUHandleTable.visit, freeUnreferenced, found, inCache, refs]
      rw [List.foldlM_cons, freeAll, List.foldlM_cons, visits, frees]
      refine inductionHypothesis distinct.of_cons ?_
      intro other within
      have notHere : other ≠ address := by grind
      obtain ⟨handle, found, idle⟩ := idle other (List.mem_cons_of_mem _ within)
      exact ⟨handle, (Function.update_of_ne notHere _ _).trans found, idle⟩

/-- The destructor of a shard that no handles are given out of frees every entry,
and calls the deleters of all of them. -/
theorem destroy_spec
    (resting : Resting hashOf session low high)
    (noHandles : session.handles = []) :
    ∃ final, session.shard.destroy = some final ∧
      (∀ address, final.heap address = none) ∧
      final.deletions.Perm (session.shard.deletions ++
        (List.range session.shard.fresh).flatMap (deletionOf session.shard.heap)) := by
  have accounts := resting.consistent.accounts
  obtain ⟨chains, stores, -, members⟩ := resting.consistent.table
  have idle : ∀ address handle, session.shard.heap address = some handle →
      handle.refs = 1 ∧ handle.inCache = true := by
    intro address handle found
    have counted := resting.consistent.counted found
    rw [noHandles, List.count_nil] at counted
    have inCache := counted.referred.resolve_right (Nat.lt_irrefl 0)
    rw [inCache] at counted
    exact ⟨counted.refs_eq_one_iff.mpr (Or.inl rfl), inCache⟩
  have within : ∀ address, address ∈ (List.range session.shard.table.length).flatMap chains ↔
      ∃ handle, session.shard.heap address = some handle := by
    intro address
    rw [stores.mem_flatMap, ← members address]
    constructor
    · rintro ⟨handle, found, -⟩
      exact ⟨handle, found⟩
    · rintro ⟨handle, found⟩
      exact ⟨handle, found, by simp, (idle address handle found).2⟩
  have allIdle : Idle session.shard
      ((List.range session.shard.table.length).flatMap chains) := by
    intro address isMember
    obtain ⟨handle, found⟩ := (within address).mp isMember
    exact ⟨handle, found, idle address handle found⟩
  have runs : session.shard.destroy = session.shard.freeAll
      ((List.range session.shard.table.length).flatMap chains) :=
    (stores.applyToAllCacheEntries_eq LRUCacheShard.heap freeUnreferenced _).trans
      (foldlM_visit_freeUnreferenced stores.nodup_flatMap allIdle)
  rw [freeAll_eq stores.nodup_flatMap allIdle.freeable] at runs
  refine ⟨_, runs, ?_, ?_⟩
  · intro address
    by_cases isMember : address ∈ (List.range session.shard.table.length).flatMap chains
    · exact if_pos isMember
    · refine (if_neg isMember).trans ?_
      rw [within] at isMember
      exact Option.eq_none_iff_forall_ne_some.mpr
        (fun handle found => isMember ⟨handle, found⟩)
  · refine List.Perm.append_left _ ?_
    have below : ∀ address ∈ (List.range session.shard.table.length).flatMap chains,
        address ∈ List.range session.shard.fresh := by
      intro address isMember
      obtain ⟨handle, found⟩ := (within address).mp isMember
      exact List.mem_range.mpr (accounts.bounded address handle found).2
    have nothingElse : (List.range session.shard.fresh).flatMap (fun address =>
        if address ∈ (List.range session.shard.table.length).flatMap chains then []
          else deletionOf session.shard.heap address) = [] := by
      rw [List.flatMap_eq_nil_iff]
      intro address _
      split
      · rfl
      · next isMember =>
          rw [within] at isMember
          exact deletionOf_of_none (Option.eq_none_iff_forall_ne_some.mpr
            (fun handle found => isMember ⟨handle, found⟩))
    have moves := perm_flatMap_freed (deletionOf session.shard.heap) stores.nodup_flatMap
      List.nodup_range below
    rwa [nothingElse, List.append_nil] at moves

theorem handle_of_mem_due
    {entry : Address × Insertion}
    {deletion : Deletion}
    (within : deletion ∈ Insertion.due entry) : deletion.handle = entry.1 := by
  cases deleter : entry.2.deleter with
  | none => simp [Insertion.due, deleter] at within
  | some deleter => simp_all [Insertion.due]

/-- The deleter calls that are due are different from each other. -/
theorem Ledger.nodup_due
    {events : List Event}
    {shard : LRUCacheShard}
    (ledger : Ledger events shard) : (LRUCacheShard.due events).Nodup := by
  have distinct := ledger.distinct
  rw [List.map_append] at distinct
  have accepted := (List.nodup_append.mp distinct).1
  rw [LRUCacheShard.due, List.nodup_flatMap]
  refine ⟨fun entry _ => ?_, ?_⟩
  · cases deleter : entry.2.deleter <;> simp [Insertion.due, deleter]
  · refine (List.pairwise_map.mp accepted).imp ?_
    intro entry entry' differ deletion within within'
    exact differ ((handle_of_mem_due within).symm.trans (handle_of_mem_due within'))

/-- The calls of a run, with their answers. -/
def Session.events
    (rounding : Rounding)
    (hashOf : Bytes → UInt32) : Session → List Op → List Event
  | _, [] => []
  | session, op :: ops =>
      (session.step rounding hashOf op).elim [] (fun result =>
        ⟨session.shard.fresh, op, result.1⟩ :: events rounding hashOf result.2 ops)

theorem Session.Records.run
    {events : List Event}
    {ops : List Op}
    {answers : List Answer}
    (records : Session.Records rounding hashOf events session)
    (admits : session.AdmitsAll rounding hashOf (fun session _ => session.Uncrowded) ops)
    (run : session.run rounding hashOf ops = some (answers, session')) :
    Session.Records rounding hashOf (events ++ session.events rounding hashOf ops)
      session' := by
  induction ops generalizing session events answers with
  | nil =>
      obtain ⟨-, rfl⟩ := Prod.mk.inj (Option.some.inj run)
      simpa [Session.events] using records
  | cons op ops inductionHypothesis =>
      obtain ⟨answer, next, rest, steps, run, -⟩ := Session.run_cons run
      simp only [Session.AdmitsAll, steps, Option.elim_some] at admits
      have after := inductionHypothesis (.step records admits.1 admits.2.1 steps) admits.2.2
        run
      simpa [Session.events, steps] using after

/-- An entry that is replaced while it is pinned, and one that is rejected. -/
def replacingOps : List Op :=
  [.insert ⟨[1], 10, 2, some 7, true, .low, false⟩,
    .insert ⟨[1], 11, 1, some 7, false, .low, false⟩,
    .insert ⟨[2], 12, 2, some 7, true, .low, false⟩, .release 1]

end LRUCacheShard
end Cache
end RocksUtil
