import RocksUtil.Cache.Insertion

/-!
# Runs of a shard

Sequences of calls, with the handles that the callers hold in between.  A call that a
caller may make returns unless the counter of the entry it works on has wrapped, and it
leaves the accounts complete.
-/

namespace RocksUtil
namespace Cache
namespace LRUCacheShard

open LRUHandleTable (Represents Finds without displace)

/-- A call of a method of the shard. -/
inductive Op
  | insert (insertion : Insertion)
  | lookup (key : Bytes)
  | release (e : Address)
  | erase (key : Bytes)
  | setCapacity (capacity : UInt64)
  | setStrictCapacityLimit (strictCapacityLimit : Bool)
  | setHighPriorityPoolRatio (highPriPoolRatio : ℚ)
  | eraseUnRefEntries

/-- What a call returns. -/
inductive Answer
  | inserted (status : Status) (handle : Option Address)
  | found (handle : Option Address)
  | done
  deriving DecidableEq, Repr

/-- Make a call.  The hash is computed from the key, as `ShardedCache` does. -/
def call
    (rounding : Rounding)
    (hashOf : Bytes → UInt32)
    (shard : LRUCacheShard) : Op → Option (Answer × LRUCacheShard)
  | .insert insertion => do
      let (status, handle, shard) ←
        shard.insert rounding (hashOf insertion.key) insertion
      some (.inserted status handle, shard)
  | .lookup key => do
      let (handle, shard) ← shard.lookup key (hashOf key)
      some (.found handle, shard)
  | .release e => do
      let shard ← shard.release rounding e
      some (.done, shard)
  | .erase key => do
      let shard ← shard.erase key (hashOf key)
      some (.done, shard)
  | .setCapacity capacity => do
      let shard ← shard.setCapacity rounding capacity
      some (.done, shard)
  | .setStrictCapacityLimit strictCapacityLimit =>
      some (.done, shard.setStrictCapacityLimit strictCapacityLimit)
  | .setHighPriorityPoolRatio highPriPoolRatio => do
      let shard ← shard.setHighPriorityPoolRatio rounding highPriPoolRatio
      some (.done, shard)
  | .eraseUnRefEntries => do
      let shard ← shard.eraseUnRefEntries
      some (.done, shard)

/-- The handle that a call gives out. -/
def Answer.handle : Answer → Option Address
  | .inserted _ handle => handle
  | .found handle => handle
  | .done => none

/-- The handles that are left after a call has taken one back. -/
def Op.returned : Op → List Address → List Address
  | .release e, handles => handles.erase e
  | _, handles => handles

/-- A shard, and the handles given out and not yet released, one for each time. -/
structure Session where
  shard : LRUCacheShard
  handles : List Address

/-- Make a call, and keep account of the handles. -/
def Session.step
    (rounding : Rounding)
    (hashOf : Bytes → UInt32)
    (session : Session)
    (op : Op) : Option (Answer × Session) := do
  let (answer, shard) ← session.shard.call rounding hashOf op
  some (answer, ⟨shard, answer.handle.toList ++ op.returned session.handles⟩)

/-- The calls that may be made: the charges of all entries stay below `2 ^ 64`, a
handle is released by someone who holds it, and the ratio has passed the check of
`NewLRUCache`. -/
def Session.Admits (session : Session) : Op → Prop
  | .insert insertion =>
      totalCharge session.shard.heap session.shard.fresh ∅ + insertion.charge.toNat <
        2 ^ 64
  | .release e => e ∈ session.handles
  | .setHighPriorityPoolRatio highPriPoolRatio => 0 ≤ highPriPoolRatio
  | _ => True

instance (session : Session) : (op : Op) → Decidable (session.Admits op)
  | .insert _ => inferInstanceAs (Decidable (_ < _))
  | .release e => inferInstanceAs (Decidable (e ∈ session.handles))
  | .setHighPriorityPoolRatio ratio => inferInstanceAs (Decidable (0 ≤ ratio))
  | .lookup _ => isTrue trivial
  | .erase _ => isTrue trivial
  | .setCapacity _ => isTrue trivial
  | .setStrictCapacityLimit _ => isTrue trivial
  | .eraseUnRefEntries => isTrue trivial

/-- The counter of the entry that a call works on has not wrapped.  `Lookup` does not mind
a counter that has wrapped to zero. -/
def Session.Counts (session : Session) : Op → Prop
  | .insert insertion => TurnedAway session.shard insertion ∨
      ∀ e handle, session.shard.heap e = some handle → handle.inCache = true →
        handle.key = insertion.key → session.handles.count e + 1 < 2 ^ 32
  | .lookup key => ∀ e handle, session.shard.heap e = some handle →
      handle.inCache = true → handle.key = key → session.handles.count e < 2 ^ 32
  | .release e => session.handles.count e + 1 < 2 ^ 32
  | .erase key => ∀ e handle, session.shard.heap e = some handle →
      handle.inCache = true → handle.key = key → session.handles.count e + 1 < 2 ^ 32
  | _ => True

/-- No entry has `2 ^ 32 - 1` handles given out. -/
def Session.Uncrowded (session : Session) : Prop :=
  ∀ e ∈ session.handles, session.handles.count e + 1 < 2 ^ 32

instance (session : Session) : Decidable session.Uncrowded :=
  inferInstanceAs (Decidable (∀ e ∈ session.handles, _))

/-- The 32-bit counters have room for a call: no entry has `2 ^ 32 - 1` handles given out,
and an insertion finds fewer than `2 ^ 31` entries in the table, beyond which the length
of the table overflows in `Resize`. -/
def Session.Roomy (session : Session) : Op → Prop
  | .insert _ => session.Uncrowded ∧ session.shard.table.elems < 2 ^ 31
  | _ => session.Uncrowded

instance (session : Session) : (op : Op) → Decidable (session.Roomy op)
  | .insert _ => inferInstanceAs (Decidable (_ ∧ _))
  | .lookup _ => inferInstanceAs (Decidable session.Uncrowded)
  | .release _ => inferInstanceAs (Decidable session.Uncrowded)
  | .erase _ => inferInstanceAs (Decidable session.Uncrowded)
  | .setCapacity _ => inferInstanceAs (Decidable session.Uncrowded)
  | .setStrictCapacityLimit _ => inferInstanceAs (Decidable session.Uncrowded)
  | .setHighPriorityPoolRatio _ => inferInstanceAs (Decidable session.Uncrowded)
  | .eraseUnRefEntries => inferInstanceAs (Decidable session.Uncrowded)

theorem Session.Roomy.uncrowded
    {session : Session}
    {op : Op}
    (roomy : session.Roomy op) : session.Uncrowded := by
  cases op with
  | insert insertion => exact roomy.1
  | _ => exact roomy

theorem Session.Uncrowded.count_lt
    {session : Session}
    (uncrowded : session.Uncrowded)
    (e : Address) : session.handles.count e + 1 < 2 ^ 32 := by
  by_cases held : e ∈ session.handles
  · exact uncrowded e held
  · rw [List.count_eq_zero.mpr held]
    omega

theorem Session.Uncrowded.counts
    {session : Session}
    (uncrowded : session.Uncrowded)
    (op : Op) : session.Counts op := by
  cases op with
  | insert insertion => exact Or.inr (fun e _ _ _ _ => uncrowded.count_lt e)
  | lookup key => exact fun e _ _ _ _ => Nat.lt_of_succ_lt (uncrowded.count_lt e)
  | release e => exact uncrowded.count_lt e
  | erase key => exact fun e _ _ _ _ => uncrowded.count_lt e
  | _ => exact trivial

/-- Make calls, one after another. -/
def Session.run
    (rounding : Rounding)
    (hashOf : Bytes → UInt32) : Session → List Op → Option (List Answer × Session)
  | session, [] => some ([], session)
  | session, op :: ops => do
      let (answer, session) ← session.step rounding hashOf op
      let (answers, session) ← run rounding hashOf session ops
      some (answer :: answers, session)

/-- The first call of a run. -/
theorem Session.run_cons
    {rounding : Rounding}
    {hashOf : Bytes → UInt32}
    {session last : Session}
    {op : Op}
    {ops : List Op}
    {answers : List Answer}
    (run : session.run rounding hashOf (op :: ops) = some (answers, last)) :
    ∃ answer next rest, session.step rounding hashOf op = some (answer, next) ∧
      next.run rounding hashOf ops = some (rest, last) ∧ answers = answer :: rest := by
  simp only [Session.run, Option.bind_eq_bind, Option.bind_eq_some_iff, Option.some.injEq,
    Prod.mk.injEq] at run
  obtain ⟨⟨answer, next⟩, steps, ⟨rest, last⟩, run, isFirst, rfl⟩ := run
  exact ⟨answer, next, rest, steps, run, isFirst.symm⟩

/-- The calls may be made one after another, and `permitted` allows them. -/
def Session.AdmitsAll
    (rounding : Rounding)
    (hashOf : Bytes → UInt32)
    (permitted : Session → Op → Prop) : Session → List Op → Prop
  | _, [] => True
  | session, op :: ops =>
      session.Admits op ∧ permitted session op ∧
        (session.step rounding hashOf op).elim True
          (fun result => AdmitsAll rounding hashOf permitted result.2 ops)

instance Session.decidableAdmitsAll
    (rounding : Rounding)
    (hashOf : Bytes → UInt32)
    (permitted : Session → Op → Prop)
    [∀ session op, Decidable (permitted session op)] :
    (session : Session) → (ops : List Op) →
      Decidable (session.AdmitsAll rounding hashOf permitted ops)
  | _, [] => isTrue trivial
  | session, op :: ops =>
      have : Decidable ((session.step rounding hashOf op).elim True
          (fun result => AdmitsAll rounding hashOf permitted result.2 ops)) :=
        match session.step rounding hashOf op with
        | none => isTrue trivial
        | some result => decidableAdmitsAll rounding hashOf permitted result.2 ops
      inferInstanceAs (Decidable (_ ∧ _ ∧ _))

/-- A new shard, set up as the constructor of `LRUCache` does it.  What the members
that are not initialised held before is arbitrary. -/
def setUp
    (rounding : Rounding)
    (memory : UInt64 × Bool × ℚ × ℚ)
    (capacity : UInt64)
    (strictCapacityLimit : Bool)
    (highPriPoolRatio : ℚ) : Option LRUCacheShard := do
  let shard := new memory.1 memory.2.1 memory.2.2.1 memory.2.2.2
  let shard ← shard.setCapacity rounding capacity
  let shard := shard.setStrictCapacityLimit strictCapacityLimit
  shard.setHighPriorityPoolRatio rounding highPriPoolRatio

/-- One session follows from another by calls that may be made and that `permitted`
allows. -/
inductive Session.Continues
    (rounding : Rounding)
    (hashOf : Bytes → UInt32)
    (permitted : Session → Op → Prop)
    (start : Session) : Session → Prop
  | refl : Continues rounding hashOf permitted start start
  | step
      {session session' : Session}
      {op : Op}
      {answer : Answer}
      (before : Continues rounding hashOf permitted start session)
      (admits : session.Admits op)
      (permits : permitted session op)
      (steps : session.step rounding hashOf op = some (answer, session')) :
      Continues rounding hashOf permitted start session'

theorem Session.Continues.head
    {rounding : Rounding}
    {hashOf : Bytes → UInt32}
    {permitted : Session → Op → Prop}
    {start next session : Session}
    {op : Op}
    {answer : Answer}
    (admits : start.Admits op)
    (permits : permitted start op)
    (steps : start.step rounding hashOf op = some (answer, next))
    (after : Continues rounding hashOf permitted next session) :
    Continues rounding hashOf permitted start session := by
  induction after with
  | refl => exact .step .refl admits permits steps
  | step _ admits permits steps inductionHypothesis =>
      exact .step inductionHypothesis admits permits steps

/-- The last session of a run follows from the first. -/
theorem Session.AdmitsAll.continues
    {rounding : Rounding}
    {hashOf : Bytes → UInt32}
    {permitted : Session → Op → Prop}
    {session session' : Session}
    {ops : List Op}
    {answers : List Answer}
    (admits : session.AdmitsAll rounding hashOf permitted ops)
    (run : session.run rounding hashOf ops = some (answers, session')) :
    Session.Continues rounding hashOf permitted session session' := by
  induction ops generalizing session answers with
  | nil =>
      obtain ⟨-, rfl⟩ := Prod.mk.inj (Option.some.inj run)
      exact .refl
  | cons op ops inductionHypothesis =>
      obtain ⟨answer, next, rest, steps, run, -⟩ := Session.run_cons run
      simp only [AdmitsAll, steps, Option.elim_some] at admits
      exact .head admits.1 admits.2.1 steps (inductionHypothesis admits.2.2 run)

/-- The sessions that calls lead to from a new shard. -/
def Session.Reachable
    (rounding : Rounding)
    (hashOf : Bytes → UInt32)
    (permitted : Session → Op → Prop)
    (session : Session) : Prop :=
  ∃ memory capacity strictCapacityLimit highPriPoolRatio shard,
    0 ≤ highPriPoolRatio ∧
    setUp rounding memory capacity strictCapacityLimit highPriPoolRatio = some shard ∧
    Session.Continues rounding hashOf permitted ⟨shard, []⟩ session

/-- Between two calls, the accounts are complete, and entries are on the list only
while the capacity is not exceeded. -/
structure Resting
    (hashOf : Bytes → UInt32)
    (session : Session)
    (low high : List Address) : Prop where
  consistent : Consistent hashOf session.shard session.handles ∅ low high
  fits : session.shard.capacity.toNat < session.shard.usage.toNat → low ++ high = []
  ratio : 0 ≤ session.shard.highPriPoolRatio

variable {rounding : Rounding} {hashOf : Bytes → UInt32}
  {permitted : Session → Op → Prop} {session session' : Session}
  {low high low' high' : List Address} {op : Op} {answer : Answer}

/-- An insertion that may be made does not overflow the usage. -/
theorem Resting.room
    {insertion : Insertion}
    (resting : Resting hashOf session low high)
    (admits : session.Admits (.insert insertion)) :
    session.shard.usage.toNat + insertion.charge.toNat < 2 ^ 64 := by
  rw [resting.consistent.accounts.usage]
  exact admits

/-- The members after the set-up. -/
theorem setUp_eq
    (rounding : Rounding)
    (memory : UInt64 × Bool × ℚ × ℚ)
    (capacity : UInt64)
    (strictCapacityLimit : Bool)
    {highPriPoolRatio : ℚ}
    (nonneg : 0 ≤ highPriPoolRatio) :
    setUp rounding memory capacity strictCapacityLimit highPriPoolRatio =
      some (new capacity strictCapacityLimit highPriPoolRatio
        (rounding.round (rounding.round capacity.toNat * highPriPoolRatio))) := by
  have poolNonneg := rounding.poolCapacity_nonneg capacity nonneg
  simp only [setUp, new, setCapacity, evictFromLRU, setStrictCapacityLimit,
    setHighPriorityPoolRatio, maintainPoolSize]
  simp [freeAll, rounding.round_zero, poolNonneg]

/-- A new shard refers to nothing. -/
theorem resting_new
    (hashOf : Bytes → UInt32)
    (capacity : UInt64)
    (strictCapacityLimit : Bool)
    {highPriPoolRatio highPriPoolCapacity : ℚ}
    (ratio : 0 ≤ highPriPoolRatio)
    (nonneg : 0 ≤ highPriPoolCapacity) :
    Resting hashOf
      ⟨new capacity strictCapacityLimit highPriPoolRatio highPriPoolCapacity, []⟩ [] [] where
  consistent :=
    { accounts :=
        { started := by simp [new, lru]
          bounded := by simp [new]
          list :=
            { ring := by
                refine ⟨?_, by simp, ?_⟩
                · simp [Ring.Segment, new]
                · intro node elsewhere
                  have other : node ≠ lru := by simpa using elsewhere
                  simp [new, other]
              lowest := rfl
              flagged := by simp
              lruUsage := rfl
              highPriPoolUsage := rfl }
          usage := by simp [new, totalCharge, chargeAt]
          counted := by simp [new]
          onList := by simp [new]
          held := by simp
          nonneg := nonneg }
      table := by
        have empty : cached (new capacity strictCapacityLimit highPriPoolRatio
            highPriPoolCapacity).heap ∅ = ∅ := by
          ext address
          simp [cached, new]
        rw [empty]
        exact LRUHandleTable.represents_new hashOf _ }
  fits := by simp [new]
  ratio := ratio

/-- The shard, once an operation has changed the settings or has allocated the entry
that it is going to keep. -/
def prepare (hashOf : Bytes → UInt32) (shard : LRUCacheShard) (op : Op) (answer : Answer) :
    LRUCacheShard :=
  match op, answer with
  | .insert insertion, .inserted status _ =>
      if status.ok then shard.allocate (insertion.entry (hashOf insertion.key))
      else { shard with fresh := shard.fresh + 1 }
  | .setCapacity capacity, _ => { shard with capacity := capacity }
  | .setStrictCapacityLimit strictCapacityLimit, _ =>
      { shard with strictCapacityLimit := strictCapacityLimit }
  | .setHighPriorityPoolRatio highPriPoolRatio, _ =>
      { shard with highPriPoolRatio := highPriPoolRatio }
  | _, _ => shard

/-- What a call has done: it has freed `freed`, and it has not exceeded the capacity
any further unless it was allowed to. -/
structure Advances
    (rounding : Rounding)
    (hashOf : Bytes → UInt32)
    (session : Session)
    (op : Op)
    (answer : Answer)
    (session' : Session)
    (freed : List Address) : Prop where
  steps : session.step rounding hashOf op = some (answer, session')
  resting : ∃ low high, Resting hashOf session' low high
  settles : Settles (prepare hashOf session.shard op answer) session'.shard freed
  usage : session'.shard.usage.toNat ≤ session.shard.usage.toNat ∨
    session'.shard.usage.toNat ≤ session'.shard.capacity.toNat ∨
      session.shard.strictCapacityLimit = false

/-- An entry is there before a call, or the call is its insertion. -/
theorem heap_prepare
    {shard : LRUCacheShard}
    {address : Address}
    {handle : LRUHandle}
    (found : (prepare hashOf shard op answer).heap address = some handle) :
    shard.heap address = some handle ∨ ∃ insertion, op = .insert insertion ∧
      handle = insertion.entry (hashOf insertion.key) := by
  cases op with
  | insert insertion =>
      cases answer with
      | inserted status result =>
          cases isOk : status.ok with
          | true =>
              simp only [prepare, isOk, if_true] at found
              by_cases isNew : address = shard.fresh
              · rw [isNew, heap_allocate_fresh] at found
                exact Or.inr ⟨insertion, rfl, (Option.some.inj found).symm⟩
              · rw [heap_allocate_of_ne isNew] at found
                exact Or.inl found
          | false =>
              simp only [prepare, isOk] at found
              exact Or.inl found
      | found result => exact Or.inl found
      | done => exact Or.inl found
  | _ => exact Or.inl found

/-- What is there behind a call was there before, or is what the call has inserted. -/
theorem Advances.heap_before
    {address : Address}
    {handle' : LRUHandle}
    {freed : List Address}
    (advances : Advances rounding hashOf session op answer session' freed)
    (found' : session'.shard.heap address = some handle') :
    ∃ handle, (prepare hashOf session.shard op answer).heap address = some handle ∧
      handle'.identity = handle.identity ∧
      (handle'.inCache = true → handle.inCache = true) := by
  have notFreed : address ∉ freed := by
    intro isFreed
    simp [(advances.settles.released address isFreed).1] at found'
  cases found : (prepare hashOf session.shard op answer).heap address with
  | none => simp [advances.settles.missing address found] at found'
  | some handle =>
      obtain ⟨handle'', found'', same, inCache⟩ :=
        advances.settles.present address handle found notFreed
      obtain rfl : handle' = handle'' := Option.some.inj (found'.symm.trans found'')
      exact ⟨handle, rfl, same, inCache⟩

theorem Session.step_eq
    {shard : LRUCacheShard}
    (run : session.shard.call rounding hashOf op = some (answer, shard)) :
    session.step rounding hashOf op =
      some (answer, ⟨shard, answer.handle.toList ++ op.returned session.handles⟩) := by
  simp [step, run]

theorem Session.handles_of_step
    (steps : session.step rounding hashOf op = some (answer, session')) :
    session'.handles = answer.handle.toList ++ op.returned session.handles := by
  cases run : session.shard.call rounding hashOf op with
  | none => simp [step, run] at steps
  | some result =>
      obtain ⟨answer₁, shard⟩ := result
      rw [step_eq run] at steps
      obtain ⟨rfl, rfl⟩ := Prod.mk.inj (Option.some.inj steps)
      rfl

/-- A call that does not lengthen the list beyond what fits. -/
theorem Resting.shrink
    {shard : LRUCacheShard}
    {handles : List Address}
    (resting : Resting hashOf session low high)
    (consistent : Consistent hashOf shard handles ∅ low' high')
    (capacity : shard.capacity = session.shard.capacity)
    (ratio : shard.highPriPoolRatio = session.shard.highPriPoolRatio)
    (usage : shard.usage.toNat ≤ session.shard.usage.toNat)
    (nodes : low ++ high = [] → low' ++ high' = []) :
    Resting hashOf ⟨shard, handles⟩ low' high' where
  consistent := consistent
  fits overfull := by
    have overfull : shard.capacity.toNat < shard.usage.toNat := overfull
    apply nodes
    apply resting.fits
    rw [capacity] at overfull
    omega
  ratio := by
    rw [ratio]
    exact resting.ratio

/-- A call that neither changes the settings nor allocates an entry. -/
theorem Settles.advances
    {shard : LRUCacheShard}
    {freed : List Address}
    (run : session.shard.call rounding hashOf op = some (answer, shard))
    (unprepared : prepare hashOf session.shard op answer = session.shard)
    (resting : Resting hashOf session low high)
    (settles : Settles session.shard shard freed)
    (consistent : Consistent hashOf shard
      (answer.handle.toList ++ op.returned session.handles) ∅ low' high')
    (usage : shard.usage.toNat ≤ session.shard.usage.toNat)
    (nodes : low ++ high = [] → low' ++ high' = []) :
    ∃ session' freed, Advances rounding hashOf session op answer session' freed := by
  refine ⟨_, freed, Session.step_eq run, ⟨low', high', ?_⟩, ?_, Or.inl usage⟩
  · exact resting.shrink consistent settles.capacity settles.highPriPoolRatio usage nodes
  · rw [unprepared]
    exact settles

theorem Consistent.toNat_sub_le
    {shard : LRUCacheShard}
    {handles : List Address}
    {e : Address}
    {handle : LRUHandle}
    (consistent : Consistent hashOf shard handles ∅ low high)
    (found : shard.heap e = some handle) :
    (shard.usage - handle.charge).toNat ≤ shard.usage.toNat := by
  have split := consistent.accounts.toNat_usage_sub found (by simp)
  omega

/-- The usage goes down with the charges. -/
theorem Accounts.usage_le
    {shard shard' : LRUCacheShard}
    {handles handles' : List Address}
    (accounts : Accounts shard handles ∅ low high)
    (accounts' : Accounts shard' handles' ∅ low' high')
    (fresh : shard.fresh ≤ shard'.fresh)
    (charges : ∀ address, chargeAt shard'.heap address ≤ chargeAt shard.heap address) :
    shard'.usage.toNat ≤ shard.usage.toNat := by
  have beyond : ∀ address ∈ Finset.range shard'.fresh,
      address ∉ Finset.range shard.fresh → chargeAt shard.heap address = 0 := by
    intro address _ outside
    cases found : shard.heap address with
    | none => simp [chargeAt, found]
    | some handle =>
        have bounded := (accounts.bounded address handle found).2
        exact absurd (Finset.mem_range.mpr bounded) outside
  rw [accounts.usage, accounts'.usage, totalCharge, totalCharge, Finset.sdiff_empty,
    Finset.sdiff_empty, Finset.sum_subset (Finset.range_mono fresh) beyond]
  exact Finset.sum_le_sum (fun address _ => charges address)

theorem Settles.chargeAt_le
    {shard shard' : LRUCacheShard}
    {freed : List Address}
    (settles : Settles shard shard' freed)
    (address : Address) :
    chargeAt shard'.heap address ≤ chargeAt shard.heap address := by
  by_cases isFreed : address ∈ freed
  · simp [chargeAt, (settles.released address isFreed).1]
  · cases found : shard.heap address with
    | none => simp [chargeAt, settles.missing address found]
    | some handle =>
        obtain ⟨handle', found', same, -⟩ :=
          settles.present address handle found isFreed
        rw [chargeAt_of_some found, chargeAt_of_some found', LRUHandle.charge_eq same]

/-- Either the cache has an entry for a key, or it finds none. -/
theorem cached_or_finds_none
    (heap : Heap)
    (key : Bytes) :
    (∃ e handle, heap e = some handle ∧ handle.inCache = true ∧ handle.key = key) ∨
      Finds heap (cached heap ∅) key none := by
  by_cases present : ∃ e handle, heap e = some handle ∧ handle.inCache = true ∧
      handle.key = key
  · exact Or.inl present
  · refine Or.inr ?_
    rintro e ⟨handle, found, -, inCache⟩ handle' found' sameKey
    obtain rfl : handle = handle' := Option.some.inj (found.symm.trans found')
    exact present ⟨e, handle, found, inCache, sameKey⟩

theorem lookup_advances
    (resting : Resting hashOf session low high)
    (key : Bytes)
    (counts : session.Counts (.lookup key)) :
    ∃ answer session' freed,
      Advances rounding hashOf session (.lookup key) answer session' freed := by
  obtain ⟨e, handle, found, inCache, rfl⟩ | missing :=
    cached_or_finds_none session.shard.heap key
  · obtain ⟨shard, low', high', run, consistent, nodes, -, keeps, -, usage⟩ :=
      lookup_present resting.consistent found inCache (counts e handle found inCache rfl)
    refine ⟨.found (some e), Settles.advances (by simp [call, run]) rfl resting
      keeps.settles consistent (by rw [usage]) ?_⟩
    intro empty
    simp [nodes, empty]
  · have run := lookup_missing resting.consistent missing
    exact ⟨.found none, Settles.advances (by simp [call, run]) rfl resting
      (Keeps.refl _).settles resting.consistent le_rfl id⟩

theorem release_advances
    {e : Address}
    (resting : Resting hashOf session low high)
    (held : e ∈ session.handles)
    (counts : session.Counts (.release e)) :
    ∃ answer session' freed,
      Advances rounding hashOf session (.release e) answer session' freed := by
  obtain ⟨-, handle, found⟩ := resting.consistent.accounts.held e held
  have heldCount := List.count_pos_iff.mpr held
  by_cases last : session.handles.count e = 1
  · cases inCache : handle.inCache with
    | true =>
        by_cases overfull : session.shard.usage > session.shard.capacity
        · have empty := resting.fits (UInt64.lt_iff_toNat_lt.mp overfull)
          obtain ⟨rfl, rfl⟩ := List.append_eq_nil_iff.mp empty
          obtain ⟨shard, run, consistent, settles, usage, -⟩ :=
            release_overfull rounding resting.consistent found inCache last overfull
          refine ⟨.done, Settles.advances (by simp [call, run]) rfl resting settles
            consistent ?_ id⟩
          rw [usage]
          exact resting.consistent.toNat_sub_le found
        · obtain ⟨shard, low', high', run, consistent, keeps, usage, -, -⟩ :=
            release_listed rounding resting.consistent found inCache last overfull
          have fits : session.shard.usage.toNat ≤ session.shard.capacity.toNat :=
            UInt64.le_iff_toNat_le.mp (UInt64.not_lt.mp overfull)
          refine ⟨.done, ⟨shard, _⟩, [], Session.step_eq (by simp [call, run]),
            ⟨low', high', consistent, ?_, ?_⟩, keeps.settles, Or.inl ?_⟩
          · intro exceeds
            have exceeds : shard.capacity.toNat < shard.usage.toNat := exceeds
            rw [keeps.capacity, usage] at exceeds
            omega
          · exact keeps.highPriPoolRatio.symm ▸ resting.ratio
          · exact usage ▸ le_rfl
    | false =>
        obtain ⟨shard, run, consistent, settles, usage, -⟩ :=
          release_last rounding resting.consistent found inCache last
        refine ⟨.done, Settles.advances (by simp [call, run]) rfl resting settles
          consistent ?_ id⟩
        rw [usage]
        exact resting.consistent.toNat_sub_le found
  · obtain ⟨shard, run, consistent, keeps, usage, -⟩ :=
      release_shared rounding resting.consistent found (by omega) counts
    exact ⟨.done, Settles.advances (by simp [call, run]) rfl resting keeps.settles
      consistent (by rw [usage]) id⟩

theorem erase_advances
    (resting : Resting hashOf session low high)
    (key : Bytes)
    (counts : session.Counts (.erase key)) :
    ∃ answer session' freed,
      Advances rounding hashOf session (.erase key) answer session' freed := by
  obtain ⟨e, handle, found, inCache, rfl⟩ | missing :=
    cached_or_finds_none session.shard.heap key
  · by_cases held : e ∈ session.handles
    · obtain ⟨shard, run, consistent, keeps, usage, -⟩ :=
        erase_pinned resting.consistent found inCache held
          (counts e handle found inCache rfl)
      exact ⟨.done, Settles.advances (by simp [call, run]) rfl resting keeps.settles
        consistent (by rw [usage]) id⟩
    · obtain ⟨shard, low', high', run, consistent, nodes, -, settles, usage, -⟩ :=
        erase_unpinned resting.consistent found inCache held
      refine ⟨.done, Settles.advances (by simp [call, run]) rfl resting settles
        consistent ?_ ?_⟩
      · rw [usage]
        exact resting.consistent.toNat_sub_le found
      · intro empty
        simp [nodes, empty]
  · obtain ⟨table, run, consistent⟩ := erase_missing resting.consistent missing
    have keeps : Keeps session.shard { session.shard with table := table } :=
      { Keeps.refl session.shard with }
    exact ⟨.done, Settles.advances (by simp [call, run]) rfl resting keeps.settles
      consistent le_rfl id⟩

theorem setCapacity_advances
    (resting : Resting hashOf session low high)
    (capacity : UInt64) :
    ∃ answer session' freed,
      Advances rounding hashOf session (.setCapacity capacity) answer session' freed := by
  obtain ⟨evicted, shard, low', high', run, -, -, -, consistent, settles, fits, -⟩ :=
    setCapacity_spec rounding resting.consistent resting.ratio capacity
  refine ⟨.done, ⟨shard, _⟩, evicted, Session.step_eq (by simp [call, run]),
    ⟨low', high', consistent, ?_, ?_⟩, settles, Or.inl ?_⟩
  · intro overfull
    have overfull : shard.capacity.toNat < shard.usage.toNat := overfull
    rw [settles.capacity] at overfull
    exact fits.resolve_left (not_le.mpr overfull)
  · exact settles.highPriPoolRatio.symm ▸ resting.ratio
  · exact resting.consistent.accounts.usage_le consistent.accounts
      settles.fresh.ge settles.chargeAt_le

theorem setStrictCapacityLimit_advances
    (resting : Resting hashOf session low high)
    (strictCapacityLimit : Bool) :
    ∃ answer session' freed, Advances rounding hashOf session
      (.setStrictCapacityLimit strictCapacityLimit) answer session' freed := by
  have accounts := resting.consistent.accounts
  have same : Consistent hashOf (session.shard.setStrictCapacityLimit strictCapacityLimit)
      session.handles ∅ low high :=
    { accounts := { accounts with list := { accounts.list with } }
      table := resting.consistent.table }
  exact ⟨.done, ⟨session.shard.setStrictCapacityLimit strictCapacityLimit, _⟩, [],
    Session.step_eq rfl, ⟨low, high, same, resting.fits, resting.ratio⟩,
    (Keeps.refl _).settles, Or.inl le_rfl⟩

theorem setHighPriorityPoolRatio_advances
    {ratio : ℚ}
    (resting : Resting hashOf session low high)
    (nonneg : 0 ≤ ratio) :
    ∃ answer session' freed, Advances rounding hashOf session
      (.setHighPriorityPoolRatio ratio) answer session' freed := by
  obtain ⟨shard, moved, rest, run, consistent, split, settles, usage, -, -⟩ :=
    setHighPriorityPoolRatio_spec rounding resting.consistent nonneg
  refine ⟨.done, ⟨shard, _⟩, [], Session.step_eq (by simp [call, run]),
    ⟨low ++ moved, rest, consistent, ?_, ?_⟩, settles, Or.inl ?_⟩
  · intro overfull
    have overfull : shard.capacity.toNat < shard.usage.toNat := overfull
    rw [settles.capacity, usage] at overfull
    rw [List.append_assoc, ← split]
    exact resting.fits overfull
  · exact settles.highPriPoolRatio.symm ▸ nonneg
  · exact usage ▸ le_rfl

theorem eraseUnRefEntries_advances
    (resting : Resting hashOf session low high) :
    ∃ answer session' freed,
      Advances rounding hashOf session .eraseUnRefEntries answer session' freed := by
  obtain ⟨shard, run, consistent, settles, -⟩ := eraseUnRefEntries_spec resting.consistent
  refine ⟨.done, Settles.advances (by simp [call, run]) rfl resting settles consistent ?_
    (fun _ => rfl)⟩
  exact resting.consistent.accounts.usage_le consistent.accounts settles.fresh.ge
    settles.chargeAt_le

theorem insert_advances
    {insertion : Insertion}
    (resting : Resting hashOf session low high)
    (admits : session.Admits (.insert insertion))
    (counts : session.Counts (.insert insertion)) :
    ∃ answer session' freed,
      Advances rounding hashOf session (.insert insertion) answer session' freed := by
  have accounts := resting.consistent.accounts
  have room := resting.room admits
  by_cases turnedAway : TurnedAway session.shard insertion
  · cases handle : insertion.handle with
    | false =>
        obtain ⟨shard, run, consistent, settles, others⟩ :=
          insert_dropped rounding resting.consistent room turnedAway handle
        refine ⟨.inserted Status.OK none, ⟨shard, _⟩, _,
          Session.step_eq (by simp [call, run]),
          ⟨[], [], consistent, fun _ => rfl, settles.highPriPoolRatio.symm ▸ resting.ratio⟩,
          settles, Or.inl ?_⟩
        refine accounts.usage_le consistent.accounts ?_ ?_
        · rw [settles.fresh]
          exact Nat.le_succ _
        · intro address
          by_cases isFreed : address ∈ low ++ high ++ [session.shard.fresh]
          · simp [chargeAt, (settles.released address isFreed).1]
          · simp only [List.mem_append, List.mem_singleton, not_or] at isFreed
            rw [chargeAt, others address (by simp [isFreed]) isFreed.2, chargeAt]
    | true =>
        obtain ⟨shard, run, consistent, settles, -⟩ :=
          insert_rejected rounding resting.consistent room turnedAway handle
        refine ⟨.inserted (Status.Incomplete "Insert failed due to LRU cache being full.")
            none, ⟨shard, _⟩, _, Session.step_eq (by simp [call, run]),
          ⟨[], [], consistent, fun _ => rfl, settles.highPriPoolRatio.symm ▸ resting.ratio⟩,
          settles, Or.inl ?_⟩
        refine accounts.usage_le consistent.accounts ?_ settles.chargeAt_le
        rw [settles.fresh]
        exact Nat.le_succ _
  · obtain ⟨evicted, old, shard, low', high', run, consistent, -, -, settles, -, -, usage,
      -⟩ := insert_accepted rounding resting.consistent room turnedAway
        (counts.resolve_left turnedAway)
    have unchanged : shard.capacity = session.shard.capacity := settles.capacity
    refine ⟨.inserted Status.OK (if insertion.handle then some session.shard.fresh else none),
      ⟨shard, _⟩, _, Session.step_eq (by simp [call, run]), ⟨low', high', ?_, ?_, ?_⟩,
      settles, ?_⟩
    · have held : heldAfter insertion session.shard.fresh session.handles =
          (if insertion.handle then some session.shard.fresh else none).toList ++
            session.handles := by
        cases handle : insertion.handle <;> simp [heldAfter, handle]
      exact held ▸ consistent
    · intro overfull
      have overfull : shard.capacity.toNat < shard.usage.toNat := overfull
      rw [unchanged] at overfull
      exact (usage.resolve_left (not_le.mpr overfull)).1
    · exact settles.highPriPoolRatio.symm ▸ resting.ratio
    · rcases usage with fits | ⟨-, notStrict⟩
      · exact Or.inr (Or.inl (unchanged.symm ▸ fits))
      · exact Or.inr (Or.inr notStrict)

/-- The accounts name the list that a shard has. -/
theorem Resting.relist
    (resting : Resting hashOf session low high)
    (consistent : Consistent hashOf session.shard session.handles ∅ low' high') :
    Resting hashOf session low' high' where
  consistent := consistent
  fits overfull := by
    have empty := resting.fits overfull
    rw [List.eq_nil_iff_forall_not_mem]
    intro e within
    have onList := (resting.consistent.accounts.onList e).mpr
      ((consistent.accounts.onList e).mp within)
    simp [empty] at onList
  ratio := resting.ratio

/-- A call that may be made returns if the counter it works on has not wrapped. -/
theorem Resting.advances
    (rounding : Rounding)
    (resting : Resting hashOf session low high)
    (admits : session.Admits op)
    (counts : session.Counts op) :
    ∃ answer session' freed,
      Advances rounding hashOf session op answer session' freed := by
  cases op with
  | insert insertion => exact insert_advances resting admits counts
  | lookup key => exact lookup_advances resting key counts
  | release e => exact release_advances resting admits counts
  | erase key => exact erase_advances resting key counts
  | setCapacity capacity => exact setCapacity_advances resting capacity
  | setStrictCapacityLimit strictCapacityLimit =>
      exact setStrictCapacityLimit_advances resting strictCapacityLimit
  | setHighPriorityPoolRatio ratio =>
      exact setHighPriorityPoolRatio_advances resting admits
  | eraseUnRefEntries => exact eraseUnRefEntries_advances resting

/-- A call that has been made found a counter that had not wrapped. -/
theorem Resting.counts_of_step
    (resting : Resting hashOf session low high)
    (admits : session.Admits op)
    (steps : session.step rounding hashOf op = some (answer, session')) :
    session.Counts op := by
  have fails (run : session.shard.call rounding hashOf op = none) : False := by
    simp [Session.step, run] at steps
  cases op with
  | insert insertion =>
      by_cases turnedAway : TurnedAway session.shard insertion
      · exact Or.inl turnedAway
      · refine Or.inr (fun e handle found inCache sameKey => ?_)
        by_contra many
        have run := insert_wrapped rounding resting.consistent (resting.room admits) turnedAway
          found inCache sameKey (not_lt.mp many)
        exact fails (by simp [call, run])
  | lookup key =>
      rintro e handle found inCache rfl
      by_contra many
      have run := lookup_wrapped resting.consistent found inCache (not_lt.mp many)
      exact fails (by simp [call, run])
  | release e =>
      by_contra many
      obtain ⟨-, handle, found⟩ := resting.consistent.accounts.held e admits
      have run := release_wrapped rounding resting.consistent found (not_lt.mp many)
      exact fails (by simp [call, run])
  | erase key =>
      rintro e handle found inCache rfl
      by_contra many
      have run := erase_wrapped resting.consistent found inCache (not_lt.mp many)
      exact fails (by simp [call, run])
  | _ => exact trivial

/-- The calls that return are those that find a counter that has not wrapped. -/
theorem Resting.returns_iff
    (rounding : Rounding)
    (resting : Resting hashOf session low high)
    (admits : session.Admits op) :
    (∃ answer session', session.step rounding hashOf op = some (answer, session')) ↔
      session.Counts op := by
  constructor
  · rintro ⟨answer, session', steps⟩
    exact resting.counts_of_step admits steps
  · intro counts
    obtain ⟨answer, session', freed, advances⟩ := resting.advances rounding admits counts
    exact ⟨answer, session', advances.steps⟩

/-- A call that has been made is one of those. -/
theorem Resting.advances_of_step
    (resting : Resting hashOf session low high)
    (admits : session.Admits op)
    (steps : session.step rounding hashOf op = some (answer, session')) :
    ∃ freed, Advances rounding hashOf session op answer session' freed := by
  obtain ⟨answer₁, session₁, freed, advances⟩ :=
    resting.advances rounding admits (resting.counts_of_step admits steps)
  obtain ⟨rfl, rfl⟩ := Prod.mk.inj (Option.some.inj (steps.symm.trans advances.steps))
  exact ⟨freed, advances⟩

/-- After a call the accounts may be given by any lists that they hold for. -/
theorem Resting.of_step
    {low₁ high₁ : List Address}
    (resting : Resting hashOf session low high)
    (admits : session.Admits op)
    (steps : session.step rounding hashOf op = some (answer, session'))
    (consistent : Consistent hashOf session'.shard session'.handles ∅ low₁ high₁) :
    Resting hashOf session' low₁ high₁ := by
  obtain ⟨freed, advances⟩ := resting.advances_of_step admits steps
  obtain ⟨low', high', resting'⟩ := advances.resting
  exact resting'.relist consistent

/-- The accounts are complete after every run. -/
theorem Session.Continues.resting
    {start : Session}
    (continues : Session.Continues rounding hashOf permitted start session)
    (resting : Resting hashOf start low high) :
    ∃ low' high', Resting hashOf session low' high' := by
  induction continues with
  | refl => exact ⟨low, high, resting⟩
  | step before admits permits steps inductionHypothesis =>
      obtain ⟨low₁, high₁, resting₁⟩ := inductionHypothesis
      obtain ⟨freed, advances⟩ := resting₁.advances_of_step admits steps
      exact advances.resting

theorem Session.Reachable.resting
    (reachable : Session.Reachable rounding hashOf permitted session) :
    ∃ low high, Resting hashOf session low high := by
  obtain ⟨memory, capacity, strictCapacityLimit, ratio, shard, nonneg, start,
    continues⟩ := reachable
  rw [setUp_eq rounding memory capacity strictCapacityLimit nonneg] at start
  obtain rfl := Option.some.inj start
  exact continues.resting (resting_new hashOf capacity strictCapacityLimit nonneg
    (rounding.poolCapacity_nonneg capacity nonneg))

end LRUCacheShard
end Cache
end RocksUtil
