import Mathlib.Data.Finset.Basic
import Mathlib.Data.Finset.Range
import RocksUtil.Library.Machine
import RocksUtil.Library.ReleaseAcquire

/-!
# The spin lock

`SpinMutex` is one atomic flag: `try_lock` loads it with relaxed ordering, which may return
an old value, and then attempts a weak compare-exchange, which may fail for no reason;
`unlock` stores `false`.  Which message a load returns, where in the modification order a
store comes and when an exchange fails is left open.  Still no two threads hold the lock,
and all that was done under it happened before what its holder does next
(`spinMutex_excludes`).
-/

namespace RocksUtil

open ReleaseAcquire (Message Room Sealed Newest)

/-- Where a thread is: outside, in `try_lock` behind the load of `false`, or between a
`try_lock` that has returned `true` and its `unlock`. -/
inductive SpinState
  | outside
  | loaded
  | holds
  deriving DecidableEq, Repr

/-- A thread, with what the memory model keeps of its past. -/
structure SpinThread where
  state : SpinState
  /-- How far in the modification order of `locked_` it has seen. -/
  seen : Nat
  /-- The accesses to the protected data that happened before its next step. -/
  known : Finset Nat
  deriving DecidableEq

/-- `class SpinMutex`, with the threads that share it. -/
structure SpinMutex (ThreadId : Type) where
  /-- The stores to `locked_`. -/
  locked : List (Message Bool (Finset Nat))
  threads : ThreadId → SpinThread
  /-- The number of accesses to the data that the lock protects. -/
  accesses : Nat

namespace SpinMutex

variable {ThreadId : Type}

/-- What a thread does next, with what the memory model leaves open. -/
inductive Action (ThreadId : Type)
  /-- The load in `try_lock`, of a message. -/
  | load (thread : ThreadId) (message : Nat)
  /-- The exchange in `try_lock` takes the flag from a message, and the segment behind it
  up to a point. -/
  | exchange (thread : ThreadId) (message upTo : Nat)
  /-- The exchange in `try_lock` fails, having read a message. -/
  | exchangeFails (thread : ThreadId) (message : Nat)
  /-- An access to the data that the lock protects. -/
  | access (thread : ThreadId)
  /-- `unlock`, which stores to a segment. -/
  | unlock (thread : ThreadId) (after upTo : Nat)
  deriving DecidableEq, Repr

/-- The constructor, which happens before every thread. -/
def new : SpinMutex ThreadId where
  locked := [⟨false, 0, 1, ∅, Nat.zero_lt_one⟩]
  threads := fun _ => ⟨.outside, 1, ∅⟩
  accesses := 0

/-- A message that a thread may read. -/
def readable (mutex : SpinMutex ThreadId) (thread : ThreadId) (index : Nat) :
    Option (Message Bool (Finset Nat)) := do
  let message ← mutex.locked[index]?
  guard ((mutex.threads thread).seen ≤ message.upTo)
  some message

variable [DecidableEq ThreadId]

/-- A thread goes on. -/
def become (mutex : SpinMutex ThreadId) (thread : ThreadId) (next : SpinThread) :
    SpinMutex ThreadId :=
  { mutex with threads := Function.update mutex.threads thread next }

/-- One step of `try_lock` and `unlock`, called as a lock is meant to be: the data is only
accessed, and `unlock` only called, by the thread that holds it.  A failed `try_lock` is
made again by `lock`, or not. -/
def step (mutex : SpinMutex ThreadId) : Action ThreadId → Option (SpinMutex ThreadId)
  | .load thread index => do
      let current := mutex.threads thread
      guard (current.state = .outside)
      let message ← mutex.readable thread index
      let currentlyLocked := message.value
      -- A relaxed load learns nothing of what happened before the store.
      some (mutex.become thread
        ⟨if currentlyLocked then .outside else .loaded, message.upTo, current.known⟩)
  | .exchange thread index upTo => do
      let current := mutex.threads thread
      guard (current.state = .loaded)
      let message ← mutex.readable thread index
      guard (message.value = false)
      if room : Room mutex.locked message.upTo upTo then
        -- The exchange continues the release sequence of the store that it reads.
        some { mutex.become thread ⟨.holds, upTo, current.known ∪ message.clock⟩ with
          locked := ⟨true, message.upTo, upTo, message.clock, room.1⟩ :: mutex.locked }
      else
        none
  | .exchangeFails thread index => do
      let current := mutex.threads thread
      guard (current.state = .loaded)
      let message ← mutex.readable thread index
      some (mutex.become thread ⟨.outside, message.upTo, current.known⟩)
  | .access thread => do
      let current := mutex.threads thread
      guard (current.state = .holds)
      some { mutex.become thread { current with
          known := insert mutex.accesses current.known } with
        accesses := mutex.accesses + 1 }
  | .unlock thread after upTo => do
      let current := mutex.threads thread
      guard (current.state = .holds)
      guard (current.seen ≤ after)
      if room : Room mutex.locked after upTo then
        some { mutex.become thread ⟨.outside, upTo, current.known⟩ with
          locked := ⟨false, after, upTo, current.known, room.1⟩ :: mutex.locked }
      else
        none

/-! ## The invariant -/

/-- The newest message says whether the lock is held.  No older one can be exchanged any
more, and what was done under the lock is known to its holder or to the message that the
next one must read. -/
structure Guarded (mutex : SpinMutex ThreadId) : Prop where
  newest : ∃ newest older, mutex.locked = newest :: older ∧ Newest older newest ∧
    (∀ message ∈ older, message.value = false → Sealed mutex.locked message) ∧
    (∀ thread, (mutex.threads thread).seen ≤ newest.upTo) ∧
    if newest.value then
      ∃ thread, (mutex.threads thread).state = .holds ∧
        (∀ other, (mutex.threads other).state = .holds → other = thread) ∧
        (mutex.threads thread).seen = newest.upTo ∧
        (mutex.threads thread).known = Finset.range mutex.accesses
    else
      (∀ thread, (mutex.threads thread).state ≠ .holds) ∧
        newest.clock = Finset.range mutex.accesses
  known : ∀ thread, (mutex.threads thread).known ⊆ Finset.range mutex.accesses

variable {mutex mutex' : SpinMutex ThreadId} {thread : ThreadId} {next : SpinThread}
  {message : Message Bool (Finset Nat)}

omit [DecidableEq ThreadId] in
theorem readable_spec
    {index : Nat}
    (reads : mutex.readable thread index = some message) :
    message ∈ mutex.locked ∧ (mutex.threads thread).seen ≤ message.upTo := by
  simp only [readable, Option.bind_eq_bind, Option.bind_eq_some_iff] at reads
  obtain ⟨found, isFound, _, ordered, isMessage⟩ := reads
  obtain rfl := Option.some.inj isMessage
  exact ⟨List.mem_of_getElem? isFound, (Option.guard_eq_some' _).mp ordered⟩

theorem threads_become (other : ThreadId) :
    (mutex.become thread next).threads other =
      if other = thread then next else mutex.threads other :=
  Function.update_apply ..

namespace Guarded

/-- A thread that does not hold the lock reads a message. -/
theorem become
    (guarded : Guarded mutex)
    (before : (mutex.threads thread).state ≠ .holds)
    (behind : next.state ≠ .holds)
    (isRead : message ∈ mutex.locked)
    (seen : next.seen = message.upTo)
    (known : next.known = (mutex.threads thread).known) :
    Guarded (mutex.become thread next) where
  newest := by
    obtain ⟨newest, older, isLocked, isNewest, areSealed, bounded, held⟩ := guarded.newest
    refine ⟨newest, older, isLocked, isNewest, areSealed, fun other => ?_, ?_⟩
    · rw [threads_become]
      split
      · rw [seen]
        exact isNewest.upTo_le (isLocked ▸ isRead)
      · exact bounded other
    · have same : ∀ other, ((mutex.become thread next).threads other).state = .holds ↔
          (mutex.threads other).state = .holds := by
        intro other
        rw [threads_become]
        split
        · rename_i here
          rw [here]
          exact iff_of_false behind before
        · rfl
      split at held
      · obtain ⟨holder, holds, only, rest⟩ := held
        have elsewhere : holder ≠ thread := by
          rintro rfl
          exact before holds
        rename_i isHeld
        rw [if_pos isHeld]
        refine ⟨holder, (same holder).mpr holds, fun other => ?_, ?_⟩
        · exact fun otherHolds => only other ((same other).mp otherHolds)
        · rwa [threads_become, if_neg elsewhere]
      · rename_i isFree
        rw [if_neg isFree]
        exact ⟨fun other => (same other).not.mpr (held.1 other), held.2⟩
  known other := by
    rw [threads_become]
    split
    · rw [known]
      exact guarded.known thread
    · exact guarded.known other

/-- An exchange takes the lock from the newest message. -/
theorem exchange
    {index upTo : Nat}
    (guarded : Guarded mutex)
    (steps : mutex.step (.exchange thread index upTo) = some mutex') : Guarded mutex' := by
  simp only [step, Option.bind_eq_bind, Option.bind_eq_some_iff] at steps
  obtain ⟨_, isLoaded, message, isRead, _, isFree, steps⟩ := steps
  have loaded := (Option.guard_eq_some' _).mp isLoaded
  have free := (Option.guard_eq_some' _).mp isFree
  obtain ⟨within, -⟩ := readable_spec isRead
  split at steps
  · rename_i room
    obtain rfl := Option.some.inj steps
    obtain ⟨newest, older, isLocked, isNewest, areSealed, bounded, held⟩ := guarded.newest
    -- There is no room behind an older message that is free.
    obtain rfl : message = newest := by
      rw [isLocked] at within
      rcases List.mem_cons.mp within with isIt | isOlder
      · exact isIt
      · exact absurd room (Sealed.not_room (areSealed message isOlder free) upTo)
    rw [if_neg (by simp [free])] at held
    obtain ⟨nobody, known⟩ := held
    constructor
    · refine ⟨_, mutex.locked, rfl, ?_, ?_, ?_, ?_⟩
      · exact fun other isOlder => isNewest.upTo_le (isLocked ▸ isOlder)
      · intro other isOlder isFalse
        rw [isLocked] at isOlder
        rcases List.mem_cons.mp isOlder with rfl | older'
        · exact ⟨_, List.mem_cons_self, rfl⟩
        · exact (areSealed other older' isFalse).cons _
      · intro other
        rw [threads_become]
        split
        · exact Nat.le_refl _
        · exact Nat.le_trans (bounded other) (Nat.le_of_lt room.1)
      · rw [if_pos rfl]
        refine ⟨thread, ?_, ?_, ?_, ?_⟩
        · rw [threads_become, if_pos rfl]
        · intro other holds
          by_contra elsewhere
          rw [threads_become, if_neg elsewhere] at holds
          exact nobody other holds
        · rw [threads_become, if_pos rfl]
        · rw [threads_become, if_pos rfl, known]
          exact Finset.union_eq_right.mpr (guarded.known thread)
    · intro other
      rw [threads_become]
      split
      · rw [known]
        exact Finset.union_subset (guarded.known thread) (Finset.Subset.refl _)
      · exact guarded.known other
  · nomatch steps

omit [DecidableEq ThreadId] in
/-- While a thread holds the lock the newest message is its own. -/
theorem held
    (guarded : Guarded mutex)
    (holds : (mutex.threads thread).state = .holds) :
    ∃ newest older, mutex.locked = newest :: older ∧ Newest older newest ∧
      (∀ message ∈ older, message.value = false → Sealed mutex.locked message) ∧
      (∀ thread, (mutex.threads thread).seen ≤ newest.upTo) ∧ newest.value = true ∧
      (∀ other, (mutex.threads other).state = .holds → other = thread) ∧
      (mutex.threads thread).seen = newest.upTo ∧
      (mutex.threads thread).known = Finset.range mutex.accesses := by
  obtain ⟨newest, older, isLocked, isNewest, areSealed, bounded, held⟩ := guarded.newest
  split at held
  · rename_i isHeld
    obtain ⟨holder, -, only, seen, known⟩ := held
    obtain rfl := only thread holds
    exact ⟨newest, older, isLocked, isNewest, areSealed, bounded, isHeld, only, seen, known⟩
  · exact absurd holds (held.1 thread)

/-- The holder accesses the data. -/
theorem access
    (guarded : Guarded mutex)
    (steps : mutex.step (.access thread) = some mutex') : Guarded mutex' := by
  simp only [step, Option.bind_eq_bind, Option.bind_eq_some_iff] at steps
  obtain ⟨_, isHolder, steps⟩ := steps
  have holds := (Option.guard_eq_some' _).mp isHolder
  obtain rfl := Option.some.inj steps
  obtain ⟨newest, older, isLocked, isNewest, areSealed, bounded, isHeld, only, seen, known⟩ :=
    guarded.held holds
  constructor
  · refine ⟨newest, older, isLocked, isNewest, areSealed, ?_, ?_⟩
    · intro other
      rw [threads_become]
      split
      · exact bounded thread
      · exact bounded other
    · rw [if_pos isHeld]
      refine ⟨thread, ?_, ?_, ?_, ?_⟩
      · rw [threads_become, if_pos rfl]
        exact holds
      · intro other otherHolds
        by_contra elsewhere
        rw [threads_become, if_neg elsewhere] at otherHolds
        exact elsewhere (only other otherHolds)
      · rw [threads_become, if_pos rfl]
        exact seen
      · rw [threads_become, if_pos rfl, known]
        exact Finset.range_add_one.symm
  · intro other
    rw [threads_become]
    split
    · rw [known]
      exact Finset.range_add_one.ge
    · exact (guarded.known other).trans (Finset.range_subset_range.mpr (Nat.le_succ _))

/-- `unlock` puts its message behind the newest, which is the holder's. -/
theorem unlock
    {after upTo : Nat}
    (guarded : Guarded mutex)
    (steps : mutex.step (.unlock thread after upTo) = some mutex') : Guarded mutex' := by
  simp only [step, Option.bind_eq_bind, Option.bind_eq_some_iff] at steps
  obtain ⟨_, isHolder, _, isBehind, steps⟩ := steps
  have holds := (Option.guard_eq_some' _).mp isHolder
  have behind := (Option.guard_eq_some' _).mp isBehind
  split at steps
  · rename_i room
    obtain rfl := Option.some.inj steps
    obtain ⟨newest, older, isLocked, isNewest, areSealed, bounded, isHeld, only, seen, known⟩ :=
      guarded.held holds
    rw [seen] at behind
    constructor
    · refine ⟨_, mutex.locked, rfl, ?_, ?_, ?_, ?_⟩
      · exact fun other isOlder =>
          Nat.le_trans (isNewest.upTo_le (isLocked ▸ isOlder)) behind
      · intro other isOlder isFalse
        rw [isLocked] at isOlder
        rcases List.mem_cons.mp isOlder with rfl | older'
        · rw [isHeld] at isFalse
          cases isFalse
        · exact (areSealed other older' isFalse).cons _
      · intro other
        rw [threads_become]
        split
        · exact Nat.le_refl _
        · have := bounded other
          have := room.1
          change _ ≤ upTo
          omega
      · rw [if_neg Bool.false_ne_true]
        refine ⟨fun other otherHolds => ?_, known⟩
        rw [threads_become] at otherHolds
        split at otherHolds
        · cases otherHolds
        · rename_i elsewhere
          exact elsewhere (only other otherHolds)
    · intro other
      rw [threads_become]
      split
      · exact guarded.known thread
      · exact guarded.known other
  · nomatch steps

/-- Every step keeps the invariant. -/
protected theorem step
    {action : Action ThreadId}
    (guarded : Guarded mutex)
    (steps : mutex.step action = some mutex') : Guarded mutex' := by
  cases action with
  | load thread index =>
      simp only [SpinMutex.step, Option.bind_eq_bind, Option.bind_eq_some_iff] at steps
      obtain ⟨_, isOutside, message, isRead, isNext⟩ := steps
      obtain rfl := Option.some.inj isNext
      have outside := (Option.guard_eq_some' _).mp isOutside
      refine guarded.become (by simp [outside]) ?_ (readable_spec isRead).1 rfl rfl
      cases message.value <;> simp
  | exchange thread index upTo => exact guarded.exchange steps
  | exchangeFails thread index =>
      simp only [SpinMutex.step, Option.bind_eq_bind, Option.bind_eq_some_iff] at steps
      obtain ⟨_, isLoaded, message, isRead, isNext⟩ := steps
      obtain rfl := Option.some.inj isNext
      have loaded := (Option.guard_eq_some' _).mp isLoaded
      exact guarded.become (by simp [loaded]) (by simp) (readable_spec isRead).1 rfl rfl
  | access thread => exact guarded.access steps
  | unlock thread after upTo => exact guarded.unlock steps

end Guarded

omit [DecidableEq ThreadId] in
theorem guarded_new : Guarded (new : SpinMutex ThreadId) where
  newest := by
    refine ⟨⟨false, 0, 1, ∅, by decide⟩, [], rfl, fun _ within => (by cases within),
      fun _ within => (by cases within), fun _ => Nat.le_refl 1, ?_⟩
    rw [if_neg Bool.false_ne_true]
    exact ⟨fun _ holds => (by cases holds), rfl⟩
  known _ := Finset.empty_subset _

/-- A free lock can be taken by any thread that calls `try_lock`, if the load returns the
newest message and the exchange does not fail for no reason. -/
theorem Guarded.available
    (guarded : Guarded mutex)
    (nobody : ∀ other, (mutex.threads other).state ≠ .holds)
    (outside : (mutex.threads thread).state = .outside) :
    ∃ upTo, ∃ taken, Machine.run step mutex [.load thread 0, .exchange thread 0 upTo] =
      some taken ∧ (taken.threads thread).state = .holds := by
  obtain ⟨newest, older, isLocked, isNewest, -, bounded, held⟩ := guarded.newest
  have isFree : newest.value = false := by
    rw [← Bool.not_eq_true]
    intro isHeld
    rw [if_pos isHeld] at held
    obtain ⟨holder, holds, -⟩ := held
    exact nobody holder holds
  have room := isNewest.room (Nat.le_refl _) (Nat.lt_succ_self newest.upTo)
  let ready : SpinMutex ThreadId :=
    mutex.become thread ⟨.loaded, newest.upTo, (mutex.threads thread).known⟩
  have loads : mutex.step (.load thread 0) = some ready := by
    simp [step, outside, readable, isLocked, bounded thread, isFree, ready]
  have reads : ready.readable thread 0 = some newest := by
    simp [readable, SpinMutex.become, isLocked, ready]
  have isReady : (ready.threads thread).state = .loaded := by
    rw [threads_become, if_pos rfl]
  have isRoom : Room ready.locked newest.upTo (newest.upTo + 1) := isLocked.symm ▸ room
  have takes : ∃ taken, ready.step (.exchange thread 0 (newest.upTo + 1)) = some taken ∧
      (taken.threads thread).state = .holds := by
    simp [step, reads, isReady, isFree, isRoom, threads_become]
  obtain ⟨taken, exchanges, holds⟩ := takes
  refine ⟨newest.upTo + 1, taken, ?_, holds⟩
  rw [Machine.run, loads, Option.bind_some, Machine.run, exchanges]
  rfl

/-- In every run of any number of threads, at most one holds the lock; what it does next
comes after all accesses that were made to the data so far; and while none holds the lock,
each of them can take it. -/
theorem spinMutex_excludes
    {actions : List (Action ThreadId)}
    (runs : Machine.run step new actions = some mutex) :
    (∀ thread other, (mutex.threads thread).state = .holds →
      (mutex.threads other).state = .holds → thread = other) ∧
    (∀ thread, (mutex.threads thread).state = .holds → ∀ earlier < mutex.accesses,
      earlier ∈ (mutex.threads thread).known) ∧
    ((∀ thread, (mutex.threads thread).state ≠ .holds) →
      ∀ thread, (mutex.threads thread).state = .outside →
        ∃ upTo taken, Machine.run step mutex [.load thread 0, .exchange thread 0 upTo] =
          some taken ∧ (taken.threads thread).state = .holds) := by
  have guarded : Guarded mutex :=
    Machine.run_preserves Guarded (fun guarded steps => guarded.step steps) runs guarded_new
  refine ⟨fun thread other holds otherHolds => ?_, fun thread holds earlier isEarlier => ?_,
    fun nobody thread outside => guarded.available nobody outside⟩
  · obtain ⟨-, -, -, -, -, -, -, only, -⟩ := guarded.held otherHolds
    exact only thread holds
  · obtain ⟨-, -, -, -, -, -, -, -, -, known⟩ := guarded.held holds
    rw [known]
    exact Finset.mem_range.mpr isEarlier

/-- The second thread takes the lock behind the first, although its first load returned
the oldest message while the lock was held. -/
def handOver : List (Action Nat) :=
  [.load 0 0, .exchange 0 0 2, .access 0, .load 1 1, .unlock 0 3 5, .exchange 1 0 6]

theorem spinMutex_excludes_handOver :
    ∃ mutex, Machine.run step (new : SpinMutex Nat) handOver = some mutex ∧
      0 ∈ (mutex.threads 1).known ∧ (mutex.threads 0).state ≠ .holds := by
  have result : (Machine.run step (new : SpinMutex Nat) handOver).map
      (fun mutex => ((mutex.threads 1).state, mutex.accesses)) = some (.holds, 1) := by
    decide
  obtain ⟨mutex, runs, isResult⟩ := Option.map_eq_some_iff.mp result
  obtain ⟨holds, accesses⟩ := Prod.mk.inj isResult
  obtain ⟨exclusive, ordered, -⟩ := spinMutex_excludes runs
  refine ⟨mutex, runs, ordered 1 holds 0 (by omega), fun alsoHolds => ?_⟩
  exact absurd (exclusive 0 1 alsoHolds holds) (by decide)

end SpinMutex
end RocksUtil
