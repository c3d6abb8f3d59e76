import Mathlib.Data.List.Nodup
import RocksUtil.ThreadPool.ThreadPoolImpl

/-!
# An account of the jobs

The calls of `Schedule` are numbered, and the ledger of a pool keeps the numbers of
the items that are queued, of those that a thread has started, and of those that
`UnSchedule` has removed.  It is written next to the pool and never read by it.
-/

namespace RocksUtil
namespace ThreadPool

variable {Pointer Callback : Type}

/-- A thread has taken the item of a ticket, and calls a function. -/
structure Start (Pointer Callback : Type) where
  ticket : Nat
  pthread : Nat
  call : Callback × Pointer
  deriving DecidableEq, Repr

/-- A call of `UnSchedule`: its tag, the tickets it has removed, the functions it has
called, and what it returned. -/
structure Removal (Pointer Callback : Type) where
  tag : Pointer
  tickets : List Nat
  calls : List (Callback × Pointer)
  count : Int32
  deriving DecidableEq, Repr

/-- A pool and what has happened to its items. -/
structure Ledger (Pointer Callback : Type) where
  pool : ThreadPoolImpl Pointer Callback
  /-- The items that were scheduled; the ticket of an item is its index. -/
  scheduled : List (BGItem Pointer Callback)
  /-- The tickets of the items in the queue. -/
  queued : List Nat
  started : List (Start Pointer Callback)
  removals : List (Removal Pointer Callback)
  deriving DecidableEq, Repr

namespace Ledger

open ThreadPoolImpl (Action unschedCall)

def new : Ledger Pointer Callback :=
  ⟨.new, [], [], [], []⟩

variable [DecidableEq Pointer]

/-- The item of a ticket has the tag. -/
def isTagged (ledger : Ledger Pointer Callback) (tag : Pointer) (ticket : Nat) : Bool :=
  (ledger.scheduled[ticket]?).any (fun item => tag = item.tag)

/-- A step of the pool, and its entry. -/
def step (ledger : Ledger Pointer Callback) :
    Action Pointer Callback → Option (Ledger Pointer Callback)
  | .schedule item woken =>
      (ledger.pool.schedule item woken).map (fun pool =>
        if ledger.pool.exitAllThreads then
          { ledger with pool := pool }
        else
          { ledger with
            pool := pool
            scheduled := ledger.scheduled ++ [item]
            queued := ledger.queued ++ [ledger.scheduled.length] })
  | .unSchedule tag =>
      let (count, calls, pool) := ledger.pool.unSchedule tag
      some { ledger with
        pool := pool
        queued := ledger.queued.filter (fun ticket => !ledger.isTagged tag ticket)
        removals := ledger.removals ++ [{
          tag := tag
          tickets := ledger.queued.filter (ledger.isTagged tag)
          calls := calls
          count := count }] }
  | .bgThread pthread =>
      (ledger.pool.turn pthread).map (fun (call?, pool) =>
        match call?, ledger.queued with
        | some call, ticket :: queued =>
            { ledger with
              pool := pool
              queued := queued
              started := ledger.started ++ [⟨ticket, pthread, call⟩] }
        | _, _ => { ledger with pool := pool })
  | action => (ledger.pool.step action).map (fun pool => { ledger with pool := pool })

/-- The ledger does not change what the pool does. -/
theorem pool_step
    (ledger : Ledger Pointer Callback)
    (action : Action Pointer Callback) :
    (ledger.step action).map pool = ledger.pool.step action := by
  cases action with
  | schedule item woken =>
      unfold step
      rw [Option.map_map]
      refine Eq.trans (congrFun (congrArg Option.map ?_) _) Option.map_id'
      funext pool
      rw [Function.comp_apply]
      split <;> rfl
  | bgThread pthread =>
      unfold step ThreadPoolImpl.step
      rw [Option.map_map]
      congr 1
      funext ⟨call?, pool⟩
      rw [Function.comp_apply]
      dsimp only
      split <;> rfl
  | unSchedule tag => rfl
  | setBackgroundThreads num => rfl
  | incBackgroundThreadsIfNeeded num => rfl
  | lowerIOPriority => rfl
  | joinAllThreads =>
      unfold step
      rw [Option.map_map]
      exact Option.map_id'
  | spuriousWakeUp pthread =>
      unfold step
      rw [Option.map_map]
      exact Option.map_id'
  | functionReturns pthread =>
      unfold step
      rw [Option.map_map]
      exact Option.map_id'

/-! ## The entries are right -/

/-- The tickets of the items. -/
def Names
    (scheduled : List (BGItem Pointer Callback))
    (tickets : List Nat)
    (items : List (BGItem Pointer Callback)) : Prop :=
  tickets.map (fun ticket => scheduled[ticket]?) = items.map some

/-- What `UnSchedule` has done. -/
def Removal.IsRight
    (scheduled : List (BGItem Pointer Callback))
    (removal : Removal Pointer Callback) : Prop :=
  ∃ items, Names scheduled removal.tickets items ∧
    (∀ item ∈ items, item.tag = removal.tag) ∧
      removal.calls = items.filterMap unschedCall ∧
        removal.count = Int32.ofNat items.length

/-- A thread calls the function of the item it has taken. -/
def Start.IsRight
    (scheduled : List (BGItem Pointer Callback))
    (start : Start Pointer Callback) : Prop :=
  ∃ item, Names scheduled [start.ticket] [item] ∧
    start.call = (item.function, item.arg)

/-- The account of the jobs of a pool. -/
structure Balanced (ledger : Ledger Pointer Callback) : Prop where
  queue_eq : Names ledger.scheduled ledger.queued ledger.pool.queue
  /-- Every ticket is queued, started or removed, and only once. -/
  once : (ledger.queued ++ ledger.started.map (fun start => start.ticket) ++
      ledger.removals.flatMap (fun removal => removal.tickets)).Perm
    (List.range ledger.scheduled.length)
  inOrder : (ledger.started.map (fun start => start.ticket) ++
      ledger.queued).Pairwise (· < ·)
  started_right : ∀ start ∈ ledger.started, Start.IsRight ledger.scheduled start
  removals_right : ∀ removal ∈ ledger.removals,
    Removal.IsRight ledger.scheduled removal
  queueLen_eq : ledger.pool.queueLen = UInt32.ofNat ledger.pool.queue.length

section Entries

omit [DecidableEq Pointer]

variable {scheduled : List (BGItem Pointer Callback)} {tickets : List Nat}
  {items : List (BGItem Pointer Callback)}

theorem Names.append
    {tickets' : List Nat}
    {items' : List (BGItem Pointer Callback)}
    (names : Names scheduled tickets items)
    (names' : Names scheduled tickets' items') :
    Names scheduled (tickets ++ tickets') (items ++ items') := by
  unfold Names
  rw [List.map_append, List.map_append, names, names']

theorem Names.filter
    (names : Names scheduled tickets items)
    {chosen : BGItem Pointer Callback → Bool}
    {chosen' : Nat → Bool}
    (alike : ∀ ticket ∈ tickets, chosen' ticket = (scheduled[ticket]?).any chosen) :
    Names scheduled (tickets.filter chosen') (items.filter chosen) := by
  unfold Names
  rw [List.filter_congr alike]
  have first := List.filter_map (f := fun ticket => scheduled[ticket]?)
    (p := fun found => found.any chosen) (l := tickets)
  have second := List.filter_map (f := some) (p := fun found => found.any chosen)
    (l := items)
  rw [names] at first
  exact first.symm.trans second

/-- A ticket that names an item is one of an item that was scheduled. -/
theorem Names.isSome
    (names : Names scheduled tickets items)
    {ticket : Nat}
    (isTicket : ticket ∈ tickets) :
    ∃ item ∈ items, scheduled[ticket]? = some item := by
  have found := List.mem_map_of_mem (f := fun ticket => scheduled[ticket]?) isTicket
  rw [names] at found
  obtain ⟨item, isItem, same⟩ := List.mem_map.mp found
  exact ⟨item, isItem, same.symm⟩

/-- Tickets keep their meaning when more items are scheduled. -/
theorem Names.grow
    (names : Names scheduled tickets items)
    (further : List (BGItem Pointer Callback)) :
    Names (scheduled ++ further) tickets items := by
  unfold Names
  rw [← names]
  apply List.map_congr_left
  intro ticket isTicket
  obtain ⟨item, -, found⟩ := names.isSome isTicket
  exact List.getElem?_append_left (List.getElem?_eq_some_iff.mp found).1

theorem Start.IsRight.grow
    {start : Start Pointer Callback}
    (right : Start.IsRight scheduled start)
    (further : List (BGItem Pointer Callback)) :
    Start.IsRight (scheduled ++ further) start := by
  obtain ⟨item, names, call⟩ := right
  exact ⟨item, names.grow further, call⟩

theorem Removal.IsRight.grow
    {removal : Removal Pointer Callback}
    (right : Removal.IsRight scheduled removal)
    (further : List (BGItem Pointer Callback)) :
    Removal.IsRight (scheduled ++ further) removal := by
  obtain ⟨items, names, rest⟩ := right
  exact ⟨items, names.grow further, rest⟩

theorem names_new (item : BGItem Pointer Callback) :
    Names (scheduled ++ [item]) [scheduled.length] [item] := by
  unfold Names
  simp

end Entries

/-! ## Every step keeps the account -/

section Steps

variable {ledger ledger' : Ledger Pointer Callback}

omit [DecidableEq Pointer] in
theorem balanced_new : Balanced (new : Ledger Pointer Callback) where
  queue_eq := rfl
  once := .refl _
  inOrder := .nil
  started_right := nofun
  removals_right := nofun
  queueLen_eq := rfl

omit [DecidableEq Pointer] in
/-- A step that leaves the queue alone. -/
theorem Balanced.of_queue
    (balanced : Balanced ledger)
    {pool : ThreadPoolImpl Pointer Callback}
    (queue : pool.queue = ledger.pool.queue)
    (queueLen : pool.queueLen = ledger.pool.queueLen) :
    Balanced { ledger with pool := pool } where
  queue_eq := by
    dsimp only
    rw [queue]
    exact balanced.queue_eq
  once := balanced.once
  inOrder := balanced.inOrder
  started_right := balanced.started_right
  removals_right := balanced.removals_right
  queueLen_eq := by
    dsimp only
    rw [queue, queueLen]
    exact balanced.queueLen_eq

omit [DecidableEq Pointer] in
theorem Balanced.queued_lt
    (balanced : Balanced ledger)
    {ticket : Nat}
    (isTicket : ticket ∈ ledger.started.map (fun start => start.ticket) ++
      ledger.queued) :
    ticket < ledger.scheduled.length := by
  apply List.mem_range.mp
  apply balanced.once.mem_iff.mp
  rcases List.mem_append.mp isTicket with isStarted | isQueued
  · exact List.mem_append_left _ (List.mem_append_right _ isStarted)
  · exact List.mem_append_left _ (List.mem_append_left _ isQueued)

omit [DecidableEq Pointer] in
/-- An item is scheduled. -/
theorem Balanced.schedule
    (balanced : Balanced ledger)
    {item : BGItem Pointer Callback}
    {pool : ThreadPoolImpl Pointer Callback}
    (queue : pool.queue = ledger.pool.queue ++ [item])
    (queueLen : pool.queueLen = UInt32.ofNat pool.queue.length) :
    Balanced { ledger with
      pool := pool
      scheduled := ledger.scheduled ++ [item]
      queued := ledger.queued ++ [ledger.scheduled.length] } where
  queue_eq := by
    dsimp only
    rw [queue]
    exact (balanced.queue_eq.grow [item]).append (names_new item)
  once := by
    dsimp only
    rw [List.length_append, List.length_singleton, List.range_succ]
    refine List.Perm.trans ?_ (balanced.once.append_right [ledger.scheduled.length])
    simp only [List.append_assoc]
    exact List.perm_append_comm.append_left _ |>.trans (by simp)
  inOrder := by
    dsimp only
    rw [← List.append_assoc]
    refine List.pairwise_append.mpr ⟨balanced.inOrder, List.pairwise_singleton _ _, ?_⟩
    intro ticket isTicket other isNew
    rw [List.mem_singleton.mp isNew]
    exact balanced.queued_lt isTicket
  started_right := fun start isStart =>
    (balanced.started_right start isStart).grow [item]
  removals_right := fun removal isRemoval =>
    (balanced.removals_right removal isRemoval).grow [item]
  queueLen_eq := queueLen

omit [DecidableEq Pointer] in
/-- The first item of the queue is started. -/
theorem Balanced.start
    (balanced : Balanced ledger)
    {ticket : Nat}
    {queued : List Nat}
    (isQueued : ledger.queued = ticket :: queued)
    {item : BGItem Pointer Callback}
    {queue : List (BGItem Pointer Callback)}
    (isQueue : ledger.pool.queue = item :: queue)
    {pool : ThreadPoolImpl Pointer Callback}
    (rest : pool.queue = queue)
    (queueLen : pool.queueLen = UInt32.ofNat pool.queue.length)
    (pthread : Nat) :
    Balanced { ledger with
      pool := pool
      queued := queued
      started := ledger.started ++ [⟨ticket, pthread, item.function, item.arg⟩] } := by
  have names := balanced.queue_eq
  have once := balanced.once
  have inOrder := balanced.inOrder
  rw [Names, isQueued, isQueue, List.map_cons, List.map_cons] at names
  obtain ⟨isItem, names⟩ := List.cons_eq_cons.mp names
  rw [isQueued] at once inOrder
  refine ⟨?_, ?_, ?_, ?_, balanced.removals_right, queueLen⟩
  · dsimp only
    rw [rest]
    exact names
  · refine List.Perm.trans (List.Perm.append_right _ ?_) once
    rw [List.map_append, ← List.append_assoc]
    exact List.perm_append_singleton ticket _
  · dsimp only
    rw [List.map_append, List.append_assoc]
    exact inOrder
  · intro start isStart
    rcases List.mem_append.mp isStart with isStart | isNew
    · exact balanced.started_right start isStart
    · rw [List.mem_singleton.mp isNew]
      refine ⟨item, ?_, rfl⟩
      unfold Names
      rw [List.map_singleton, List.map_singleton, isItem]

/-- The items of a tag are removed. -/
theorem Balanced.unSchedule
    (balanced : Balanced ledger)
    (tag : Pointer) :
    Balanced { ledger with
      pool := (ledger.pool.unSchedule tag).2.2
      queued := ledger.queued.filter (fun ticket => !ledger.isTagged tag ticket)
      removals := ledger.removals ++ [{
        tag := tag
        tickets := ledger.queued.filter (ledger.isTagged tag)
        calls := (ledger.pool.unSchedule tag).2.1
        count := (ledger.pool.unSchedule tag).1 }] } where
  queue_eq := by
    dsimp only
    rw [ThreadPoolImpl.queue_unSchedule]
    refine balanced.queue_eq.filter ?_
    intro ticket isTicket
    obtain ⟨item, -, found⟩ := balanced.queue_eq.isSome isTicket
    rw [isTagged, found]
    simp
  once := by
    refine List.Perm.trans ?_ balanced.once
    have parts := List.filter_append_perm (ledger.isTagged tag) ledger.queued
    dsimp only
    rw [List.flatMap_append, List.flatMap_singleton, ← List.append_assoc]
    refine List.perm_append_comm.trans ?_
    rw [← List.append_assoc, ← List.append_assoc]
    exact (parts.append_right _).append_right _
  inOrder := by
    refine balanced.inOrder.sublist ?_
    exact List.Sublist.append (.refl _) List.filter_sublist
  started_right := balanced.started_right
  removals_right := by
    intro removal isRemoval
    rcases List.mem_append.mp isRemoval with isRemoval | isNew
    · exact balanced.removals_right removal isRemoval
    · rw [List.mem_singleton.mp isNew]
      refine ⟨ledger.pool.queue.filter (fun item => tag = item.tag), ?_, ?_, ?_, ?_⟩
      · exact balanced.queue_eq.filter (fun _ _ => rfl)
      · intro item isItem
        exact (of_decide_eq_true (List.mem_filter.mp isItem).2).symm
      · rw [ThreadPoolImpl.unSchedule, ThreadPoolImpl.unScheduleFrom_eq]
        exact List.nil_append _
      · rw [ThreadPoolImpl.unSchedule, ThreadPoolImpl.unScheduleFrom_eq]
        exact Int32.zero_add _
  queueLen_eq := rfl

/-- A step of the pool and its entry keep the account. -/
theorem Balanced.step
    (balanced : Balanced ledger)
    {action : Action Pointer Callback}
    (steps : ledger.step action = some ledger') :
    Balanced ledger' := by
  cases action with
  | schedule item woken =>
      obtain ⟨pool, schedules, rfl⟩ := Option.map_eq_some_iff.mp steps
      split
      · rename_i exits
        rw [ThreadPoolImpl.schedule, if_pos exits] at schedules
        cases schedules
        exact balanced
      · rename_i running
        obtain ⟨queue, queueLen⟩ := ThreadPoolImpl.queue_schedule
          (Bool.eq_false_iff.mpr running) schedules
        exact balanced.schedule queue queueLen
  | unSchedule tag =>
      cases steps
      exact balanced.unSchedule tag
  | bgThread pthread =>
      obtain ⟨⟨call?, pool⟩, turns, rfl⟩ := Option.map_eq_some_iff.mp steps
      obtain ⟨worker, -, -, result⟩ := ThreadPoolImpl.of_turn turns
      rcases ThreadPoolImpl.bgThread_cases ledger.pool worker with ⟨-, same⟩ |
        ⟨-, same⟩ | ⟨-, same | same⟩ | ⟨item, queue, isQueue, -, same⟩
      · rw [same] at result
        cases result
        exact balanced.of_queue rfl rfl
      · rw [same] at result
        cases result
        exact balanced.of_queue rfl rfl
      · rw [same] at result
        cases result
        exact balanced.of_queue rfl rfl
      · rw [same] at result
        cases result
        exact balanced.of_queue rfl rfl
      · rw [same] at result
        cases result
        cases isQueued : ledger.queued with
        | nil =>
            have names := balanced.queue_eq
            rw [Names, isQueued, isQueue] at names
            cases names
        | cons ticket queued =>
            exact balanced.start isQueued isQueue rfl rfl pthread
  | setBackgroundThreads num =>
      cases steps
      obtain ⟨queue, queueLen⟩ :=
        ThreadPoolImpl.queue_setBackgroundThreadsInternal ledger.pool num true
      exact balanced.of_queue queue queueLen
  | incBackgroundThreadsIfNeeded num =>
      cases steps
      obtain ⟨queue, queueLen⟩ :=
        ThreadPoolImpl.queue_setBackgroundThreadsInternal ledger.pool num false
      exact balanced.of_queue queue queueLen
  | lowerIOPriority =>
      cases steps
      exact balanced.of_queue rfl rfl
  | joinAllThreads =>
      obtain ⟨pool, joins, rfl⟩ := Option.map_eq_some_iff.mp steps
      unfold ThreadPoolImpl.step ThreadPoolImpl.joinAllThreads at joins
      dsimp only at joins
      split at joins
      · cases joins
      · cases joins
        exact balanced.of_queue rfl rfl
  | spuriousWakeUp pthread =>
      obtain ⟨pool, wakes, rfl⟩ := Option.map_eq_some_iff.mp steps
      rw [ThreadPoolImpl.of_wakes (.inl rfl) wakes]
      exact balanced.of_queue rfl rfl
  | functionReturns pthread =>
      obtain ⟨pool, returns, rfl⟩ := Option.map_eq_some_iff.mp steps
      rw [ThreadPoolImpl.of_wakes (.inr rfl) returns]
      exact balanced.of_queue rfl rfl

/-- In every run, every item that was scheduled is in the queue, or one thread has
started it, or one call of `UnSchedule` has removed it; the threads start them in the
order of the calls of `Schedule`.  `UnSchedule` removes what has the tag, and nothing
else.  The length that the pool reports and the number that `UnSchedule` returns have
32 bits. -/
theorem jobs_accounted
    {actions : List (Action Pointer Callback)}
    {pool : ThreadPoolImpl Pointer Callback}
    (runs : Machine.run ThreadPoolImpl.step .new actions = some pool) :
    (∃ ledger, Machine.run step new actions = some ledger ∧
        ledger.pool = pool ∧ Balanced ledger) ∧
      (∀ tag, (pool.unSchedule tag).2.2.queue =
            pool.queue.filter (fun item => tag ≠ item.tag) ∧
          (pool.unSchedule tag).2.1 =
            (pool.queue.filter (fun item => tag = item.tag)).filterMap unschedCall ∧
          (pool.unSchedule tag).1 =
            Int32.ofNat (pool.queue.filter (fun item => tag = item.tag)).length) ∧
      (pool.queue.length < 2 ^ 32 → pool.queueLen.toNat = pool.queue.length) := by
  obtain ⟨ledger, kept, rfl⟩ : ∃ ledger, Machine.run step new actions = some ledger ∧
      ledger.pool = pool := by
    have erased := Machine.run_map pool_step new actions
    exact Option.map_eq_some_iff.mp (erased.trans runs)
  have balanced := Machine.run_preserves Balanced
    (fun balanced steps => balanced.step steps) kept balanced_new
  refine ⟨⟨ledger, kept, rfl, balanced⟩, ?_, ?_⟩
  · intro tag
    rw [ThreadPoolImpl.unSchedule, ThreadPoolImpl.unScheduleFrom_eq]
    exact ⟨rfl, rfl, Int32.zero_add _⟩
  · intro short
    rw [balanced.queueLen_eq, UInt32.toNat_ofNat', Nat.mod_eq_of_lt short]

end Steps

/-- Three jobs, of which one is started and one is removed. -/
theorem jobs_accounted_sample :
    ∃ pool : ThreadPoolImpl Nat Nat,
      Machine.run ThreadPoolImpl.step .new
          [.schedule ⟨10, 0, 20, some 1⟩ 0, .schedule ⟨11, 0, 21, some 1⟩ 0,
            .schedule ⟨12, 0, 20, some 1⟩ 0, .bgThread 0, .unSchedule 20] = some pool ∧
        ∃ ledger, ledger.pool = pool ∧ Balanced ledger := by
  have runs : Machine.run ThreadPoolImpl.step (.new : ThreadPoolImpl Nat Nat)
      [.schedule ⟨10, 0, 20, some 1⟩ 0, .schedule ⟨11, 0, 21, some 1⟩ 0,
        .schedule ⟨12, 0, 20, some 1⟩ 0, .bgThread 0, .unSchedule 20] = some {
      totalThreadsLimit := 1
      bgthreads := [0]
      queue := [⟨11, 0, 21, some 1⟩]
      queueLen := 1
      exitAllThreads := false
      lowIOPriority := false
      workers := [⟨0, 0, false, .running 0 10⟩]
      nextPthread := 1 } := by
    decide
  obtain ⟨⟨ledger, -, isPool, balanced⟩, -⟩ := jobs_accounted runs
  exact ⟨_, runs, ledger, isPool, balanced⟩

/-! ## A queue that is too long for its length -/

/-- A pool whose only thread has not got `mu_` yet. -/
def stalled (item : BGItem Nat Nat) (count : Nat) : ThreadPoolImpl Nat Nat where
  totalThreadsLimit := 1
  bgthreads := [0]
  queue := List.replicate count item
  queueLen := UInt32.ofNat count
  exitAllThreads := false
  lowIOPriority := false
  workers := [⟨0, 0, false, .ready⟩]
  nextPthread := 1

theorem schedule_stalled (item : BGItem Nat Nat) (count : Nat) :
    (stalled item count).schedule item 0 = some (stalled item (count + 1)) := by
  have pushed : List.replicate count item ++ [item] =
      List.replicate (count + 1) item := by
    rw [List.replicate_add]
    rfl
  have same : (stalled item count).schedule item 0 = some { stalled item count with
      queue := List.replicate count item ++ [item]
      queueLen := UInt32.ofNat (List.replicate count item ++ [item]).length } := rfl
  rw [same, pushed, List.length_replicate]
  rfl

theorem run_stalled (item : BGItem Nat Nat) (count more : Nat) :
    Machine.run ThreadPoolImpl.step (stalled item count)
        (List.replicate more (.schedule item 0)) =
      some (stalled item (count + more)) := by
  induction more generalizing count with
  | zero => rfl
  | succ more inductionHypothesis =>
      rw [List.replicate_succ, Machine.run_cons]
      refine ⟨_, schedule_stalled item count, ?_⟩
      rw [inductionHypothesis]
      congr 2
      omega

/-- After `2 ^ 32` calls of `Schedule` the pool reports an empty queue. -/
theorem queueLen_wraps :
    ∃ pool : ThreadPoolImpl Nat Nat,
      Machine.run ThreadPoolImpl.step .new
          (List.replicate (2 ^ 32) (.schedule ⟨0, 0, 0, none⟩ 0)) = some pool ∧
        pool.queueLen.toNat ≠ pool.queue.length := by
  have first : (ThreadPoolImpl.new : ThreadPoolImpl Nat Nat).schedule
      ⟨0, 0, 0, none⟩ 0 = some (stalled ⟨0, 0, 0, none⟩ 1) := rfl
  refine ⟨stalled ⟨0, 0, 0, none⟩ (1 + (2 ^ 32 - 1)), ?_, ?_⟩
  · have count : 2 ^ 32 = (2 ^ 32 - 1) + 1 := by omega
    rw [count, List.replicate_succ, Machine.run_cons]
    exact ⟨_, first, run_stalled _ 1 (2 ^ 32 - 1)⟩
  · have length : (stalled ⟨0, 0, 0, none⟩ (1 + (2 ^ 32 - 1))).queue.length = 2 ^ 32 :=
      List.length_replicate
    have reported : (stalled ⟨0, 0, 0, none⟩ (1 + (2 ^ 32 - 1))).queueLen.toNat = 0 := rfl
    rw [length, reported]
    decide

end Ledger
end ThreadPool
end RocksUtil
