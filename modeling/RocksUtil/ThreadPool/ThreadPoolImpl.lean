import Mathlib.Algebra.Group.Nat.Defs
import Mathlib.Logic.Function.Iterate
import RocksUtil.Library.Machine

/-!
# The thread pool

`ThreadPoolImpl`, with every critical section under `mu_` as one step.  A pool owns
its worker threads; `bgsignal_` is the set of those that are blocked on it, and the
waiter that a signal wakes is a choice of the caller's.
-/

namespace RocksUtil
namespace ThreadPool

variable {Pointer Callback : Type}

/-- Entry per `Schedule` call.  A null function is `none`. -/
structure BGItem (Pointer Callback : Type) where
  arg : Pointer
  function : Callback
  tag : Pointer
  unschedFunction : Option Callback
  deriving DecidableEq, Repr

/-- Where a worker thread is in `BGThread`. -/
inductive Stage (Pointer Callback : Type)
  /-- About to lock `mu_` and to look at the queue: it was just created, or a function
  has returned, or it was woken up. -/
  | ready
  /-- Blocked on `bgsignal_`. -/
  | waiting
  /-- In `(*function)(arg)`. -/
  | running (function : Callback) (arg : Pointer)
  deriving DecidableEq, Repr

/-- A worker thread that has not left `BGThread`. -/
structure Worker (Pointer Callback : Type) where
  /-- What `pthread_create` returned for the thread. -/
  pthread : Nat
  threadId : Nat
  lowIOPriority : Bool
  stage : Stage Pointer Callback
  deriving DecidableEq, Repr

/-- The pool and its threads. -/
structure ThreadPoolImpl (Pointer Callback : Type) where
  totalThreadsLimit : Int32
  bgthreads : List Nat
  queue : List (BGItem Pointer Callback)
  /-- Queue length.  Used for stats reporting. -/
  queueLen : UInt32
  exitAllThreads : Bool
  lowIOPriority : Bool
  /-- The threads that have not left `BGThread`, in the order of their creation. -/
  workers : List (Worker Pointer Callback)
  /-- The next value of `pthread_create`. -/
  nextPthread : Nat
  deriving DecidableEq, Repr

namespace ThreadPoolImpl

/-- The constructor. -/
def new : ThreadPoolImpl Pointer Callback where
  totalThreadsLimit := 1
  bgthreads := []
  queue := []
  queueLen := 0
  exitAllThreads := false
  lowIOPriority := false
  workers := []
  nextPthread := 0

/-! ## Excessive threads

The number of threads never exceeds a limit that was once in force, so that the
casts to `int` below do not change it. -/

/-- There is at least one thread that needs to terminate. -/
def hasExcessiveThread (pool : ThreadPoolImpl Pointer Callback) : Bool :=
  (pool.bgthreads.length : Int) > pool.totalThreadsLimit.toInt

/-- The current thread is the excessive thread to terminate. -/
def isLastExcessiveThread
    (pool : ThreadPoolImpl Pointer Callback)
    (threadId : Nat) : Bool :=
  pool.hasExcessiveThread && threadId == pool.bgthreads.length - 1

/-- One of the threads to terminate. -/
def isExcessiveThread
    (pool : ThreadPoolImpl Pointer Callback)
    (threadId : Nat) : Bool :=
  (threadId : Int) ≥ pool.totalThreadsLimit.toInt

/-! ## The condition variable -/

/-- Do something in one thread. -/
def onWorker
    (pool : ThreadPoolImpl Pointer Callback)
    (pthread : Nat)
    (act : Worker Pointer Callback → Worker Pointer Callback) :
    ThreadPoolImpl Pointer Callback :=
  { pool with
    workers := pool.workers.map (fun worker =>
      if worker.pthread = pthread then act worker else worker) }

/-- The threads that are blocked on `bgsignal_`. -/
def waiters (pool : ThreadPoolImpl Pointer Callback) : List (Worker Pointer Callback) :=
  pool.workers.filter (fun worker => worker.stage matches .waiting)

/-- `pthread_cond_broadcast` wakes every waiter. -/
def wakeUpAllThreads (pool : ThreadPoolImpl Pointer Callback) :
    ThreadPoolImpl Pointer Callback :=
  { pool with
    workers := pool.workers.map (fun worker =>
      if worker.stage matches .waiting then { worker with stage := .ready }
      else worker) }

/-- `pthread_cond_signal` wakes one waiter, if there is one.  Which one is up to the
scheduler: `woken` is its choice, and `none` says that it is not among the waiters. -/
def conditionSignal
    (pool : ThreadPoolImpl Pointer Callback)
    (woken : Nat) : Option (ThreadPoolImpl Pointer Callback) :=
  if pool.waiters.isEmpty then
    some pool
  else if pool.waiters.any (fun worker => worker.pthread == woken) then
    some (pool.onWorker woken (fun worker => { worker with stage := .ready }))
  else
    none

/-! ## Starting threads -/

/-- One turn of the loop of `StartBGThreads`. -/
def startBGThread (pool : ThreadPoolImpl Pointer Callback) :
    ThreadPoolImpl Pointer Callback :=
  { pool with
    bgthreads := pool.bgthreads ++ [pool.nextPthread]
    workers := pool.workers ++ [{
      pthread := pool.nextPthread
      threadId := pool.bgthreads.length
      lowIOPriority := false
      stage := .ready }]
    nextPthread := pool.nextPthread + 1 }

/-- Start background threads if necessary.  Every turn adds a thread, so that the loop
takes as many turns as threads are missing. -/
def startBGThreads (pool : ThreadPoolImpl Pointer Callback) :
    ThreadPoolImpl Pointer Callback :=
  startBGThread^[(pool.totalThreadsLimit.toInt - pool.bgthreads.length).toNat] pool

theorem queue_startBGThreads (pool : ThreadPoolImpl Pointer Callback) :
    pool.startBGThreads.queue = pool.queue ∧
      pool.startBGThreads.queueLen = pool.queueLen := by
  unfold startBGThreads
  generalize (pool.totalThreadsLimit.toInt - pool.bgthreads.length).toNat = turns
  induction turns with
  | zero => exact ⟨rfl, rfl⟩
  | succ turns inductionHypothesis =>
      rw [Function.iterate_succ_apply']
      exact inductionHypothesis

theorem queue_conditionSignal
    {pool pool' : ThreadPoolImpl Pointer Callback}
    {woken : Nat}
    (signals : pool.conditionSignal woken = some pool') :
    pool'.queue = pool.queue ∧ pool'.queueLen = pool.queueLen := by
  unfold conditionSignal at signals
  split at signals
  · cases signals
    exact ⟨rfl, rfl⟩
  · split at signals
    · cases signals
      exact ⟨rfl, rfl⟩
    · cases signals

/-! ## The methods -/

/-- Put an item into the queue.  `woken` is the waiter that is signalled, where one
is. -/
def schedule
    (pool : ThreadPoolImpl Pointer Callback)
    (item : BGItem Pointer Callback)
    (woken : Nat) : Option (ThreadPoolImpl Pointer Callback) :=
  if pool.exitAllThreads then
    some pool
  else
    let pool := pool.startBGThreads
    let queue := pool.queue ++ [item]
    let pool := { pool with queue := queue, queueLen := UInt32.ofNat queue.length }
    if !pool.hasExcessiveThread then
      pool.conditionSignal woken
    else
      some pool.wakeUpAllThreads

theorem queue_schedule
    {pool pool' : ThreadPoolImpl Pointer Callback}
    (running : pool.exitAllThreads = false)
    {item : BGItem Pointer Callback}
    {woken : Nat}
    (schedules : pool.schedule item woken = some pool') :
    pool'.queue = pool.queue ++ [item] ∧
      pool'.queueLen = UInt32.ofNat pool'.queue.length := by
  have started := queue_startBGThreads pool
  rw [schedule, running, if_neg Bool.false_ne_true] at schedules
  dsimp only at schedules
  rw [started.1] at schedules
  split at schedules
  · obtain ⟨queue, queueLen⟩ := queue_conditionSignal schedules
    rw [queue, queueLen]
    exact ⟨rfl, rfl⟩
  · cases schedules
    exact ⟨rfl, rfl⟩

/-- The local variables of the loop of `UnSchedule`: what has been passed over, the
calls that were made, and `count`. -/
structure UnScheduled (Pointer Callback : Type) where
  kept : List (BGItem Pointer Callback)
  calls : List (Callback × Pointer)
  count : Int32
  deriving DecidableEq, Repr

/-- The call of the unschedule function of an item, unless that is null. -/
def unschedCall (item : BGItem Pointer Callback) : Option (Callback × Pointer) :=
  item.unschedFunction.map (fun function => (function, item.arg))

/-- The loop of `UnSchedule`, from an iterator on. -/
def unScheduleFrom
    [DecidableEq Pointer]
    (tag : Pointer)
    (done : UnScheduled Pointer Callback) :
    List (BGItem Pointer Callback) → UnScheduled Pointer Callback
  | [] => done
  | item :: rest =>
      if tag = item.tag then
        unScheduleFrom tag { done with
          calls := done.calls ++ (unschedCall item).toList
          count := done.count + 1 } rest
      else
        unScheduleFrom tag { done with kept := done.kept ++ [item] } rest

/-- Remove the items of a tag from the queue.  Returns the number of them, the calls
that were made, and the pool. -/
def unSchedule
    [DecidableEq Pointer]
    (pool : ThreadPoolImpl Pointer Callback)
    (tag : Pointer) :
    Int32 × List (Callback × Pointer) × ThreadPoolImpl Pointer Callback :=
  let done := unScheduleFrom tag ⟨[], [], 0⟩ pool.queue
  (done.count, done.calls,
    { pool with queue := done.kept, queueLen := UInt32.ofNat done.kept.length })

/-- The loop keeps the items of other tags, and calls the unschedule functions of
those of the tag. -/
theorem unScheduleFrom_eq
    [DecidableEq Pointer]
    (tag : Pointer)
    (done : UnScheduled Pointer Callback)
    (items : List (BGItem Pointer Callback)) :
    unScheduleFrom tag done items =
      { kept := done.kept ++ items.filter (fun item => tag ≠ item.tag)
        calls := done.calls ++
          (items.filter (fun item => tag = item.tag)).filterMap unschedCall
        count := done.count +
          Int32.ofNat (items.filter (fun item => tag = item.tag)).length } := by
  induction items generalizing done with
  | nil => simp [unScheduleFrom]
  | cons item rest inductionHypothesis =>
      rw [unScheduleFrom, inductionHypothesis, inductionHypothesis]
      by_cases same : tag = item.tag
      · have counted (count : Nat) :
            done.count + 1 + Int32.ofNat count =
              done.count + Int32.ofNat (count + 1) := by
          rw [Int32.ofNat_add, Int32.add_assoc, Int32.add_comm 1]
          rfl
        simp only [same, if_true, decide_true, ne_eq, not_true_eq_false, decide_false,
          List.filter_cons, Bool.false_eq_true, if_false, List.length_cons, counted,
          List.append_assoc]
        cases called : unschedCall item <;> simp [called]
      · simp [same]

theorem queue_unSchedule
    [DecidableEq Pointer]
    (pool : ThreadPoolImpl Pointer Callback)
    (tag : Pointer) :
    (pool.unSchedule tag).2.2.queue =
      pool.queue.filter (fun item => tag ≠ item.tag) := by
  rw [unSchedule, unScheduleFrom_eq]
  rfl

def setBackgroundThreadsInternal
    (pool : ThreadPoolImpl Pointer Callback)
    (num : Int32)
    (allowReduce : Bool) : ThreadPoolImpl Pointer Callback :=
  if pool.exitAllThreads then
    pool
  else if num > pool.totalThreadsLimit ∨
      (num < pool.totalThreadsLimit ∧ allowReduce) then
    let pool := { pool with totalThreadsLimit := if 1 < num then num else 1 }
    pool.wakeUpAllThreads.startBGThreads
  else
    pool

theorem queue_setBackgroundThreadsInternal
    (pool : ThreadPoolImpl Pointer Callback)
    (num : Int32)
    (allowReduce : Bool) :
    (pool.setBackgroundThreadsInternal num allowReduce).queue = pool.queue ∧
      (pool.setBackgroundThreadsInternal num allowReduce).queueLen = pool.queueLen := by
  unfold setBackgroundThreadsInternal
  split
  · exact ⟨rfl, rfl⟩
  · split
    · exact queue_startBGThreads _
    · exact ⟨rfl, rfl⟩

def incBackgroundThreadsIfNeeded
    (pool : ThreadPoolImpl Pointer Callback)
    (num : Int32) : ThreadPoolImpl Pointer Callback :=
  pool.setBackgroundThreadsInternal num false

def setBackgroundThreads
    (pool : ThreadPoolImpl Pointer Callback)
    (num : Int32) : ThreadPoolImpl Pointer Callback :=
  pool.setBackgroundThreadsInternal num true

def lowerIOPriority (pool : ThreadPoolImpl Pointer Callback) :
    ThreadPoolImpl Pointer Callback :=
  { pool with lowIOPriority := true }

/-- The critical section of `JoinAllThreads`. -/
def joinAllThreads (pool : ThreadPoolImpl Pointer Callback) :
    Option (ThreadPoolImpl Pointer Callback) :=
  if pool.exitAllThreads then
    none
  else
    some { pool with exitAllThreads := true }.wakeUpAllThreads

/-! ## The worker threads -/

/-- A thread leaves `BGThread`. -/
def leave
    (pool : ThreadPoolImpl Pointer Callback)
    (worker : Worker Pointer Callback) : ThreadPoolImpl Pointer Callback :=
  { pool with
    workers := pool.workers.filter (fun other => other.pthread ≠ worker.pthread) }

/-- What a thread does with `mu_` held, up to the point where it waits or unlocks.
Returns the call that it makes next, if it has taken an item, and the pool. -/
def bgThread
    (pool : ThreadPoolImpl Pointer Callback)
    (worker : Worker Pointer Callback) :
    Option (Callback × Pointer) × ThreadPoolImpl Pointer Callback :=
  if !pool.exitAllThreads && !pool.isLastExcessiveThread worker.threadId &&
      (pool.queue.isEmpty || pool.isExcessiveThread worker.threadId) then
    (none, pool.onWorker worker.pthread (fun worker => { worker with stage := .waiting }))
  else if pool.exitAllThreads then
    (none, pool.leave worker)
  else if pool.isLastExcessiveThread worker.threadId then
    let pool := { pool with bgthreads := pool.bgthreads.dropLast }
    let pool := if pool.hasExcessiveThread then pool.wakeUpAllThreads else pool
    (none, pool.leave worker)
  else
    match pool.queue with
    | [] => (none, pool)  -- the loop was not left with an empty queue
    | item :: queue =>
        let pool := { pool with queue := queue, queueLen := UInt32.ofNat queue.length }
        let decreaseIOPriority := worker.lowIOPriority != pool.lowIOPriority
        (some (item.function, item.arg), pool.onWorker worker.pthread (fun worker =>
          { worker with
            lowIOPriority := worker.lowIOPriority || decreaseIOPriority
            stage := .running item.function item.arg }))

/-- The pool behind a thread that has taken an item. -/
def taken
    (pool : ThreadPoolImpl Pointer Callback)
    (worker : Worker Pointer Callback)
    (item : BGItem Pointer Callback)
    (queue : List (BGItem Pointer Callback)) : ThreadPoolImpl Pointer Callback :=
  { pool with queue := queue, queueLen := UInt32.ofNat queue.length }.onWorker
    worker.pthread (fun other =>
      { other with
        lowIOPriority := other.lowIOPriority || worker.lowIOPriority != pool.lowIOPriority
        stage := .running item.function item.arg })

/-- What a thread can do with `mu_` held. -/
theorem bgThread_cases
    (pool : ThreadPoolImpl Pointer Callback)
    (worker : Worker Pointer Callback) :
    (pool.queue = [] ∨ pool.isExcessiveThread worker.threadId = true) ∧
        pool.bgThread worker = (none, pool.onWorker worker.pthread
          (fun worker => { worker with stage := .waiting })) ∨
      pool.exitAllThreads = true ∧ pool.bgThread worker = (none, pool.leave worker) ∨
      pool.isLastExcessiveThread worker.threadId = true ∧
        (pool.bgThread worker =
            (none, { pool with bgthreads := pool.bgthreads.dropLast }.leave worker) ∨
          pool.bgThread worker = (none, { pool with
            bgthreads := pool.bgthreads.dropLast }.wakeUpAllThreads.leave worker)) ∨
      ∃ item queue, pool.queue = item :: queue ∧
        pool.isExcessiveThread worker.threadId = false ∧
          pool.bgThread worker =
            (some (item.function, item.arg), pool.taken worker item queue) := by
  unfold bgThread
  split
  · rename_i waits
    have idle := (Bool.and_eq_true_iff.mp waits).2
    refine .inl ⟨?_, rfl⟩
    rcases Bool.or_eq_true_iff.mp idle with empty | excessive
    · exact .inl (List.isEmpty_iff.mp empty)
    · exact .inr excessive
  · rename_i works
    split
    · exact .inr (.inl ⟨‹_›, rfl⟩)
    · rename_i running
      split
      · rename_i isLast
        refine .inr (.inr (.inl ⟨isLast, ?_⟩))
        dsimp only
        split
        · exact .inr rfl
        · exact .inl rfl
      · rename_i notLast
        simp only [running, notLast, Bool.not_false, Bool.true_and, Bool.not_eq_true,
          Bool.or_eq_false_iff, List.isEmpty_eq_false_iff] at works
        split
        · exact absurd ‹_› works.1
        · exact .inr (.inr (.inr ⟨_, _, ‹_›, works.2, rfl⟩))

/-- What can happen next in the program. -/
inductive Action (Pointer Callback : Type)
  | schedule (item : BGItem Pointer Callback) (woken : Nat)
  | unSchedule (tag : Pointer)
  | setBackgroundThreads (num : Int32)
  | incBackgroundThreadsIfNeeded (num : Int32)
  | lowerIOPriority
  | joinAllThreads
  /-- A thread that is ready gets `mu_`. -/
  | bgThread (pthread : Nat)
  /-- A waiter wakes up without a signal. -/
  | spuriousWakeUp (pthread : Nat)
  /-- The function that a thread has called returns. -/
  | functionReturns (pthread : Nat)
  deriving DecidableEq, Repr

/-- The thread of a handle. -/
def worker?
    (pool : ThreadPoolImpl Pointer Callback)
    (pthread : Nat) : Option (Worker Pointer Callback) :=
  pool.workers.find? (fun worker => worker.pthread == pthread)

/-- A thread that was ready, if it was, gets `mu_`. -/
def turn
    (pool : ThreadPoolImpl Pointer Callback)
    (pthread : Nat) :
    Option (Option (Callback × Pointer) × ThreadPoolImpl Pointer Callback) :=
  match pool.worker? pthread with
  | some worker => if worker.stage matches .ready then some (pool.bgThread worker) else none
  | none => none

/-- The next state; `none` where the action is impossible. -/
def step
    [DecidableEq Pointer]
    (pool : ThreadPoolImpl Pointer Callback) :
    Action Pointer Callback → Option (ThreadPoolImpl Pointer Callback)
  | .schedule item woken => pool.schedule item woken
  | .unSchedule tag => some (pool.unSchedule tag).2.2
  | .setBackgroundThreads num => some (pool.setBackgroundThreads num)
  | .incBackgroundThreadsIfNeeded num => some (pool.incBackgroundThreadsIfNeeded num)
  | .lowerIOPriority => some pool.lowerIOPriority
  | .joinAllThreads => pool.joinAllThreads
  | .bgThread pthread => (pool.turn pthread).map (fun result => result.2)
  | .spuriousWakeUp pthread =>
      match pool.worker? pthread with
      | some worker =>
          if worker.stage matches .waiting then
            some (pool.onWorker pthread (fun worker => { worker with stage := .ready }))
          else
            none
      | none => none
  | .functionReturns pthread =>
      match pool.worker? pthread with
      | some worker =>
          if worker.stage matches .running _ _ then
            some (pool.onWorker pthread (fun worker => { worker with stage := .ready }))
          else
            none
      | none => none

section Steps

variable {pool pool' : ThreadPoolImpl Pointer Callback}

theorem mem_of_worker?
    {pthread : Nat}
    {worker : Worker Pointer Callback}
    (found : pool.worker? pthread = some worker) :
    worker ∈ pool.workers :=
  List.mem_of_find?_eq_some found

/-- A thread that gets `mu_`. -/
theorem of_turn
    {pthread : Nat}
    {result : Option (Callback × Pointer) × ThreadPoolImpl Pointer Callback}
    (turns : pool.turn pthread = some result) :
    ∃ worker ∈ pool.workers, worker.pthread = pthread ∧ result = pool.bgThread worker := by
  unfold turn at turns
  split at turns
  · rename_i worker found
    have named := List.find?_some found
    split at turns
    · exact ⟨worker, mem_of_worker? found, beq_iff_eq.mp named,
        (Option.some.inj turns).symm⟩
    · cases turns
  · cases turns

/-- A waiter that wakes up, and a thread whose function returns. -/
theorem of_wakes
    [DecidableEq Pointer]
    {action : Action Pointer Callback}
    {pthread : Nat}
    (isAction : action = .spuriousWakeUp pthread ∨ action = .functionReturns pthread)
    (steps : pool.step action = some pool') :
    pool' = pool.onWorker pthread (fun worker => { worker with stage := .ready }) := by
  rcases isAction with rfl | rfl <;>
  · unfold step at steps
    dsimp only at steps
    split at steps
    · split at steps
      · exact (Option.some.inj steps).symm
      · cases steps
    · cases steps

end Steps

end ThreadPoolImpl
end ThreadPool
end RocksUtil
