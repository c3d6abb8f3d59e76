import Mathlib.Algebra.BigOperators.Group.List.Basic
import Mathlib.Tactic.Ring
import RocksUtil.ThreadPool.Ledger
import RocksUtil.ThreadPool.Staffing

/-!
# The pool comes to rest

However the threads are scheduled, behind the last request they get `mu_` only so often:
each turn takes from an effort that is left, and only a waiter that wakes up without a
signal adds to it.  When no thread has anything left to do, the queue is empty, every job
in it has been started in its order, and no thread is left that is one too many
(`queue_drains`).
-/

namespace RocksUtil
namespace ThreadPool

variable {Pointer Callback : Type}

/-- What a thread has left to do before it waits: to return from a function, and to get
`mu_`. -/
def Worker.effort (worker : Worker Pointer Callback) : Nat :=
  match worker.stage with
  | .waiting => 0
  | .ready => 1
  | .running _ _ => 2

namespace ThreadPoolImpl

/-! ## The thread to terminate is not asleep -/

/-- The last thread does not wait while it is one too many. -/
def Alert (pool : ThreadPoolImpl Pointer Callback) : Prop :=
  ∀ worker ∈ pool.workers, worker.stage = .waiting →
    pool.isLastExcessiveThread worker.threadId = false

section Alertness

variable {pool pool' : ThreadPoolImpl Pointer Callback}

theorem alert_of_no_waiters
    (noWaiters : ∀ worker ∈ pool.workers, worker.stage ≠ .waiting) : Alert pool :=
  fun worker isWorker waits => absurd waits (noWaiters worker isWorker)

theorem alert_of_no_excess (noExcess : pool.hasExcessiveThread = false) : Alert pool := by
  intro worker _ _
  rw [isLastExcessiveThread, noExcess, Bool.false_and]

/-- Neither the threads nor the limit have changed, and nobody else waits. -/
theorem Alert.of_fewer
    (alert : Alert pool)
    (bgthreads : pool'.bgthreads = pool.bgthreads)
    (limit : pool'.totalThreadsLimit = pool.totalThreadsLimit)
    (fewer : ∀ worker ∈ pool'.workers, worker.stage = .waiting → worker ∈ pool.workers) :
    Alert pool' := by
  intro worker isWorker waits
  have before := alert worker (fewer worker isWorker waits) waits
  rw [isLastExcessiveThread, hasExcessiveThread] at before ⊢
  rwa [bgthreads, limit]

/-- A thread that does not wait has acted. -/
theorem mem_of_onWorker_waiting
    {pthread : Nat}
    {act : Worker Pointer Callback → Worker Pointer Callback}
    (acts : ∀ worker, (act worker).stage ≠ .waiting)
    {worker : Worker Pointer Callback}
    (isWorker : worker ∈ (pool.onWorker pthread act).workers)
    (waits : worker.stage = .waiting) : worker ∈ pool.workers := by
  obtain ⟨before, isBefore, rfl⟩ := List.mem_map.mp isWorker
  split at waits
  · exact absurd waits (acts before)
  · rename_i other
    rw [if_neg other]
    exact isBefore

theorem Alert.unblock
    (alert : Alert pool)
    (pthread : Nat) :
    Alert (pool.onWorker pthread (fun worker => { worker with stage := .ready })) :=
  alert.of_fewer rfl rfl fun _ isWorker waits =>
    mem_of_onWorker_waiting (fun _ isWaiting => by cases isWaiting) isWorker waits

/-- Threads that are started do not wait. -/
theorem no_waiters_startBGThreads
    (noWaiters : ∀ worker ∈ pool.workers, worker.stage ≠ .waiting) :
    ∀ worker ∈ pool.startBGThreads.workers, worker.stage ≠ .waiting := by
  unfold startBGThreads
  generalize (pool.totalThreadsLimit.toInt - pool.bgthreads.length).toNat = turns
  induction turns with
  | zero => exact noWaiters
  | succ turns inductionHypothesis =>
      rw [Function.iterate_succ_apply']
      intro worker isWorker
      rcases List.mem_append.mp isWorker with earlier | isStarted
      · exact inductionHypothesis worker earlier
      · rw [List.mem_singleton.mp isStarted]
        exact nofun

theorem alert_schedule
    (alert : Alert pool)
    {item : BGItem Pointer Callback}
    {woken : Nat}
    (schedules : pool.schedule item woken = some pool') : Alert pool' := by
  unfold schedule at schedules
  split at schedules
  · cases schedules
    exact alert
  · dsimp only at schedules
    split at schedules
    · rename_i noExcess
      apply alert_of_no_excess
      rw [Bool.not_eq_true'] at noExcess
      unfold conditionSignal at schedules
      split at schedules
      · cases schedules
        exact noExcess
      · split at schedules
        · cases schedules
          exact noExcess
        · cases schedules
    · cases schedules
      exact alert_of_no_waiters (wakeUpAllThreads_no_waiters _)

theorem alert_setBackgroundThreadsInternal
    (alert : Alert pool)
    (num : Int32)
    (allowReduce : Bool) : Alert (pool.setBackgroundThreadsInternal num allowReduce) := by
  unfold setBackgroundThreadsInternal
  split
  · exact alert
  · split
    · exact alert_of_no_waiters (no_waiters_startBGThreads (wakeUpAllThreads_no_waiters _))
    · exact alert

theorem Alert.leave
    (alert : Alert pool)
    (worker : Worker Pointer Callback) : Alert (pool.leave worker) :=
  alert.of_fewer rfl rfl fun _ isOther _ => (List.mem_filter.mp isOther).1

theorem Alert.bgThread
    (alert : Alert pool)
    (worker : Worker Pointer Callback)
    (only : ∀ other ∈ pool.workers, other.pthread = worker.pthread → other = worker) :
    Alert (pool.bgThread worker).2 := by
  unfold ThreadPoolImpl.bgThread
  split
  · rename_i waits
    have stays := (Bool.and_eq_true_iff.mp (Bool.and_eq_true_iff.mp waits).1).2
    rw [Bool.not_eq_true'] at stays
    intro other isOther isWaiting
    obtain ⟨before, isBefore, rfl⟩ := List.mem_map.mp isOther
    by_cases same : before.pthread = worker.pthread
    · rw [only before isBefore same, if_pos rfl]
      exact stays
    · rw [if_neg same] at isWaiting ⊢
      exact alert before isBefore isWaiting
  · split
    · exact alert.leave worker
    · split
      · dsimp only
        split
        · exact Alert.leave (alert_of_no_waiters (wakeUpAllThreads_no_waiters _)) worker
        · rename_i noExcess
          exact Alert.leave (alert_of_no_excess (Bool.not_eq_true _ ▸ noExcess)) worker
      · split
        · exact alert
        · refine Alert.of_fewer alert rfl rfl fun _ isOther waits => ?_
          exact @mem_of_onWorker_waiting _ _ pool _ _ (fun _ isWaiting => by cases isWaiting) _
            isOther waits

variable [DecidableEq Pointer]

theorem Alert.step
    (alert : Alert pool)
    (nodup : (pool.workers.map (fun worker => worker.pthread)).Nodup)
    {action : Action Pointer Callback}
    (steps : pool.step action = some pool') : Alert pool' := by
  cases action with
  | schedule item woken => exact alert_schedule alert steps
  | unSchedule tag =>
      cases steps
      exact alert
  | setBackgroundThreads num =>
      cases steps
      exact alert_setBackgroundThreadsInternal alert num true
  | incBackgroundThreadsIfNeeded num =>
      cases steps
      exact alert_setBackgroundThreadsInternal alert num false
  | lowerIOPriority =>
      cases steps
      exact alert
  | joinAllThreads =>
      rw [ThreadPoolImpl.step, joinAllThreads] at steps
      split at steps
      · cases steps
      · cases steps
        exact alert_of_no_waiters (wakeUpAllThreads_no_waiters _)
  | bgThread pthread =>
      obtain ⟨result, turns, rfl⟩ := Option.map_eq_some_iff.mp steps
      obtain ⟨worker, isWorker, -, rfl⟩ := of_turn turns
      exact alert.bgThread worker fun other isOther same =>
        List.inj_on_of_nodup_map nodup isOther isWorker same
  | spuriousWakeUp pthread =>
      rw [of_wakes (.inl rfl) steps]
      exact alert.unblock pthread
  | functionReturns pthread =>
      rw [of_wakes (.inr rfl) steps]
      exact alert.unblock pthread

end Alertness

/-! ## The effort that is left -/

/-- How many threads are one too many. -/
def excess (pool : ThreadPoolImpl Pointer Callback) : Nat :=
  (pool.bgthreads.length - pool.totalThreadsLimit.toInt).toNat

/-- What the threads have left to do: for each job a turn, the call and the turn behind it,
and a turn of every thread for each one that is one too many. -/
def effort (pool : ThreadPoolImpl Pointer Callback) : Nat :=
  3 * pool.queue.length + (pool.workers.map Worker.effort).sum +
    pool.excess * pool.workers.length

/-- The threads have different handles, and the limit allows some. -/
structure Counted (pool : ThreadPoolImpl Pointer Callback) : Prop where
  nodup : (pool.workers.map (fun worker => worker.pthread)).Nodup
  positive : 0 < pool.totalThreadsLimit.toInt

section Efforts

variable {pool pool' : ThreadPoolImpl Pointer Callback} {worker : Worker Pointer Callback}

theorem Regular.counted (regular : Regular pool) : Counted pool :=
  ⟨regular.pthreads ▸ regular.nodup, regular.positive⟩

/-- A thread and the others. -/
theorem perm_cons_others
    {workers : List (Worker Pointer Callback)}
    (nodup : (workers.map (fun worker => worker.pthread)).Nodup)
    (isWorker : worker ∈ workers) :
    workers.Perm
      (worker :: workers.filter (fun other => other.pthread ≠ worker.pthread)) := by
  induction workers with
  | nil => cases isWorker
  | cons first rest inductionHypothesis =>
      obtain ⟨apart, nodup⟩ := List.nodup_cons.mp nodup
      rcases List.mem_cons.mp isWorker with rfl | later
      · have others : rest.filter (fun other => other.pthread ≠ worker.pthread) = rest := by
          refine List.filter_eq_self.mpr fun other isOther => decide_eq_true fun same => ?_
          exact apart (List.mem_map.mpr ⟨other, isOther, same⟩)
        rw [List.filter_cons_of_neg (by simp), others]
      · have differs : first.pthread ≠ worker.pthread := fun same =>
          apart (List.mem_map.mpr ⟨worker, later, same.symm⟩)
        rw [List.filter_cons, if_pos (decide_eq_true differs)]
        exact ((inductionHypothesis nodup later).cons first).trans (.swap ..)

theorem Counted.perm_leave
    (counted : Counted pool)
    (isWorker : worker ∈ pool.workers) :
    pool.workers.Perm (worker :: (pool.leave worker).workers) :=
  perm_cons_others counted.nodup isWorker

/-- A thread has acted, and the others have not. -/
theorem Counted.perm_onWorker
    (counted : Counted pool)
    (isWorker : worker ∈ pool.workers)
    (act : Worker Pointer Callback → Worker Pointer Callback) :
    (pool.onWorker worker.pthread act).workers.Perm
      (act worker :: (pool.leave worker).workers) := by
  have idle : ∀ other ∈ (pool.leave worker).workers,
      (if other.pthread = worker.pthread then act other else other) = other :=
    fun other isOther => if_neg (of_decide_eq_true (List.mem_filter.mp isOther).2)
  refine ((counted.perm_leave isWorker).map _).trans (List.Perm.of_eq ?_)
  rw [List.map_cons, if_pos rfl, List.map_congr_left idle, List.map_id']

theorem Counted.effort_eq
    (counted : Counted pool)
    (isWorker : worker ∈ pool.workers) :
    pool.effort = 3 * pool.queue.length +
      (worker.effort + ((pool.leave worker).workers.map Worker.effort).sum) +
        pool.excess * ((pool.leave worker).workers.length + 1) := by
  have split := counted.perm_leave isWorker
  rw [effort, (split.map Worker.effort).sum_eq, split.length_eq, List.map_cons,
    List.sum_cons, List.length_cons]

/-- The effort that is left behind what a thread does to itself. -/
theorem Counted.effort_onWorker
    (counted : Counted pool)
    (isWorker : worker ∈ pool.workers)
    (act : Worker Pointer Callback → Worker Pointer Callback) :
    (pool.onWorker worker.pthread act).effort + worker.effort =
      pool.effort + (act worker).effort := by
  have split := counted.perm_onWorker isWorker act
  have queue : (pool.onWorker worker.pthread act).queue = pool.queue := rfl
  have excess : (pool.onWorker worker.pthread act).excess = pool.excess := rfl
  rw [counted.effort_eq isWorker, effort, (split.map Worker.effort).sum_eq,
    split.length_eq, List.map_cons, List.sum_cons, List.length_cons, queue, excess]
  omega

theorem sum_effort_map_le
    {act : Worker Pointer Callback → Worker Pointer Callback}
    (bounded : ∀ worker, (act worker).effort ≤ worker.effort + 1)
    (workers : List (Worker Pointer Callback)) :
    ((workers.map act).map Worker.effort).sum ≤
      (workers.map Worker.effort).sum + workers.length := by
  induction workers with
  | nil => exact Nat.le_refl _
  | cons first rest inductionHypothesis =>
      have one := bounded first
      rw [List.map_cons, List.map_cons, List.sum_cons, List.map_cons, List.sum_cons,
        List.length_cons]
      omega

/-- A thread that is woken up has a turn more. -/
theorem sum_effort_wakeUpAllThreads_le (pool : ThreadPoolImpl Pointer Callback) :
    (pool.wakeUpAllThreads.workers.map Worker.effort).sum ≤
      (pool.workers.map Worker.effort).sum + pool.workers.length := by
  refine sum_effort_map_le (fun worker => ?_) pool.workers
  split
  · exact Nat.le_add_left _ _
  · exact Nat.le_succ _

/-- The effort that is left behind a thread that terminates. -/
theorem Counted.effort_terminate
    (counted : Counted pool)
    (isWorker : worker ∈ pool.workers)
    (isLast : pool.isLastExcessiveThread worker.threadId = true)
    {left : ThreadPoolImpl Pointer Callback}
    (isLeft : left = { pool with bgthreads := pool.bgthreads.dropLast }.leave worker ∨
      left = { pool with bgthreads := pool.bgthreads.dropLast }.wakeUpAllThreads.leave worker) :
    left.effort + worker.effort ≤ pool.effort := by
  have positive := counted.positive
  have beyond := of_decide_eq_true (Bool.and_eq_true_iff.mp isLast).1
  have awake := sum_effort_wakeUpAllThreads_le (pool.leave worker)
  have fewer : ∃ excess, pool.excess = excess + 1 ∧
      ∀ workers : List (Worker Pointer Callback), ThreadPoolImpl.excess
        { pool with bgthreads := pool.bgthreads.dropLast, workers := workers } = excess := by
    refine ⟨pool.excess - 1, ?_, fun workers => ?_⟩
    · unfold excess
      omega
    · unfold excess
      dsimp only
      rw [List.length_dropLast]
      omega
  obtain ⟨excess, isExcess, isLess⟩ := fewer
  rw [counted.effort_eq isWorker, isExcess]
  rcases isLeft with rfl | rfl
  · have less : ({ pool with bgthreads := pool.bgthreads.dropLast }.leave worker).excess =
        excess := isLess _
    rw [effort, less]
    change 3 * pool.queue.length + ((pool.leave worker).workers.map Worker.effort).sum +
      excess * (pool.leave worker).workers.length + worker.effort ≤ _
    generalize (pool.leave worker).workers.length = others
    have distributes : (excess + 1) * (others + 1) = excess * others + excess + others + 1 := by
      ring
    omega
  · rw [leave_wakeUpAllThreads]
    have less : ({ pool with bgthreads := pool.bgthreads.dropLast }.leave
        worker).wakeUpAllThreads.excess = excess := isLess _
    have length : (pool.leave worker).wakeUpAllThreads.workers.length =
        (pool.leave worker).workers.length := List.length_map _
    rw [effort, less]
    change 3 * pool.queue.length +
      ((pool.leave worker).wakeUpAllThreads.workers.map Worker.effort).sum +
        excess * (pool.leave worker).wakeUpAllThreads.workers.length + worker.effort ≤ _
    rw [length]
    generalize (pool.leave worker).workers.length = others at awake ⊢
    have distributes : (excess + 1) * (others + 1) = excess * others + excess + others + 1 := by
      ring
    omega

/-- A turn takes from the effort that is left. -/
theorem Counted.effort_bgThread
    (counted : Counted pool)
    (isWorker : worker ∈ pool.workers)
    (ready : worker.stage = .ready) :
    (pool.bgThread worker).2.effort < pool.effort := by
  have own : worker.effort = 1 := by
    rw [Worker.effort, ready]
  rcases bgThread_cases pool worker with ⟨-, waits⟩ | ⟨-, exits⟩ |
    ⟨isLast, terminates | terminates⟩ | ⟨item, queue, split, -, takes⟩
  · rw [waits]
    dsimp only
    have left := counted.effort_onWorker isWorker fun worker => { worker with stage := .waiting }
    have none : Worker.effort ({ worker with stage := .waiting } : Worker Pointer Callback) =
      0 := rfl
    omega
  · rw [exits, counted.effort_eq isWorker, own]
    change 3 * pool.queue.length + ((pool.leave worker).workers.map Worker.effort).sum +
      pool.excess * (pool.leave worker).workers.length < _
    rw [Nat.mul_succ]
    omega
  · rw [terminates]
    dsimp only
    have left := counted.effort_terminate isWorker isLast (.inl rfl)
    omega
  · rw [terminates]
    dsimp only
    have left := counted.effort_terminate isWorker isLast (.inr rfl)
    omega
  · rw [takes]
    have counted' : Counted { pool with
        queue := queue
        queueLen := UInt32.ofNat queue.length } := { counted with }
    have left := counted'.effort_onWorker isWorker fun other =>
      { other with
        lowIOPriority := other.lowIOPriority || worker.lowIOPriority != pool.lowIOPriority
        stage := .running item.function item.arg }
    have two : Worker.effort ({ worker with
        lowIOPriority := worker.lowIOPriority || worker.lowIOPriority != pool.lowIOPriority
        stage := .running item.function item.arg } : Worker Pointer Callback) = 2 := rfl
    have shorter : pool.effort = 3 + ThreadPoolImpl.effort { pool with
        queue := queue
        queueLen := UInt32.ofNat queue.length } := by
      rw [effort, effort, split, List.length_cons]
      change _ = 3 + (3 * queue.length + (pool.workers.map Worker.effort).sum +
        pool.excess * pool.workers.length)
      ring
    rw [taken]
    dsimp only
    omega

end Efforts

/-! ## What the threads do by themselves -/

/-- A thread gets `mu_`, or a function returns. -/
def Action.works : Action Pointer Callback → Bool
  | .bgThread _ => true
  | .functionReturns _ => true
  | _ => false

def Action.isSpuriousWakeUp : Action Pointer Callback → Bool
  | .spuriousWakeUp _ => true
  | _ => false

/-- The threads have nothing left to do. -/
def AtRest [DecidableEq Pointer] (pool : ThreadPoolImpl Pointer Callback) : Prop :=
  ∀ action : Action Pointer Callback, action.works = true → pool.step action = none

section Threads

variable {pool pool' : ThreadPoolImpl Pointer Callback} {pthread : Nat}

theorem pthread_of_worker?
    {worker : Worker Pointer Callback}
    (found : pool.worker? pthread = some worker) : worker.pthread = pthread := by
  have named := List.find?_some found
  exact beq_iff_eq.mp named

/-- A thread that gets `mu_` was ready. -/
theorem ready_of_turn
    {result : Option (Callback × Pointer) × ThreadPoolImpl Pointer Callback}
    (turns : pool.turn pthread = some result) :
    ∃ worker ∈ pool.workers, worker.pthread = pthread ∧ worker.stage = .ready ∧
      result = pool.bgThread worker := by
  unfold turn at turns
  split at turns
  · rename_i worker found
    have named := pthread_of_worker? found
    refine ⟨worker, mem_of_worker? found, named, ?_⟩
    cases stage : worker.stage with
    | ready =>
        rw [stage] at turns
        exact ⟨rfl, (Option.some.inj turns).symm⟩
    | waiting =>
        rw [stage] at turns
        cases turns
    | running function arg =>
        rw [stage] at turns
        cases turns
  · cases turns

variable [DecidableEq Pointer]

theorem waiting_of_spuriousWakeUp
    (steps : pool.step (.spuriousWakeUp pthread) = some pool') :
    ∃ worker ∈ pool.workers, worker.pthread = pthread ∧ worker.stage = .waiting := by
  unfold step at steps
  dsimp only at steps
  split at steps
  · rename_i worker found
    have named := pthread_of_worker? found
    refine ⟨worker, mem_of_worker? found, named, ?_⟩
    cases stage : worker.stage with
    | waiting => rfl
    | ready =>
        rw [stage] at steps
        cases steps
    | running function arg =>
        rw [stage] at steps
        cases steps
  · cases steps

theorem running_of_functionReturns
    (steps : pool.step (.functionReturns pthread) = some pool') :
    ∃ worker ∈ pool.workers, worker.pthread = pthread ∧
      ∃ function arg, worker.stage = .running function arg := by
  unfold step at steps
  dsimp only at steps
  split at steps
  · rename_i worker found
    have named := pthread_of_worker? found
    refine ⟨worker, mem_of_worker? found, named, ?_⟩
    cases stage : worker.stage with
    | running function arg => exact ⟨function, arg, rfl⟩
    | ready =>
        rw [stage] at steps
        cases steps
    | waiting =>
        rw [stage] at steps
        cases steps
  · cases steps

/-- A thread that does something works off effort, and a waiter that wakes up without a
signal has a turn more. -/
theorem Counted.effort_step
    (counted : Counted pool)
    {action : Action Pointer Callback}
    (isThread : action.works || action.isSpuriousWakeUp)
    (steps : pool.step action = some pool') :
    pool'.effort + action.works.toNat ≤ pool.effort + action.isSpuriousWakeUp.toNat := by
  cases action with
  | bgThread pthread =>
      obtain ⟨result, turns, rfl⟩ := Option.map_eq_some_iff.mp steps
      obtain ⟨worker, isWorker, -, ready, rfl⟩ := ready_of_turn turns
      exact counted.effort_bgThread isWorker ready
  | spuriousWakeUp pthread =>
      obtain ⟨worker, isWorker, rfl, waits⟩ := waiting_of_spuriousWakeUp steps
      rw [of_wakes (.inl rfl) steps]
      have left := counted.effort_onWorker isWorker fun worker => { worker with stage := .ready }
      have own : worker.effort = 0 := by
        rw [Worker.effort, waits]
      have woken : Worker.effort ({ worker with stage := .ready } : Worker Pointer Callback) =
          1 := rfl
      rw [own, woken] at left
      exact left.le
  | functionReturns pthread =>
      obtain ⟨worker, isWorker, rfl, function, arg, runs⟩ := running_of_functionReturns steps
      rw [of_wakes (.inr rfl) steps]
      have left := counted.effort_onWorker isWorker fun worker => { worker with stage := .ready }
      have own : worker.effort = 2 := by
        rw [Worker.effort, runs]
      have returned : Worker.effort
          ({ worker with stage := .ready } : Worker Pointer Callback) = 1 := rfl
      rw [own, returned] at left
      exact Nat.le_of_eq (Nat.succ.inj left)
  | _ => cases isThread

theorem exitAllThreads_of_thread
    {action : Action Pointer Callback}
    (isThread : action.works || action.isSpuriousWakeUp)
    (steps : pool.step action = some pool') :
    pool'.exitAllThreads = pool.exitAllThreads := by
  cases action with
  | bgThread pthread =>
      obtain ⟨result, turns, rfl⟩ := Option.map_eq_some_iff.mp steps
      obtain ⟨worker, -, -, rfl⟩ := of_turn turns
      exact exitAllThreads_bgThread pool worker
  | spuriousWakeUp pthread =>
      rw [of_wakes (.inl rfl) steps]
      rfl
  | functionReturns pthread =>
      rw [of_wakes (.inr rfl) steps]
      rfl
  | _ => cases isThread

/-- A pool that has not been told to exit, and that forgets nobody. -/
structure Attentive (pool : ThreadPoolImpl Pointer Callback) : Prop where
  running : pool.exitAllThreads = false
  sound : Sound pool
  alert : Alert pool

omit [DecidableEq Pointer] in
theorem attentive_new : Attentive (new : ThreadPoolImpl Pointer Callback) :=
  ⟨rfl, sound_new, fun _ isWorker => by cases isWorker⟩

theorem Attentive.step
    (attentive : Attentive pool)
    {action : Action Pointer Callback}
    (steps : pool.step action = some pool')
    (running : pool'.exitAllThreads = false) : Attentive pool' :=
  ⟨running, attentive.sound.step steps running,
    attentive.alert.step attentive.sound.regular.counted.nodup steps⟩

theorem attentive_of_run
    {actions : List (Action Pointer Callback)}
    (runs : Machine.run step new actions = some pool)
    (running : pool.exitAllThreads = false) : Attentive pool :=
  Machine.run_preserves (fun pool => pool.exitAllThreads = false → Attentive pool)
    (fun attentive steps running =>
      (attentive (running_of_step steps running)).step steps running)
    runs (fun _ => attentive_new) running

omit [DecidableEq Pointer] in
theorem Counted.worker?_eq
    (counted : Counted pool)
    {worker : Worker Pointer Callback}
    (isWorker : worker ∈ pool.workers) :
    pool.worker? worker.pthread = some worker := by
  cases isFound : pool.worker? worker.pthread with
  | none =>
      have apart := List.find?_eq_none.mp isFound worker isWorker
      exact absurd (beq_self_eq_true worker.pthread) apart
  | some other =>
      have named := pthread_of_worker? isFound
      rw [List.inj_on_of_nodup_map counted.nodup (mem_of_worker? isFound) isWorker named]

/-- A thread that does not wait can do something. -/
theorem Counted.works_of_awake
    (counted : Counted pool)
    {worker : Worker Pointer Callback}
    (isWorker : worker ∈ pool.workers)
    (awake : worker.stage ≠ .waiting) :
    ∃ action : Action Pointer Callback, action.works = true ∧
      (pool.step action).isSome = true := by
  have found := counted.worker?_eq isWorker
  cases stage : worker.stage with
  | waiting => exact absurd stage awake
  | ready =>
      refine ⟨.bgThread worker.pthread, rfl, ?_⟩
      rw [step, turn, found]
      dsimp only
      rw [stage]
      rfl
  | running function arg =>
      refine ⟨.functionReturns worker.pthread, rfl, ?_⟩
      rw [step, found]
      dsimp only
      rw [stage]
      rfl

/-- A thread of a pool at rest waits. -/
theorem AtRest.waiting
    (atRest : AtRest pool)
    (counted : Counted pool)
    {worker : Worker Pointer Callback}
    (isWorker : worker ∈ pool.workers) : worker.stage = .waiting := by
  by_contra awake
  obtain ⟨action, isWork, acts⟩ := counted.works_of_awake isWorker awake
  rw [atRest action isWork] at acts
  cases acts

/-- A pool at rest has no jobs, and no thread too many. -/
theorem Attentive.of_atRest
    (attentive : Attentive pool)
    (atRest : AtRest pool) :
    pool.queue = [] ∧ (∀ worker ∈ pool.workers, worker.stage = .waiting) ∧
      (pool.bgthreads.length : Int) ≤ pool.totalThreadsLimit.toInt := by
  have regular := attentive.sound.regular
  have waits := fun worker isWorker =>
    @AtRest.waiting _ _ pool _ atRest regular.counted worker isWorker
  refine ⟨?_, waits, ?_⟩
  · have asleep : pool.awake = 0 := by
      refine List.countP_eq_zero.mpr fun worker isWorker isAwake => ?_
      rw [ThreadPoolImpl.isAwake, waits worker isWorker, Bool.not_true, Bool.and_false]
        at isAwake
      cases isAwake
    have staffed := attentive.sound.staffed
    have positive := regular.positive
    rw [Staffed, asleep] at staffed
    refine List.eq_nil_of_length_eq_zero ?_
    omega
  · by_contra beyond
    have positive := regular.positive
    have isId : pool.bgthreads.length - 1 ∈
        pool.workers.map (fun worker => worker.threadId) := by
      rw [regular.threadIds, List.mem_range]
      omega
    obtain ⟨worker, isWorker, isLast⟩ := List.mem_map.mp isId
    have spared := attentive.alert worker isWorker (waits worker isWorker)
    rw [isLastExcessiveThread, hasExcessiveThread, isLast, beq_self_eq_true, Bool.and_true,
      decide_eq_false_iff_not] at spared
    omega

/-- Threads that wait can do nothing. -/
theorem atRest_of_waiting
    (waits : ∀ worker ∈ pool.workers, worker.stage = .waiting) : AtRest pool := by
  intro action isWork
  rw [Option.eq_none_iff_forall_ne_some]
  intro pool' steps
  cases action with
  | bgThread pthread =>
      obtain ⟨result, turns, -⟩ := Option.map_eq_some_iff.mp steps
      obtain ⟨worker, isWorker, -, ready, -⟩ := ready_of_turn turns
      cases (waits worker isWorker).symm.trans ready
  | functionReturns pthread =>
      obtain ⟨worker, isWorker, -, function, arg, runs⟩ := running_of_functionReturns steps
      cases (waits worker isWorker).symm.trans runs
  | _ => cases isWork

end Threads

end ThreadPoolImpl

/-! ## The jobs are started -/

namespace Ledger

open ThreadPoolImpl (Action AtRest Attentive Counted)

variable [DecidableEq Pointer] {ledger ledger' : Ledger Pointer Callback}

/-- The run of the pool of a ledger. -/
theorem pool_run
    {actions : List (Action Pointer Callback)}
    (runs : Machine.run step ledger actions = some ledger') :
    Machine.run ThreadPoolImpl.step ledger.pool actions = some ledger'.pool := by
  have erased := Machine.run_map pool_step ledger actions
  rw [runs] at erased
  exact erased.symm

/-- Threads start the items of the queue in order. -/
theorem tickets_of_thread
    {action : Action Pointer Callback}
    (isThread : action.works || action.isSpuriousWakeUp)
    (steps : ledger.step action = some ledger') :
    ledger'.started.map (fun start => start.ticket) ++ ledger'.queued =
      ledger.started.map (fun start => start.ticket) ++ ledger.queued := by
  cases action with
  | bgThread pthread =>
      obtain ⟨⟨call?, pool⟩, -, rfl⟩ := Option.map_eq_some_iff.mp steps
      dsimp only
      split
      · rename_i call ticket queued _ isQueued
        rw [isQueued, List.map_append, List.append_assoc]
        rfl
      · rfl
  | spuriousWakeUp pthread =>
      obtain ⟨pool, -, rfl⟩ := Option.map_eq_some_iff.mp steps
      rfl
  | functionReturns pthread =>
      obtain ⟨pool, -, rfl⟩ := Option.map_eq_some_iff.mp steps
      rfl
  | _ => cases isThread

/-- Behind the last request, however the threads are scheduled, they get `mu_` and return
from functions no more often than the effort tells that was left, but for the waiters that
wake up without a signal.  Once none of them can do either, the queue is empty, the jobs
in it have been started in their order, every thread waits, and none is one too many. -/
theorem queue_drains
    {before actions : List (Action Pointer Callback)}
    {final : Ledger Pointer Callback}
    (runs : Machine.run step new before = some ledger)
    (running : ledger.pool.exitAllThreads = false)
    (continues : Machine.run step ledger actions = some final)
    (byThemselves : ∀ action ∈ actions, action.works || action.isSpuriousWakeUp) :
    actions.countP Action.works ≤
        ledger.pool.effort + actions.countP Action.isSpuriousWakeUp ∧
      (AtRest final.pool →
        final.pool.queue = [] ∧
        final.started.map (fun start => start.ticket) =
          ledger.started.map (fun start => start.ticket) ++ ledger.queued ∧
        (∀ worker ∈ final.pool.workers, worker.stage = .waiting) ∧
        (final.pool.bgthreads.length : Int) ≤ final.pool.totalThreadsLimit.toInt) := by
  have attentive := ThreadPoolImpl.attentive_of_run (pool_run runs) running
  have keeps {pool pool' : ThreadPoolImpl Pointer Callback} {action : Action Pointer Callback}
      (attentive : Attentive pool)
      (isThread : action.works || action.isSpuriousWakeUp)
      (steps : pool.step action = some pool') : Attentive pool' :=
    attentive.step steps
      ((ThreadPoolImpl.exitAllThreads_of_thread isThread steps).trans attentive.running)
  constructor
  · have bounded := Machine.countP_le_of_effort Attentive ThreadPoolImpl.effort
      Action.works Action.isSpuriousWakeUp keeps
      (fun attentive isThread steps =>
        attentive.sound.regular.counted.effort_step isThread steps)
      (pool_run continues) byThemselves attentive
    omega
  · intro atRest
    have whole : Machine.run step new (before ++ actions) = some final := by
      rw [Machine.run_append, runs]
      exact continues
    have balanced : Balanced final := Machine.run_preserves Balanced
      (fun balanced steps => balanced.step steps) whole balanced_new
    have attentive' := Machine.run_preserves_allowed Attentive keeps (pool_run continues)
      byThemselves attentive
    have tickets := Machine.run_preserves_allowed
      (fun later : Ledger Pointer Callback =>
        later.started.map (fun start => start.ticket) ++ later.queued =
          ledger.started.map (fun start => start.ticket) ++ ledger.queued)
      (fun before isThread steps => (tickets_of_thread isThread steps).trans before)
      continues byThemselves rfl
    obtain ⟨empty, waits, enough⟩ := attentive'.of_atRest atRest
    have names := balanced.queue_eq
    rw [empty] at names
    have noTickets : final.queued = [] := List.map_eq_nil_iff.mp names
    rw [noTickets, List.append_nil] at tickets
    exact ⟨empty, tickets, waits, enough⟩

/-- Two threads, of which one is too many, and two jobs. -/
def requests : List (ThreadPoolImpl.Action Nat Nat) :=
  [.setBackgroundThreads 2, .schedule ⟨10, 0, 20, none⟩ 0, .schedule ⟨11, 0, 21, none⟩ 0,
    .setBackgroundThreads 1]

theorem queue_drains_two :
    ∃ ledger final : Ledger Nat Nat,
      Machine.run step new requests = some ledger ∧ ledger.queued = [0, 1] ∧
        Machine.run step ledger [.bgThread 1, .bgThread 0, .functionReturns 0, .bgThread 0,
          .functionReturns 0, .bgThread 0] = some final ∧
        final.pool.queue = [] ∧ final.started.map (fun start => start.ticket) = [0, 1] := by
  have waits : ((Machine.run step (new : Ledger Nat Nat) (requests ++ [.bgThread 1,
      .bgThread 0, .functionReturns 0, .bgThread 0, .functionReturns 0, .bgThread 0])).map
        fun final => final.pool.workers) = some [⟨0, 0, false, .waiting⟩] := by
    decide
  have requested : ((Machine.run step (new : Ledger Nat Nat) requests).map fun ledger =>
      (ledger.queued, ledger.started, ledger.pool.exitAllThreads)) =
        some ([0, 1], [], false) := by
    decide
  obtain ⟨ledger, runs, isLedger⟩ := Option.map_eq_some_iff.mp requested
  obtain ⟨isQueued, isStarted, running⟩ : ledger.queued = [0, 1] ∧ ledger.started = [] ∧
      ledger.pool.exitAllThreads = false := by
    simpa only [Prod.mk.injEq] using isLedger
  rw [Machine.run_append, runs] at waits
  obtain ⟨final, continues, isFinal⟩ := Option.map_eq_some_iff.mp waits
  have atRest : AtRest final.pool := by
    refine ThreadPoolImpl.atRest_of_waiting fun worker isWorker => ?_
    rw [isFinal] at isWorker
    rw [List.mem_singleton.mp isWorker]
  obtain ⟨empty, tickets, -⟩ := (queue_drains runs running continues (by decide)).2 atRest
  rw [isStarted, isQueued] at tickets
  exact ⟨ledger, final, runs, isQueued, continues, empty, tickets⟩

end Ledger
end ThreadPool
end RocksUtil
