import Mathlib.Data.List.Nodup
import RocksUtil.ThreadPool.ThreadPoolImpl

/-!
# The threads of the pool

Until the threads are told to exit, the threads of the pool are those in
`bgthreads_`, each with its index as its id, and enough of those that the limit
allows are awake for the jobs in the queue.
-/

namespace RocksUtil
namespace ThreadPool
namespace ThreadPoolImpl

variable {Pointer Callback : Type}

/-! ## Handles and ids -/

/-- The threads of the pool are those in `bgthreads_`, in the order of their ids. -/
structure Regular (pool : ThreadPoolImpl Pointer Callback) : Prop where
  workers_eq : pool.workers.map (fun worker => (worker.pthread, worker.threadId)) =
    pool.bgthreads.zipIdx
  nodup : pool.bgthreads.Nodup
  fresh : ∀ pthread ∈ pool.bgthreads, pthread < pool.nextPthread
  positive : 0 < pool.totalThreadsLimit.toInt
  /-- The casts of the number of threads to `int` do not change it. -/
  length_lt : pool.bgthreads.length < 2 ^ 31

section Regularity

variable {pool : ThreadPoolImpl Pointer Callback}

theorem Regular.pthreads (regular : Regular pool) :
    pool.workers.map (fun worker => worker.pthread) = pool.bgthreads := by
  have firsts := congrArg (List.map Prod.fst) regular.workers_eq
  rwa [List.map_map, List.zipIdx_map_fst] at firsts

theorem Regular.threadIds (regular : Regular pool) :
    pool.workers.map (fun worker => worker.threadId) =
      List.range pool.bgthreads.length := by
  have seconds := congrArg (List.map Prod.snd) regular.workers_eq
  rwa [List.map_map, List.zipIdx_map_snd, ← List.range_eq_range'] at seconds

/-- A handle names one thread. -/
theorem Regular.unique
    (regular : Regular pool)
    {worker other : Worker Pointer Callback}
    (isWorker : worker ∈ pool.workers)
    (isOther : other ∈ pool.workers)
    (same : worker.pthread = other.pthread) :
    worker = other := by
  have nodup := regular.nodup
  rw [← regular.pthreads] at nodup
  exact List.inj_on_of_nodup_map nodup isWorker isOther same

theorem Regular.threadId_lt
    (regular : Regular pool)
    {worker : Worker Pointer Callback}
    (isWorker : worker ∈ pool.workers) :
    worker.threadId < pool.bgthreads.length := by
  have isId := List.mem_map_of_mem (f := fun worker => worker.threadId) isWorker
  rw [regular.threadIds] at isId
  exact List.mem_range.mp isId

theorem regular_new : Regular (new : ThreadPoolImpl Pointer Callback) where
  workers_eq := rfl
  nodup := List.nodup_nil
  fresh := fun _ isThread => absurd isThread List.not_mem_nil
  positive := by
    change (0 : Int) < (1 : Int32).toInt
    decide
  length_lt := Nat.two_pow_pos 31

/-- The threads act, none of them leaves, and none is added. -/
theorem Regular.act
    (regular : Regular pool)
    {act : Worker Pointer Callback → Worker Pointer Callback}
    (keeps : ∀ worker, (act worker).pthread = worker.pthread ∧
      (act worker).threadId = worker.threadId) :
    Regular { pool with workers := pool.workers.map act } := by
  refine { regular with workers_eq := ?_ }
  rw [List.map_map, ← regular.workers_eq]
  apply List.map_congr_left
  intro worker _
  exact Prod.ext (keeps worker).1 (keeps worker).2

theorem Regular.onWorker
    (regular : Regular pool)
    (pthread : Nat)
    {act : Worker Pointer Callback → Worker Pointer Callback}
    (keeps : ∀ worker, (act worker).pthread = worker.pthread ∧
      (act worker).threadId = worker.threadId) :
    Regular (pool.onWorker pthread act) := by
  apply regular.act
  intro worker
  split
  · exact keeps worker
  · exact ⟨rfl, rfl⟩

theorem Regular.wakeUpAllThreads (regular : Regular pool) :
    Regular pool.wakeUpAllThreads := by
  apply regular.act
  intro worker
  split <;> exact ⟨rfl, rfl⟩

end Regularity

/-! ## Starting threads -/

/-- One pool has all threads of another, and further ones that are ready. -/
structure Extends (pool pool' : ThreadPoolImpl Pointer Callback) : Prop where
  same : pool' = { pool with
    bgthreads := pool'.bgthreads
    workers := pool'.workers
    nextPthread := pool'.nextPthread }
  workers_eq : ∃ started, pool'.workers = pool.workers ++ started ∧
    ∀ worker ∈ started, worker.stage = .ready

theorem Extends.refl (pool : ThreadPoolImpl Pointer Callback) : Extends pool pool :=
  ⟨rfl, [], (List.append_nil _).symm, fun _ none => absurd none List.not_mem_nil⟩

theorem Extends.trans
    {pool pool' pool'' : ThreadPoolImpl Pointer Callback}
    (first : Extends pool pool')
    (second : Extends pool' pool'') :
    Extends pool pool'' := by
  obtain ⟨same, started, workers, ready⟩ := first
  obtain ⟨same', started', workers', ready'⟩ := second
  refine ⟨?_, started ++ started', ?_, ?_⟩
  · rw [same', same]
  · rw [workers', workers, List.append_assoc]
  · intro worker isStarted
    rcases List.mem_append.mp isStarted with isStarted | isStarted
    · exact ready worker isStarted
    · exact ready' worker isStarted

section Starting

variable {pool : ThreadPoolImpl Pointer Callback}

theorem extends_startBGThread (pool : ThreadPoolImpl Pointer Callback) :
    Extends pool pool.startBGThread := by
  refine ⟨rfl, _, rfl, ?_⟩
  intro worker isStarted
  rw [List.mem_singleton.mp isStarted]

theorem Regular.startBGThread
    (regular : Regular pool)
    (short : (pool.bgthreads.length : Int) < pool.totalThreadsLimit.toInt) :
    Regular pool.startBGThread where
  workers_eq := by
    unfold ThreadPoolImpl.startBGThread
    dsimp only
    rw [List.map_append, regular.workers_eq, List.zipIdx_append]
    rw [Nat.zero_add]
    rfl
  nodup := by
    apply List.nodup_append.mpr
    refine ⟨regular.nodup, List.nodup_singleton _, ?_⟩
    intro pthread isThread other isNew equal
    have old := regular.fresh pthread isThread
    rw [equal, List.mem_singleton.mp isNew] at old
    exact Nat.lt_irrefl _ old
  fresh := by
    intro pthread isThread
    rcases List.mem_append.mp isThread with isThread | isNew
    · exact Nat.lt_succ_of_lt (regular.fresh pthread isThread)
    · rw [List.mem_singleton.mp isNew]
      exact Nat.lt_succ_self _
  positive := regular.positive
  length_lt := by
    have limit := pool.totalThreadsLimit.toInt_lt
    have length : pool.startBGThread.bgthreads.length = pool.bgthreads.length + 1 :=
      List.length_append
    omega

theorem startBGThread_iterate
    (regular : Regular pool)
    {turns : Nat}
    (short : (pool.bgthreads.length : Int) + turns ≤ pool.totalThreadsLimit.toInt) :
    Extends pool (startBGThread^[turns] pool) ∧
      Regular (startBGThread^[turns] pool) ∧
        (startBGThread^[turns] pool).bgthreads.length =
          pool.bgthreads.length + turns := by
  induction turns with
  | zero => exact ⟨.refl pool, regular, rfl⟩
  | succ turns inductionHypothesis =>
      obtain ⟨extended, regular', length⟩ := inductionHypothesis (by omega)
      have limit : (startBGThread^[turns] pool).totalThreadsLimit =
          pool.totalThreadsLimit := by
        rw [extended.same]
      rw [Function.iterate_succ_apply']
      refine ⟨extended.trans (extends_startBGThread _), regular'.startBGThread ?_, ?_⟩
      · rw [length, limit]
        omega
      · rw [← Nat.add_assoc, ← length]
        exact List.length_append

/-- What `StartBGThreads` leaves. -/
theorem startBGThreads_spec (regular : Regular pool) :
    Extends pool pool.startBGThreads ∧
      Regular pool.startBGThreads ∧
        pool.totalThreadsLimit.toInt ≤ pool.startBGThreads.bgthreads.length := by
  by_cases enough : pool.totalThreadsLimit.toInt ≤ pool.bgthreads.length
  · have none : (pool.totalThreadsLimit.toInt - pool.bgthreads.length).toNat = 0 := by
      omega
    unfold startBGThreads
    rw [none]
    exact ⟨.refl pool, regular, enough⟩
  · have short : (pool.bgthreads.length : Int) +
        (pool.totalThreadsLimit.toInt - pool.bgthreads.length).toNat ≤
          pool.totalThreadsLimit.toInt := by
      omega
    obtain ⟨extended, regular', length⟩ := startBGThread_iterate regular short
    refine ⟨extended, regular', ?_⟩
    unfold startBGThreads
    rw [length]
    omega

end Starting

/-! ## Threads that are awake -/

/-- A thread that the limit allows and that is not blocked on `bgsignal_`. -/
def isAwake
    (pool : ThreadPoolImpl Pointer Callback)
    (worker : Worker Pointer Callback) : Bool :=
  (worker.threadId : Int) < pool.totalThreadsLimit.toInt &&
    !(worker.stage matches .waiting)

/-- The number of threads that the limit allows and that are not blocked. -/
def awake (pool : ThreadPoolImpl Pointer Callback) : Nat :=
  pool.workers.countP pool.isAwake

/-- No job is queued while a thread allowed to run it sleeps for want of jobs. -/
def Staffed (pool : ThreadPoolImpl Pointer Callback) : Prop :=
  min pool.queue.length pool.totalThreadsLimit.toInt.toNat ≤ pool.awake

section Awake

variable {pool : ThreadPoolImpl Pointer Callback}

theorem countP_range_lt (count bound : Nat) :
    (List.range count).countP (fun index => decide (index < bound)) =
      min count bound := by
  induction count with
  | zero => simp
  | succ count inductionHypothesis =>
      rw [List.range_succ, List.countP_append, inductionHypothesis]
      by_cases below : count < bound
      · simp [below]
        omega
      · simp [below]
        omega

/-- When nobody waits, all the threads that the limit allows are awake. -/
theorem awake_of_no_waiters
    (regular : Regular pool)
    (noWaiters : ∀ worker ∈ pool.workers, worker.stage ≠ .waiting) :
    pool.awake = min pool.bgthreads.length pool.totalThreadsLimit.toInt.toNat := by
  have positive := regular.positive
  have allowed : ∀ worker ∈ pool.workers,
      (pool.isAwake worker = true ↔
        decide (worker.threadId < pool.totalThreadsLimit.toInt.toNat) = true) := by
    intro worker isWorker
    have noWaiter := noWaiters worker isWorker
    have limit : (worker.threadId : Int) < pool.totalThreadsLimit.toInt ↔
        worker.threadId < pool.totalThreadsLimit.toInt.toNat := by
      omega
    unfold isAwake
    cases stage : worker.stage with
    | waiting => exact absurd stage noWaiter
    | ready => simp [limit]
    | running function arg => simp [limit]
  rw [awake, List.countP_congr allowed, ← countP_range_lt, ← regular.threadIds,
    List.countP_map]
  rfl

theorem wakeUpAllThreads_no_waiters (pool : ThreadPoolImpl Pointer Callback) :
    ∀ worker ∈ pool.wakeUpAllThreads.workers, worker.stage ≠ .waiting := by
  intro worker isWorker
  obtain ⟨before, -, rfl⟩ := List.mem_map.mp isWorker
  cases stage : before.stage with
  | waiting => simp
  | ready => simp [stage]
  | running function arg => simp [stage]

/-- A pool with a full crew is staffed. -/
theorem staffed_of_no_waiters
    (regular : Regular pool)
    (noWaiters : ∀ worker ∈ pool.workers, worker.stage ≠ .waiting)
    (full : pool.totalThreadsLimit.toInt ≤ pool.bgthreads.length) :
    Staffed pool := by
  have counted := awake_of_no_waiters regular noWaiters
  unfold Staffed
  omega

/-- Threads that act stay awake. -/
theorem awake_act_le
    {act : Worker Pointer Callback → Worker Pointer Callback}
    (stays : ∀ worker ∈ pool.workers,
      pool.isAwake worker = true → pool.isAwake (act worker) = true) :
    pool.awake ≤ awake { pool with workers := pool.workers.map act } := by
  unfold awake
  rw [List.countP_map]
  exact List.countP_mono_left stays

theorem awake_onWorker_le
    {pthread : Nat}
    {act : Worker Pointer Callback → Worker Pointer Callback}
    (stays : ∀ worker ∈ pool.workers, worker.pthread = pthread →
      pool.isAwake worker = true → pool.isAwake (act worker) = true) :
    pool.awake ≤ (pool.onWorker pthread act).awake := by
  apply awake_act_le
  intro worker isWorker isAwake
  split
  · exact stays worker isWorker ‹_› isAwake
  · exact isAwake

/-- A thread that is no longer blocked is as awake as before. -/
theorem isAwake_unblocked
    {worker : Worker Pointer Callback}
    (isAwake : pool.isAwake worker = true)
    (lowIOPriority : Bool)
    {stage : Stage Pointer Callback}
    (unblocked : stage ≠ .waiting) :
    pool.isAwake { worker with lowIOPriority := lowIOPriority, stage := stage } =
      true := by
  have allowed := (Bool.and_eq_true_iff.mp isAwake).1
  refine Bool.and_eq_true_iff.mpr ⟨allowed, ?_⟩
  cases stage with
  | waiting => exact absurd rfl unblocked
  | ready => rfl
  | running function arg => rfl

/-- One more thread is awake after a waiter that the limit allows was woken. -/
theorem awake_lt_onWorker
    {worker : Worker Pointer Callback}
    (isWorker : worker ∈ pool.workers)
    (waits : worker.stage = .waiting)
    (allowed : (worker.threadId : Int) < pool.totalThreadsLimit.toInt) :
    pool.awake <
      (pool.onWorker worker.pthread (fun worker => { worker with stage := .ready })).awake := by
  obtain ⟨before, after, split⟩ := List.append_of_mem isWorker
  have asleep : pool.isAwake worker = false := by
    simp [isAwake, waits]
  have woken : pool.isAwake { worker with stage := .ready } = true := by
    simp [isAwake, allowed]
  have stays (part : List (Worker Pointer Callback)) :
      part.countP pool.isAwake ≤
        (part.map (fun other => if other.pthread = worker.pthread then
          { other with stage := .ready } else other)).countP pool.isAwake := by
    rw [List.countP_map]
    apply List.countP_mono_left
    intro other _ isAwake
    rw [Function.comp_apply]
    split
    · exact isAwake_unblocked isAwake other.lowIOPriority nofun
    · exact isAwake
  have first := stays before
  have last := stays after
  have counted : pool.awake = before.countP pool.isAwake + after.countP pool.isAwake := by
    rw [awake, split, List.countP_append, List.countP_cons, asleep]
    rfl
  have counted' : (pool.onWorker worker.pthread
      (fun worker => { worker with stage := .ready })).awake =
        (before.map (fun other => if other.pthread = worker.pthread then
          { other with stage := .ready } else other)).countP pool.isAwake +
        ((after.map (fun other => if other.pthread = worker.pthread then
          { other with stage := .ready } else other)).countP pool.isAwake + 1) := by
    change (pool.workers.map _).countP pool.isAwake = _
    rw [split, List.map_append, List.map_cons, List.countP_append, List.countP_cons,
      if_pos rfl, woken]
    rfl
  omega

theorem Extends.awake_le
    {pool' : ThreadPoolImpl Pointer Callback}
    (extended : Extends pool pool') :
    pool.awake ≤ pool'.awake := by
  obtain ⟨same, started, workers, -⟩ := extended
  have limit : pool'.totalThreadsLimit = pool.totalThreadsLimit := by
    rw [same]
  have alike : pool'.isAwake = pool.isAwake := by
    funext worker
    unfold isAwake
    rw [limit]
  unfold awake
  rw [workers, alike, List.countP_append]
  exact Nat.le_add_right _ _

end Awake

/-! ## The methods -/

/-- What holds between the critical sections, until the threads are told to exit. -/
structure Sound (pool : ThreadPoolImpl Pointer Callback) : Prop where
  regular : Regular pool
  staffed : Staffed pool

section Methods

variable {pool pool' : ThreadPoolImpl Pointer Callback}

theorem sound_new : Sound (new : ThreadPoolImpl Pointer Callback) :=
  ⟨regular_new, Nat.zero_le _⟩

/-- A full crew without a waiter keeps what it has when threads are started. -/
theorem Sound.of_full
    (regular : Regular pool)
    (noWaiters : ∀ worker ∈ pool.workers, worker.stage ≠ .waiting) :
    Sound pool.startBGThreads := by
  obtain ⟨extended, regular', full⟩ := startBGThreads_spec regular
  refine ⟨regular', staffed_of_no_waiters regular' ?_ ?_⟩
  · obtain ⟨started, workers, ready⟩ := extended.workers_eq
    intro worker isWorker
    rw [workers] at isWorker
    rcases List.mem_append.mp isWorker with isWorker | isStarted
    · exact noWaiters worker isWorker
    · rw [ready worker isStarted]
      exact nofun
  · rw [show pool.startBGThreads.totalThreadsLimit = pool.totalThreadsLimit by
      rw [extended.same]]
    exact full

/-- Signalling one thread is enough for one more job, when no thread is excessive. -/
theorem Sound.conditionSignal
    (regular : Regular pool)
    (full : (pool.bgthreads.length : Int) = pool.totalThreadsLimit.toInt)
    (staffed : min (pool.queue.length - 1) pool.totalThreadsLimit.toInt.toNat ≤
      pool.awake)
    {woken : Nat}
    (signals : pool.conditionSignal woken = some pool') :
    Sound pool' := by
  unfold ThreadPoolImpl.conditionSignal at signals
  split at signals
  · rename_i noWaiters
    cases signals
    refine ⟨regular, staffed_of_no_waiters regular ?_ (Int.le_of_eq full.symm)⟩
    intro worker isWorker waits
    have isWaiter : worker ∈ pool.waiters := by
      refine List.mem_filter.mpr ⟨isWorker, ?_⟩
      rw [waits]
    rw [List.isEmpty_iff.mp noWaiters] at isWaiter
    exact absurd isWaiter List.not_mem_nil
  · split at signals
    · rename_i chosen
      cases signals
      obtain ⟨worker, isWaiter, isWoken⟩ := List.any_eq_true.mp chosen
      obtain ⟨isWorker, waits⟩ := List.mem_filter.mp isWaiter
      have inRange := regular.threadId_lt isWorker
      have blocked : worker.stage = .waiting := by
        cases stage : worker.stage with
        | waiting => rfl
        | ready =>
            rw [stage] at waits
            cases waits
        | running function arg =>
            rw [stage] at waits
            cases waits
      have more := awake_lt_onWorker isWorker blocked (by omega)
      rw [beq_iff_eq.mp isWoken] at more
      refine ⟨regular.onWorker woken (fun _ => ⟨rfl, rfl⟩), ?_⟩
      have queue : (pool.onWorker woken
          (fun worker => { worker with stage := .ready })).queue = pool.queue := rfl
      have limit : (pool.onWorker woken
          (fun worker => { worker with stage := .ready })).totalThreadsLimit =
            pool.totalThreadsLimit := rfl
      unfold Staffed
      rw [queue, limit]
      omega
    · cases signals

theorem Sound.schedule
    (sound : Sound pool)
    (running : pool.exitAllThreads = false)
    {item : BGItem Pointer Callback}
    {woken : Nat}
    (schedules : pool.schedule item woken = some pool') :
    Sound pool' := by
  obtain ⟨extended, regular, full⟩ := startBGThreads_spec sound.regular
  have staffed := sound.staffed
  have awake := extended.awake_le
  have queue : pool.startBGThreads.queue = pool.queue := by
    rw [extended.same]
  have limit : pool.startBGThreads.totalThreadsLimit = pool.totalThreadsLimit := by
    rw [extended.same]
  -- The item is in the queue, and nobody has been woken up.
  have regular' : Regular { pool.startBGThreads with
      queue := pool.startBGThreads.queue ++ [item]
      queueLen := UInt32.ofNat (pool.startBGThreads.queue ++ [item]).length } :=
    { regular with }
  rw [ThreadPoolImpl.schedule, running, if_neg Bool.false_ne_true] at schedules
  dsimp only at schedules
  split at schedules
  · rename_i noExcess
    rw [Bool.not_eq_true', hasExcessiveThread, decide_eq_false_iff_not] at noExcess
    dsimp only at noExcess
    rw [limit] at noExcess
    refine Sound.conditionSignal regular' ?_ ?_ schedules
    · change (pool.startBGThreads.bgthreads.length : Int) =
        pool.startBGThreads.totalThreadsLimit.toInt
      rw [limit]
      omega
    · change min ((pool.startBGThreads.queue ++ [item]).length - 1)
        pool.startBGThreads.totalThreadsLimit.toInt.toNat ≤ pool.startBGThreads.awake
      rw [queue, limit, List.length_append, List.length_singleton, Nat.add_sub_cancel]
      exact Nat.le_trans staffed awake
  · cases schedules
    refine ⟨regular'.wakeUpAllThreads, staffed_of_no_waiters regular'.wakeUpAllThreads
      (wakeUpAllThreads_no_waiters _) ?_⟩
    change pool.startBGThreads.totalThreadsLimit.toInt ≤
      pool.startBGThreads.bgthreads.length
    rw [limit]
    exact full

theorem Sound.unSchedule
    [DecidableEq Pointer]
    (sound : Sound pool)
    (tag : Pointer) :
    Sound (pool.unSchedule tag).2.2 := by
  refine ⟨{ sound.regular with }, ?_⟩
  have staffed := sound.staffed
  have fewer : (pool.unSchedule tag).2.2.queue.length ≤ pool.queue.length := by
    rw [queue_unSchedule]
    exact List.length_filter_le _ _
  have limit : (pool.unSchedule tag).2.2.totalThreadsLimit = pool.totalThreadsLimit := rfl
  have awake : (pool.unSchedule tag).2.2.awake = pool.awake := rfl
  unfold Staffed at staffed ⊢
  rw [limit, awake]
  omega

theorem Sound.setBackgroundThreadsInternal
    (sound : Sound pool)
    (num : Int32)
    (allowReduce : Bool) :
    Sound (pool.setBackgroundThreadsInternal num allowReduce) := by
  unfold ThreadPoolImpl.setBackgroundThreadsInternal
  split
  · exact sound
  · split
    · have positive : 0 < (if 1 < num then num else 1 : Int32).toInt := by
        split
        · rename_i large
          have larger := Int32.lt_iff_toInt_lt.mp large
          exact Int.lt_trans (by decide) larger
        · decide
      have regular : Regular { pool with
          totalThreadsLimit := if 1 < num then num else 1 } :=
        { sound.regular with positive := positive }
      exact Sound.of_full regular.wakeUpAllThreads (wakeUpAllThreads_no_waiters _)
    · exact sound

/-- A thread that is woken, or that has something to run, is awake. -/
theorem Sound.unblock
    (sound : Sound pool)
    (pthread : Nat)
    {queue : List (BGItem Pointer Callback)}
    (fewer : queue.length ≤ pool.queue.length)
    (queueLen : UInt32)
    {act : Worker Pointer Callback → Worker Pointer Callback}
    (unblocks : ∀ worker, ∃ lowIOPriority stage, stage ≠ .waiting ∧
      act worker = { worker with lowIOPriority := lowIOPriority, stage := stage }) :
    Sound (onWorker { pool with queue := queue, queueLen := queueLen } pthread act) := by
  have regular : Regular { pool with queue := queue, queueLen := queueLen } :=
    { sound.regular with }
  refine ⟨regular.onWorker pthread ?_, ?_⟩
  · intro worker
    obtain ⟨lowIOPriority, stage, -, acts⟩ := unblocks worker
    rw [acts]
    exact ⟨rfl, rfl⟩
  · have staffed := sound.staffed
    have awake : pool.awake ≤
        (onWorker { pool with queue := queue, queueLen := queueLen } pthread act).awake := by
      apply @awake_onWorker_le _ _ { pool with queue := queue, queueLen := queueLen }
      intro worker _ _ isAwake
      obtain ⟨lowIOPriority, stage, unblocked, acts⟩ := unblocks worker
      rw [acts]
      exact isAwake_unblocked isAwake lowIOPriority unblocked
    change min queue.length pool.totalThreadsLimit.toInt.toNat ≤ _
    unfold Staffed at staffed
    omega

/-- A thread that the limit does not allow may wait. -/
theorem Sound.wait
    (sound : Sound pool)
    {worker : Worker Pointer Callback}
    (isWorker : worker ∈ pool.workers)
    (idle : pool.queue = [] ∨ pool.isExcessiveThread worker.threadId = true) :
    Sound (pool.onWorker worker.pthread
      (fun worker => { worker with stage := .waiting })) := by
  refine ⟨sound.regular.onWorker _ (fun _ => ⟨rfl, rfl⟩), ?_⟩
  rcases idle with empty | excessive
  · change min pool.queue.length _ ≤ _
    rw [empty]
    exact Nat.zero_le _
  · refine Nat.le_trans sound.staffed (awake_onWorker_le ?_)
    intro other isOther same isAwake
    rw [sound.regular.unique isOther isWorker same] at isAwake
    have allowed := of_decide_eq_true (Bool.and_eq_true_iff.mp isAwake).1
    have excluded := of_decide_eq_true excessive
    omega

/-- The thread that terminates is the last one in `bgthreads_`. -/
theorem Regular.leave
    (regular : Regular pool)
    {worker : Worker Pointer Callback}
    (isWorker : worker ∈ pool.workers)
    (isLast : worker.threadId = pool.bgthreads.length - 1) :
    Regular ({ pool with bgthreads := pool.bgthreads.dropLast }.leave worker) := by
  have inRange := regular.threadId_lt isWorker
  rcases pool.bgthreads.eq_nil_or_concat with empty | ⟨others, last, split⟩
  · rw [empty] at inRange
    exact absurd inRange (Nat.not_lt_zero _)
  rw [List.concat_eq_append] at split
  have workers := regular.workers_eq
  have nodup := regular.nodup
  have fresh := regular.fresh
  have short := regular.length_lt
  rw [split] at workers nodup fresh short isLast
  rw [List.length_append, List.length_singleton] at isLast short
  rw [List.zipIdx_append, List.zipIdx_singleton] at workers
  obtain ⟨nodup, -, apart⟩ := List.nodup_append.mp nodup
  have isThread : worker.pthread = last := by
    have identity := List.mem_map_of_mem
      (f := fun worker => (worker.pthread, worker.threadId)) isWorker
    rw [workers, List.mem_append, List.mem_singleton] at identity
    rcases identity with earlier | isLast
    · have index := List.snd_lt_of_mem_zipIdx earlier
      dsimp only at index
      omega
    · exact congrArg Prod.fst isLast
  have keepsOthers : ∀ entry ∈ others.zipIdx, decide (entry.1 ≠ last) = true := by
    intro entry isEntry
    exact decide_eq_true (apart entry.1 (List.fst_mem_of_mem_zipIdx isEntry) last
      (List.mem_singleton.mpr rfl))
  refine { regular with workers_eq := ?_, nodup := ?_, fresh := ?_, length_lt := ?_ }
  · unfold ThreadPoolImpl.leave
    dsimp only
    rw [split, List.dropLast_concat, isThread]
    have filtered := List.filter_map
      (f := fun worker : Worker Pointer Callback => (worker.pthread, worker.threadId))
      (p := fun entry => decide (entry.1 ≠ last)) (l := pool.workers)
    refine filtered.symm.trans ?_
    rw [workers, List.filter_append, List.filter_eq_self.mpr keepsOthers]
    simp
  · change pool.bgthreads.dropLast.Nodup
    rw [split, List.dropLast_concat]
    exact nodup
  · intro pthread isOther
    change pthread ∈ pool.bgthreads.dropLast at isOther
    rw [split, List.dropLast_concat] at isOther
    exact fresh pthread (List.mem_append_left _ isOther)
  · change pool.bgthreads.dropLast.length < 2 ^ 31
    rw [split, List.dropLast_concat]
    omega

theorem Sound.wakeUpAllThreads (sound : Sound pool) : Sound pool.wakeUpAllThreads := by
  refine ⟨sound.regular.wakeUpAllThreads, Nat.le_trans sound.staffed (awake_act_le ?_)⟩
  intro worker _ isAwake
  split
  · exact isAwake_unblocked isAwake worker.lowIOPriority nofun
  · exact isAwake

theorem leave_wakeUpAllThreads
    (pool : ThreadPoolImpl Pointer Callback)
    (worker : Worker Pointer Callback) :
    pool.wakeUpAllThreads.leave worker = (pool.leave worker).wakeUpAllThreads := by
  unfold leave ThreadPoolImpl.wakeUpAllThreads
  dsimp only
  congr 1
  rw [List.filter_map]
  congr 1
  apply List.filter_congr
  intro other _
  rw [Function.comp_apply]
  split <;> rfl

/-- The last excessive thread terminates. -/
theorem Sound.terminate
    (sound : Sound pool)
    {worker : Worker Pointer Callback}
    (isWorker : worker ∈ pool.workers)
    (isLast : pool.isLastExcessiveThread worker.threadId = true) :
    Sound ({ pool with bgthreads := pool.bgthreads.dropLast }.leave worker) := by
  obtain ⟨excess, last⟩ := Bool.and_eq_true_iff.mp isLast
  have beyond := of_decide_eq_true excess
  have index := beq_iff_eq.mp last
  refine ⟨sound.regular.leave isWorker index, Nat.le_trans sound.staffed ?_⟩
  change pool.workers.countP pool.isAwake ≤ (pool.workers.filter _).countP pool.isAwake
  rw [List.countP_filter]
  apply List.countP_mono_left
  intro other isOther isAwake
  refine Bool.and_eq_true_iff.mpr ⟨isAwake, decide_eq_true ?_⟩
  intro same
  rw [sound.regular.unique isOther isWorker same] at isAwake
  have allowed := of_decide_eq_true (Bool.and_eq_true_iff.mp isAwake).1
  omega

/-- What a thread does with `mu_` held. -/
theorem Sound.bgThread
    (sound : Sound pool)
    (running : pool.exitAllThreads = false)
    {worker : Worker Pointer Callback}
    (isWorker : worker ∈ pool.workers) :
    Sound (pool.bgThread worker).2 := by
  rcases bgThread_cases pool worker with ⟨idle, waits⟩ | ⟨exits, -⟩ |
    ⟨isLast, terminates | terminates⟩ | ⟨item, queue, split, -, takes⟩
  · rw [waits]
    exact sound.wait isWorker idle
  · rw [running] at exits
    cases exits
  · rw [terminates]
    exact sound.terminate isWorker isLast
  · rw [terminates, leave_wakeUpAllThreads]
    exact (sound.terminate isWorker isLast).wakeUpAllThreads
  · rw [takes]
    refine sound.unblock worker.pthread ?_ _ (fun _ => ⟨_, .running _ _, nofun, rfl⟩)
    rw [split]
    exact Nat.le_succ _

end Methods

/-! ## Runs -/

section Runs

variable {pool pool' : ThreadPoolImpl Pointer Callback}

theorem exitAllThreads_bgThread
    (pool : ThreadPoolImpl Pointer Callback)
    (worker : Worker Pointer Callback) :
    (pool.bgThread worker).2.exitAllThreads = pool.exitAllThreads := by
  rcases bgThread_cases pool worker with ⟨-, same⟩ | ⟨-, same⟩ | ⟨-, same | same⟩ |
    ⟨item, queue, -, -, same⟩ <;>
  · rw [same]
    rfl

variable [DecidableEq Pointer]

/-- The threads that were told to exit are not told otherwise. -/
theorem exitAllThreads_step
    {action : Action Pointer Callback}
    (steps : pool.step action = some pool')
    (exits : pool.exitAllThreads = true) :
    pool'.exitAllThreads = true := by
  cases action with
  | schedule item woken =>
      rw [step, schedule, if_pos exits] at steps
      cases steps
      exact exits
  | unSchedule tag =>
      cases steps
      exact exits
  | setBackgroundThreads num =>
      cases steps
      rw [setBackgroundThreads, setBackgroundThreadsInternal, if_pos exits]
      exact exits
  | incBackgroundThreadsIfNeeded num =>
      cases steps
      rw [incBackgroundThreadsIfNeeded, setBackgroundThreadsInternal, if_pos exits]
      exact exits
  | lowerIOPriority =>
      cases steps
      exact exits
  | joinAllThreads =>
      rw [step, joinAllThreads, if_pos exits] at steps
      cases steps
  | bgThread pthread =>
      obtain ⟨result, turns, rfl⟩ := Option.map_eq_some_iff.mp steps
      obtain ⟨worker, -, -, rfl⟩ := of_turn turns
      rw [exitAllThreads_bgThread]
      exact exits
  | spuriousWakeUp pthread =>
      rw [of_wakes (.inl rfl) steps]
      exact exits
  | functionReturns pthread =>
      rw [of_wakes (.inr rfl) steps]
      exact exits

theorem running_of_step
    {action : Action Pointer Callback}
    (steps : pool.step action = some pool')
    (running : pool'.exitAllThreads = false) :
    pool.exitAllThreads = false := by
  by_contra exits
  rw [exitAllThreads_step steps ((Bool.not_eq_false _).mp exits)] at running
  cases running

/-- A step keeps the pool sound, until the threads are told to exit. -/
theorem Sound.step
    (sound : Sound pool)
    {action : Action Pointer Callback}
    (steps : pool.step action = some pool')
    (running : pool'.exitAllThreads = false) :
    Sound pool' := by
  have ran := running_of_step steps running
  have wakes (pthread : Nat) : Sound (pool.onWorker pthread
      (fun worker => { worker with stage := .ready })) :=
    sound.unblock pthread (Nat.le_refl _) pool.queueLen
      (fun worker => ⟨worker.lowIOPriority, .ready, nofun, rfl⟩)
  cases action with
  | schedule item woken => exact sound.schedule ran steps
  | unSchedule tag =>
      cases steps
      exact sound.unSchedule tag
  | setBackgroundThreads num =>
      cases steps
      exact sound.setBackgroundThreadsInternal num true
  | incBackgroundThreadsIfNeeded num =>
      cases steps
      exact sound.setBackgroundThreadsInternal num false
  | lowerIOPriority =>
      cases steps
      exact ⟨{ sound.regular with }, sound.staffed⟩
  | joinAllThreads =>
      rw [ThreadPoolImpl.step, joinAllThreads, ran, if_neg Bool.false_ne_true] at steps
      cases steps
      cases running
  | bgThread pthread =>
      obtain ⟨result, turns, rfl⟩ := Option.map_eq_some_iff.mp steps
      obtain ⟨worker, isWorker, -, rfl⟩ := of_turn turns
      exact sound.bgThread ran isWorker
  | spuriousWakeUp pthread =>
      rw [of_wakes (.inl rfl) steps]
      exact wakes pthread
  | functionReturns pthread =>
      rw [of_wakes (.inr rfl) steps]
      exact wakes pthread

/-- In every run, until the threads are told to exit: the threads of the pool are
those in `bgthreads_`, and of those that the limit allows as many are awake as there
are jobs in the queue, up to the limit. -/
theorem no_lost_wake_up
    {actions : List (Action Pointer Callback)}
    (runs : Machine.run step (new : ThreadPoolImpl Pointer Callback) actions = some pool)
    (running : pool.exitAllThreads = false) :
    min pool.queue.length pool.totalThreadsLimit.toInt.toNat ≤
      (pool.workers.filter (fun worker =>
        (worker.threadId : Int) < pool.totalThreadsLimit.toInt &&
          !(worker.stage matches .waiting))).length := by
  have sound : pool.exitAllThreads = false → Sound pool :=
    Machine.run_preserves (fun pool => pool.exitAllThreads = false → Sound pool)
      (fun sound steps running => (sound (running_of_step steps running)).step steps running)
      runs (fun _ => sound_new)
  have staffed := (sound running).staffed
  rw [Staffed, awake, List.countP_eq_length_filter] at staffed
  exact staffed

/-- Two threads, of which the second sleeps when the second job comes. -/
theorem no_lost_wake_up_sample :
    ∃ pool : ThreadPoolImpl Nat Nat,
      Machine.run step new
          [.setBackgroundThreads 2, .bgThread 1, .schedule ⟨10, 0, 20, none⟩ 1,
            .bgThread 0, .bgThread 1, .schedule ⟨11, 0, 20, none⟩ 1] = some pool ∧
        pool.exitAllThreads = false ∧
        pool.queue.length = 1 ∧
        min pool.queue.length pool.totalThreadsLimit.toInt.toNat ≤
          (pool.workers.filter (fun worker =>
            (worker.threadId : Int) < pool.totalThreadsLimit.toInt &&
              !(worker.stage matches .waiting))).length := by
  have runs : Machine.run step (new : ThreadPoolImpl Nat Nat)
      [.setBackgroundThreads 2, .bgThread 1, .schedule ⟨10, 0, 20, none⟩ 1,
        .bgThread 0, .bgThread 1, .schedule ⟨11, 0, 20, none⟩ 1] = some {
      totalThreadsLimit := 2
      bgthreads := [0, 1]
      queue := [⟨11, 0, 20, none⟩]
      queueLen := 1
      exitAllThreads := false
      lowIOPriority := false
      workers := [⟨0, 0, false, .running 0 10⟩, ⟨1, 1, false, .ready⟩]
      nextPthread := 2 } := by
    decide
  exact ⟨_, runs, rfl, rfl, no_lost_wake_up runs rfl⟩

end Runs

end ThreadPoolImpl
end ThreadPool
end RocksUtil
