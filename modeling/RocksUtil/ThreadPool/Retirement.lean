import RocksUtil.ThreadPool.Staffing

/-!
# How threads leave the pool

A thread that is one too many terminates when its id is the last one, and detaches the
last handle of `bgthreads_`.  The vector only grows by fresh handles and only shrinks at
its end, so that handle is the thread's own, and of any two threads the later one leaves
first, however often the limit is reduced and raised again.
-/

namespace RocksUtil
namespace ThreadPool
namespace ThreadPoolImpl

variable {Pointer Callback : Type}

/-- The handle that a thread passes to `ThreadDetach` with `mu_` held, if it does. -/
def detaches
    (pool : ThreadPoolImpl Pointer Callback)
    (worker : Worker Pointer Callback) : Option Nat :=
  if !pool.exitAllThreads && pool.isLastExcessiveThread worker.threadId then
    pool.bgthreads.getLast?
  else
    none

/-! ## The handles, step by step -/

/-- Threads are started, with fresh handles. -/
def Grows (pool pool' : ThreadPoolImpl Pointer Callback) : Prop :=
  ∃ count, pool'.bgthreads = pool.bgthreads ++ List.range' pool.nextPthread count ∧
    pool'.nextPthread = pool.nextPthread + count

/-- The thread is the last one and one too many, and terminates. -/
structure Retires
    (pool pool' : ThreadPoolImpl Pointer Callback)
    (worker : Worker Pointer Callback) : Prop where
  isWorker : worker ∈ pool.workers
  isLast : pool.isLastExcessiveThread worker.threadId = true
  bgthreads_eq : pool'.bgthreads = pool.bgthreads.dropLast
  nextPthread_eq : pool'.nextPthread = pool.nextPthread
  limit_eq : pool'.totalThreadsLimit = pool.totalThreadsLimit

section Handles

variable {pool pool' : ThreadPoolImpl Pointer Callback}

theorem grows_of_eq
    (bgthreads : pool'.bgthreads = pool.bgthreads)
    (nextPthread : pool'.nextPthread = pool.nextPthread) :
    Grows pool pool' := by
  refine ⟨0, ?_, nextPthread⟩
  rw [bgthreads, List.range'_zero, List.append_nil]

theorem Grows.trans
    {pool'' : ThreadPoolImpl Pointer Callback}
    (first : Grows pool pool')
    (second : Grows pool' pool'') :
    Grows pool pool'' := by
  obtain ⟨count, bgthreads, nextPthread⟩ := first
  obtain ⟨more, bgthreads', nextPthread'⟩ := second
  refine ⟨count + more, ?_, ?_⟩
  · rw [bgthreads', bgthreads, nextPthread, List.append_assoc, List.range'_append_1]
  · rw [nextPthread', nextPthread, Nat.add_assoc]

theorem grows_startBGThread (pool : ThreadPoolImpl Pointer Callback) :
    Grows pool pool.startBGThread :=
  ⟨1, rfl, rfl⟩

theorem grows_startBGThreads (pool : ThreadPoolImpl Pointer Callback) :
    Grows pool pool.startBGThreads := by
  unfold startBGThreads
  generalize (pool.totalThreadsLimit.toInt - pool.bgthreads.length).toNat = turns
  induction turns with
  | zero => exact grows_of_eq rfl rfl
  | succ turns inductionHypothesis =>
      rw [Function.iterate_succ_apply']
      exact inductionHypothesis.trans (grows_startBGThread _)

theorem grows_conditionSignal
    {woken : Nat}
    (signals : pool.conditionSignal woken = some pool') :
    Grows pool pool' := by
  unfold conditionSignal at signals
  split at signals
  · cases signals
    exact grows_of_eq rfl rfl
  · split at signals
    · cases signals
      exact grows_of_eq rfl rfl
    · cases signals

theorem grows_schedule
    {item : BGItem Pointer Callback}
    {woken : Nat}
    (schedules : pool.schedule item woken = some pool') :
    Grows pool pool' := by
  have started := grows_startBGThreads pool
  unfold schedule at schedules
  split at schedules
  · cases schedules
    exact grows_of_eq rfl rfl
  · dsimp only at schedules
    split at schedules
    · have signalled := grows_conditionSignal schedules
      exact (started.trans (grows_of_eq rfl rfl)).trans signalled
    · cases schedules
      exact started.trans (grows_of_eq rfl rfl)

theorem grows_setBackgroundThreadsInternal
    (pool : ThreadPoolImpl Pointer Callback)
    (num : Int32)
    (allowReduce : Bool) :
    Grows pool (pool.setBackgroundThreadsInternal num allowReduce) := by
  unfold setBackgroundThreadsInternal
  split
  · exact grows_of_eq rfl rfl
  · split
    · have started := grows_startBGThreads
        { pool with totalThreadsLimit := if 1 < num then num else 1 }.wakeUpAllThreads
      have limited : Grows pool
          { pool with totalThreadsLimit := if 1 < num then num else 1 }.wakeUpAllThreads :=
        grows_of_eq rfl rfl
      exact limited.trans started
    · exact grows_of_eq rfl rfl

/-- What a thread with `mu_` held does to the handles. -/
theorem grows_or_retires_bgThread
    (running : pool.exitAllThreads = false)
    {worker : Worker Pointer Callback}
    (isWorker : worker ∈ pool.workers) :
    Grows pool (pool.bgThread worker).2 ∨ Retires pool (pool.bgThread worker).2 worker := by
  rcases bgThread_cases pool worker with ⟨-, same⟩ | ⟨exits, -⟩ | ⟨isLast, same | same⟩ |
    ⟨item, queue, -, -, same⟩
  · rw [same]
    exact .inl (grows_of_eq rfl rfl)
  · rw [running] at exits
    cases exits
  · rw [same]
    exact .inr ⟨isWorker, isLast, rfl, rfl, rfl⟩
  · rw [same]
    exact .inr ⟨isWorker, isLast, rfl, rfl, rfl⟩
  · rw [same]
    exact .inl (grows_of_eq rfl rfl)

variable [DecidableEq Pointer]

/-- What a step does to the handles. -/
theorem grows_or_retires
    (running : pool.exitAllThreads = false)
    {action : Action Pointer Callback}
    (steps : pool.step action = some pool') :
    Grows pool pool' ∨
      ∃ worker, action = .bgThread worker.pthread ∧ Retires pool pool' worker := by
  cases action with
  | schedule item woken => exact .inl (grows_schedule steps)
  | unSchedule tag =>
      cases steps
      exact .inl (grows_of_eq rfl rfl)
  | setBackgroundThreads num =>
      cases steps
      exact .inl (grows_setBackgroundThreadsInternal pool num true)
  | incBackgroundThreadsIfNeeded num =>
      cases steps
      exact .inl (grows_setBackgroundThreadsInternal pool num false)
  | lowerIOPriority =>
      cases steps
      exact .inl (grows_of_eq rfl rfl)
  | joinAllThreads =>
      rw [step, joinAllThreads, running, if_neg Bool.false_ne_true] at steps
      cases steps
      exact .inl (grows_of_eq rfl rfl)
  | bgThread pthread =>
      obtain ⟨result, turns, rfl⟩ := Option.map_eq_some_iff.mp steps
      obtain ⟨worker, isWorker, rfl, rfl⟩ := of_turn turns
      rcases grows_or_retires_bgThread running isWorker with grows | retires
      · exact .inl grows
      · exact .inr ⟨worker, rfl, retires⟩
  | spuriousWakeUp pthread =>
      rw [of_wakes (.inl rfl) steps]
      exact .inl (grows_of_eq rfl rfl)
  | functionReturns pthread =>
      rw [of_wakes (.inr rfl) steps]
      exact .inl (grows_of_eq rfl rfl)

end Handles

/-! ## The order of the handles -/

section Order

variable {pool pool' : ThreadPoolImpl Pointer Callback}

/-- A pool that has not been told to exit: its threads are those in `bgthreads_`, in the
order of their creation. -/
structure Ordered (pool : ThreadPoolImpl Pointer Callback) : Prop where
  sound : Sound pool
  increasing : pool.bgthreads.Pairwise (· < ·)

theorem Ordered.grows
    (ordered : Ordered pool)
    (grows : Grows pool pool')
    (sound : Sound pool') :
    Ordered pool' := by
  obtain ⟨count, bgthreads, -⟩ := grows
  refine ⟨sound, ?_⟩
  rw [bgthreads]
  apply List.pairwise_append.mpr
  refine ⟨ordered.increasing, List.pairwise_lt_range', ?_⟩
  intro earlier isEarlier later isLater
  have fresh := ordered.sound.regular.fresh earlier isEarlier
  have behind := (List.mem_range'_1.mp isLater).1
  omega

theorem Ordered.retires
    (ordered : Ordered pool)
    {worker : Worker Pointer Callback}
    (retires : Retires pool pool' worker)
    (sound : Sound pool') :
    Ordered pool' := by
  refine ⟨sound, ?_⟩
  rw [retires.bgthreads_eq]
  exact ordered.increasing.sublist (List.dropLast_sublist _)

/-- The handle of a thread stands at the place that its id says. -/
theorem Regular.getElem?_threadId
    (regular : Regular pool)
    {worker : Worker Pointer Callback}
    (isWorker : worker ∈ pool.workers) :
    pool.bgthreads[worker.threadId]? = some worker.pthread := by
  have identity := List.mem_map_of_mem
    (f := fun worker : Worker Pointer Callback => (worker.pthread, worker.threadId))
    isWorker
  rw [regular.workers_eq] at identity
  exact List.mem_zipIdx_iff_getElem?.mp identity

/-- The last handle is that of the thread with the last id. -/
theorem Regular.getLast?_bgthreads
    (regular : Regular pool)
    {worker : Worker Pointer Callback}
    (isWorker : worker ∈ pool.workers)
    (isLast : pool.isLastExcessiveThread worker.threadId = true) :
    pool.bgthreads.getLast? = some worker.pthread := by
  have index := beq_iff_eq.mp (Bool.and_eq_true_iff.mp isLast).2
  rw [List.getLast?_eq_getElem?, ← index]
  exact regular.getElem?_threadId isWorker

/-- The others of the threads that terminate were created before. -/
theorem Ordered.lt_of_retires
    (ordered : Ordered pool)
    {worker : Worker Pointer Callback}
    (retires : Retires pool pool' worker)
    {pthread : Nat}
    (stays : pthread ∈ pool'.bgthreads) :
    pthread < worker.pthread := by
  have last := ordered.sound.regular.getLast?_bgthreads retires.isWorker retires.isLast
  have split := List.dropLast_append_getLast? _ last
  have increasing := ordered.increasing
  rw [← split] at increasing
  rw [retires.bgthreads_eq] at stays
  exact (List.pairwise_append.mp increasing).2.2 pthread stays _ (List.mem_singleton_self _)

/-- A thread whose handle is gone is the one that terminated. -/
theorem Ordered.eq_of_retires
    (ordered : Ordered pool)
    {worker : Worker Pointer Callback}
    (retires : Retires pool pool' worker)
    {pthread : Nat}
    (isThread : pthread ∈ pool.bgthreads)
    (gone : pthread ∉ pool'.bgthreads) :
    pthread = worker.pthread := by
  have last := ordered.sound.regular.getLast?_bgthreads retires.isWorker retires.isLast
  rw [← List.dropLast_append_getLast? _ last, ← retires.bgthreads_eq] at isThread
  rcases List.mem_append.mp isThread with stays | isLast
  · exact absurd stays gone
  · exact List.mem_singleton.mp isLast

/-- Only threads beyond the limit terminate. -/
theorem Retires.limit_le
    {worker : Worker Pointer Callback}
    (retires : Retires pool pool' worker) :
    pool'.totalThreadsLimit.toInt ≤ pool'.bgthreads.length := by
  have beyond := of_decide_eq_true (Bool.and_eq_true_iff.mp retires.isLast).1
  rw [retires.limit_eq, retires.bgthreads_eq, List.length_dropLast]
  omega

theorem ordered_new : Ordered (new : ThreadPoolImpl Pointer Callback) :=
  ⟨sound_new, .nil⟩

variable [DecidableEq Pointer]

theorem Ordered.step
    (ordered : Ordered pool)
    {action : Action Pointer Callback}
    (steps : pool.step action = some pool')
    (running : pool'.exitAllThreads = false) :
    Ordered pool' := by
  have sound := ordered.sound.step steps running
  rcases grows_or_retires (running_of_step steps running) steps with grows |
    ⟨worker, -, retires⟩
  · exact ordered.grows grows sound
  · exact ordered.retires retires sound

theorem Ordered.run
    (ordered : pool.exitAllThreads = false → Ordered pool)
    {actions : List (Action Pointer Callback)}
    (runs : Machine.run ThreadPoolImpl.step pool actions = some pool') :
    pool'.exitAllThreads = false → Ordered pool' :=
  Machine.run_preserves (fun pool => pool.exitAllThreads = false → Ordered pool)
    (fun ordered steps running =>
      (ordered (running_of_step steps running)).step steps running)
    runs ordered

/-- A thread that leaves in a step: it takes that step itself, and is the last one. -/
theorem Ordered.leaves
    (ordered : Ordered pool)
    {action : Action Pointer Callback}
    (steps : pool.step action = some pool')
    (running : pool'.exitAllThreads = false)
    {pthread : Nat}
    (isThread : pthread ∈ pool.bgthreads)
    (gone : pthread ∉ pool'.bgthreads) :
    ∃ worker, worker.pthread = pthread ∧ action = .bgThread pthread ∧
      Retires pool pool' worker := by
  rcases grows_or_retires (running_of_step steps running) steps with
    ⟨count, bgthreads, -⟩ | ⟨worker, acts, retires⟩
  · rw [bgthreads] at gone
    exact absurd (List.mem_append_left _ isThread) gone
  · have same := ordered.eq_of_retires retires isThread gone
    exact ⟨worker, same.symm, by rw [acts, same], retires⟩

/-- As long as a thread has not left, the threads created before it have not either. -/
theorem Ordered.elder_stays
    (ordered : Ordered pool)
    {elder younger : Nat}
    (older : elder < younger)
    (isElder : elder ∈ pool.bgthreads)
    (isYounger : younger ∈ pool.bgthreads)
    {actions : List (Action Pointer Callback)}
    (runs : Machine.run ThreadPoolImpl.step pool actions = some pool')
    (running : pool'.exitAllThreads = false)
    (stays : younger ∈ pool'.bgthreads) :
    elder ∈ pool'.bgthreads := by
  have kept : pool'.exitAllThreads = false →
      Ordered pool' ∧ younger < pool'.nextPthread ∧
        (younger ∈ pool'.bgthreads → elder ∈ pool'.bgthreads) := by
    refine Machine.run_preserves
      (fun pool => pool.exitAllThreads = false → Ordered pool ∧
        younger < pool.nextPthread ∧ (younger ∈ pool.bgthreads → elder ∈ pool.bgthreads))
      ?_ runs
      (fun _ => ⟨ordered, ordered.sound.regular.fresh _ isYounger, fun _ => isElder⟩)
    intro pool action next before steps running
    have ran := running_of_step steps running
    obtain ⟨ordered, created, implies⟩ := before ran
    refine ⟨ordered.step steps running, ?_⟩
    rcases grows_or_retires ran steps with ⟨count, bgthreads, nextPthread⟩ |
      ⟨worker, -, retires⟩
    · refine ⟨by omega, fun stays => ?_⟩
      rw [bgthreads, List.mem_append, List.mem_range'_1] at stays
      rw [bgthreads]
      rcases stays with isOld | isNew
      · exact List.mem_append_left _ (implies isOld)
      · omega
    · refine ⟨retires.nextPthread_eq ▸ created, fun stays => ?_⟩
      have before := retires.bgthreads_eq ▸ stays
      have isElder := implies ((List.dropLast_sublist _).subset before)
      by_contra gone
      have same := ordered.eq_of_retires retires isElder gone
      have youngest := ordered.lt_of_retires retires stays
      omega
  exact (kept running).2.2 stays

end Order

/-! ## Runs -/

section Runs

variable {pool : ThreadPoolImpl Pointer Callback}

theorem Regular.mem_bgthreads_iff
    (regular : Regular pool)
    {pthread : Nat} :
    pthread ∈ pool.bgthreads ↔ ∃ worker ∈ pool.workers, worker.pthread = pthread := by
  rw [← regular.pthreads, List.mem_map]

variable [DecidableEq Pointer]

/-- In every run, until the threads are told to exit: the ids of the threads are
`0 .. bgthreads_.size() - 1`, one each, and each id is the index of the thread's handle;
a thread that leaves does so in a step of its own, detaches its own handle, was created
last of all threads, and leaves no fewer threads than the limit; nobody detaches the
handle of another; of two threads the one created later leaves first. -/
theorem threads_retire_in_order
    {actions : List (Action Pointer Callback)}
    (runs : Machine.run step (new : ThreadPoolImpl Pointer Callback) actions = some pool)
    (running : pool.exitAllThreads = false) :
    pool.workers.map (fun worker => worker.threadId) = List.range pool.bgthreads.length ∧
    (∀ worker ∈ pool.workers, pool.bgthreads[worker.threadId]? = some worker.pthread) ∧
    (∀ worker ∈ pool.workers, ∀ other ∈ pool.workers,
      worker.threadId = other.threadId → worker = other) ∧
    (∀ worker ∈ pool.workers, ∀ handle ∈ pool.detaches worker, handle = worker.pthread) ∧
    (∀ action pool', pool.step action = some pool' → pool'.exitAllThreads = false →
      ∀ worker ∈ pool.workers, (∀ other ∈ pool'.workers, other.pthread ≠ worker.pthread) →
        action = .bgThread worker.pthread ∧
          pool.detaches worker = some worker.pthread ∧
          (∀ other ∈ pool'.workers, other.pthread < worker.pthread) ∧
          pool'.bgthreads = pool.bgthreads.dropLast ∧
          pool'.totalThreadsLimit.toInt ≤ pool'.bgthreads.length) ∧
    ∀ later pool', Machine.run step pool later = some pool' →
      pool'.exitAllThreads = false →
      ∀ elder ∈ pool.workers, ∀ younger ∈ pool.workers, elder.pthread < younger.pthread →
        (∃ worker ∈ pool'.workers, worker.pthread = younger.pthread) →
          ∃ worker ∈ pool'.workers, worker.pthread = elder.pthread := by
  have ordered := Ordered.run (fun _ => ordered_new) runs running
  have regular := ordered.sound.regular
  refine ⟨regular.threadIds, fun worker => regular.getElem?_threadId, ?_, ?_, ?_, ?_⟩
  · intro worker isWorker other isOther same
    have handle := regular.getElem?_threadId isWorker
    rw [same, regular.getElem?_threadId isOther] at handle
    exact regular.unique isWorker isOther (Option.some.inj handle).symm
  · intro worker isWorker handle detached
    unfold detaches at detached
    split at detached
    · rename_i terminates
      have isLast := (Bool.and_eq_true_iff.mp terminates).2
      rw [regular.getLast?_bgthreads isWorker isLast] at detached
      exact (Option.mem_some_iff.mp detached).symm
    · exact absurd detached (Option.not_mem_none handle)
  · intro action pool' steps running' worker isWorker gone
    have regular' := (ordered.step steps running').sound.regular
    have isThread := regular.mem_bgthreads_iff.mpr ⟨worker, isWorker, rfl⟩
    have isGone : worker.pthread ∉ pool'.bgthreads := by
      intro stays
      obtain ⟨other, isOther, same⟩ := regular'.mem_bgthreads_iff.mp stays
      exact gone other isOther same
    obtain ⟨self, same, acts, retires⟩ := ordered.leaves steps running' isThread isGone
    rw [regular.unique retires.isWorker isWorker same] at retires
    refine ⟨acts, ?_, fun other isOther => ?_, retires.bgthreads_eq, retires.limit_le⟩
    · rw [detaches, running, retires.isLast]
      exact regular.getLast?_bgthreads isWorker retires.isLast
    · exact ordered.lt_of_retires retires
        (regular'.mem_bgthreads_iff.mpr ⟨other, isOther, rfl⟩)
  · intro later pool' runsOn running' elder isElder younger isYounger older stays
    have regular' := (Ordered.run (fun _ => ordered) runsOn running').sound.regular
    apply regular'.mem_bgthreads_iff.mp
    exact ordered.elder_stays older (regular.mem_bgthreads_iff.mpr ⟨elder, isElder, rfl⟩)
      (regular.mem_bgthreads_iff.mpr ⟨younger, isYounger, rfl⟩) runsOn running'
      (regular'.mem_bgthreads_iff.mpr stays)

/-- The limit is reduced and raised again while a thread is still on its way out: the
third id goes to a new thread, which is the next one to leave. -/
theorem threads_retire_in_order_sample :
    ∃ pool : ThreadPoolImpl Nat Nat,
      Machine.run step new
          [.setBackgroundThreads 3, .bgThread 0, .setBackgroundThreads 1, .bgThread 2,
            .setBackgroundThreads 3, .setBackgroundThreads 2] = some pool ∧
        pool.exitAllThreads = false ∧
        pool.bgthreads = [0, 1, 3] ∧
        (∃ pool', pool.step (.bgThread 3) = some pool' ∧ pool'.bgthreads = [0, 1]) ∧
        ∀ worker ∈ pool.workers, ∀ handle ∈ pool.detaches worker,
          handle = worker.pthread := by
  have runs : Machine.run step (new : ThreadPoolImpl Nat Nat)
      [.setBackgroundThreads 3, .bgThread 0, .setBackgroundThreads 1, .bgThread 2,
        .setBackgroundThreads 3, .setBackgroundThreads 2] = some {
      totalThreadsLimit := 2
      bgthreads := [0, 1, 3]
      queue := []
      queueLen := 0
      exitAllThreads := false
      lowIOPriority := false
      workers := [⟨0, 0, false, .ready⟩, ⟨1, 1, false, .ready⟩, ⟨3, 2, false, .ready⟩]
      nextPthread := 4 } := by
    decide
  have retires := threads_retire_in_order runs rfl
  exact ⟨_, runs, rfl, rfl, ⟨_, rfl, rfl⟩, retires.2.2.2.1⟩

end Runs

end ThreadPoolImpl
end ThreadPool
end RocksUtil
