import RocksUtil.ThreadPool.Liveness

/-!
# How the pool shuts down

`JoinAllThreads` tells the threads to exit, wakes them, and joins one after another while
the rest of the program goes on.  It returns however all of them are scheduled, no job is
started any more, and no thread is left behind it (`joinAllThreads_returns`).
-/

namespace RocksUtil
namespace ThreadPool

variable {Pointer Callback : Type}

/-- A pool while a thread of the program is in `JoinAllThreads`, behind the critical
section. -/
structure Joining (Pointer Callback : Type) where
  pool : ThreadPoolImpl Pointer Callback
  /-- How far the loop over `bgthreads_` is. -/
  joined : Nat
  returned : Bool
  deriving DecidableEq, Repr

namespace Joining

open ThreadPoolImpl (Action Counted Regular)

/-- What can happen next. -/
inductive JoinAction (Pointer Callback : Type)
  /-- Something happens in the program. -/
  | pool (action : Action Pointer Callback)
  /-- The next `ThreadJoin` returns. -/
  | threadJoin
  /-- `bgthreads_` is cleared, and `JoinAllThreads` returns. -/
  | clear
  deriving DecidableEq, Repr

/-- Something that is done for `JoinAllThreads` to return. -/
def JoinAction.works : JoinAction Pointer Callback → Bool
  | .pool action => action.works
  | .threadJoin => true
  | .clear => true

/-- The next state; `none` where the action is impossible.  `ThreadJoin` returns once the
thread has left `BGThread`. -/
def step
    [DecidableEq Pointer]
    (joining : Joining Pointer Callback) :
    JoinAction Pointer Callback → Option (Joining Pointer Callback)
  | .pool action => (joining.pool.step action).map fun pool => { joining with pool := pool }
  | .threadJoin => do
      let thread ← joining.pool.bgthreads[joining.joined]?
      if joining.pool.workers.any (fun worker => worker.pthread == thread) then none
      else some { joining with joined := joining.joined + 1 }
  | .clear =>
      if joining.joined = joining.pool.bgthreads.length ∧ joining.returned = false then
        some { joining with
          pool := { joining.pool with bgthreads := [] }
          joined := 0
          returned := true }
      else none

/-! ## Threads that are told to exit -/

/-- The threads have been told to exit, and nobody waits. -/
structure Told (pool : ThreadPoolImpl Pointer Callback) : Prop where
  exits : pool.exitAllThreads = true
  noWaiters : ∀ worker ∈ pool.workers, worker.stage ≠ .waiting

/-- Threads leave, and jobs are unscheduled; nothing else happens. -/
structure WindsDown (pool pool' : ThreadPoolImpl Pointer Callback) : Prop where
  told : Told pool'
  limit : pool'.totalThreadsLimit = pool.totalThreadsLimit
  bgthreads : pool'.bgthreads = pool.bgthreads
  workers : (pool'.workers.map (fun worker => worker.pthread)).Sublist
    (pool.workers.map (fun worker => worker.pthread))
  queue : pool'.queue.Sublist pool.queue

section Telling

variable {pool pool' : ThreadPoolImpl Pointer Callback}

theorem Told.windsDown_refl (told : Told pool) : WindsDown pool pool :=
  ⟨told, rfl, rfl, .refl _, .refl _⟩

/-- A thread that gets `mu_` leaves. -/
theorem Told.bgThread_eq
    (told : Told pool)
    (worker : Worker Pointer Callback) :
    pool.bgThread worker = (none, pool.leave worker) := by
  rw [ThreadPoolImpl.bgThread, told.exits]
  rfl

variable [DecidableEq Pointer]

theorem Told.step
    (told : Told pool)
    {action : Action Pointer Callback}
    (steps : pool.step action = some pool') : WindsDown pool pool' := by
  have exits := told.exits
  cases action with
  | schedule item woken =>
      rw [ThreadPoolImpl.step, ThreadPoolImpl.schedule, if_pos exits] at steps
      cases steps
      exact told.windsDown_refl
  | unSchedule tag =>
      cases steps
      refine ⟨⟨exits, told.noWaiters⟩, rfl, rfl, .refl _, ?_⟩
      rw [ThreadPoolImpl.queue_unSchedule]
      exact List.filter_sublist
  | setBackgroundThreads num =>
      cases steps
      rw [ThreadPoolImpl.setBackgroundThreads,
        ThreadPoolImpl.setBackgroundThreadsInternal, if_pos exits]
      exact told.windsDown_refl
  | incBackgroundThreadsIfNeeded num =>
      cases steps
      rw [ThreadPoolImpl.incBackgroundThreadsIfNeeded,
        ThreadPoolImpl.setBackgroundThreadsInternal, if_pos exits]
      exact told.windsDown_refl
  | lowerIOPriority =>
      cases steps
      exact ⟨⟨exits, told.noWaiters⟩, rfl, rfl, .refl _, .refl _⟩
  | joinAllThreads =>
      rw [ThreadPoolImpl.step, ThreadPoolImpl.joinAllThreads, if_pos exits] at steps
      cases steps
  | bgThread pthread =>
      obtain ⟨result, turns, rfl⟩ := Option.map_eq_some_iff.mp steps
      obtain ⟨worker, -, -, rfl⟩ := ThreadPoolImpl.of_turn turns
      rw [told.bgThread_eq worker]
      have noWaiters (other : Worker Pointer Callback)
          (isOther : other ∈ (pool.leave worker).workers) : other.stage ≠ .waiting :=
        told.noWaiters other (List.mem_filter.mp isOther).1
      exact ⟨⟨exits, noWaiters⟩, rfl, rfl, List.filter_sublist.map _, .refl _⟩
  | spuriousWakeUp pthread =>
      obtain ⟨worker, isWorker, -, waits⟩ := ThreadPoolImpl.waiting_of_spuriousWakeUp steps
      exact absurd waits (told.noWaiters worker isWorker)
  | functionReturns pthread =>
      rw [ThreadPoolImpl.of_wakes (.inr rfl) steps]
      refine ⟨⟨exits, fun worker isWorker waits => ?_⟩, rfl, rfl, ?_, .refl _⟩
      · exact told.noWaiters worker (ThreadPoolImpl.mem_of_onWorker_waiting
          (fun _ isWaiting => by cases isWaiting) isWorker waits) waits
      · have same : (pool.onWorker pthread (fun worker => { worker with stage := .ready
            })).workers.map (fun worker => worker.pthread) =
              pool.workers.map (fun worker => worker.pthread) := by
          rw [ThreadPoolImpl.onWorker, List.map_map]
          refine List.map_congr_left fun worker _ => ?_
          rw [Function.comp_apply]
          split <;> rfl
        rw [same]

/-- Nothing adds to the effort that is left. -/
theorem Told.effort_step
    (told : Told pool)
    (counted : Counted pool)
    {action : Action Pointer Callback}
    (steps : pool.step action = some pool') :
    pool'.effort + action.works.toNat ≤ pool.effort := by
  have exits := told.exits
  have unchanged (same : pool' = pool) : pool'.effort + 0 ≤ pool.effort := by
    rw [same]
    exact Nat.le_refl _
  cases action with
  | schedule item woken =>
      rw [ThreadPoolImpl.step, ThreadPoolImpl.schedule, if_pos exits] at steps
      exact unchanged (Option.some.inj steps).symm
  | unSchedule tag =>
      cases steps
      have fewer : (pool.unSchedule tag).2.2.queue.length ≤ pool.queue.length := by
        rw [ThreadPoolImpl.queue_unSchedule]
        exact List.length_filter_le _ _
      exact Nat.add_le_add_right (Nat.add_le_add_right (Nat.mul_le_mul_left 3 fewer) _) _
  | setBackgroundThreads num =>
      rw [ThreadPoolImpl.step, ThreadPoolImpl.setBackgroundThreads,
        ThreadPoolImpl.setBackgroundThreadsInternal, if_pos exits] at steps
      exact unchanged (Option.some.inj steps).symm
  | incBackgroundThreadsIfNeeded num =>
      rw [ThreadPoolImpl.step, ThreadPoolImpl.incBackgroundThreadsIfNeeded,
        ThreadPoolImpl.setBackgroundThreadsInternal, if_pos exits] at steps
      exact unchanged (Option.some.inj steps).symm
  | lowerIOPriority =>
      cases steps
      exact Nat.le_refl _
  | joinAllThreads =>
      rw [ThreadPoolImpl.step, ThreadPoolImpl.joinAllThreads, if_pos exits] at steps
      cases steps
  | bgThread pthread => exact counted.effort_step rfl steps
  | spuriousWakeUp pthread =>
      obtain ⟨worker, isWorker, -, waits⟩ := ThreadPoolImpl.waiting_of_spuriousWakeUp steps
      exact absurd waits (told.noWaiters worker isWorker)
  | functionReturns pthread => exact counted.effort_step rfl steps

end Telling

/-! ## Joining them -/

/-- The threads that are left are among those that have not been joined. -/
structure Exiting
    (bgthreads : List Nat)
    (queue : List (BGItem Pointer Callback))
    (joining : Joining Pointer Callback) : Prop where
  told : Told joining.pool
  positive : 0 < joining.pool.totalThreadsLimit.toInt
  nodup : bgthreads.Nodup
  handles : joining.pool.bgthreads = if joining.returned then [] else bgthreads
  joined_le : joining.joined ≤ joining.pool.bgthreads.length
  left : (joining.pool.workers.map (fun worker => worker.pthread)).Sublist
    (joining.pool.bgthreads.drop joining.joined)
  queue : joining.pool.queue.Sublist queue

/-- What is left to do for `JoinAllThreads` to return. -/
def effort (joining : Joining Pointer Callback) : Nat :=
  joining.pool.effort + (joining.pool.bgthreads.length - joining.joined) +
    (!joining.returned).toNat

section Joins

variable {bgthreads : List Nat} {queue : List (BGItem Pointer Callback)}
  {joining joining' : Joining Pointer Callback}

theorem Exiting.counted (exiting : Exiting bgthreads queue joining) :
    Counted joining.pool := by
  refine ⟨(exiting.left.trans (List.drop_sublist _ _)).nodup ?_, exiting.positive⟩
  rw [exiting.handles]
  split
  · exact List.nodup_nil
  · exact exiting.nodup

variable [DecidableEq Pointer]

/-- What a step of `JoinAllThreads` itself does. -/
theorem of_threadJoin
    (steps : joining.step .threadJoin = some joining') :
    ∃ thread, joining.pool.bgthreads[joining.joined]? = some thread ∧
      thread ∉ joining.pool.workers.map (fun worker => worker.pthread) ∧
      joining' = { joining with joined := joining.joined + 1 } := by
  obtain ⟨thread, isNext, joins⟩ := Option.bind_eq_some_iff.mp steps
  split at joins
  · cases joins
  · rename_i gone
    refine ⟨thread, isNext, fun stays => gone ?_, (Option.some.inj joins).symm⟩
    obtain ⟨worker, isWorker, same⟩ := List.mem_map.mp stays
    exact List.any_eq_true.mpr ⟨worker, isWorker, beq_iff_eq.mpr same⟩

theorem of_clear
    (steps : joining.step .clear = some joining') :
    joining.joined = joining.pool.bgthreads.length ∧ joining.returned = false ∧
      joining' = { joining with
        pool := { joining.pool with bgthreads := [] }
        joined := 0
        returned := true } := by
  obtain ⟨⟨all, waits⟩, clears⟩ := Option.ite_none_right_eq_some.mp steps
  exact ⟨all, waits, (Option.some.inj clears).symm⟩

theorem Exiting.step
    (exiting : Exiting bgthreads queue joining)
    {action : JoinAction Pointer Callback}
    (steps : joining.step action = some joining') :
    Exiting bgthreads queue joining' := by
  cases action with
  | pool action =>
      obtain ⟨pool, acts, rfl⟩ := Option.map_eq_some_iff.mp steps
      have winds := exiting.told.step acts
      exact
        { told := winds.told
          positive := winds.limit ▸ exiting.positive
          nodup := exiting.nodup
          handles := winds.bgthreads.trans exiting.handles
          joined_le := by
            dsimp only
            rw [winds.bgthreads]
            exact exiting.joined_le
          left := by
            dsimp only
            rw [winds.bgthreads]
            exact winds.workers.trans exiting.left
          queue := winds.queue.trans exiting.queue }
  | threadJoin =>
      obtain ⟨thread, isNext, gone, rfl⟩ := of_threadJoin steps
      obtain ⟨inside, isThread⟩ := List.getElem?_eq_some_iff.mp isNext
      refine { exiting with joined_le := inside, left := ?_ }
      have left := exiting.left
      rw [List.drop_eq_getElem_cons inside, isThread] at left
      rcases List.sublist_cons_iff.mp left with shorter | ⟨rest, isRest, -⟩
      · exact shorter
      · exact absurd (isRest ▸ List.mem_cons_self) gone
  | clear =>
      obtain ⟨all, -, rfl⟩ := of_clear steps
      have left := exiting.left
      rw [all, List.drop_length] at left
      exact
        { told := ⟨exiting.told.exits, exiting.told.noWaiters⟩
          positive := exiting.positive
          nodup := exiting.nodup
          handles := rfl
          joined_le := Nat.le_refl _
          left := left
          queue := exiting.queue }

theorem Exiting.effort_step
    (exiting : Exiting bgthreads queue joining)
    {action : JoinAction Pointer Callback}
    (steps : joining.step action = some joining') :
    joining'.effort + action.works.toNat ≤ joining.effort := by
  cases action with
  | pool action =>
      obtain ⟨pool, acts, rfl⟩ := Option.map_eq_some_iff.mp steps
      have winds := exiting.told.step acts
      have left := exiting.told.effort_step exiting.counted acts
      rw [effort, effort]
      dsimp only [JoinAction.works]
      rw [winds.bgthreads]
      omega
  | threadJoin =>
      obtain ⟨thread, isNext, -, rfl⟩ := of_threadJoin steps
      have inside := (List.getElem?_eq_some_iff.mp isNext).1
      rw [effort, effort]
      dsimp only [JoinAction.works]
      rw [Bool.toNat_true]
      omega
  | clear =>
      obtain ⟨all, returned, rfl⟩ := of_clear steps
      have less : ThreadPoolImpl.effort
          ({ joining.pool with bgthreads := [] } : ThreadPoolImpl Pointer Callback) ≤
            joining.pool.effort := by
        refine Nat.add_le_add_left (Nat.mul_le_mul_right _ ?_) _
        unfold ThreadPoolImpl.excess
        have positive := exiting.positive
        dsimp only [List.length_nil]
        omega
      rw [effort, effort, returned]
      change ThreadPoolImpl.effort
        ({ joining.pool with bgthreads := [] } : ThreadPoolImpl Pointer Callback) + 0 + 0 + 1 ≤
          joining.pool.effort + _ + 1
      omega

/-- Until `JoinAllThreads` returns there is something to do for it. -/
theorem Exiting.works
    (exiting : Exiting bgthreads queue joining)
    (inside : joining.returned = false) :
    ∃ action : JoinAction Pointer Callback, action.works = true ∧
      (joining.step action).isSome = true := by
  by_cases all : joining.joined = joining.pool.bgthreads.length
  · refine ⟨.clear, rfl, ?_⟩
    rw [Joining.step, if_pos ⟨all, inside⟩]
    rfl
  · have next : joining.joined < joining.pool.bgthreads.length :=
      Nat.lt_of_le_of_ne exiting.joined_le all
    by_cases gone : joining.pool.workers.any
        (fun worker => worker.pthread == joining.pool.bgthreads[joining.joined]) = true
    · obtain ⟨worker, isWorker, -⟩ := List.any_eq_true.mp gone
      obtain ⟨action, isWork, acts⟩ := exiting.counted.works_of_awake isWorker
        (exiting.told.noWaiters worker isWorker)
      refine ⟨.pool action, isWork, ?_⟩
      rw [Joining.step, Option.isSome_map]
      exact acts
    · refine ⟨.threadJoin, rfl, ?_⟩
      rw [Joining.step, List.getElem?_eq_getElem next, Option.bind_eq_bind, Option.bind_some,
        if_neg gone]
      rfl

omit [DecidableEq Pointer] in
/-- The pool behind the critical section of `JoinAllThreads`. -/
theorem exiting_of_tells
    {pool told : ThreadPoolImpl Pointer Callback}
    (regular : Regular pool)
    (tells : pool.joinAllThreads = some told) :
    Exiting pool.bgthreads pool.queue ⟨told, 0, false⟩ := by
  rw [ThreadPoolImpl.joinAllThreads] at tells
  split at tells
  · cases tells
  · obtain rfl := Option.some.inj tells
    have awoken := regular.wakeUpAllThreads
    exact
      { told := ⟨rfl, ThreadPoolImpl.wakeUpAllThreads_no_waiters _⟩
        positive := regular.positive
        nodup := regular.nodup
        handles := rfl
        joined_le := Nat.zero_le _
        left := by
          change (pool.wakeUpAllThreads.workers.map _).Sublist
            (pool.wakeUpAllThreads.bgthreads.drop 0)
          rw [awoken.pthreads, List.drop_zero]
        queue := .refl _ }

end Joins

/-- However the threads are scheduled, and whatever else the program does in the meantime,
`JoinAllThreads` returns: until then some thread can do something for it, and this happens
no more often than the effort tells that was left.  No job is started any more, the jobs in
the queue are only unscheduled, and behind the return there are no threads. -/
theorem joinAllThreads_returns
    [DecidableEq Pointer]
    {before : List (Action Pointer Callback)}
    {pool told : ThreadPoolImpl Pointer Callback}
    (runs : Machine.run ThreadPoolImpl.step .new before = some pool)
    (tells : pool.joinAllThreads = some told)
    {actions : List (JoinAction Pointer Callback)}
    {joining : Joining Pointer Callback}
    (continues : Machine.run step ⟨told, 0, false⟩ actions = some joining) :
    actions.countP JoinAction.works ≤ told.effort + pool.bgthreads.length + 1 ∧
      (joining.returned = false → ∃ action : JoinAction Pointer Callback,
        action.works = true ∧ (joining.step action).isSome = true) ∧
      (joining.returned = true →
        joining.pool.workers = [] ∧ joining.pool.bgthreads = []) ∧
      (∀ pthread result, joining.pool.turn pthread = some result → result.1 = none) ∧
      joining.pool.queue.Sublist pool.queue := by
  have running : pool.exitAllThreads = false := by
    rw [ThreadPoolImpl.joinAllThreads] at tells
    split at tells
    · cases tells
    · rename_i notTold
      exact Bool.not_eq_true _ ▸ notTold
  have regular := (ThreadPoolImpl.attentive_of_run runs running).sound.regular
  have start := exiting_of_tells regular tells
  have exiting := Machine.run_preserves (Exiting pool.bgthreads pool.queue)
    (fun exiting steps => exiting.step steps) continues start
  refine ⟨?_, exiting.works, fun returned => ?_, fun pthread result turns => ?_,
    exiting.queue⟩
  · have anything : ∀ action ∈ actions, True := fun _ _ => trivial
    have bounded := Machine.countP_le_of_effort (Exiting pool.bgthreads pool.queue) effort
      JoinAction.works (fun _ => false) (fun exiting _ steps => exiting.step steps)
      (fun exiting _ steps => exiting.effort_step steps) continues anything start
    have handles : told.bgthreads = pool.bgthreads := start.handles
    have nothing : actions.countP (fun _ => false) = 0 :=
      List.countP_eq_zero.mpr fun _ _ => Bool.false_ne_true
    have enough : effort ⟨told, 0, false⟩ = told.effort + pool.bgthreads.length + 1 := by
      rw [← handles]
      rfl
    omega
  · have handles := exiting.handles
    rw [returned, if_pos rfl] at handles
    have left := exiting.left
    rw [handles, List.drop_nil] at left
    exact ⟨List.map_eq_nil_iff.mp (List.sublist_nil.mp left), handles⟩
  · obtain ⟨worker, -, -, rfl⟩ := ThreadPoolImpl.of_turn turns
    rw [exiting.told.bgThread_eq worker]

/-- Two threads, one of them in a function, and a job that is not started any more. -/
theorem joinAllThreads_returns_two :
    ∃ (told : ThreadPoolImpl Nat Nat) (joining : Joining Nat Nat),
      Machine.run ThreadPoolImpl.step .new
          [.setBackgroundThreads 2, .bgThread 1, .schedule ⟨10, 0, 20, none⟩ 1, .bgThread 0,
            .schedule ⟨11, 0, 21, none⟩ 1, .joinAllThreads] = some told ∧
        Machine.run step ⟨told, 0, false⟩
          [.pool (.bgThread 1), .pool (.functionReturns 0), .pool (.bgThread 0), .threadJoin,
            .threadJoin, .clear] = some joining ∧
        joining.pool.workers = [] ∧ joining.pool.bgthreads = [] ∧
        joining.pool.queue.length = 1 := by
  have requested : (Machine.run ThreadPoolImpl.step (.new : ThreadPoolImpl Nat Nat)
      [.setBackgroundThreads 2, .bgThread 1, .schedule ⟨10, 0, 20, none⟩ 1, .bgThread 0,
        .schedule ⟨11, 0, 21, none⟩ 1]).isSome := by
    decide
  obtain ⟨pool, runs⟩ := Option.isSome_iff_exists.mp requested
  have joins : ((Machine.run ThreadPoolImpl.step (.new : ThreadPoolImpl Nat Nat)
      [.setBackgroundThreads 2, .bgThread 1, .schedule ⟨10, 0, 20, none⟩ 1, .bgThread 0,
        .schedule ⟨11, 0, 21, none⟩ 1, .joinAllThreads]).bind fun told =>
      (Machine.run step ⟨told, 0, false⟩
        [.pool (.bgThread 1), .pool (.functionReturns 0), .pool (.bgThread 0), .threadJoin,
          .threadJoin, .clear]).map fun joining =>
        (joining.returned, joining.pool.queue.length)) = some (true, 1) := by
    decide
  obtain ⟨told, tells, joins⟩ := Option.bind_eq_some_iff.mp joins
  obtain ⟨joining, continues, isJoining⟩ := Option.map_eq_some_iff.mp joins
  obtain ⟨returned, isQueue⟩ := Prod.mk.inj isJoining
  have told' : pool.joinAllThreads = some told := by
    have whole := Machine.run_append ThreadPoolImpl.step (.new : ThreadPoolImpl Nat Nat)
      [.setBackgroundThreads 2, .bgThread 1, .schedule ⟨10, 0, 20, none⟩ 1, .bgThread 0,
        .schedule ⟨11, 0, 21, none⟩ 1] [.joinAllThreads]
    rw [runs] at whole
    obtain ⟨last, joinsPool, isLast⟩ := Machine.run_cons.mp (whole.symm.trans tells)
    rw [← Option.some.inj isLast]
    exact joinsPool
  obtain ⟨-, -, ends, -⟩ := joinAllThreads_returns runs told' continues
  exact ⟨told, joining, tells, continues, (ends returned).1, (ends returned).2, isQueue⟩

end Joining
end ThreadPool
end RocksUtil
