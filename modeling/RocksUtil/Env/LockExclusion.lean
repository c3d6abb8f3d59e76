import RocksUtil.Env.FileLocks

/-!
# File locks exclude other processes

An entry of `lockedFiles` belongs to one holder: to a lock that was returned, or to a
thread that is between the access to the set and the system call.  As long as a process
closes no descriptor of a file while it has a lock on it, a lock that was returned also
has the record lock of the kernel behind it, so that no other process gets one
(`locks_exclude`).
-/

namespace RocksUtil
namespace Env
namespace System

variable {Process Thread Path : Type} {system : System Process Thread Path}
  {process : Process} {thread : Thread} {fname : Path}

/-- The entry of `lockedFiles` belongs to the thread. -/
def Claims (call : Call Path) (fname : Path) : Prop :=
  call = .setting fname true ∨ call = .entering fname false

/-- The system keeps its locks apart. -/
structure Sound (system : System Process Thread Path) : Prop where
  held : ∀ process fname, ⟨process, fname⟩ ∈ system.locks →
    fname ∈ system.lockedFiles process ∧ system.owner fname = some process ∧
      ∀ thread, ¬Claims (system.calls process thread) fname
  claimed : ∀ process thread fname, Claims (system.calls process thread) fname →
    fname ∈ system.lockedFiles process ∧
      ∀ other, Claims (system.calls process other) fname → other = thread
  guarded : ∀ process thread fname lock,
    system.calls process thread = .setting fname lock →
      system.mutex process = some thread ∧
        (lock = false → fname ∉ system.lockedFiles process)
  nodup : system.locks.Nodup

theorem sound_new : Sound (new : System Process Thread Path) where
  held := nofun
  claimed := by
    rintro _ _ _ (claims | claims) <;> cases claims
  guarded := nofun
  nodup := List.nodup_nil

theorem Sound.countP_locks
    [DecidableEq Path]
    (sound : Sound system)
    (fname : Path) :
    system.locks.countP (fun lock => lock.filename = fname) ≤ 1 := by
  rw [List.countP_eq_length_filter]
  have nodup := sound.nodup.filter (fun lock => lock.filename = fname)
  generalize locks : system.locks.filter (fun lock => lock.filename = fname) = found at nodup
  have isHeld {lock : FileLock Process Path} (found' : lock ∈ found) :
      lock = ⟨lock.process, fname⟩ ∧ system.owner fname = some lock.process := by
    rw [← locks, List.mem_filter, decide_eq_true_iff] at found'
    obtain ⟨isHeld, rfl⟩ := found'
    exact ⟨rfl, (sound.held lock.process lock.filename isHeld).2.1⟩
  match found with
  | [] => exact Nat.zero_le 1
  | [_] => exact Nat.le_refl 1
  | first :: second :: _ =>
      obtain ⟨first_eq, firstOwns⟩ := isHeld (List.mem_cons_self ..)
      obtain ⟨second_eq, secondOwns⟩ :=
        isHeld (List.mem_cons_of_mem _ (List.mem_cons_self ..))
      have same : first = second := by
        rw [first_eq, second_eq, Option.some.inj (firstOwns.symm.trans secondOwns)]
      exact absurd (same ▸ List.mem_cons_self ..) (List.nodup_cons.mp nodup).1

/-- A call that no entry belongs to, outside of the guarded part. -/
def Neutral (call : Call Path) : Prop :=
  (∀ fname, ¬Claims call fname) ∧ ∀ fname lock, call ≠ .setting fname lock

theorem neutral_idle : Neutral (.idle : Call Path) := by
  refine ⟨?_, nofun⟩
  rintro _ (claims | claims) <;> cases claims

theorem neutral_closing (fname : Path) : Neutral (.closing fname) := by
  refine ⟨?_, nofun⟩
  rintro _ (claims | claims) <;> cases claims

theorem neutral_entering (fname : Path) : Neutral (.entering fname true) := by
  refine ⟨?_, nofun⟩
  rintro _ (claims | claims) <;> cases claims

/-- Calls that claim no more than before keep the invariant, if the guarded part does. -/
theorem Sound.of_claims
    (sound : Sound system)
    {calls : Process → Thread → Call Path}
    {mutex : Process → Option Thread}
    (before : ∀ {other another name},
      Claims (calls other another) name → Claims (system.calls other another) name)
    (guarded : ∀ other another name lock, calls other another = .setting name lock →
      mutex other = some another ∧ (lock = false → name ∉ system.lockedFiles other)) :
    Sound { system with calls := calls, mutex := mutex } := by
  refine ⟨?_, ?_, guarded, sound.nodup⟩
  · intro other name isHeld
    obtain ⟨listed, owned, free⟩ := sound.held other name isHeld
    exact ⟨listed, owned, fun another claims => free another (before claims)⟩
  · intro other another name claims
    obtain ⟨listed, unique⟩ := sound.claimed other another name (before claims)
    exact ⟨listed, fun third claims' => unique third (before claims')⟩

section Calls

variable [DecidableEq Process] [DecidableEq Thread]

theorem calls_setCall
    (system : System Process Thread Path)
    (process other : Process)
    (thread another : Thread)
    (call : Call Path) :
    (system.setCall process thread call).calls other another =
      if other = process ∧ another = thread then call
      else system.calls other another := by
  unfold setCall
  dsimp only
  by_cases sameProcess : other = process
  · subst sameProcess
    rw [Function.update_self]
    by_cases sameThread : another = thread
    · simp [sameThread]
    · rw [Function.update_of_ne sameThread, if_neg (fun both => sameThread both.2)]
  · rw [Function.update_of_ne sameProcess, if_neg (fun both => sameProcess both.1)]

theorem setCall_setCall
    (system : System Process Thread Path)
    (process : Process)
    (thread : Thread)
    (first second : Call Path) :
    (system.setCall process thread first).setCall process thread second =
      system.setCall process thread second := by
  unfold setCall
  dsimp only
  rw [Function.update_idem, Function.update_self, Function.update_idem]

/-- The other threads are where they were. -/
theorem claims_setCall
    {call : Call Path}
    {other : Process}
    {another : Thread}
    {name : Path}
    (claims : Claims ((system.setCall process thread call).calls other another) name) :
    (other = process ∧ another = thread ∧ Claims call name) ∨
      (¬(other = process ∧ another = thread) ∧
        Claims (system.calls other another) name) := by
  rw [calls_setCall] at claims
  split at claims
  · rename_i same
    exact .inl ⟨same.1, same.2, claims⟩
  · exact .inr ⟨‹_›, claims⟩

/-! ## What each access preserves -/

theorem Sound.setCall
    (sound : Sound system)
    {call : Call Path}
    (neutral : Neutral call)
    (process : Process)
    (thread : Thread) : Sound (system.setCall process thread call) := by
  have before {other : Process} {another : Thread} {name : Path}
      (claims : Claims ((system.setCall process thread call).calls other another) name) :
      Claims (system.calls other another) name := by
    rcases claims_setCall claims with ⟨-, -, claims⟩ | ⟨-, claims⟩
    · exact absurd claims (neutral.1 name)
    · exact claims
  refine sound.of_claims before ?_
  intro other another name lock isSetting
  change (system.setCall process thread call).calls other another = _ at isSetting
  rw [calls_setCall] at isSetting
  split at isSetting
  · exact absurd isSetting (neutral.2 name lock)
  · exact sound.guarded other another name lock isSetting

end Calls

variable [DecidableEq Process]

/-- The kernel lock of a process without a returned lock may go. -/
theorem Sound.dropLock
    [DecidableEq Path]
    (sound : Sound system)
    (free : ⟨process, fname⟩ ∉ system.locks) : Sound (system.dropLock process fname) := by
  unfold System.dropLock
  split
  · rename_i owned
    refine ⟨?_, sound.claimed, sound.guarded, sound.nodup⟩
    intro other name isHeld
    obtain ⟨listed, owned', unclaimed⟩ := sound.held other name isHeld
    refine ⟨listed, ?_, unclaimed⟩
    have different : name ≠ fname := by
      rintro rfl
      obtain rfl : other = process := Option.some.inj (owned'.symm.trans owned)
      exact free isHeld
    exact (Function.update_of_ne different _ _).trans owned'
  · exact sound

/-- An entry that nobody has may be erased. -/
theorem Sound.erase
    [DecidableEq Path]
    (sound : Sound system)
    (unclaimed : ∀ thread, ¬Claims (system.calls process thread) fname)
    (free : ⟨process, fname⟩ ∉ system.locks) :
    Sound { system with
      lockedFiles := Function.update system.lockedFiles process
        ((system.lockedFiles process).erase fname) } := by
  have stays {other : Process} {name : Path}
      (listed : name ∈ system.lockedFiles other)
      (different : other = process → name ≠ fname) :
      name ∈ Function.update system.lockedFiles process
        ((system.lockedFiles process).erase fname) other := by
    by_cases same : other = process
    · subst same
      rw [Function.update_self]
      exact Finset.mem_erase.mpr ⟨different rfl, listed⟩
    · rwa [Function.update_of_ne same]
  refine ⟨?_, ?_, ?_, sound.nodup⟩
  · intro other name isHeld
    obtain ⟨listed, others⟩ := sound.held other name isHeld
    refine ⟨stays listed ?_, others⟩
    rintro rfl rfl
    exact free isHeld
  · intro other another name claims
    obtain ⟨listed, unique⟩ := sound.claimed other another name claims
    refine ⟨stays listed ?_, unique⟩
    rintro rfl rfl
    exact unclaimed another claims
  · intro other another name lock isSetting
    obtain ⟨mutexed, unlisted⟩ := sound.guarded other another name lock isSetting
    refine ⟨mutexed, fun unlocks => ?_⟩
    by_cases same : other = process
    · subst same
      dsimp only
      rw [Function.update_self]
      exact fun listed => unlisted unlocks (Finset.mem_of_mem_erase listed)
    · dsimp only
      rw [Function.update_of_ne same]
      exact unlisted unlocks

/-- A lock that `fcntl` has granted is returned. -/
theorem Sound.grant
    [DecidableEq Path]
    (sound : Sound system)
    (listed : fname ∈ system.lockedFiles process)
    (unclaimed : ∀ thread, ¬Claims (system.calls process thread) fname)
    (free : ⟨process, fname⟩ ∉ system.locks)
    (agrees : system.conflicts process fname = false) :
    Sound { system.setLock process fname with
      locks := ⟨process, fname⟩ :: system.locks } := by
  refine ⟨?_, sound.claimed, sound.guarded, List.nodup_cons.mpr ⟨free, sound.nodup⟩⟩
  intro other name isHeld
  rcases List.mem_cons.mp isHeld with same | before
  · cases same
    exact ⟨listed, Function.update_self .., unclaimed⟩
  · obtain ⟨listed', owned, free'⟩ := sound.held other name before
    refine ⟨listed', ?_, free'⟩
    have different : name ≠ fname := by
      rintro rfl
      -- without a conflict the owner is this process, whose lock is not returned yet
      have same : other = process := by
        simpa [conflicts, owned] using agrees
      exact free (same ▸ before)
    exact (Function.update_of_ne different ..).trans owned

variable [DecidableEq Thread]

/-- The holder of the mutex leaves the guarded part. -/
theorem Sound.release
    (sound : Sound system)
    {call : Call Path}
    (neutral : Neutral call)
    (holds : system.mutex process = some thread) :
    Sound ({ system with mutex := Function.update system.mutex process none }.setCall
      process thread call) := by
  obtain ⟨held, claimed, guarded, nodup⟩ := sound.setCall neutral process thread
  refine ⟨held, claimed, ?_, nodup⟩
  intro other another name lock isSetting
  obtain ⟨mutexed, unlisted⟩ := guarded other another name lock isSetting
  refine ⟨?_, unlisted⟩
  have different : other ≠ process := by
    rintro rfl
    obtain rfl : thread = another := Option.some.inj (holds.symm.trans mutexed)
    have same := calls_setCall system other other thread thread call
    rw [if_pos ⟨rfl, rfl⟩] at same
    exact neutral.2 name lock (same.symm.trans isSetting)
  exact (Function.update_of_ne different _ _).trans mutexed

/-- When a thread gets to the guarded part, the others there are in other processes. -/
theorem Sound.setting_cases
    (sound : Sound system)
    (unlocked : system.mutex process = none)
    {lock : Bool}
    {other : Process}
    {another : Thread}
    {name : Path}
    {lock' : Bool}
    (isSetting : (system.setCall process thread (.setting fname lock)).calls other another =
      .setting name lock') :
    (other = process ∧ another = thread ∧ name = fname ∧ lock' = lock) ∨
      (other ≠ process ∧ system.calls other another = .setting name lock') := by
  have calls := calls_setCall system process other thread another (.setting fname lock)
  split at calls
  · rename_i same
    cases calls.symm.trans isSetting
    exact .inl ⟨same.1, same.2, rfl, rfl⟩
  · have before := calls.symm.trans isSetting
    refine .inr ⟨?_, before⟩
    rintro rfl
    cases unlocked.symm.trans (sound.guarded _ _ _ _ before).1

/-- The thread that has erased the entry goes on to the system call. -/
theorem Sound.settingUnlock
    (sound : Sound system)
    (unlocked : system.mutex process = none)
    (unlisted : fname ∉ system.lockedFiles process) :
    Sound { system.setCall process thread (.setting fname false) with
      mutex := Function.update system.mutex process (some thread) } := by
  have before {other : Process} {another : Thread} {name : Path}
      (claims : Claims
        ((system.setCall process thread (.setting fname false)).calls other another) name) :
      Claims (system.calls other another) name := by
    rcases claims_setCall claims with ⟨-, -, mine⟩ | ⟨-, before⟩
    · rcases mine with mine | mine <;> cases mine
    · exact before
  refine sound.of_claims before ?_
  intro other another name lock isSetting
  rcases sound.setting_cases unlocked isSetting with
    ⟨rfl, rfl, rfl, rfl⟩ | ⟨different, before⟩
  · exact ⟨Function.update_self .., fun _ => unlisted⟩
  · obtain ⟨mutexed, unlisted'⟩ := sound.guarded other another name lock before
    exact ⟨(Function.update_of_ne different ..).trans mutexed, unlisted'⟩

variable [DecidableEq Path]

/-- A lock is passed to `UnlockFile`: its entry now belongs to the thread. -/
theorem Sound.unlockFile
    (sound : Sound system)
    (isHeld : ⟨process, fname⟩ ∈ system.locks) :
    Sound { system.setCall process thread (.entering fname false) with
      locks := system.locks.erase ⟨process, fname⟩ } := by
  obtain ⟨listed, -, free⟩ := sound.held process fname isHeld
  refine ⟨?_, ?_, ?_, sound.nodup.erase _⟩
  · intro other name isHeld'
    obtain ⟨different, isHeld'⟩ := sound.nodup.mem_erase_iff.mp isHeld'
    obtain ⟨listed', owned, free'⟩ := sound.held other name isHeld'
    refine ⟨listed', owned, fun another claims => ?_⟩
    rcases claims_setCall claims with ⟨rfl, rfl, mine⟩ | ⟨-, before⟩
    · rcases mine with mine | mine
      · cases mine
      · cases mine
        exact different rfl
    · exact free' another before
  · intro other another name claims
    rcases claims_setCall claims with ⟨rfl, rfl, mine⟩ | ⟨elsewhere, before⟩
    · rcases mine with mine | mine <;> cases mine
      refine ⟨listed, fun third claims' => ?_⟩
      rcases claims_setCall claims' with ⟨-, same, -⟩ | ⟨-, earlier⟩
      · exact same
      · exact absurd earlier (free third)
    · obtain ⟨listed', unique⟩ := sound.claimed other another name before
      refine ⟨listed', fun third claims' => ?_⟩
      rcases claims_setCall claims' with ⟨rfl, rfl, mine⟩ | ⟨-, earlier⟩
      · rcases mine with mine | mine <;> cases mine
        exact absurd before (free another)
      · exact unique third earlier
  · intro other another name lock isSetting
    have calls := calls_setCall system process other thread another (.entering fname false)
    split at calls
    · cases calls.symm.trans isSetting
    · exact sound.guarded other another name lock (calls.symm.trans isSetting)

/-- The first half of locking puts the entry into the set. -/
theorem Sound.insert
    (sound : Sound system)
    (unlocked : system.mutex process = none)
    (unlisted : fname ∉ system.lockedFiles process) :
    Sound { system.setCall process thread (.setting fname true) with
      lockedFiles := Function.update system.lockedFiles process
        (insert fname (system.lockedFiles process))
      mutex := Function.update system.mutex process (some thread) } := by
  have grows {other : Process} {name : Path} (listed : name ∈ system.lockedFiles other) :
      name ∈ Function.update system.lockedFiles process
        (Insert.insert fname (system.lockedFiles process)) other := by
    by_cases same : other = process
    · subst same
      rw [Function.update_self]
      exact Finset.mem_insert_of_mem listed
    · rwa [Function.update_of_ne same]
  refine ⟨?_, ?_, ?_, sound.nodup⟩
  · intro other name isHeld
    obtain ⟨listed, owned, free⟩ := sound.held other name isHeld
    refine ⟨grows listed, owned, fun another claims => ?_⟩
    rcases claims_setCall claims with ⟨rfl, rfl, mine⟩ | ⟨-, before⟩
    · rcases mine with mine | mine <;> cases mine
      exact unlisted listed
    · exact free another before
  · intro other another name claims
    rcases claims_setCall claims with ⟨rfl, rfl, mine⟩ | ⟨elsewhere, before⟩
    · rcases mine with mine | mine <;> cases mine
      constructor
      · dsimp only
        rw [Function.update_self]
        exact Finset.mem_insert_self ..
      · intro third claims'
        rcases claims_setCall claims' with ⟨-, same, -⟩ | ⟨-, earlier⟩
        · exact same
        · exact absurd (sound.claimed _ third _ earlier).1 unlisted
    · obtain ⟨listed, unique⟩ := sound.claimed other another name before
      refine ⟨grows listed, fun third claims' => ?_⟩
      rcases claims_setCall claims' with ⟨rfl, rfl, mine⟩ | ⟨-, earlier⟩
      · rcases mine with mine | mine <;> cases mine
        exact absurd listed unlisted
      · exact unique third earlier
  · intro other another name lock isSetting
    rcases sound.setting_cases unlocked isSetting with
      ⟨rfl, rfl, rfl, rfl⟩ | ⟨different, before⟩
    · exact ⟨Function.update_self .., nofun⟩
    · obtain ⟨mutexed, unlisted'⟩ := sound.guarded other another name lock before
      dsimp only
      rw [Function.update_of_ne different, Function.update_of_ne different]
      exact ⟨mutexed, unlisted'⟩

theorem dropLock_setCall
    (system : System Process Thread Path)
    (process : Process)
    (thread : Thread)
    (fname : Path)
    (call : Call Path) :
    (system.dropLock process fname).setCall process thread call =
      (system.setCall process thread call).dropLock process fname := by
  unfold dropLock
  split
  · rename_i owned
    rw [if_pos (show (system.setCall process thread call).owner fname = _ from owned)]
    rfl
  · rename_i unowned
    rw [if_neg (show (system.setCall process thread call).owner fname ≠ _ from unowned)]

/-! ## What each step preserves -/

theorem Sound.enter
    (sound : Sound system)
    {lock : Bool}
    (entering : system.calls process thread = .entering fname lock)
    (unlocked : system.mutex process = none) :
    Sound (system.enter process thread fname lock) := by
  unfold System.enter updateSet
  cases lock with
  | true =>
      by_cases listed : fname ∈ system.lockedFiles process
      · rw [if_pos rfl, if_pos listed]
        exact sound.setCall (neutral_closing fname) process thread
      · rw [if_pos rfl, if_neg listed]
        exact sound.insert unlocked listed
  | false =>
      rw [if_neg Bool.false_ne_true]
      by_cases listed : fname ∈ system.lockedFiles process
      · rw [if_pos listed]
        have claims : Claims (system.calls process thread) fname := .inr entering
        have free : ⟨process, fname⟩ ∉ system.locks := fun isHeld =>
          (sound.held process fname isHeld).2.2 thread claims
        -- the thread gives its entry up, and nobody else has it
        have outside := sound.setCall neutral_idle process thread
        have unclaimed : ∀ another,
            ¬Claims ((system.setCall process thread .idle).calls process another) fname := by
          intro another claims'
          rcases claims_setCall claims' with ⟨-, -, mine⟩ | ⟨elsewhere, before⟩
          · exact neutral_idle.1 fname mine
          · exact elsewhere ⟨rfl, (sound.claimed process thread fname claims).2 another before⟩
        have erased := outside.erase unclaimed free
        dsimp only
        rw [← setCall_setCall system process thread .idle]
        apply erased.settingUnlock unlocked
        dsimp only
        rw [Function.update_self]
        exact Finset.notMem_erase fname _
      · rw [if_neg listed]
        exact sound.setCall (neutral_closing fname) process thread

theorem Sound.fcntl
    (sound : Sound system)
    {lock : Bool}
    (setting : system.calls process thread = .setting fname lock)
    (fails : Bool) : Sound (system.fcntl process thread fname lock fails) := by
  obtain ⟨holds, unlisted⟩ := sound.guarded process thread fname lock setting
  unfold System.fcntl
  cases lock with
  | true =>
      rw [if_pos rfl]
      have claims : Claims (system.calls process thread) fname := .inl setting
      obtain ⟨listed, unique⟩ := sound.claimed process thread fname claims
      have free : ⟨process, fname⟩ ∉ system.locks := fun isHeld =>
        (sound.held process fname isHeld).2.2 thread claims
      have unclaimed {call : Call Path} (neutral : Neutral call) (another : Thread) :
          ¬Claims ((system.setCall process thread call).calls process another) fname := by
        intro claims'
        rcases claims_setCall claims' with ⟨-, -, mine⟩ | ⟨elsewhere, before⟩
        · exact neutral.1 fname mine
        · exact elsewhere ⟨rfl, unique another before⟩
      split
      · exact (sound.release (neutral_closing fname) holds).erase
          (unclaimed (neutral_closing fname)) free
      · rename_i succeeds
        have agrees : system.conflicts process fname = false := by
          simpa using (Bool.or_eq_false_iff.mp (Bool.eq_false_iff.mpr succeeds)).2
        exact (sound.release neutral_idle holds).grant listed (unclaimed neutral_idle) free
          agrees
  | false =>
      rw [if_neg Bool.false_ne_true]
      have released := sound.release (neutral_closing fname) holds
      split
      · exact released
      · rw [dropLock_setCall]
        apply released.dropLock
        exact fun isHeld => unlisted rfl (sound.held process fname isHeld).1

/-- No process closes a descriptor of a file it has a lock on. -/
def Careful
    (system : System Process Thread Path) : Action Process Thread Path → Prop
  | .close process thread =>
      ∀ fname, system.calls process thread = .closing fname →
        ⟨process, fname⟩ ∉ system.locks
  | _ => True

instance (system : System Process Thread Path) :
    (action : Action Process Thread Path) → Decidable (Careful system action)
  | .close process thread =>
      match calls : system.calls process thread with
      | .closing fname => decidable_of_iff (∀ lock ∈ system.locks, lock ≠ ⟨process, fname⟩)
          ⟨fun free _ closing isHeld => by
              cases calls.symm.trans closing
              exact free _ isHeld rfl,
            fun careful _ isHeld same => careful fname calls (same ▸ isHeld)⟩
      | .idle | .entering .. | .setting .. =>
          .isTrue (fun _ closing => nomatch calls.symm.trans closing)
  | .lockFile .. | .unlockFile .. | .enter .. | .fcntl .. => .isTrue trivial

theorem Sound.step
    (sound : Sound system)
    {action : Action Process Thread Path}
    {next : System Process Thread Path}
    (careful : Careful system action)
    (steps : system.step action = some next) : Sound next := by
  cases action with
  | lockFile process thread fname =>
      simp only [System.step] at steps
      split at steps <;> cases steps
      exact sound.setCall (neutral_entering fname) process thread
  | unlockFile process thread fname =>
      simp only [System.step] at steps
      split at steps <;> cases steps
      rename_i isHeld
      exact sound.unlockFile isHeld.2
  | enter process thread =>
      simp only [System.step] at steps
      split at steps <;> cases steps
      exact sound.enter ‹_› ‹_›
  | fcntl process thread fails =>
      simp only [System.step] at steps
      split at steps <;> cases steps
      exact sound.fcntl ‹_› fails
  | close process thread =>
      simp only [System.step] at steps
      split at steps <;> cases steps
      rename_i fname closing
      rw [dropLock_setCall]
      exact (sound.setCall neutral_idle process thread).dropLock (careful fname closing)

/-- A process that closes a descriptor of a file it has a lock on loses the record lock,
while the lock it was given still exists. -/
theorem close_loses
    (sound : Sound system)
    (isHeld : ⟨process, fname⟩ ∈ system.locks)
    (closing : system.calls process thread = .closing fname) :
    ∃ next, system.step (.close process thread) = some next ∧
      ⟨process, fname⟩ ∈ next.locks ∧ next.owner fname = none := by
  refine ⟨(system.dropLock process fname).setCall process thread .idle, ?_, ?_, ?_⟩
  · simp only [System.step, closing]
  · unfold dropLock
    split <;> exact isHeld
  · unfold dropLock
    rw [if_pos (sound.held process fname isHeld).2.1]
    exact Function.update_self ..

/-! ## Every run -/

/-- While every process keeps the descriptors of a file open that it has a lock on, there
is at most one lock for a file, and the record lock of the kernel stands behind it. -/
theorem locks_exclude
    {actions : List (Action Process Thread Path)}
    (runs : Machine.run step new actions = some system)
    (careful : Machine.Along Careful step new actions) :
    (∀ fname, system.locks.countP (fun lock => lock.filename = fname) ≤ 1) ∧
      ∀ process fname, ⟨process, fname⟩ ∈ system.locks →
        system.owner fname = some process := by
  have sound : Sound system :=
    Machine.run_preserves_along Sound (fun sound careful steps => sound.step careful steps)
      runs careful sound_new
  exact ⟨sound.countP_locks, fun process fname isHeld =>
    (sound.held process fname isHeld).2.1⟩

/-- A process locks a file and fails to lock it again. -/
def lockTwice : List (Action Nat Nat String) :=
  [.lockFile 0 0 "LOCK", .enter 0 0, .fcntl 0 0 false,
    .lockFile 0 1 "LOCK", .enter 0 1, .close 0 1]

/-- Another process then gets the lock as well. -/
theorem lock_lost :
    ∃ system, Machine.run step new
        (lockTwice ++ [.lockFile 1 0 "LOCK", .enter 1 0, .fcntl 1 0 false]) = some system ∧
      system.locks = [⟨1, "LOCK"⟩, ⟨0, "LOCK"⟩] ∧
      ¬system.locks.countP (fun lock => lock.filename = "LOCK") ≤ 1 := by
  refine ⟨_, rfl, ?_, ?_⟩
  · decide +kernel
  · decide +kernel

/-- Two processes, of which the second has to wait for `UnlockFile`. -/
def lockInTurn : List (Action Nat Nat String) :=
  [.lockFile 0 0 "LOCK", .enter 0 0, .fcntl 0 0 false,
    .lockFile 1 0 "LOCK", .enter 1 0, .fcntl 1 0 false, .close 1 0,
    .unlockFile 0 1 "LOCK", .enter 0 1, .fcntl 0 1 false, .close 0 1,
    .lockFile 1 0 "LOCK", .enter 1 0, .fcntl 1 0 false]

theorem locks_exclude_inTurn :
    ∃ system, Machine.run step new lockInTurn = some system ∧
      system.locks = [⟨1, "LOCK"⟩] ∧
      (∀ fname, system.locks.countP (fun lock => lock.filename = fname) ≤ 1) := by
  have careful : Machine.Along Careful step new lockInTurn := by decide +kernel
  exact ⟨_, rfl, by decide +kernel, (locks_exclude rfl careful).1⟩

end System
end Env
end RocksUtil
