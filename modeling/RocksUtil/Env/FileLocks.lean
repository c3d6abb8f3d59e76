import Mathlib.Data.Finset.Erase
import Mathlib.Data.Finset.Insert
import RocksUtil.Library.Machine

/-!
# File locks

`LockFile` and `UnlockFile` of `PosixEnv`, called by any number of threads of any number
of processes.  A lock is kept twice: in `lockedFiles`, a set that each process has for
itself and guards with a mutex, and as a record lock of the kernel.  Record locks belong
to a process: they conflict between processes only, and closing any descriptor of a file
drops all locks the process has on it.

A thread takes one step at a time, and a step makes one access to what it shares with
others: the set, under the mutex, or the kernel.  A process is one program image, so its
set starts empty.  Descriptors need no numbers: a call closes the descriptor it opened,
and only the file and the process matter to the kernel.
-/

namespace RocksUtil
namespace Env

variable {Process Thread Path : Type}

/-- Where a thread stands in a call of `LockFile` or `UnlockFile`. -/
inductive Call (Path : Type)
  /-- Outside of both. -/
  | idle
  /-- About to call `LockOrUnlock(fname, fd, lock)`. -/
  | entering (fname : Path) (lock : Bool)
  /-- In `LockOrUnlock`, behind the access to `lockedFiles`, in front of `fcntl`. -/
  | setting (fname : Path) (lock : Bool)
  /-- About to close the descriptor. -/
  | closing (fname : Path)
  deriving DecidableEq

/-- A `PosixFileLock` and the process it was created in. -/
structure FileLock (Process Path : Type) where
  /-- The process. -/
  process : Process
  /-- `filename`. -/
  filename : Path
  deriving DecidableEq

/-- The processes and the kernel. -/
structure System (Process Thread Path : Type) where
  /-- `lockedFiles` of each process. -/
  lockedFiles : Process → Finset Path
  /-- The thread that holds `mutex_lockedFiles` of a process. -/
  mutex : Process → Option Thread
  /-- The process that has the record lock on a file. -/
  owner : Path → Option Process
  /-- The locks a successful `LockFile` has returned and that were not passed to
  `UnlockFile` since. -/
  locks : List (FileLock Process Path)
  /-- Where each thread stands. -/
  calls : Process → Thread → Call Path

/-- One step of a thread. -/
inductive Action (Process Thread Path : Type)
  /-- Call `LockFile`, which opens the file. -/
  | lockFile (process : Process) (thread : Thread) (fname : Path)
  /-- Call `UnlockFile` with a lock of the process. -/
  | unlockFile (process : Process) (thread : Thread) (fname : Path)
  /-- The part of `LockOrUnlock` in front of `fcntl`. -/
  | enter (process : Process) (thread : Thread)
  /-- `fcntl`, and the rest of `LockOrUnlock`.  The call may fail without a conflict. -/
  | fcntl (process : Process) (thread : Thread) (fails : Bool)
  /-- Close the descriptor and return. -/
  | close (process : Process) (thread : Thread)

namespace System

variable [DecidableEq Process] [DecidableEq Thread] [DecidableEq Path]

/-- No process has called anything. -/
def new : System Process Thread Path where
  lockedFiles := fun _ => ∅
  mutex := fun _ => none
  owner := fun _ => none
  locks := []
  calls := fun _ _ => .idle

/-- A thread gets to another place. -/
def setCall
    (system : System Process Thread Path)
    (process : Process)
    (thread : Thread)
    (call : Call Path) : System Process Thread Path :=
  { system with
    calls := Function.update system.calls process
      (Function.update (system.calls process) thread call) }

/-! ## The kernel -/

/-- Another process has a lock on the file. -/
def conflicts
    (system : System Process Thread Path)
    (process : Process)
    (fname : Path) : Bool :=
  decide (system.owner fname ≠ none ∧ system.owner fname ≠ some process)

/-- `F_SETLK` with `F_WRLCK`, where nothing conflicts. -/
def setLock
    (system : System Process Thread Path)
    (process : Process)
    (fname : Path) : System Process Thread Path :=
  { system with owner := Function.update system.owner fname (some process) }

/-- The process loses its lock on the file: through `F_SETLK` with `F_UNLCK`, or by
closing a descriptor of the file. -/
def dropLock
    (system : System Process Thread Path)
    (process : Process)
    (fname : Path) : System Process Thread Path :=
  if system.owner fname = some process then
    { system with owner := Function.update system.owner fname none }
  else system

/-! ## The calls -/

/-- What `LockOrUnlock` makes of `lockedFiles`: nothing when it fails there. -/
def updateSet (lockedFiles : Finset Path) (fname : Path) (lock : Bool) :
    Option (Finset Path) :=
  if lock then
    if fname ∈ lockedFiles then none else some (insert fname lockedFiles)
  else if fname ∈ lockedFiles then some (lockedFiles.erase fname)
  else none

/-- The part of `LockOrUnlock` in front of `fcntl`.  When it fails, `LockFile` and
`UnlockFile` both close the descriptor. -/
def enter
    (system : System Process Thread Path)
    (process : Process)
    (thread : Thread)
    (fname : Path)
    (lock : Bool) : System Process Thread Path :=
  match updateSet (system.lockedFiles process) fname lock with
  | none => system.setCall process thread (.closing fname)
  | some lockedFiles =>
      { system.setCall process thread (.setting fname lock) with
        lockedFiles := Function.update system.lockedFiles process lockedFiles
        mutex := Function.update system.mutex process (some thread) }

/-- `fcntl` and the part of `LockOrUnlock` behind it.  A successful `LockFile` returns at
once, every other call goes on to close the descriptor. -/
def fcntl
    (system : System Process Thread Path)
    (process : Process)
    (thread : Thread)
    (fname : Path)
    (lock fails : Bool) : System Process Thread Path :=
  let released := { system with mutex := Function.update system.mutex process none }
  if lock then
    if fails || system.conflicts process fname then
      { released.setCall process thread (.closing fname) with
        lockedFiles := Function.update system.lockedFiles process
          ((system.lockedFiles process).erase fname) }
    else
      { (released.setLock process fname).setCall process thread .idle with
        locks := ⟨process, fname⟩ :: system.locks }
  else if fails then released.setCall process thread (.closing fname)
  else (released.dropLock process fname).setCall process thread (.closing fname)

/-- One step; `none` when the thread cannot take it. -/
def step (system : System Process Thread Path) :
    Action Process Thread Path → Option (System Process Thread Path)
  | .lockFile process thread fname =>
      if system.calls process thread = .idle then
        some (system.setCall process thread (.entering fname true))
      else none
  | .unlockFile process thread fname =>
      if system.calls process thread = .idle ∧ ⟨process, fname⟩ ∈ system.locks then
        some { system.setCall process thread (.entering fname false) with
          locks := system.locks.erase ⟨process, fname⟩ }
      else none
  | .enter process thread =>
      match system.calls process thread, system.mutex process with
      | .entering fname lock, none => some (system.enter process thread fname lock)
      | _, _ => none
  | .fcntl process thread fails =>
      match system.calls process thread with
      | .setting fname lock => some (system.fcntl process thread fname lock fails)
      | _ => none
  | .close process thread =>
      match system.calls process thread with
      | .closing fname => some ((system.dropLock process fname).setCall process thread .idle)
      | _ => none

end System
end Env
end RocksUtil
