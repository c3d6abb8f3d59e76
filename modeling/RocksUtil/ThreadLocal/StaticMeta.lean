import Mathlib.Algebra.Group.Nat.Defs
import RocksUtil.Library.Ring

/-!
# Thread-local pointers

`ThreadLocalPtr::StaticMeta`: the ids of the live objects, the handlers by id, and for
each thread a vector of pointers that is indexed by id.  The structures of the threads
are chained in a ring behind `head_`.  Every operation is one step; one that would
read outside a vector or through a null pointer has no result.
-/

namespace RocksUtil
namespace ThreadLocal

variable {Pointer Handler : Type}

/-- The state of the singleton.  Threads are numbers; a null pointer and a null handler
are `none`. -/
structure StaticMeta (Pointer Handler : Type) where
  /-- `next_instance_id_`. -/
  nextInstanceId : UInt32
  /-- `free_instance_ids_`. -/
  freeInstanceIds : List UInt32
  /-- The `next` and `prev` of the structures of the threads, and of `head_`. -/
  links : Ring.Links (Option Nat)
  /-- The number of structures made so far. -/
  created : Nat
  /-- `handler_map_`. -/
  handlerMap : UInt32 → Option (Option Handler)
  /-- The vector in the structure of a thread, if it has one: its `tls_` is not null. -/
  entries : Nat → Option (List (Option Pointer))

namespace StaticMeta

/-- `head_`. -/
def head : Option Nat := none

/-- The constructor. -/
def new : StaticMeta Pointer Handler where
  nextInstanceId := 0
  freeInstanceIds := []
  links :=
    { next := Function.update (fun _ => none) head (some head)
      prev := Function.update (fun _ => none) head (some head) }
  created := 0
  handlerMap := fun _ => none
  entries := fun _ => none

/-! ## The chain of the threads -/

/-- `AddThreadData`, for a new structure. -/
def addThreadData
    (static : StaticMeta Pointer Handler)
    (thread : Nat) : Option (StaticMeta Pointer Handler) := do
  let last ← static.links.prev head
  some { static with
    links := static.links.link last (some thread) head
    created := static.created + 1
    entries := Function.update static.entries thread (some []) }

/-- `RemoveThreadData`, for a structure that is deleted. -/
def removeThreadData
    (static : StaticMeta Pointer Handler)
    (thread : Nat) : Option (StaticMeta Pointer Handler) := do
  let next ← static.links.next (some thread)
  let prev ← static.links.prev (some thread)
  some { static with
    links := static.links.unlink prev (some thread) next
    entries := Function.update static.entries thread none }

/-- The threads that a loop over the chain visits. -/
def chained (static : StaticMeta Pointer Handler) : List Nat :=
  (static.links.walk head (static.created + 1) (static.links.next head)).filterMap id

/-- `GetThreadLocal`. -/
def getThreadLocal
    (static : StaticMeta Pointer Handler)
    (thread : Nat) : Option (StaticMeta Pointer Handler) :=
  match static.entries thread with
  | some _ => some static
  | none => static.addThreadData thread

/-! ## The slots of a thread -/

/-- `std::vector::resize`. -/
def resize (entries : List (Option Pointer)) (size : Nat) : List (Option Pointer) :=
  entries.take size ++ List.replicate (size - entries.length) none

/-- `Get`. -/
def get
    (static : StaticMeta Pointer Handler)
    (thread : Nat)
    (id : UInt32) : Option (Option Pointer × StaticMeta Pointer Handler) := do
  let static ← static.getThreadLocal thread
  let entries ← static.entries thread
  some ((entries[id.toNat]?).join, static)

/-- Write into a slot. -/
def store
    (static : StaticMeta Pointer Handler)
    (thread : Nat)
    (id : UInt32)
    (ptr : Option Pointer) : StaticMeta Pointer Handler :=
  { static with
    entries := Function.update static.entries thread
      ((static.entries thread).map (fun entries => entries.set id.toNat ptr)) }

/-- What `Reset`, `Swap` and `CompareAndSwap` begin with: the vector of the thread is
resized if it has no slot for the id.  Returns the pointer in that slot. -/
def slot
    (static : StaticMeta Pointer Handler)
    (thread : Nat)
    (id : UInt32) : Option (Option Pointer × StaticMeta Pointer Handler) := do
  let static ← static.getThreadLocal thread
  let entries ← static.entries thread
  let entries :=
    if id.toNat ≥ entries.length then resize entries (id + 1).toNat else entries
  let ptr ← entries[id.toNat]?
  some (ptr, { static with
    entries := Function.update static.entries thread (some entries) })

/-- `Reset`. -/
def reset
    (static : StaticMeta Pointer Handler)
    (thread : Nat)
    (id : UInt32)
    (ptr : Option Pointer) : Option (StaticMeta Pointer Handler) := do
  let (_, static) ← static.slot thread id
  some (static.store thread id ptr)

/-- `Swap`. -/
def swap
    (static : StaticMeta Pointer Handler)
    (thread : Nat)
    (id : UInt32)
    (ptr : Option Pointer) :
    Option (Option Pointer × StaticMeta Pointer Handler) := do
  let (old, static) ← static.slot thread id
  some (old, static.store thread id ptr)

/-- `CompareAndSwap`: whether it has succeeded, and what `expected` is afterwards. -/
def compareAndSwap
    [DecidableEq Pointer]
    (static : StaticMeta Pointer Handler)
    (thread : Nat)
    (id : UInt32)
    (ptr expected : Option Pointer) :
    Option (Bool × Option Pointer × StaticMeta Pointer Handler) := do
  let (old, static) ← static.slot thread id
  if old = expected then
    some (true, expected, static.store thread id ptr)
  else
    some (false, old, static)

/-! ## The slots of all threads -/

/-- One turn of the loops of `Scrape` and `ReclaimId`. -/
def exchange
    (id : UInt32)
    (replacement : Option Pointer)
    (done : List Pointer × StaticMeta Pointer Handler)
    (thread : Nat) : Option (List Pointer × StaticMeta Pointer Handler) := do
  let entries ← done.2.entries thread
  match entries[id.toNat]? with
  | some ptr =>
      some (done.1 ++ ptr.toList, done.2.store thread id replacement)
  | none => some done

/-- `Scrape`: the pointers that are not null, and the slots with the replacement. -/
def scrape
    (static : StaticMeta Pointer Handler)
    (id : UInt32)
    (replacement : Option Pointer) :
    Option (List Pointer × StaticMeta Pointer Handler) :=
  static.chained.foldlM (exchange id replacement) ([], static)

/-- `SetHandler`. -/
def setHandler
    (static : StaticMeta Pointer Handler)
    (id : UInt32)
    (handler : Option Handler) : StaticMeta Pointer Handler :=
  { static with handlerMap := Function.update static.handlerMap id (some handler) }

/-- `GetHandler`. -/
def getHandler (static : StaticMeta Pointer Handler) (id : UInt32) : Option Handler :=
  (static.handlerMap id).join

/-! ## Ids -/

/-- `GetId`. -/
def getId (static : StaticMeta Pointer Handler) : UInt32 × StaticMeta Pointer Handler :=
  match static.freeInstanceIds.getLast? with
  | none =>
      (static.nextInstanceId, { static with nextInstanceId := static.nextInstanceId + 1 })
  | some id => (id, { static with freeInstanceIds := static.freeInstanceIds.dropLast })

/-- `ReclaimId`: the calls of the handler, and the state.  Its loop is that of `Scrape`
with a null replacement, but for what is done with the pointers. -/
def reclaimId
    (static : StaticMeta Pointer Handler)
    (id : UInt32) :
    Option (List (Handler × Pointer) × StaticMeta Pointer Handler) := do
  let unref := static.getHandler id
  let (ptrs, static) ← static.scrape id none
  let calls := unref.toList.flatMap (fun unref => ptrs.map (fun ptr => (unref, ptr)))
  let static := static.setHandler id none
  some (calls, { static with freeInstanceIds := static.freeInstanceIds ++ [id] })

/-- The call of the handler for an entry of the vector of a thread that exits. -/
def unrefCall
    (static : StaticMeta Pointer Handler)
    (entry : Option Pointer × Nat) : Option (Handler × Pointer) := do
  let raw ← entry.1
  let unref ← static.getHandler (UInt32.ofNat entry.2)
  some (unref, raw)

/-- `OnThreadExit`, which is called if the thread has a structure: the calls of the
handlers, and the state. -/
def onThreadExit
    (static : StaticMeta Pointer Handler)
    (thread : Nat) :
    Option (List (Handler × Pointer) × StaticMeta Pointer Handler) :=
  match static.entries thread with
  | none => some ([], static)
  | some entries => do
      let static ← static.removeThreadData thread
      some (entries.zipIdx.filterMap static.unrefCall, static)

end StaticMeta
end ThreadLocal
end RocksUtil
