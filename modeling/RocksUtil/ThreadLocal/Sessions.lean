import RocksUtil.Library.Machine
import RocksUtil.ThreadLocal.Slots

/-!
# Objects and threads

A session is the singleton together with the `ThreadLocalPtr` objects that exist and
the threads that are running.  The constructor of an object with a handler takes two
steps, between which other threads may act.
-/

namespace RocksUtil
namespace ThreadLocal

variable {Pointer Handler : Type}

/-- A `ThreadLocalPtr`.  Its name is not used again, while its id is. -/
structure Object (Handler : Type) where
  name : Nat
  id : UInt32
  handler : Option Handler
  /-- The constructor has returned. -/
  isConstructed : Bool
  deriving DecidableEq, Repr

/-- The handler that has been set for the id of an object. -/
def Object.unref (object : Object Handler) : Option Handler :=
  if object.isConstructed then object.handler else none

/-- The singleton, the objects and the threads. -/
structure Session (Pointer Handler : Type) where
  static : StaticMeta Pointer Handler
  objects : List (Object Handler)
  nextObject : Nat
  threads : List Nat
  nextThread : Nat

/-- What can happen next in the program. -/
inductive Action (Pointer Handler : Type)
  /-- A constructor calls `GetId`. -/
  | construct (handler : Option Handler)
  /-- A constructor with a handler calls `SetHandler`. -/
  | setHandler (object : Nat)
  | destroy (object : Nat)
  | threadStarts
  | threadExits (thread : Nat)
  | get (thread object : Nat)
  | reset (thread object : Nat) (ptr : Option Pointer)
  | swap (thread object : Nat) (ptr : Option Pointer)
  | compareAndSwap (thread object : Nat) (ptr expected : Option Pointer)
  | scrape (object : Nat) (replacement : Option Pointer)
  deriving DecidableEq, Repr

/-- What an action returns. -/
inductive Answer (Pointer : Type)
  | done
  | object (name : Nat)
  | pointer (ptr : Option Pointer)
  | compared (success : Bool) (expected : Option Pointer)
  | scraped (ptrs : List Pointer)
  deriving DecidableEq, Repr

/-- What an action returns, and the calls of handlers that it makes. -/
structure Response (Pointer Handler : Type) where
  answer : Answer Pointer
  calls : List (Handler × Pointer)
  deriving DecidableEq, Repr

namespace Session

def new : Session Pointer Handler :=
  ⟨.new, [], 0, [], 0⟩

/-- The object of a name. -/
def object?
    (session : Session Pointer Handler)
    (name : Nat) : Option (Object Handler) :=
  session.objects.find? (fun object => object.name == name)

/-- The object of a name, if its constructor has returned. -/
def live?
    (session : Session Pointer Handler)
    (name : Nat) : Option (Object Handler) :=
  (session.object? name).filter (fun object => object.isConstructed)

/-- The object that a running thread uses. -/
def used?
    (session : Session Pointer Handler)
    (thread name : Nat) : Option (Object Handler) :=
  if thread ∈ session.threads then session.live? name else none

/-- The next state; `none` where the action is impossible, or has no result. -/
def step
    [DecidableEq Pointer]
    (session : Session Pointer Handler) :
    Action Pointer Handler →
      Option (Response Pointer Handler × Session Pointer Handler)
  | .construct handler =>
      let (id, static) := session.static.getId
      some (⟨.object session.nextObject, []⟩, { session with
        static := static
        objects := session.objects ++ [⟨session.nextObject, id, handler, handler.isNone⟩]
        nextObject := session.nextObject + 1 })
  | .setHandler name => do
      let object ← session.object? name
      guard (!object.isConstructed)
      some (⟨.done, []⟩, { session with
        static := session.static.setHandler object.id object.handler
        objects := session.objects.map (fun other =>
          if other.name = name then { other with isConstructed := true } else other) })
  | .destroy name => do
      let object ← session.live? name
      let (calls, static) ← session.static.reclaimId object.id
      some (⟨.done, calls⟩, { session with
        static := static
        objects := session.objects.filter (fun other => other.name ≠ name) })
  | .threadStarts =>
      some (⟨.done, []⟩, { session with
        threads := session.threads ++ [session.nextThread]
        nextThread := session.nextThread + 1 })
  | .threadExits thread => do
      guard (thread ∈ session.threads)
      let (calls, static) ← session.static.onThreadExit thread
      some (⟨.done, calls⟩, { session with
        static := static
        threads := session.threads.filter (fun other => other ≠ thread) })
  | .get thread name => do
      let object ← session.used? thread name
      let (ptr, static) ← session.static.get thread object.id
      some (⟨.pointer ptr, []⟩, { session with static := static })
  | .reset thread name ptr => do
      let object ← session.used? thread name
      let static ← session.static.reset thread object.id ptr
      some (⟨.done, []⟩, { session with static := static })
  | .swap thread name ptr => do
      let object ← session.used? thread name
      let (old, static) ← session.static.swap thread object.id ptr
      some (⟨.pointer old, []⟩, { session with static := static })
  | .compareAndSwap thread name ptr expected => do
      let object ← session.used? thread name
      let (success, expected, static) ←
        session.static.compareAndSwap thread object.id ptr expected
      some (⟨.compared success expected, []⟩, { session with static := static })
  | .scrape name replacement => do
      let object ← session.live? name
      let (ptrs, static) ← session.static.scrape object.id replacement
      some (⟨.scraped ptrs, []⟩, { session with static := static })

/-- The program can take the action: the thread is running, and the object has been
constructed, or its constructor has not returned yet. -/
def Offers (session : Session Pointer Handler) : Action Pointer Handler → Prop
  | .construct _ => True
  | .setHandler name => ∃ object, session.object? name = some object ∧
      object.isConstructed = false
  | .destroy name => ∃ object, session.live? name = some object
  | .threadStarts => True
  | .threadExits thread => thread ∈ session.threads
  | .get thread name => ∃ object, session.used? thread name = some object
  | .reset thread name _ => ∃ object, session.used? thread name = some object
  | .swap thread name _ => ∃ object, session.used? thread name = some object
  | .compareAndSwap thread name _ _ => ∃ object, session.used? thread name = some object
  | .scrape name _ => ∃ object, session.live? name = some object

/-- The action does not exhaust the ids: an object is not constructed while `2 ^ 32`
of them exist, and no pointer is stored through the one with the last id. -/
def Fits (session : Session Pointer Handler) : Action Pointer Handler → Prop
  | .construct _ => session.objects.length < 2 ^ 32
  | .reset thread name _ => ∀ object ∈ session.used? thread name, object.id.toNat + 1 < 2 ^ 32
  | .swap thread name _ => ∀ object ∈ session.used? thread name, object.id.toNat + 1 < 2 ^ 32
  | .compareAndSwap thread name _ _ =>
      ∀ object ∈ session.used? thread name, object.id.toNat + 1 < 2 ^ 32
  | _ => True

instance (session : Session Pointer Handler) :
    (action : Action Pointer Handler) → Decidable (session.Fits action)
  | .construct _ => inferInstanceAs (Decidable (_ < _))
  | .reset thread name _ => inferInstanceAs (Decidable (∀ object ∈ session.used? thread name,
      object.id.toNat + 1 < 2 ^ 32))
  | .swap thread name _ => inferInstanceAs (Decidable (∀ object ∈ session.used? thread name,
      object.id.toNat + 1 < 2 ^ 32))
  | .compareAndSwap thread name _ _ => inferInstanceAs (Decidable
      (∀ object ∈ session.used? thread name, object.id.toNat + 1 < 2 ^ 32))
  | .setHandler _ => isTrue trivial
  | .destroy _ => isTrue trivial
  | .threadStarts => isTrue trivial
  | .threadExits _ => isTrue trivial
  | .get _ _ => isTrue trivial
  | .scrape _ _ => isTrue trivial

/-- Only actions that the program can take have a result. -/
theorem offers_of_step
    [DecidableEq Pointer]
    {session session' : Session Pointer Handler}
    {action : Action Pointer Handler}
    {response : Response Pointer Handler}
    (steps : session.step action = some (response, session')) :
    session.Offers action := by
  cases action with
  | construct handler => trivial
  | threadStarts => trivial
  | setHandler name =>
      obtain ⟨object, found, rest⟩ := Option.bind_eq_some_iff.mp steps
      obtain ⟨_, pending, -⟩ := Option.bind_eq_some_iff.mp rest
      refine ⟨object, found, ?_⟩
      simpa [guard] using pending
  | threadExits thread =>
      obtain ⟨_, running, -⟩ := Option.bind_eq_some_iff.mp steps
      simpa [guard, Offers] using running
  | destroy name =>
      obtain ⟨object, found, -⟩ := Option.bind_eq_some_iff.mp steps
      exact ⟨object, found⟩
  | get thread name =>
      obtain ⟨object, found, -⟩ := Option.bind_eq_some_iff.mp steps
      exact ⟨object, found⟩
  | reset thread name ptr =>
      obtain ⟨object, found, -⟩ := Option.bind_eq_some_iff.mp steps
      exact ⟨object, found⟩
  | swap thread name ptr =>
      obtain ⟨object, found, -⟩ := Option.bind_eq_some_iff.mp steps
      exact ⟨object, found⟩
  | compareAndSwap thread name ptr expected =>
      obtain ⟨object, found, -⟩ := Option.bind_eq_some_iff.mp steps
      exact ⟨object, found⟩
  | scrape name replacement =>
      obtain ⟨object, found, -⟩ := Option.bind_eq_some_iff.mp steps
      exact ⟨object, found⟩

/-- The objects after an action. -/
def objectsNext (session : Session Pointer Handler) :
    Action Pointer Handler → List (Object Handler)
  | .construct handler => session.objects ++
      [⟨session.nextObject, session.static.getId.1, handler, handler.isNone⟩]
  | .setHandler name => session.objects.map (fun other =>
      if other.name = name then { other with isConstructed := true } else other)
  | .destroy name => session.objects.filter (fun other => other.name ≠ name)
  | _ => session.objects

/-- The threads after an action. -/
def threadsNext (session : Session Pointer Handler) : Action Pointer Handler → List Nat
  | .threadStarts => session.threads ++ [session.nextThread]
  | .threadExits thread => session.threads.filter (fun other => other ≠ thread)
  | _ => session.threads

theorem of_step
    [DecidableEq Pointer]
    {session session' : Session Pointer Handler}
    {action : Action Pointer Handler}
    {response : Response Pointer Handler}
    (steps : session.step action = some (response, session')) :
    session'.objects = session.objectsNext action ∧
      session'.threads = session.threadsNext action ∧
      session'.nextObject =
        session.nextObject + (if action matches .construct _ then 1 else 0) ∧
      session'.nextThread =
        session.nextThread + (if action matches .threadStarts then 1 else 0) := by
  cases action with
  | construct handler =>
      cases steps
      exact ⟨rfl, rfl, rfl, rfl⟩
  | threadStarts =>
      cases steps
      exact ⟨rfl, rfl, rfl, rfl⟩
  | setHandler name =>
      obtain ⟨object, -, rest⟩ := Option.bind_eq_some_iff.mp steps
      obtain ⟨_, -, result⟩ := Option.bind_eq_some_iff.mp rest
      cases result
      exact ⟨rfl, rfl, rfl, rfl⟩
  | threadExits thread =>
      obtain ⟨_, -, rest⟩ := Option.bind_eq_some_iff.mp steps
      obtain ⟨_, -, result⟩ := Option.bind_eq_some_iff.mp rest
      cases result
      exact ⟨rfl, rfl, rfl, rfl⟩
  | destroy name =>
      obtain ⟨object, -, rest⟩ := Option.bind_eq_some_iff.mp steps
      obtain ⟨_, -, result⟩ := Option.bind_eq_some_iff.mp rest
      cases result
      exact ⟨rfl, rfl, rfl, rfl⟩
  | get thread name =>
      obtain ⟨object, -, rest⟩ := Option.bind_eq_some_iff.mp steps
      obtain ⟨_, -, result⟩ := Option.bind_eq_some_iff.mp rest
      cases result
      exact ⟨rfl, rfl, rfl, rfl⟩
  | reset thread name ptr =>
      obtain ⟨object, -, rest⟩ := Option.bind_eq_some_iff.mp steps
      obtain ⟨_, -, result⟩ := Option.bind_eq_some_iff.mp rest
      cases result
      exact ⟨rfl, rfl, rfl, rfl⟩
  | swap thread name ptr =>
      obtain ⟨object, -, rest⟩ := Option.bind_eq_some_iff.mp steps
      obtain ⟨_, -, result⟩ := Option.bind_eq_some_iff.mp rest
      cases result
      exact ⟨rfl, rfl, rfl, rfl⟩
  | compareAndSwap thread name ptr expected =>
      obtain ⟨object, -, rest⟩ := Option.bind_eq_some_iff.mp steps
      obtain ⟨_, -, result⟩ := Option.bind_eq_some_iff.mp rest
      cases result
      exact ⟨rfl, rfl, rfl, rfl⟩
  | scrape name replacement =>
      obtain ⟨object, -, rest⟩ := Option.bind_eq_some_iff.mp steps
      obtain ⟨_, -, result⟩ := Option.bind_eq_some_iff.mp rest
      cases result
      exact ⟨rfl, rfl, rfl, rfl⟩

/-! ## The slots of the objects -/

/-- The thread is running, or has not started yet. -/
def HasNotExited (session : Session Pointer Handler) (thread : Nat) : Prop :=
  thread ∈ session.threads ∨ session.nextThread ≤ thread

/-- The slots of the objects hold certain pointers, and everything else is unused. -/
structure Agrees
    (session : Session Pointer Handler)
    (stored : Nat → Nat → Option Pointer) : Prop where
  chained : ∃ threads, session.static.Chains threads
  ids : ∃ count ≤ 2 ^ 32, session.static.nextInstanceId = UInt32.ofNat count ∧
    (session.objects.map (fun object => object.id) ++
      session.static.freeInstanceIds).Perm ((List.range count).map UInt32.ofNat)
  names : (session.objects.map (fun object => object.name)).Nodup
  names_lt : ∀ object ∈ session.objects, object.name < session.nextObject
  threads_nodup : session.threads.Nodup
  threads_lt : ∀ thread ∈ session.threads, thread < session.nextThread
  values : ∀ object ∈ session.objects, ∀ thread, session.HasNotExited thread →
    session.static.value thread object.id = stored thread object.name
  unused : ∀ id, (∀ object ∈ session.objects, object.id ≠ id) →
    ∀ thread, session.static.value thread id = none
  handlers : ∀ object ∈ session.objects,
    session.static.getHandler object.id = object.unref
  noHandlers : ∀ id, (∀ object ∈ session.objects, object.id ≠ id) →
    session.static.getHandler id = none
  exited : ∀ thread, thread ∉ session.threads → session.static.entries thread = none

section Agreement

variable {session : Session Pointer Handler} {stored stored' : Nat → Nat → Option Pointer}

theorem agrees_new : Agrees (new : Session Pointer Handler) (fun _ _ => none) where
  chained := ⟨[], StaticMeta.chains_new⟩
  ids := ⟨0, Nat.zero_le _, rfl, .refl _⟩
  names := List.nodup_nil
  names_lt := nofun
  threads_nodup := List.nodup_nil
  threads_lt := nofun
  values := nofun
  unused := fun _ _ _ => rfl
  handlers := nofun
  noHandlers := fun _ _ => rfl
  exited := fun _ _ => rfl

theorem Agrees.ids_nodup (agrees : Agrees session stored) :
    (session.objects.map (fun object => object.id)).Nodup := by
  obtain ⟨count, short, -, perm⟩ := agrees.ids
  have nodup := perm.nodup_iff.mpr (StaticMeta.nodup_ofNat short)
  exact (List.nodup_append.mp nodup).1

theorem Agrees.eq_of_id
    (agrees : Agrees session stored)
    {object other : Object Handler}
    (isObject : object ∈ session.objects)
    (isOther : other ∈ session.objects)
    (same : object.id = other.id) :
    object = other :=
  List.inj_on_of_nodup_map agrees.ids_nodup isObject isOther same

theorem Agrees.eq_of_name
    (agrees : Agrees session stored)
    {object other : Object Handler}
    (isObject : object ∈ session.objects)
    (isOther : other ∈ session.objects)
    (same : object.name = other.name) :
    object = other :=
  List.inj_on_of_nodup_map agrees.names isObject isOther same

theorem Agrees.id_eq_iff
    (agrees : Agrees session stored)
    {object other : Object Handler}
    (isObject : object ∈ session.objects)
    (isOther : other ∈ session.objects) :
    object.id = other.id ↔ object.name = other.name := by
  constructor
  · intro same
    rw [agrees.eq_of_id isObject isOther same]
  · intro same
    rw [agrees.eq_of_name isObject isOther same]

/-- Only what is stored for the objects matters. -/
theorem Agrees.congr
    (agrees : Agrees session stored)
    (same : ∀ object ∈ session.objects, ∀ thread, session.HasNotExited thread →
      stored' thread object.name = stored thread object.name) :
    Agrees session stored' :=
  { agrees with
    values := fun object isObject thread notExited =>
      (agrees.values object isObject thread notExited).trans
        (same object isObject thread notExited).symm }

theorem of_object?
    {name : Nat}
    {object : Object Handler}
    (found : session.object? name = some object) :
    object ∈ session.objects ∧ object.name = name :=
  ⟨List.mem_of_find?_eq_some found,
    beq_iff_eq.mp (List.find?_some (p := fun object : Object Handler =>
      object.name == name) found)⟩

theorem of_live?
    {name : Nat}
    {object : Object Handler}
    (found : session.live? name = some object) :
    object ∈ session.objects ∧ object.name = name ∧ object.isConstructed = true := by
  obtain ⟨isObject, constructed⟩ := Option.filter_eq_some_iff.mp found
  obtain ⟨within, named⟩ := of_object? isObject
  exact ⟨within, named, constructed⟩

theorem of_used?
    {thread name : Nat}
    {object : Object Handler}
    (found : session.used? thread name = some object) :
    thread ∈ session.threads ∧
      object ∈ session.objects ∧ object.name = name ∧ object.isConstructed = true := by
  unfold used? at found
  split at found
  · exact ⟨‹_›, of_live? found⟩
  · cases found

/-- The singleton changes, but neither ids nor handlers do. -/
theorem Agrees.of_frame
    (agrees : Agrees session stored)
    {static : StaticMeta Pointer Handler}
    (frame : StaticMeta.Frame session.static static)
    (chained : ∃ threads, static.Chains threads)
    (values : ∀ object ∈ session.objects, ∀ thread, session.HasNotExited thread →
      static.value thread object.id = stored' thread object.name)
    (unused : ∀ id, (∀ object ∈ session.objects, object.id ≠ id) →
      ∀ thread, static.value thread id = none)
    (exited : ∀ thread, thread ∉ session.threads → static.entries thread = none) :
    Agrees { session with static := static } stored' where
  chained := chained
  ids := by
    dsimp only
    rw [frame.nextInstanceId, frame.freeInstanceIds]
    exact agrees.ids
  names := agrees.names
  names_lt := agrees.names_lt
  threads_nodup := agrees.threads_nodup
  threads_lt := agrees.threads_lt
  values := values
  unused := unused
  handlers := fun object isObject =>
    (frame.getHandler object.id).trans (agrees.handlers object isObject)
  noHandlers := fun id isUnused =>
    (frame.getHandler id).trans (agrees.noHandlers id isUnused)
  exited := exited

/-- A running thread reads the pointer that is stored. -/
theorem Agrees.get
    (agrees : Agrees session stored)
    {object : Object Handler}
    (isObject : object ∈ session.objects)
    {thread : Nat}
    (running : thread ∈ session.threads) :
    ∃ static, session.static.get thread object.id =
        some (stored thread object.name, static) ∧
      Agrees { session with static := static } stored := by
  obtain ⟨threads, chains⟩ := agrees.chained
  obtain ⟨static, threads', got, chains', frame, others, same⟩ :=
    chains.get thread object.id
  refine ⟨static, ?_, agrees.of_frame frame ⟨_, chains'⟩ ?_ ?_ ?_⟩
  · rw [got, agrees.values object isObject thread (.inl running)]
  · intro object isObject thread notExited
    rw [same]
    exact agrees.values object isObject thread notExited
  · intro id isUnused thread
    rw [same]
    exact agrees.unused id isUnused thread
  · intro other exited
    rw [others other (fun same => exited (same ▸ running))]
    exact agrees.exited other exited

/-- What is stored after a thread has stored a pointer through an object. -/
def storedAfter
    (stored : Nat → Nat → Option Pointer)
    (thread object : Nat)
    (ptr : Option Pointer) : Nat → Nat → Option Pointer :=
  fun thread' object' =>
    if thread' = thread ∧ object' = object then ptr else stored thread' object'

/-- A running thread has a slot to store a pointer in. -/
theorem Agrees.slot
    (agrees : Agrees session stored)
    {object : Object Handler}
    (isObject : object ∈ session.objects)
    {thread : Nat}
    (running : thread ∈ session.threads)
    (inRange : object.id.toNat + 1 < 2 ^ 32) :
    ∃ static, session.static.slot thread object.id =
        some (stored thread object.name, static) ∧
      Agrees { session with static := static } stored ∧
      ∀ ptr, Agrees { session with static := static.store thread object.id ptr }
        (storedAfter stored thread object.name ptr) := by
  obtain ⟨threads, chains⟩ := agrees.chained
  obtain ⟨static, threads', got, chains', frame, covers, others, same⟩ :=
    chains.slot thread inRange
  have exited (other : Nat) (hasExited : other ∉ session.threads) :
      static.entries other = none := by
    rw [others other (fun same => hasExited (same ▸ running))]
    exact agrees.exited other hasExited
  refine ⟨static, ?_, agrees.of_frame frame ⟨_, chains'⟩ ?_ ?_ exited, ?_⟩
  · rw [got, agrees.values object isObject thread (.inl running)]
  · intro object isObject thread notExited
    rw [same]
    exact agrees.values object isObject thread notExited
  · intro id isUnused thread
    rw [same]
    exact agrees.unused id isUnused thread
  · intro ptr
    refine agrees.of_frame (frame.trans (StaticMeta.frame_store ..))
      ⟨_, chains'.store thread object.id ptr⟩ ?_ ?_ ?_
    · intro other isOther thread' notExited
      rw [StaticMeta.value_store covers, storedAfter, same,
        agrees.values other isOther thread' notExited]
      simp only [agrees.id_eq_iff isOther isObject]
    · intro id isUnused thread'
      rw [StaticMeta.value_store covers, if_neg, same]
      · exact agrees.unused id isUnused thread'
      · rintro ⟨-, sameId⟩
        exact isUnused object isObject sameId.symm
    · intro other hasExited
      have sameEntries : (static.store thread object.id ptr).entries other =
          static.entries other :=
        Function.update_of_ne
          (fun isThread : other = thread => hasExited (isThread ▸ running)) _ _
      rw [sameEntries]
      exact exited other hasExited

theorem value_of_no_entries
    {static : StaticMeta Pointer Handler}
    {thread : Nat}
    (missing : static.entries thread = none)
    (id : UInt32) :
    static.value thread id = none := by
  rw [StaticMeta.value, missing]
  rfl

/-- A loop over the chain finds what is stored for the running threads. -/
theorem Agrees.pointers_perm
    (agrees : Agrees session stored)
    {object : Object Handler}
    (isObject : object ∈ session.objects)
    {threads : List Nat}
    (chains : session.static.Chains threads) :
    (threads.filterMap (fun thread => session.static.value thread object.id)).Perm
      (session.threads.filterMap (fun thread => stored thread object.name)) := by
  have same : session.threads.filterMap (fun thread => stored thread object.name) =
      session.threads.filterMap
        (fun thread => session.static.value thread object.id) := by
    apply List.filterMap_congr
    intro thread running
    exact (agrees.values object isObject thread (.inl running)).symm
  rw [same]
  refine StaticMeta.filterMap_perm chains.nodup agrees.threads_nodup ?_ ?_
  · intro thread _ hasExited
    exact value_of_no_entries (agrees.exited thread hasExited) object.id
  · intro thread _ notChained
    rw [chains.mem_iff, not_not] at notChained
    exact value_of_no_entries notChained object.id

/-- Without a slot there is nothing stored. -/
theorem Agrees.covers_or_none
    (agrees : Agrees session stored)
    {object : Object Handler}
    (isObject : object ∈ session.objects)
    {thread : Nat}
    (notExited : session.HasNotExited thread) :
    session.static.Covers thread object.id ∨ stored thread object.name = none := by
  rw [← agrees.values object isObject thread notExited]
  cases found : session.static.entries thread with
  | none => exact .inr (value_of_no_entries found object.id)
  | some entries =>
      by_cases covers : object.id.toNat < entries.length
      · exact .inl ⟨entries, found, covers⟩
      · right
        rw [StaticMeta.value_eq found, List.getElem?_eq_none (Nat.le_of_not_lt covers)]
        rfl

/-- `Scrape` takes out the pointers of an object, and stores the replacement where a
thread has a slot. -/
theorem Agrees.scrape
    (agrees : Agrees session stored)
    {object : Object Handler}
    (isObject : object ∈ session.objects)
    (replacement : Option Pointer) :
    ∃ ptrs static, session.static.scrape object.id replacement = some (ptrs, static) ∧
      ptrs.Perm (session.threads.filterMap
        (fun thread => stored thread object.name)) ∧
      Agrees { session with static := static } (fun thread name =>
        if name = object.name ∧ StaticMeta.Covers session.static thread object.id then
          replacement
        else stored thread name) := by
  obtain ⟨threads, chains⟩ := agrees.chained
  obtain ⟨static, scraped, chains', exchanged⟩ := chains.scrape object.id replacement
  have chained (thread : Nat) (covers : session.static.Covers thread object.id) :
      thread ∈ threads := by
    obtain ⟨entries, found, -⟩ := covers
    rw [chains.mem_iff, found]
    simp
  refine ⟨_, static, scraped, ?_, agrees.of_frame exchanged.frame ⟨_, chains'⟩ ?_ ?_ ?_⟩
  · exact agrees.pointers_perm isObject chains
  · intro other isOther thread notExited
    rw [exchanged.value_eq, agrees.values other isOther thread notExited]
    refine if_congr ?_ rfl rfl
    rw [agrees.id_eq_iff isOther isObject]
    exact ⟨fun all => all.2, fun both => ⟨chained thread both.2, both⟩⟩
  · intro id isUnused thread
    rw [exchanged.value_eq, if_neg]
    · exact agrees.unused id isUnused thread
    · rintro ⟨-, sameId, -⟩
      exact isUnused object isObject sameId.symm
  · intro thread hasExited
    have lengths := exchanged.lengths thread
    rw [agrees.exited thread hasExited] at lengths
    exact Option.map_eq_none_iff.mp lengths

theorem Agrees.objects_perm
    (agrees : Agrees session stored)
    {object : Object Handler}
    (isObject : object ∈ session.objects) :
    session.objects.Perm
      (object :: session.objects.filter (fun other => other.name ≠ object.name)) := by
  have nodup : session.objects.Nodup := agrees.names.of_map _
  have nodup' : (object ::
      session.objects.filter (fun other => other.name ≠ object.name)).Nodup := by
    refine List.nodup_cons.mpr ⟨?_, nodup.filter _⟩
    simp
  rw [List.perm_ext_iff_of_nodup nodup nodup']
  intro other
  simp only [List.mem_cons, List.mem_filter, decide_eq_true_iff]
  constructor
  · intro isOther
    by_cases same : other.name = object.name
    · exact .inl (agrees.eq_of_name isOther isObject same)
    · exact .inr ⟨isOther, same⟩
  · rintro (rfl | ⟨isOther, -⟩)
    · exact isObject
    · exact isOther

/-- An object is destroyed: its handler gets what is stored. -/
theorem Agrees.reclaimId
    (agrees : Agrees session stored)
    {object : Object Handler}
    (isObject : object ∈ session.objects)
    (constructed : object.isConstructed = true) :
    ∃ calls static, session.static.reclaimId object.id = some (calls, static) ∧
      calls.Perm (object.handler.toList.flatMap (fun handler =>
        (session.threads.filterMap (fun thread => stored thread object.name)).map
          (fun ptr => (handler, ptr)))) ∧
      Agrees { session with
        static := static
        objects := session.objects.filter (fun other => other.name ≠ object.name) }
        stored := by
  obtain ⟨threads, chains⟩ := agrees.chained
  obtain ⟨static, reclaimed, chains', lengths, values, handlers, next, free⟩ :=
    chains.reclaimId object.id
  have isOther (other : Object Handler)
      (within : other ∈ session.objects.filter (fun other => other.name ≠ object.name)) :
      other ∈ session.objects ∧ other.id ≠ object.id := by
    obtain ⟨isOther, named⟩ := List.mem_filter.mp within
    rw [decide_eq_true_iff, ne_eq, ← agrees.id_eq_iff isOther isObject] at named
    exact ⟨isOther, named⟩
  have isUnused (id : UInt32)
      (unused : ∀ other ∈ session.objects.filter (fun other => other.name ≠ object.name),
        other.id ≠ id)
      (notObject : id ≠ object.id) :
      ∀ other ∈ session.objects, other.id ≠ id := by
    intro other within same
    refine unused other (List.mem_filter.mpr ⟨within, ?_⟩) same
    rw [decide_eq_true_iff, ne_eq, ← agrees.id_eq_iff within isObject, same]
    exact notObject
  refine ⟨_, static, reclaimed, ?_, ⟨_, chains'⟩, ?_, ?_, ?_, agrees.threads_nodup,
    agrees.threads_lt, ?_, ?_, ?_, ?_, ?_⟩
  · rw [agrees.handlers object isObject, Object.unref, constructed, if_pos rfl]
    cases object.handler with
    | none => exact .refl _
    | some handler =>
        simpa using (agrees.pointers_perm isObject chains).map (fun ptr => (handler, ptr))
  · obtain ⟨count, short, isNext, perm⟩ := agrees.ids
    refine ⟨count, short, next.trans isNext, List.Perm.trans ?_ perm⟩
    have ids := (agrees.objects_perm isObject).map (fun object => object.id)
    rw [List.map_cons] at ids
    dsimp only
    rw [free, ← List.append_assoc]
    refine (List.perm_append_singleton object.id _).trans ?_
    exact (ids.symm.append_right session.static.freeInstanceIds)
  · exact agrees.names.sublist (List.filter_sublist.map _)
  · intro other within
    exact agrees.names_lt other (isOther other within).1
  · intro other within thread notExited
    obtain ⟨within, notObject⟩ := isOther other within
    rw [values, if_neg notObject]
    exact agrees.values other within thread notExited
  · intro id unused thread
    rw [values]
    split
    · rfl
    · exact agrees.unused id (isUnused id unused ‹_›) thread
  · intro other within
    obtain ⟨within, notObject⟩ := isOther other within
    rw [handlers, if_neg notObject]
    exact agrees.handlers other within
  · intro id unused
    rw [handlers]
    split
    · rfl
    · exact agrees.noHandlers id (isUnused id unused ‹_›)
  · intro thread hasExited
    have same := lengths thread
    rw [agrees.exited thread hasExited] at same
    exact Option.map_eq_none_iff.mp same

/-- The call that is due for an object when a thread exits. -/
def dueCall
    (stored : Nat → Nat → Option Pointer)
    (thread : Nat)
    (object : Object Handler) : Option (Handler × Pointer) := do
  let ptr ← stored thread object.name
  let handler ← object.unref
  some (handler, ptr)

/-- A thread exits: the handlers get what it has stored. -/
theorem Agrees.onThreadExit
    (agrees : Agrees session stored)
    {thread : Nat}
    (running : thread ∈ session.threads) :
    ∃ calls static, session.static.onThreadExit thread = some (calls, static) ∧
      calls.Perm (session.objects.filterMap (dueCall stored thread)) ∧
      Agrees { session with
        static := static
        threads := session.threads.filter (fun other => other ≠ thread) } stored := by
  obtain ⟨threads, chains⟩ := agrees.chained
  have unused (id : UInt32)
      (isUnused : id ∉ session.objects.map (fun object => object.id)) :
      session.static.value thread id = none := by
    refine agrees.unused id (fun object isObject same => isUnused ?_) thread
    exact List.mem_map.mpr ⟨object, isObject, same⟩
  obtain ⟨calls, static, threads', exits, perm, chains', frame, entries⟩ :=
    chains.onThreadExit thread agrees.ids_nodup unused
  have kept (other : Nat) (isOther : other ≠ thread) :
      static.entries other = session.static.entries other := by
    rw [entries, Function.update_of_ne isOther]
  have gone (id : UInt32) : static.value thread id = none := by
    apply value_of_no_entries
    rw [entries, Function.update_self]
  have notThread (other : Nat) (notExited : HasNotExited { session with
      static := static
      threads := session.threads.filter (fun other => other ≠ thread) } other) :
      other ≠ thread ∧ session.HasNotExited other := by
    rcases notExited with isRunning | isUnborn
    · obtain ⟨isRunning, isOther⟩ := List.mem_filter.mp isRunning
      exact ⟨of_decide_eq_true isOther, .inl isRunning⟩
    · refine ⟨?_, .inr isUnborn⟩
      rintro rfl
      exact absurd (agrees.threads_lt other running) (Nat.not_lt.mpr isUnborn)
  refine ⟨calls, static, exits, ?_, ⟨_, chains'⟩, ?_, agrees.names, agrees.names_lt,
    agrees.threads_nodup.filter _, ?_, ?_, ?_, ?_, ?_, ?_⟩
  · rw [List.filterMap_map] at perm
    refine perm.trans ?_
    have same : session.objects.filterMap
        (session.static.dueCall thread ∘ fun object => object.id) =
          session.objects.filterMap (dueCall stored thread) := by
      apply List.filterMap_congr
      intro object isObject
      rw [Function.comp_apply, StaticMeta.dueCall, dueCall,
        agrees.values object isObject thread (.inl running),
        agrees.handlers object isObject]
    rw [same]
  · dsimp only
    rw [frame.nextInstanceId, frame.freeInstanceIds]
    exact agrees.ids
  · intro other isRunning
    exact agrees.threads_lt other (List.mem_filter.mp isRunning).1
  · intro object isObject other notExited
    obtain ⟨isOther, notExited⟩ := notThread other notExited
    exact (StaticMeta.value_of_entries (kept other isOther) object.id).trans
      (agrees.values object isObject other notExited)
  · intro id isUnused other
    by_cases isThread : other = thread
    · rw [isThread]
      exact gone id
    · exact (StaticMeta.value_of_entries (kept other isThread) id).trans
        (agrees.unused id isUnused other)
  · intro object isObject
    exact (frame.getHandler object.id).trans (agrees.handlers object isObject)
  · intro id isUnused
    exact (frame.getHandler id).trans (agrees.noHandlers id isUnused)
  · intro other hasExited
    by_cases isThread : other = thread
    · dsimp only
      rw [isThread, entries, Function.update_self]
    · refine (kept other isThread).trans (agrees.exited other ?_)
      intro isRunning
      exact hasExited (List.mem_filter.mpr ⟨isRunning, decide_eq_true isThread⟩)

/-- A thread starts. -/
theorem Agrees.threadStarts (agrees : Agrees session stored) :
    Agrees { session with
      threads := session.threads ++ [session.nextThread]
      nextThread := session.nextThread + 1 } stored := by
  refine { agrees with threads_nodup := ?_, threads_lt := ?_, values := ?_, exited := ?_ }
  · refine List.nodup_append.mpr ⟨agrees.threads_nodup, List.nodup_singleton _, ?_⟩
    intro thread running other isNew same
    have old := agrees.threads_lt thread running
    rw [same, List.mem_singleton.mp isNew] at old
    exact Nat.lt_irrefl _ old
  · intro thread running
    dsimp only
    rcases List.mem_append.mp running with running | isNew
    · exact Nat.lt_succ_of_lt (agrees.threads_lt thread running)
    · rw [List.mem_singleton.mp isNew]
      exact Nat.lt_succ_self _
  · intro object isObject thread notExited
    refine agrees.values object isObject thread ?_
    rcases notExited with running | isUnborn
    · rcases List.mem_append.mp running with running | isNew
      · exact .inl running
      · exact .inr (Nat.le_of_eq (List.mem_singleton.mp isNew).symm)
    · exact .inr (Nat.le_of_succ_le isUnborn)
  · intro thread hasExited
    exact agrees.exited thread (fun running =>
      hasExited (List.mem_append_left _ running))

/-- A constructor sets the handler of its id. -/
theorem Agrees.setHandler
    (agrees : Agrees session stored)
    {object : Object Handler}
    (isObject : object ∈ session.objects) :
    Agrees { session with
      static := session.static.setHandler object.id object.handler
      objects := session.objects.map (fun other =>
        if other.name = object.name then { other with isConstructed := true }
        else other) } stored := by
  have names : (session.objects.map (fun other => if other.name = object.name then
      { other with isConstructed := true } else other)).map (fun object => object.name) =
        session.objects.map (fun object => object.name) := by
    rw [List.map_map]
    apply List.map_congr_left
    intro other _
    rw [Function.comp_apply]
    split <;> rfl
  have ids : (session.objects.map (fun other => if other.name = object.name then
      { other with isConstructed := true } else other)).map (fun object => object.id) =
        session.objects.map (fun object => object.id) := by
    rw [List.map_map]
    apply List.map_congr_left
    intro other _
    rw [Function.comp_apply]
    split <;> rfl
  -- An object now is one before, with the same name and the same id.
  have before (other : Object Handler)
      (within : other ∈ session.objects.map (fun other => if other.name = object.name then
        { other with isConstructed := true } else other)) :
      ∃ earlier ∈ session.objects, earlier.name = other.name ∧ earlier.id = other.id ∧
        other.handler = earlier.handler ∧
        other.isConstructed =
          (decide (earlier.name = object.name) || earlier.isConstructed) := by
    obtain ⟨earlier, isEarlier, rfl⟩ := List.mem_map.mp within
    refine ⟨earlier, isEarlier, ?_⟩
    split
    · simp [*]
    · simp [*]
  have isUnused (id : UInt32)
      (unused : ∀ other ∈ session.objects.map (fun other =>
        if other.name = object.name then { other with isConstructed := true } else other),
        other.id ≠ id) :
      ∀ other ∈ session.objects, other.id ≠ id := by
    intro other within same
    refine unused _ (List.mem_map_of_mem within) ?_
    rw [← same]
    split <;> rfl
  have handlers (id : UInt32) :
      (session.static.setHandler object.id object.handler).getHandler id =
        if id = object.id then object.handler else session.static.getHandler id := by
    rw [StaticMeta.getHandler, StaticMeta.getHandler, StaticMeta.setHandler]
    by_cases same : id = object.id
    · rw [same, if_pos rfl]
      simp
    · rw [if_neg same]
      simp [same]
  obtain ⟨threads, chains⟩ := agrees.chained
  refine ⟨⟨threads, chains.of_lengths rfl rfl (fun _ => rfl)⟩, ?_, ?_, ?_,
    agrees.threads_nodup, agrees.threads_lt, ?_, ?_, ?_, ?_, agrees.exited⟩
  · dsimp only
    rw [ids]
    exact agrees.ids
  · dsimp only
    rw [names]
    exact agrees.names
  · intro other within
    obtain ⟨earlier, isEarlier, named, -⟩ := before other within
    rw [← named]
    exact agrees.names_lt earlier isEarlier
  · intro other within thread notExited
    obtain ⟨earlier, isEarlier, named, sameId, -⟩ := before other within
    rw [← named, ← sameId]
    exact agrees.values earlier isEarlier thread notExited
  · intro id unused thread
    exact agrees.unused id (isUnused id unused) thread
  · intro other within
    obtain ⟨earlier, isEarlier, named, sameId, handler, constructed⟩ := before other within
    rw [handlers, ← sameId, Object.unref, handler, constructed]
    by_cases same : earlier.name = object.name
    · rw [agrees.eq_of_name isEarlier isObject same]
      simp
    · rw [if_neg (fun sameId => same ((agrees.id_eq_iff isEarlier isObject).mp sameId)),
        agrees.handlers earlier isEarlier, Object.unref]
      simp [same]
  · intro id unused
    rw [handlers, if_neg (fun same => isUnused id unused object isObject same.symm)]
    exact agrees.noHandlers id (isUnused id unused)

/-- `GetId` takes an id out of the free ones, or a new one. -/
theorem getId_perm
    {static : StaticMeta Pointer Handler}
    {used : List UInt32}
    (fits : used.length < 2 ^ 32)
    {count : Nat}
    (isNext : static.nextInstanceId = UInt32.ofNat count)
    (perm : (used ++ static.freeInstanceIds).Perm ((List.range count).map UInt32.ofNat))
    (short : count ≤ 2 ^ 32) :
    ∃ count' ≤ 2 ^ 32, static.getId.2.nextInstanceId = UInt32.ofNat count' ∧
      (used ++ [static.getId.1] ++ static.getId.2.freeInstanceIds).Perm
        ((List.range count').map UInt32.ofNat) := by
  unfold StaticMeta.getId
  rcases List.eq_nil_or_concat static.freeInstanceIds with none | ⟨free, id, split⟩
  · rw [none, List.append_nil] at perm
    have length := perm.length_eq
    rw [List.length_map, List.length_range] at length
    rw [none]
    refine ⟨count + 1, by omega, ?_, ?_⟩
    · dsimp only [List.getLast?_nil]
      rw [isNext, UInt32.ofNat_add]
      rfl
    · dsimp only [List.getLast?_nil]
      rw [List.append_nil, List.range_succ, List.map_append, isNext]
      exact perm.append_right _
  · rw [List.concat_eq_append] at split
    rw [split, List.getLast?_concat]
    refine ⟨count, short, isNext, List.Perm.trans ?_ perm⟩
    dsimp only
    rw [split, List.dropLast_concat, List.append_assoc]
    exact List.perm_append_comm.append_left used

theorem getId_rest (static : StaticMeta Pointer Handler) :
    static.getId.2.entries = static.entries ∧ static.getId.2.links = static.links ∧
      static.getId.2.created = static.created ∧
      static.getId.2.handlerMap = static.handlerMap := by
  unfold StaticMeta.getId
  split <;> exact ⟨rfl, rfl, rfl, rfl⟩

/-- A constructor takes an id that is not in use. -/
theorem Agrees.getId
    (agrees : Agrees session stored)
    (fits : session.objects.length < 2 ^ 32)
    (handler : Option Handler) :
    Agrees { session with
      static := session.static.getId.2
      objects := session.objects ++
        [⟨session.nextObject, session.static.getId.1, handler, handler.isNone⟩]
      nextObject := session.nextObject + 1 }
      (fun thread object => if object = session.nextObject then none
        else stored thread object) := by
  obtain ⟨threads, chains⟩ := agrees.chained
  obtain ⟨count, short, isNext, perm⟩ := agrees.ids
  obtain ⟨count', short', isNext', perm'⟩ := getId_perm
    (by rwa [List.length_map]) isNext perm short
  obtain ⟨entries, links, created, handlerMap⟩ := getId_rest session.static
  have isNew : ∀ object ∈ session.objects, object.id ≠ session.static.getId.1 := by
    have nodup := perm'.nodup_iff.mpr (StaticMeta.nodup_ofNat short')
    have apart := (List.nodup_append.mp (List.nodup_append.mp nodup).1).2.2
    intro object isObject
    exact apart object.id (List.mem_map_of_mem isObject) _ (List.mem_singleton.mpr rfl)
  have values (thread : Nat) (id : UInt32) :
      session.static.getId.2.value thread id = session.static.value thread id :=
    StaticMeta.value_of_entries (congrFun entries thread) id
  have handlers (id : UInt32) :
      session.static.getId.2.getHandler id = session.static.getHandler id := by
    rw [StaticMeta.getHandler, StaticMeta.getHandler, handlerMap]
  have older (object : Object Handler) (isObject : object ∈ session.objects) :
      object.name ≠ session.nextObject :=
    Nat.ne_of_lt (agrees.names_lt object isObject)
  refine ⟨⟨threads, chains.of_lengths links created (fun _ => by rw [entries])⟩,
    ⟨count', short', isNext', by simpa using perm'⟩, ?_, ?_, agrees.threads_nodup,
    agrees.threads_lt, ?_, ?_, ?_, ?_, ?_⟩
  · dsimp only
    rw [List.map_append]
    refine List.nodup_append.mpr ⟨agrees.names, List.nodup_singleton _, ?_⟩
    intro name isName other isOther same
    obtain ⟨object, isObject, rfl⟩ := List.mem_map.mp isName
    rw [List.map_singleton, List.mem_singleton] at isOther
    exact older object isObject (same.trans isOther)
  · intro object isObject
    rcases List.mem_append.mp isObject with isObject | isNew
    · exact Nat.lt_succ_of_lt (agrees.names_lt object isObject)
    · rw [List.mem_singleton.mp isNew]
      exact Nat.lt_succ_self _
  · intro object isObject thread notExited
    dsimp only
    rw [values]
    rcases List.mem_append.mp isObject with isObject | isLast
    · rw [if_neg (older object isObject)]
      exact agrees.values object isObject thread notExited
    · rw [List.mem_singleton.mp isLast, if_pos rfl]
      exact agrees.unused _ isNew thread
  · intro id unused thread
    dsimp only
    rw [values]
    exact agrees.unused id
      (fun object isObject => unused object (List.mem_append_left _ isObject)) thread
  · intro object isObject
    dsimp only
    rw [handlers]
    rcases List.mem_append.mp isObject with isObject | isLast
    · exact agrees.handlers object isObject
    · rw [List.mem_singleton.mp isLast, agrees.noHandlers _ isNew]
      cases handler <;> rfl
  · intro id unused
    dsimp only
    rw [handlers]
    exact agrees.noHandlers id
      (fun object isObject => unused object (List.mem_append_left _ isObject))
  · intro thread hasExited
    dsimp only
    rw [entries]
    exact agrees.exited thread hasExited

end Agreement

/-! ## What the actions are for -/

section Specification

variable [DecidableEq Pointer]

/-- What is stored after an action.  A replacement that is not null is only stored
where a thread has a slot. -/
def storedNext
    (session : Session Pointer Handler)
    (stored : Nat → Nat → Option Pointer) :
    Action Pointer Handler → Nat → Nat → Option Pointer
  | .construct _ => fun thread object =>
      if object = session.nextObject then none else stored thread object
  | .reset thread name ptr => storedAfter stored thread name ptr
  | .swap thread name ptr => storedAfter stored thread name ptr
  | .compareAndSwap thread name ptr expected =>
      if stored thread name = expected then storedAfter stored thread name ptr else stored
  | .scrape name replacement => fun thread object =>
      if object = name ∧ (replacement = none ∨ ∃ live ∈ session.live? name,
          StaticMeta.Covers session.static thread live.id) then
        replacement
      else stored thread object
  | _ => stored

/-- The calls of handlers that an action makes: a thread that exits, and an object
that is destroyed, hand in what is stored. -/
def dueCalls
    (session : Session Pointer Handler)
    (stored : Nat → Nat → Option Pointer) :
    Action Pointer Handler → List (Handler × Pointer)
  | .threadExits thread => session.objects.filterMap (dueCall stored thread)
  | .destroy name => (session.live? name).toList.flatMap (fun object =>
      object.handler.toList.flatMap (fun handler =>
        (session.threads.filterMap (fun thread => stored thread name)).map
          (fun ptr => (handler, ptr))))
  | _ => []

/-- What an action returns. -/
def Answers
    (session : Session Pointer Handler)
    (stored : Nat → Nat → Option Pointer) :
    Action Pointer Handler → Answer Pointer → Prop
  | .construct _, answer => answer = .object session.nextObject
  | .get thread name, answer => answer = .pointer (stored thread name)
  | .swap thread name _, answer => answer = .pointer (stored thread name)
  | .compareAndSwap thread name _ expected, answer =>
      answer = if stored thread name = expected then .compared true expected
        else .compared false (stored thread name)
  | .scrape name _, answer => ∃ ptrs, answer = .scraped ptrs ∧
      ptrs.Perm (session.threads.filterMap (fun thread => stored thread name))
  | _, answer => answer = .done

/-- An action that the program can take and that does not exhaust the ids has a
result, and it does what it is for. -/
theorem Agrees.step
    {session : Session Pointer Handler}
    {stored : Nat → Nat → Option Pointer}
    (agrees : Agrees session stored)
    {action : Action Pointer Handler}
    (offers : session.Offers action)
    (fits : session.Fits action) :
    ∃ response session', session.step action = some (response, session') ∧
      Answers session stored action response.answer ∧
      response.calls.Perm (dueCalls session stored action) ∧
      Agrees session' (storedNext session stored action) := by
  cases action with
  | construct handler => exact ⟨_, _, rfl, rfl, .refl _, agrees.getId fits handler⟩
  | threadStarts => exact ⟨_, _, rfl, rfl, .refl _, agrees.threadStarts⟩
  | setHandler name =>
      obtain ⟨object, found, pending⟩ := offers
      obtain ⟨isObject, rfl⟩ := of_object? found
      refine ⟨⟨.done, []⟩, _, ?_, rfl, .refl _, agrees.setHandler isObject⟩
      rw [Session.step, found]
      simp [pending]
  | destroy name =>
      obtain ⟨object, found⟩ := offers
      obtain ⟨isObject, rfl, constructed⟩ := of_live? found
      obtain ⟨calls, static, reclaimed, due, agrees'⟩ :=
        agrees.reclaimId isObject constructed
      refine ⟨⟨.done, calls⟩, _, ?_, rfl, ?_, agrees'⟩
      · rw [Session.step, found]
        simp [reclaimed]
      · rw [dueCalls, found]
        simpa using due
  | threadExits thread =>
      have running : thread ∈ session.threads := offers
      obtain ⟨calls, static, exits, due, agrees'⟩ := agrees.onThreadExit running
      refine ⟨⟨.done, calls⟩, _, ?_, rfl, due, agrees'⟩
      rw [Session.step, exits]
      simp [running]
  | get thread name =>
      obtain ⟨object, found⟩ := offers
      obtain ⟨running, isObject, rfl, -⟩ := of_used? found
      obtain ⟨static, got, agrees'⟩ := agrees.get isObject running
      refine ⟨⟨.pointer _, []⟩, _, ?_, rfl, .refl _, agrees'⟩
      rw [Session.step, found]
      simp [got]
  | reset thread name ptr =>
      obtain ⟨object, found⟩ := offers
      obtain ⟨running, isObject, rfl, -⟩ := of_used? found
      obtain ⟨static, slot, -, agrees'⟩ :=
        agrees.slot isObject running (fits object found)
      refine ⟨⟨.done, []⟩, _, ?_, rfl, .refl _, agrees' ptr⟩
      rw [Session.step, found]
      simp [StaticMeta.reset, slot]
  | swap thread name ptr =>
      obtain ⟨object, found⟩ := offers
      obtain ⟨running, isObject, rfl, -⟩ := of_used? found
      obtain ⟨static, slot, -, agrees'⟩ :=
        agrees.slot isObject running (fits object found)
      refine ⟨⟨.pointer _, []⟩, _, ?_, rfl, .refl _, agrees' ptr⟩
      rw [Session.step, found]
      simp [StaticMeta.swap, slot]
  | compareAndSwap thread name ptr expected =>
      obtain ⟨object, found⟩ := offers
      obtain ⟨running, isObject, rfl, -⟩ := of_used? found
      obtain ⟨static, slot, same, agrees'⟩ :=
        agrees.slot isObject running (fits object found)
      by_cases succeeds : stored thread object.name = expected
      · refine ⟨⟨.compared true expected, []⟩,
          { session with static := static.store thread object.id ptr }, ?_, ?_,
          .refl _, ?_⟩
        · rw [Session.step, found]
          simp [StaticMeta.compareAndSwap, slot, succeeds]
        · rw [Answers, if_pos succeeds]
        · rw [storedNext, if_pos succeeds]
          exact agrees' ptr
      · refine ⟨⟨.compared false (stored thread object.name), []⟩,
          { session with static := static }, ?_, ?_, .refl _, ?_⟩
        · rw [Session.step, found]
          simp [StaticMeta.compareAndSwap, slot, succeeds]
        · rw [Answers, if_neg succeeds]
        · rw [storedNext, if_neg succeeds]
          exact same
  | scrape name replacement =>
      obtain ⟨object, found⟩ := offers
      obtain ⟨isObject, rfl, -⟩ := of_live? found
      obtain ⟨ptrs, static, scraped, perm, agrees'⟩ :=
        agrees.scrape isObject replacement
      refine ⟨⟨.scraped ptrs, []⟩, { session with static := static }, ?_,
        ⟨ptrs, rfl, perm⟩, .refl _, ?_⟩
      · rw [Session.step, found]
        simp [scraped]
      · refine agrees'.congr ?_
        intro other isOther thread notExited
        have covered := agrees.covers_or_none isObject notExited
        simp only [storedNext, found, Option.mem_def, Option.some.injEq, exists_eq_left']
        by_cases same : other.name = object.name
        · by_cases covers : session.static.Covers thread object.id
          · rw [if_pos ⟨same, .inr covers⟩, if_pos ⟨same, covers⟩]
          · refine Eq.trans ?_ (if_neg (fun both => covers both.2)).symm
            split
            · rename_i null
              rw [same, covered.resolve_left covers, null.2.resolve_right covers]
            · rfl
        · rw [if_neg (fun both => same both.1), if_neg (fun both => same both.1)]

end Specification

/-! ## More objects than ids -/

section Exhaustion

variable [DecidableEq Pointer]

/-- The next state, without what is returned. -/
def next
    (session : Session Pointer Handler)
    (action : Action Pointer Handler) : Option (Session Pointer Handler) :=
  (session.step action).map (fun result => result.2)

/-- Take an action that does not exhaust the ids. -/
def fittingNext
    (session : Session Pointer Handler)
    (action : Action Pointer Handler) : Option (Session Pointer Handler) :=
  if session.Fits action then session.next action else none

/-- Objects without handlers, constructed one after another. -/
def constructed (session : Session Pointer Handler) (count : Nat) :
    Session Pointer Handler :=
  { session with
    static := { session.static with
      nextInstanceId := session.static.nextInstanceId + UInt32.ofNat count }
    objects := session.objects ++ (List.range count).map (fun index =>
      ⟨session.nextObject + index, session.static.nextInstanceId + UInt32.ofNat index,
        none, true⟩)
    nextObject := session.nextObject + count }

theorem run_construct
    (session : Session Pointer Handler)
    (noFree : session.static.freeInstanceIds = [])
    (count : Nat) :
    Machine.run next session (List.replicate count (.construct none)) =
      some (session.constructed count) := by
  induction count with
  | zero =>
      have same : session.constructed 0 = session := by
        unfold constructed
        simp
      rw [same]
      rfl
  | succ count inductionHypothesis =>
      rw [List.replicate_succ', Machine.run_append, inductionHypothesis, Option.bind_some]
      have free : (session.constructed count).static.freeInstanceIds = [] := noFree
      have taken : (session.constructed count).static.getId =
          (session.static.nextInstanceId + UInt32.ofNat count,
            (session.constructed (count + 1)).static) := by
        rw [StaticMeta.getId, free]
        simp only [List.getLast?_nil, constructed, UInt32.ofNat_add, UInt32.add_assoc,
          noFree]
        rfl
      have steps : (session.constructed count).step (.construct none) =
          some (⟨.object (session.nextObject + count), []⟩,
            session.constructed (count + 1)) := by
        rw [Session.step, taken]
        simp only [constructed, List.range_succ, List.map_append, List.map_singleton,
          List.append_assoc, Option.isNone_none, Nat.add_assoc]
      refine Machine.run_cons.mpr ⟨_, ?_, rfl⟩
      rw [next, steps]
      rfl

end Exhaustion

end Session
end ThreadLocal
end RocksUtil
