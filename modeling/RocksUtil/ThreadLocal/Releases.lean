import RocksUtil.ThreadLocal.Sessions

/-!
# Handlers run exactly once

Every pointer that is stored gets a ticket, and the ledger of a session keeps what has
become of it: it is still stored, it was overwritten, it was handed out by `Swap` or
`Scrape`, it was released to a handler, or it was dropped because the object has none.
The ledger is written next to the session and never read by it.
-/

namespace RocksUtil
namespace ThreadLocal

variable {Pointer Handler : Type}

/-- A pointer that is stored. -/
structure Holding (Pointer : Type) where
  thread : Nat
  object : Nat
  ticket : Nat
  ptr : Pointer
  deriving DecidableEq, Repr

/-- A pointer that was handed to a handler. -/
structure Release (Pointer Handler : Type) where
  ticket : Nat
  handler : Handler
  ptr : Pointer
  deriving DecidableEq, Repr

/-- A session and what has become of the pointers. -/
structure Ledger (Pointer Handler : Type) where
  session : Session Pointer Handler
  /-- The handlers of all objects, by name. -/
  handlers : List (Option Handler)
  /-- Who has stored a pointer through which object, by ticket. -/
  stores : List (Nat × Nat × Pointer)
  held : List (Holding Pointer)
  overwritten : List Nat
  handedOut : List Nat
  released : List (Release Pointer Handler)
  dropped : List Nat
  /-- The calls of handlers that were made. -/
  calls : List (Handler × Pointer)

namespace Ledger

def new : Ledger Pointer Handler :=
  ⟨.new, [], [], [], [], [], [], [], []⟩

/-- The handler of an object. -/
def handlerOf (ledger : Ledger Pointer Handler) (object : Nat) : Option Handler :=
  (ledger.handlers[object]?).join

/-- The holding is that of a slot. -/
def isAt (thread object : Nat) (holding : Holding Pointer) : Bool :=
  holding.thread == thread && holding.object == object

/-- What is stored in a slot. -/
def stored (ledger : Ledger Pointer Handler) (thread object : Nat) : Option Pointer :=
  (ledger.held.find? (isAt thread object)).map (fun holding => holding.ptr)

/-- Store a pointer, unless it is null. -/
def put
    (ledger : Ledger Pointer Handler)
    (thread object : Nat) : Option Pointer → Ledger Pointer Handler
  | none => ledger
  | some ptr =>
      { ledger with
        stores := ledger.stores ++ [(thread, object, ptr)]
        held := ledger.held ++ [⟨thread, object, ledger.stores.length, ptr⟩] }

/-- Take pointers out of their slots. -/
def takeOut
    (ledger : Ledger Pointer Handler)
    (which : Holding Pointer → Bool) : Ledger Pointer Handler :=
  { ledger with held := ledger.held.filter (fun holding => !which holding) }

/-- Pointers are overwritten. -/
def overwrite
    (ledger : Ledger Pointer Handler)
    (which : Holding Pointer → Bool) : Ledger Pointer Handler :=
  { ledger.takeOut which with
    overwritten := ledger.overwritten ++
      (ledger.held.filter which).map (fun holding => holding.ticket) }

/-- Pointers are returned to the caller. -/
def handOut
    (ledger : Ledger Pointer Handler)
    (which : Holding Pointer → Bool) : Ledger Pointer Handler :=
  { ledger.takeOut which with
    handedOut := ledger.handedOut ++
      (ledger.held.filter which).map (fun holding => holding.ticket) }

/-- The release of a pointer, if its object has a handler. -/
def releaseOf
    (ledger : Ledger Pointer Handler)
    (holding : Holding Pointer) : Option (Release Pointer Handler) :=
  (ledger.handlerOf holding.object).map (fun handler =>
    ⟨holding.ticket, handler, holding.ptr⟩)

/-- Pointers are released to the handlers of their objects, or dropped. -/
def release
    (ledger : Ledger Pointer Handler)
    (which : Holding Pointer → Bool) : Ledger Pointer Handler :=
  { ledger.takeOut which with
    released := ledger.released ++ (ledger.held.filter which).filterMap ledger.releaseOf
    dropped := ledger.dropped ++ ((ledger.held.filter which).filter (fun holding =>
      (ledger.handlerOf holding.object).isNone)).map (fun holding => holding.ticket) }

/-- The threads that have a slot for an object. -/
def covering (ledger : Ledger Pointer Handler) (name : Nat) : List Nat :=
  ledger.session.threads.filter (fun thread => ∃ object ∈ ledger.session.live? name,
    StaticMeta.Covers ledger.session.static thread object.id)

/-- The entries for an action that has returned an answer. -/
def enter
    (ledger : Ledger Pointer Handler) :
    Action Pointer Handler → Answer Pointer → Ledger Pointer Handler
  | .construct handler, _ =>
      { ledger with handlers := ledger.handlers ++ [handler] }
  | .reset thread name ptr, _ =>
      (ledger.overwrite (isAt thread name)).put thread name ptr
  | .swap thread name ptr, _ =>
      (ledger.handOut (isAt thread name)).put thread name ptr
  | .compareAndSwap thread name ptr _, .compared true _ =>
      (ledger.overwrite (isAt thread name)).put thread name ptr
  | .scrape name replacement, _ =>
      (ledger.covering name).foldl (fun ledger thread =>
        ledger.put thread name replacement)
        (ledger.handOut (fun holding => holding.object == name))
  | .destroy name, _ => ledger.release (fun holding => holding.object == name)
  | .threadExits thread, _ => ledger.release (fun holding => holding.thread == thread)
  | _, _ => ledger

/-- Take an action, and enter it. -/
def step
    [DecidableEq Pointer]
    (ledger : Ledger Pointer Handler)
    (action : Action Pointer Handler) : Option (Ledger Pointer Handler) :=
  (ledger.session.step action).map (fun (response, session) =>
    { ledger.enter action response.answer with
      session := session
      calls := ledger.calls ++ response.calls })

/-- Take an action that does not exhaust the ids. -/
def fittingStep
    [DecidableEq Pointer]
    (ledger : Ledger Pointer Handler)
    (action : Action Pointer Handler) : Option (Ledger Pointer Handler) :=
  if ledger.session.Fits action then ledger.step action else none

/-! ## The entries are right -/

/-- The account of the pointers. -/
structure Entries (ledger : Ledger Pointer Handler) : Prop where
  keys : (ledger.held.map (fun holding => (holding.thread, holding.object))).Nodup
  known : ∀ holding ∈ ledger.held, holding.object < ledger.handlers.length
  tickets : ∀ holding ∈ ledger.held, ledger.stores[holding.ticket]? =
    some (holding.thread, holding.object, holding.ptr)
  /-- Every pointer that was stored is in one place, and only once. -/
  once : (ledger.held.map (fun holding => holding.ticket) ++ ledger.overwritten ++
      ledger.handedOut ++ ledger.released.map (fun release => release.ticket) ++
      ledger.dropped).Perm (List.range ledger.stores.length)
  /-- A pointer is released to the handler of the object it was stored through. -/
  released_right : ∀ release ∈ ledger.released, ∃ thread object,
    ledger.stores[release.ticket]? = some (thread, object, release.ptr) ∧
      ledger.handlers[object]? = some (some release.handler)
  /-- A pointer is dropped when the object it was stored through has no handler. -/
  dropped_right : ∀ ticket ∈ ledger.dropped, ∃ thread object ptr,
    ledger.stores[ticket]? = some (thread, object, ptr) ∧
      ledger.handlers[object]? = some none

section Entry

variable {ledger : Ledger Pointer Handler}

theorem isAt_iff {thread object : Nat} {holding : Holding Pointer} :
    isAt thread object holding = true ↔
      holding.thread = thread ∧ holding.object = object := by
  rw [isAt, Bool.and_eq_true_iff, beq_iff_eq, beq_iff_eq]

theorem stored_eq_none_iff {thread object : Nat} :
    ledger.stored thread object = none ↔
      ∀ holding ∈ ledger.held, ¬(holding.thread = thread ∧ holding.object = object) := by
  rw [stored, Option.map_eq_none_iff, List.find?_eq_none]
  simp only [isAt_iff]

theorem stored_of_held
    (entries : Entries ledger)
    {holding : Holding Pointer}
    (isHeld : holding ∈ ledger.held) :
    ledger.stored holding.thread holding.object = some holding.ptr := by
  have here : isAt holding.thread holding.object holding = true := isAt_iff.mpr ⟨rfl, rfl⟩
  cases found : ledger.held.find? (isAt holding.thread holding.object) with
  | none => exact absurd here (by simpa using List.find?_eq_none.mp found holding isHeld)
  | some other =>
      have isOther := List.mem_of_find?_eq_some found
      have same := isAt_iff.mp (List.find?_some found)
      have equal : other = holding :=
        List.inj_on_of_nodup_map entries.keys isOther isHeld (Prod.ext same.1 same.2)
      rw [stored, found, equal]
      rfl

/-- Slots that are emptied, and slots that are not. -/
theorem stored_takeOut
    {which : Holding Pointer → Bool}
    (emptied : Nat → Nat → Bool)
    (slots : ∀ holding, which holding = emptied holding.thread holding.object)
    (thread object : Nat) :
    (ledger.takeOut which).stored thread object =
      if emptied thread object then none else ledger.stored thread object := by
  unfold stored takeOut
  rw [List.find?_filter]
  split
  · rename_i isEmptied
    rw [Option.map_eq_none_iff, List.find?_eq_none]
    intro holding _
    rw [slots]
    by_cases here : isAt thread object holding = true
    · obtain ⟨rfl, rfl⟩ := isAt_iff.mp here
      simp [isEmptied]
    · simp [here]
  · rename_i kept
    congr 1
    have same : (fun holding => decide ((!which holding) = true ∧
        isAt thread object holding = true)) = isAt thread object := by
      funext holding
      rw [slots]
      by_cases here : isAt thread object holding = true
      · obtain ⟨rfl, rfl⟩ := isAt_iff.mp here
        simp [kept]
      · simp [here]
    rw [same]

theorem stored_put
    {thread object : Nat}
    (isEmpty : ledger.stored thread object = none)
    (ptr : Option Pointer)
    (thread' object' : Nat) :
    (ledger.put thread object ptr).stored thread' object' =
      if thread' = thread ∧ object' = object then ptr
      else ledger.stored thread' object' := by
  cases ptr with
  | none =>
      split
      · rename_i here
        rw [here.1, here.2]
        exact isEmpty
      · rfl
  | some ptr =>
      unfold put stored
      rw [List.find?_append, Option.map_or]
      by_cases here : thread' = thread ∧ object' = object
      · rw [if_pos here, here.1, here.2]
        have nothing : Option.map (fun holding => holding.ptr)
          (ledger.held.find? (isAt thread object)) = none := isEmpty
        rw [nothing]
        simp [isAt]
      · rw [if_neg here]
        have notHere : isAt thread' object'
            (⟨thread, object, ledger.stores.length, ptr⟩ : Holding Pointer) = false := by
          rw [Bool.eq_false_iff, ne_eq, isAt_iff]
          rintro ⟨rfl, rfl⟩
          exact here ⟨rfl, rfl⟩
        simp [notHere]

/-- Taking pointers out of their slots leaves the others. -/
theorem Entries.once_takeOut
    (entries : Entries ledger)
    (which : Holding Pointer → Bool) :
    ((ledger.held.filter (fun holding => !which holding)).map
        (fun holding => holding.ticket) ++
      (ledger.held.filter which).map (fun holding => holding.ticket) ++
      (ledger.overwritten ++ ledger.handedOut ++
        ledger.released.map (fun release => release.ticket) ++ ledger.dropped)).Perm
      (List.range ledger.stores.length) := by
  have parts := (List.filter_append_perm which ledger.held).map
    (fun holding => holding.ticket)
  have once := entries.once
  rw [List.map_append] at parts
  rw [List.perm_iff_count] at parts once ⊢
  intro ticket
  have part := parts ticket
  have all := once ticket
  simp only [List.count_append] at part all ⊢
  omega

theorem Entries.overwrite
    (entries : Entries ledger)
    (which : Holding Pointer → Bool) :
    Entries (ledger.overwrite which) where
  keys := entries.keys.sublist (List.filter_sublist.map _)
  known := fun holding isHeld => entries.known holding (List.mem_filter.mp isHeld).1
  tickets := fun holding isHeld => entries.tickets holding (List.mem_filter.mp isHeld).1
  once := by
    refine List.Perm.trans ?_ (entries.once_takeOut which)
    rw [List.perm_iff_count]
    intro ticket
    simp only [Ledger.overwrite, takeOut, List.count_append]
    omega
  released_right := entries.released_right
  dropped_right := entries.dropped_right

theorem Entries.handOut
    (entries : Entries ledger)
    (which : Holding Pointer → Bool) :
    Entries (ledger.handOut which) where
  keys := entries.keys.sublist (List.filter_sublist.map _)
  known := fun holding isHeld => entries.known holding (List.mem_filter.mp isHeld).1
  tickets := fun holding isHeld => entries.tickets holding (List.mem_filter.mp isHeld).1
  once := by
    refine List.Perm.trans ?_ (entries.once_takeOut which)
    rw [List.perm_iff_count]
    intro ticket
    simp only [Ledger.handOut, takeOut, List.count_append]
    omega
  released_right := entries.released_right
  dropped_right := entries.dropped_right

/-- The handler of an object that is known. -/
theorem handlerOf_eq
    {object : Nat}
    (known : object < ledger.handlers.length) :
    ledger.handlers[object]? = some (ledger.handlerOf object) := by
  rw [handlerOf, List.getElem?_eq_getElem known]
  rfl

/-- A pointer that leaves is released or dropped. -/
theorem released_or_dropped
    (ledger : Ledger Pointer Handler)
    (leaving : List (Holding Pointer)) :
    ((leaving.filterMap ledger.releaseOf).map (fun release => release.ticket) ++
      (leaving.filter (fun holding => (ledger.handlerOf holding.object).isNone)).map
        (fun holding => holding.ticket)).Perm
      (leaving.map (fun holding => holding.ticket)) := by
  induction leaving with
  | nil => exact .refl _
  | cons holding leaving inductionHypothesis =>
      cases isHandler : ledger.handlerOf holding.object with
      | none =>
          simp only [List.filterMap_cons, releaseOf, isHandler, Option.map_none,
            List.filter_cons, Option.isNone_none, if_true, List.map_cons]
          exact List.perm_middle.trans (inductionHypothesis.cons _)
      | some handler =>
          simp only [List.filterMap_cons, releaseOf, isHandler, Option.map_some,
            List.filter_cons, Option.isNone_some, Bool.false_eq_true, if_false,
            List.map_cons, List.cons_append]
          exact inductionHypothesis.cons _

theorem Entries.release
    (entries : Entries ledger)
    (which : Holding Pointer → Bool) :
    Entries (ledger.release which) where
  keys := entries.keys.sublist (List.filter_sublist.map _)
  known := fun holding isHeld => entries.known holding (List.mem_filter.mp isHeld).1
  tickets := fun holding isHeld => entries.tickets holding (List.mem_filter.mp isHeld).1
  once := by
    refine List.Perm.trans ?_ (entries.once_takeOut which)
    have leaving := released_or_dropped ledger (ledger.held.filter which)
    rw [List.perm_iff_count] at leaving ⊢
    intro ticket
    have left := leaving ticket
    simp only [Ledger.release, takeOut, List.map_append, List.count_append] at left ⊢
    omega
  released_right := by
    intro release isReleased
    rcases List.mem_append.mp isReleased with isReleased | isNew
    · exact entries.released_right release isReleased
    · obtain ⟨holding, isLeaving, isRelease⟩ := List.mem_filterMap.mp isNew
      obtain ⟨handler, isHandler, rfl⟩ := Option.map_eq_some_iff.mp isRelease
      have isHeld := (List.mem_filter.mp isLeaving).1
      refine ⟨holding.thread, holding.object, entries.tickets holding isHeld, ?_⟩
      rw [← isHandler]
      exact handlerOf_eq (entries.known holding isHeld)
  dropped_right := by
    intro ticket isDropped
    rcases List.mem_append.mp isDropped with isDropped | isNew
    · exact entries.dropped_right ticket isDropped
    · obtain ⟨holding, isLeaving, rfl⟩ := List.mem_map.mp isNew
      obtain ⟨isLeaving, noHandler⟩ := List.mem_filter.mp isLeaving
      have isHeld := (List.mem_filter.mp isLeaving).1
      refine ⟨holding.thread, holding.object, holding.ptr, entries.tickets holding isHeld, ?_⟩
      rw [← Option.isNone_iff_eq_none.mp noHandler]
      exact handlerOf_eq (entries.known holding isHeld)

theorem Entries.put
    (entries : Entries ledger)
    {thread object : Nat}
    (isEmpty : ledger.stored thread object = none)
    (known : object < ledger.handlers.length)
    (ptr : Option Pointer) :
    Entries (ledger.put thread object ptr) := by
  cases ptr with
  | none => exact entries
  | some ptr =>
      have grows {ticket : Nat} {store : Nat × Nat × Pointer}
          (found : ledger.stores[ticket]? = some store) :
          (ledger.stores ++ [(thread, object, ptr)])[ticket]? = some store := by
        rw [List.getElem?_append_left (List.getElem?_eq_some_iff.mp found).1]
        exact found
      refine ⟨?_, ?_, ?_, ?_, ?_, ?_⟩
      · unfold Ledger.put
        dsimp only
        rw [List.map_append]
        refine List.nodup_append.mpr ⟨entries.keys, List.nodup_singleton _, ?_⟩
        intro key isKey other isOther same
        obtain ⟨holding, isHeld, rfl⟩ := List.mem_map.mp isKey
        rw [List.map_singleton, List.mem_singleton] at isOther
        have slot := same.trans isOther
        exact stored_eq_none_iff.mp isEmpty holding isHeld
          ⟨congrArg Prod.fst slot, congrArg Prod.snd slot⟩
      · intro holding isHeld
        rcases List.mem_append.mp isHeld with isHeld | isNew
        · exact entries.known holding isHeld
        · rw [List.mem_singleton.mp isNew]
          exact known
      · intro holding isHeld
        rcases List.mem_append.mp isHeld with isHeld | isNew
        · exact grows (entries.tickets holding isHeld)
        · rw [List.mem_singleton.mp isNew]
          exact List.getElem?_concat_length
      · unfold Ledger.put
        dsimp only
        rw [List.length_append, List.length_singleton, List.range_succ, List.map_append]
        refine List.Perm.trans ?_ (entries.once.append_right [ledger.stores.length])
        simp only [List.append_assoc]
        apply List.Perm.append_left
        refine List.perm_append_comm.trans ?_
        simp only [List.append_assoc]
        exact .refl _
      · intro release isReleased
        obtain ⟨thread', object', isStore, isHandler⟩ :=
          entries.released_right release isReleased
        exact ⟨thread', object', grows isStore, isHandler⟩
      · intro ticket isDropped
        obtain ⟨thread', object', ptr', isStore, noHandler⟩ :=
          entries.dropped_right ticket isDropped
        exact ⟨thread', object', ptr', grows isStore, noHandler⟩

end Entry

/-! ## Every step keeps the account -/

/-- The account of the pointers of a session: the slots hold what the ledger says, and
the calls of handlers are the releases. -/
structure Balanced (ledger : Ledger Pointer Handler) : Prop where
  entries : Entries ledger
  agrees : ledger.session.Agrees ledger.stored
  /-- What is stored is that of a running thread and an object that exists: nothing
  is left when one of them goes. -/
  running : ∀ holding ∈ ledger.held, holding.thread ∈ ledger.session.threads
  live : ∀ holding ∈ ledger.held, ∃ object ∈ ledger.session.objects,
    object.name = holding.object ∧ object.isConstructed = true
  handlers : ∀ object ∈ ledger.session.objects,
    ledger.handlers[object.name]? = some object.handler
  length : ledger.handlers.length = ledger.session.nextObject
  calls_perm : ledger.calls.Perm
    (ledger.released.map (fun release => (release.handler, release.ptr)))

theorem balanced_new : Balanced (new : Ledger Pointer Handler) where
  entries :=
    { keys := List.nodup_nil
      known := nofun
      tickets := nofun
      once := .refl _
      released_right := nofun
      dropped_right := nofun }
  agrees := Session.agrees_new
  running := nofun
  live := nofun
  handlers := nofun
  length := rfl
  calls_perm := .refl _

section Calls

variable {ledger : Ledger Pointer Handler}

theorem Balanced.handlerOf
    (balanced : Balanced ledger)
    {object : Object Handler}
    (isObject : object ∈ ledger.session.objects) :
    ledger.handlerOf object.name = object.handler := by
  rw [Ledger.handlerOf, balanced.handlers object isObject]
  rfl

/-- The calls for pointers that leave. -/
def callsFor
    (ledger : Ledger Pointer Handler)
    (leaving : List (Holding Pointer)) : List (Handler × Pointer) :=
  (leaving.filterMap ledger.releaseOf).map (fun release => (release.handler, release.ptr))

/-- The call for the pointer in a slot. -/
def slotCall
    (ledger : Ledger Pointer Handler)
    (thread object : Nat) : Option (Handler × Pointer) := do
  let ptr ← ledger.stored thread object
  let handler ← ledger.handlerOf object
  some (handler, ptr)

theorem callsFor_eq
    (balanced : Balanced ledger)
    (which : Holding Pointer → Bool) :
    ledger.callsFor (ledger.held.filter which) =
      (ledger.held.filter which).filterMap (fun holding =>
        ledger.slotCall holding.thread holding.object) := by
  rw [callsFor, List.map_filterMap]
  apply List.filterMap_congr
  intro holding isLeaving
  have isHeld := (List.mem_filter.mp isLeaving).1
  rw [slotCall, stored_of_held balanced.entries isHeld, releaseOf]
  cases ledger.handlerOf holding.object <;> rfl

theorem slotCall_of_empty
    {thread object : Nat}
    (isEmpty : ledger.stored thread object = none) :
    ledger.slotCall thread object = none := by
  rw [slotCall, isEmpty]
  rfl

/-- When a thread exits, the calls are made for what it has stored. -/
theorem Balanced.calls_exit
    (balanced : Balanced ledger)
    (thread : Nat) :
    (ledger.session.objects.filterMap (Session.dueCall ledger.stored thread)).Perm
      (ledger.callsFor (ledger.held.filter (fun holding => holding.thread == thread))) := by
  have byName : ledger.session.objects.filterMap (Session.dueCall ledger.stored thread) =
      (ledger.session.objects.map (fun object => object.name)).filterMap
        (ledger.slotCall thread) := by
    rw [List.filterMap_map]
    apply List.filterMap_congr
    intro object isObject
    rw [Function.comp_apply, Session.dueCall, slotCall, balanced.handlerOf isObject]
    cases isStored : ledger.stored thread object.name with
    | none => rfl
    | some ptr =>
        have constructed : object.isConstructed = true := by
          by_contra pending
          have nothing : ledger.stored thread object.name = none := by
            rw [stored_eq_none_iff]
            rintro holding isHeld ⟨-, isAt⟩
            obtain ⟨other, isOther, named, constructed⟩ := balanced.live holding isHeld
            rw [balanced.agrees.eq_of_name isOther isObject (named.trans isAt)]
              at constructed
            exact pending constructed
          rw [nothing] at isStored
          cases isStored
        rw [Object.unref, if_pos constructed]
  have bySlot : ledger.callsFor
      (ledger.held.filter (fun holding => holding.thread == thread)) =
        ((ledger.held.filter (fun holding => holding.thread == thread)).map
          (fun holding => holding.object)).filterMap (ledger.slotCall thread) := by
    rw [callsFor_eq balanced, List.filterMap_map]
    apply List.filterMap_congr
    intro holding isLeaving
    rw [Function.comp_apply, beq_iff_eq.mp (List.mem_filter.mp isLeaving).2]
  have slots : ((ledger.held.filter (fun holding => holding.thread == thread)).map
      (fun holding => holding.object)).Nodup := by
    refine List.Nodup.map_on ?_ ((List.Nodup.of_map _ balanced.entries.keys).filter _)
    intro first isFirst second isSecond same
    obtain ⟨isFirst, firstThread⟩ := List.mem_filter.mp isFirst
    obtain ⟨isSecond, secondThread⟩ := List.mem_filter.mp isSecond
    refine List.inj_on_of_nodup_map balanced.entries.keys isFirst isSecond
      (Prod.ext ?_ same)
    exact (beq_iff_eq.mp firstThread).trans (beq_iff_eq.mp secondThread).symm
  rw [byName, bySlot]
  refine StaticMeta.filterMap_perm balanced.agrees.names slots ?_ ?_
  · intro object _ notHeld
    apply slotCall_of_empty
    rw [stored_eq_none_iff]
    rintro holding isHeld ⟨isThread, isObject⟩
    refine notHeld (List.mem_map.mpr ⟨holding, ?_, isObject⟩)
    exact List.mem_filter.mpr ⟨isHeld, beq_iff_eq.mpr isThread⟩
  · intro name isHeld notObject
    obtain ⟨holding, isLeaving, rfl⟩ := List.mem_map.mp isHeld
    obtain ⟨object, isObject, named, -⟩ :=
      balanced.live holding (List.mem_filter.mp isLeaving).1
    exact absurd (List.mem_map.mpr ⟨object, isObject, named⟩) notObject

/-- When an object is destroyed, the calls are made for what is stored through it. -/
theorem Balanced.calls_destroy
    (balanced : Balanced ledger)
    {object : Object Handler}
    (isObject : object ∈ ledger.session.objects) :
    (object.handler.toList.flatMap (fun handler =>
      (ledger.session.threads.filterMap (fun thread =>
        ledger.stored thread object.name)).map (fun ptr => (handler, ptr)))).Perm
      (ledger.callsFor
        (ledger.held.filter (fun holding => holding.object == object.name))) := by
  have byThread : object.handler.toList.flatMap (fun handler =>
      (ledger.session.threads.filterMap (fun thread =>
        ledger.stored thread object.name)).map (fun ptr => (handler, ptr))) =
        ledger.session.threads.filterMap
          (fun thread => ledger.slotCall thread object.name) := by
    have same (thread : Nat) : ledger.slotCall thread object.name =
        (ledger.stored thread object.name).bind (fun ptr =>
          object.handler.map (fun handler => (handler, ptr))) := by
      rw [slotCall, balanced.handlerOf isObject]
      cases ledger.stored thread object.name <;> cases object.handler <;> rfl
    simp only [same]
    cases object.handler with
    | none => simp
    | some handler =>
        simp only [Option.toList_some, List.flatMap_singleton, List.map_filterMap,
          Option.map_some]
        apply List.filterMap_congr
        intro thread _
        cases ledger.stored thread object.name <;> rfl
  have bySlot : ledger.callsFor
      (ledger.held.filter (fun holding => holding.object == object.name)) =
        ((ledger.held.filter (fun holding => holding.object == object.name)).map
          (fun holding => holding.thread)).filterMap
            (fun thread => ledger.slotCall thread object.name) := by
    rw [callsFor_eq balanced, List.filterMap_map]
    apply List.filterMap_congr
    intro holding isLeaving
    rw [Function.comp_apply, beq_iff_eq.mp (List.mem_filter.mp isLeaving).2]
  have slots : ((ledger.held.filter (fun holding => holding.object == object.name)).map
      (fun holding => holding.thread)).Nodup := by
    refine List.Nodup.map_on ?_ ((List.Nodup.of_map _ balanced.entries.keys).filter _)
    intro first isFirst second isSecond same
    obtain ⟨isFirst, firstObject⟩ := List.mem_filter.mp isFirst
    obtain ⟨isSecond, secondObject⟩ := List.mem_filter.mp isSecond
    refine List.inj_on_of_nodup_map balanced.entries.keys isFirst isSecond
      (Prod.ext same ?_)
    exact (beq_iff_eq.mp firstObject).trans (beq_iff_eq.mp secondObject).symm
  rw [byThread, bySlot]
  refine StaticMeta.filterMap_perm balanced.agrees.threads_nodup slots ?_ ?_
  · intro thread _ notHeld
    apply slotCall_of_empty
    rw [stored_eq_none_iff]
    rintro holding isHeld ⟨isThread, isObject⟩
    refine notHeld (List.mem_map.mpr ⟨holding, ?_, isThread⟩)
    exact List.mem_filter.mpr ⟨isHeld, beq_iff_eq.mpr isObject⟩
  · intro thread isHeld notRunning
    obtain ⟨holding, isLeaving, rfl⟩ := List.mem_map.mp isHeld
    exact absurd (balanced.running holding (List.mem_filter.mp isLeaving).1) notRunning

end Calls

section Steps

variable {ledger : Ledger Pointer Handler}

theorem put_eq
    (ledger : Ledger Pointer Handler)
    (thread object : Nat)
    (ptr : Option Pointer) :
    ∃ stores held, ledger.put thread object ptr =
        { ledger with stores := stores, held := held } ∧
      ∀ holding ∈ held, holding ∈ ledger.held ∨
        holding.thread = thread ∧ holding.object = object := by
  cases ptr with
  | none => exact ⟨_, _, rfl, fun _ isHeld => .inl isHeld⟩
  | some ptr =>
      refine ⟨_, _, rfl, ?_⟩
      intro holding isHeld
      rcases List.mem_append.mp isHeld with isHeld | isNew
      · exact .inl isHeld
      · rw [List.mem_singleton.mp isNew]
        exact .inr ⟨rfl, rfl⟩

/-- Pointers that are put into empty slots of one object. -/
theorem putAll_spec
    {name : Nat}
    {threads : List Nat}
    (nodup : threads.Nodup)
    (isEmpty : ∀ thread ∈ threads, ledger.stored thread name = none)
    (entries : Entries ledger)
    (known : name < ledger.handlers.length)
    (ptr : Option Pointer) :
    Entries (threads.foldl (fun ledger thread => ledger.put thread name ptr) ledger) ∧
      (∀ thread object,
        (threads.foldl (fun ledger thread => ledger.put thread name ptr) ledger).stored
            thread object =
          if thread ∈ threads ∧ object = name then ptr
          else ledger.stored thread object) ∧
      ∃ stores held,
        threads.foldl (fun ledger thread => ledger.put thread name ptr) ledger =
            { ledger with stores := stores, held := held } ∧
          ∀ holding ∈ held, holding ∈ ledger.held ∨
            holding.thread ∈ threads ∧ holding.object = name := by
  induction threads generalizing ledger with
  | nil =>
      refine ⟨entries, ?_, _, _, rfl, fun _ isHeld => .inl isHeld⟩
      intro thread object
      simp
  | cons thread threads inductionHypothesis =>
      obtain ⟨isNew, nodup⟩ := List.nodup_cons.mp nodup
      have here := isEmpty thread List.mem_cons_self
      obtain ⟨stores, held, isPut, holdings⟩ := put_eq ledger thread name ptr
      have isEmpty' : ∀ other ∈ threads,
          (ledger.put thread name ptr).stored other name = none := by
        intro other isOther
        rw [stored_put here, if_neg]
        · exact isEmpty other (List.mem_cons_of_mem _ isOther)
        · rintro ⟨rfl, -⟩
          exact isNew isOther
      have known' : name < (ledger.put thread name ptr).handlers.length := by
        rw [isPut]
        exact known
      obtain ⟨entries', stored, stores', held', same, holdings'⟩ :=
        inductionHypothesis nodup isEmpty' (entries.put here known ptr) known'
      refine ⟨entries', ?_, stores', held', ?_, ?_⟩
      · intro other object
        rw [List.foldl_cons, stored, stored_put here]
        by_cases isThread : other = thread
        · rw [if_neg (fun both => isNew (isThread ▸ both.1))]
          simp [isThread]
        · simp [isThread]
      · rw [List.foldl_cons, same, isPut]
      · intro holding isHeld
        rcases holdings' holding isHeld with isHeld | ⟨isThread, isObject⟩
        · rw [isPut] at isHeld
          rcases holdings holding isHeld with isHeld | ⟨isThread, isObject⟩
          · exact .inl isHeld
          · exact .inr ⟨isThread ▸ List.mem_cons_self, isObject⟩
        · exact .inr ⟨List.mem_cons_of_mem _ isThread, isObject⟩

/-- A step that changes slots, but neither objects nor threads. -/
theorem Balanced.of_slots
    (balanced : Balanced ledger)
    {ledger' : Ledger Pointer Handler}
    {session : Session Pointer Handler}
    (objects : session.objects = ledger.session.objects)
    (threads : session.threads = ledger.session.threads)
    (nextObject : session.nextObject = ledger.session.nextObject)
    (handlers : ledger'.handlers = ledger.handlers)
    (released : ledger'.released = ledger.released)
    (entries : Entries ledger')
    (agrees : session.Agrees ledger'.stored)
    (holdings : ∀ holding ∈ ledger'.held, holding ∈ ledger.held ∨
      holding.thread ∈ ledger.session.threads ∧
        ∃ object ∈ ledger.session.objects,
          object.name = holding.object ∧ object.isConstructed = true) :
    Balanced { ledger' with session := session, calls := ledger.calls ++ [] } where
  entries := { entries with }
  agrees := agrees
  running := by
    intro holding isHeld
    dsimp only
    rw [threads]
    rcases holdings holding isHeld with isHeld | ⟨running, -⟩
    · exact balanced.running holding isHeld
    · exact running
  live := by
    intro holding isHeld
    dsimp only
    rw [objects]
    rcases holdings holding isHeld with isHeld | ⟨-, live⟩
    · exact balanced.live holding isHeld
    · exact live
  handlers := by
    dsimp only
    rw [objects, handlers]
    exact balanced.handlers
  length := by
    dsimp only
    rw [handlers, nextObject]
    exact balanced.length
  calls_perm := by
    dsimp only
    rw [released, List.append_nil]
    exact balanced.calls_perm

theorem stored_handOut
    (ledger : Ledger Pointer Handler)
    (which : Holding Pointer → Bool) :
    (ledger.handOut which).stored = (ledger.takeOut which).stored :=
  rfl

/-- A slot that is emptied. -/
theorem stored_takeOut_isAt
    (ledger : Ledger Pointer Handler)
    (thread object : Nat)
    (thread' object' : Nat) :
    (ledger.takeOut (isAt thread object)).stored thread' object' =
      if thread' = thread ∧ object' = object then none
      else ledger.stored thread' object' := by
  rw [stored_takeOut (fun thread' object' =>
    decide (thread' = thread ∧ object' = object))]
  · simp
  · intro holding
    rw [Bool.eq_iff_iff, isAt_iff, decide_eq_true_iff]

/-- A running thread stores through an object, after the slot was emptied. -/
theorem Balanced.store
    (balanced : Balanced ledger)
    {ledger' : Ledger Pointer Handler}
    {thread : Nat}
    {object : Object Handler}
    (found : ledger.session.used? thread object.name = some object)
    (entries : Entries ledger')
    (handlers : ledger'.handlers = ledger.handlers)
    (released : ledger'.released = ledger.released)
    (held : ledger'.held = (ledger.takeOut (isAt thread object.name)).held)
    {ptr : Option Pointer}
    {session : Session Pointer Handler}
    (objects : session.objects = ledger.session.objects)
    (threads : session.threads = ledger.session.threads)
    (nextObject : session.nextObject = ledger.session.nextObject)
    (agrees : session.Agrees
      (Session.storedAfter ledger.stored thread object.name ptr)) :
    Balanced { ledger'.put thread object.name ptr with
      session := session
      calls := ledger.calls ++ [] } := by
  obtain ⟨running, isObject, -, constructed⟩ := Session.of_used? found
  have stored : ledger'.stored = (ledger.takeOut (isAt thread object.name)).stored := by
    funext thread' object'
    rw [Ledger.stored, Ledger.stored, held]
  have isEmpty : ledger'.stored thread object.name = none := by
    rw [stored, stored_takeOut_isAt, if_pos ⟨rfl, rfl⟩]
  have known : object.name < ledger'.handlers.length := by
    rw [handlers, balanced.length]
    exact balanced.agrees.names_lt object isObject
  obtain ⟨stores, held', isPut, holdings⟩ := put_eq ledger' thread object.name ptr
  refine balanced.of_slots objects threads nextObject ?_ ?_
    (entries.put isEmpty known ptr) ?_ ?_
  · rw [isPut]
    exact handlers
  · rw [isPut]
    exact released
  · refine agrees.congr ?_
    intro other _ thread' _
    rw [stored_put isEmpty, Session.storedAfter, stored, stored_takeOut_isAt]
    split <;> rfl
  · intro holding isHeld
    rw [isPut] at isHeld
    rcases holdings holding isHeld with isHeld | ⟨isThread, named⟩
    · rw [held] at isHeld
      exact .inl (List.mem_filter.mp isHeld).1
    · exact .inr ⟨isThread ▸ running, object, isObject, named.symm, constructed⟩

/-- The replacement is stored wherever a thread has a slot. -/
theorem Balanced.scrape
    (balanced : Balanced ledger)
    {object : Object Handler}
    (found : ledger.session.live? object.name = some object)
    {replacement : Option Pointer}
    {session : Session Pointer Handler}
    (objects : session.objects = ledger.session.objects)
    (threads : session.threads = ledger.session.threads)
    (nextObject : session.nextObject = ledger.session.nextObject)
    (nextThread : session.nextThread = ledger.session.nextThread)
    (agrees : session.Agrees (fun thread name =>
      if name = object.name ∧ (replacement = none ∨
          StaticMeta.Covers ledger.session.static thread object.id) then
        replacement
      else ledger.stored thread name)) :
    Balanced { (ledger.covering object.name).foldl (fun ledger thread =>
        ledger.put thread object.name replacement)
        (ledger.handOut (fun holding => holding.object == object.name)) with
      session := session
      calls := ledger.calls ++ [] } := by
  obtain ⟨isObject, -, constructed⟩ := Session.of_live? found
  have isCovering (thread : Nat) : thread ∈ ledger.covering object.name ↔
      thread ∈ ledger.session.threads ∧
        StaticMeta.Covers ledger.session.static thread object.id := by
    unfold covering
    rw [List.mem_filter, found]
    simp
  have emptied (thread name : Nat) :
      (ledger.handOut (fun holding => holding.object == object.name)).stored thread name =
        if name = object.name then none else ledger.stored thread name := by
    rw [stored_handOut, stored_takeOut (fun _ name => name == object.name) (fun _ => rfl)]
    simp only [beq_iff_eq]
  have isEmpty : ∀ thread ∈ ledger.covering object.name,
      (ledger.handOut (fun holding => holding.object == object.name)).stored thread
        object.name = none := by
    intro thread _
    rw [emptied, if_pos rfl]
  have known : object.name < (ledger.handOut (fun holding =>
      holding.object == object.name)).handlers.length := by
    change object.name < ledger.handlers.length
    rw [balanced.length]
    exact balanced.agrees.names_lt object isObject
  have nodup : (ledger.covering object.name).Nodup :=
    balanced.agrees.threads_nodup.filter _
  obtain ⟨entries, stored, stores, held, same, holdings⟩ := putAll_spec nodup isEmpty
    (balanced.entries.handOut _) known replacement
  rw [same] at entries stored ⊢
  refine balanced.of_slots objects threads nextObject rfl rfl entries ?_ ?_
  · refine agrees.congr ?_
    intro other _ thread notExited
    have notExited : ledger.session.HasNotExited thread := by
      unfold Session.HasNotExited at notExited ⊢
      rwa [threads, nextThread] at notExited
    rw [stored, emptied]
    by_cases same : other.name = object.name
    · by_cases covers : StaticMeta.Covers ledger.session.static thread object.id
      · have running : thread ∈ ledger.session.threads := by
          by_contra hasExited
          obtain ⟨entries, found, -⟩ := covers
          rw [balanced.agrees.exited thread hasExited] at found
          cases found
        rw [if_pos ⟨(isCovering thread).mpr ⟨running, covers⟩, same⟩,
          if_pos ⟨same, .inr covers⟩]
      · have nothing :=
          (balanced.agrees.covers_or_none isObject notExited).resolve_left covers
        rw [if_neg (fun both => covers ((isCovering thread).mp both.1).2), if_pos same,
          same, nothing]
        split
        · rename_i null
          exact (null.2.resolve_right covers).symm
        · rfl
    · rw [if_neg (fun both => same both.2), if_neg same, if_neg (fun both => same both.1)]
  · intro holding isHeld
    rcases holdings holding isHeld with isHeld | ⟨isThread, named⟩
    · exact .inl (List.mem_filter.mp isHeld).1
    · exact .inr ⟨((isCovering _).mp isThread).1, object, isObject, named.symm, constructed⟩

/-- What leaves with a thread or an object is released or dropped. -/
theorem Balanced.release
    (balanced : Balanced ledger)
    {which : Holding Pointer → Bool}
    {calls : List (Handler × Pointer)}
    (isCalls : calls.Perm (ledger.callsFor (ledger.held.filter which)))
    {session : Session Pointer Handler}
    (agrees : session.Agrees (ledger.takeOut which).stored)
    (running : ∀ holding ∈ ledger.held, which holding = false →
      holding.thread ∈ session.threads)
    (live : ∀ holding ∈ ledger.held, which holding = false →
      ∃ object ∈ session.objects, object.name = holding.object ∧
        object.isConstructed = true)
    (objects : ∀ object ∈ session.objects, object ∈ ledger.session.objects)
    (nextObject : session.nextObject = ledger.session.nextObject) :
    Balanced { ledger.release which with
      session := session
      calls := ledger.calls ++ calls } where
  entries := { balanced.entries.release which with }
  agrees := agrees
  running := by
    intro holding isHeld
    obtain ⟨isHeld, stays⟩ := List.mem_filter.mp isHeld
    exact running holding isHeld (by simpa using stays)
  live := by
    intro holding isHeld
    obtain ⟨isHeld, stays⟩ := List.mem_filter.mp isHeld
    exact live holding isHeld (by simpa using stays)
  handlers := fun object isObject => balanced.handlers object (objects object isObject)
  length := balanced.length.trans nextObject.symm
  calls_perm := by
    change (ledger.calls ++ calls).Perm ((ledger.released ++
      (ledger.held.filter which).filterMap ledger.releaseOf).map _)
    rw [List.map_append]
    exact balanced.calls_perm.append isCalls

/-- An object is constructed. -/
theorem Balanced.construct
    (balanced : Balanced ledger)
    {id : UInt32}
    {handler : Option Handler}
    {session : Session Pointer Handler}
    (objects : session.objects = ledger.session.objects ++
      [⟨ledger.session.nextObject, id, handler, handler.isNone⟩])
    (threads : session.threads = ledger.session.threads)
    (nextObject : session.nextObject = ledger.session.nextObject + 1)
    (agrees : session.Agrees (fun thread object =>
      if object = ledger.session.nextObject then none else ledger.stored thread object)) :
    Balanced { ledger with
      session := session
      handlers := ledger.handlers ++ [handler]
      calls := ledger.calls ++ [] } := by
  have grows {name : Nat} {known : Option Handler}
      (found : ledger.handlers[name]? = some known) :
      (ledger.handlers ++ [handler])[name]? = some known := by
    rw [List.getElem?_append_left (List.getElem?_eq_some_iff.mp found).1]
    exact found
  refine ⟨{ balanced.entries with known := ?_, released_right := ?_, dropped_right := ?_ },
    ?_, ?_, ?_, ?_, ?_, ?_⟩
  · intro holding isHeld
    exact Nat.lt_of_lt_of_le (balanced.entries.known holding isHeld) (by simp)
  · intro release isReleased
    obtain ⟨thread, object, isStore, isHandler⟩ :=
      balanced.entries.released_right release isReleased
    exact ⟨thread, object, isStore, grows isHandler⟩
  · intro ticket isDropped
    obtain ⟨thread, object, ptr, isStore, noHandler⟩ :=
      balanced.entries.dropped_right ticket isDropped
    exact ⟨thread, object, ptr, isStore, grows noHandler⟩
  · refine agrees.congr ?_
    intro object _ thread _
    split
    · rename_i isNew
      rw [isNew]
      refine stored_eq_none_iff.mpr ?_
      rintro holding isHeld ⟨-, isNew⟩
      have known := balanced.entries.known holding isHeld
      rw [balanced.length, isNew] at known
      exact Nat.lt_irrefl _ known
    · rfl
  · dsimp only
    rw [threads]
    exact balanced.running
  · intro holding isHeld
    obtain ⟨object, isObject, rest⟩ := balanced.live holding isHeld
    refine ⟨object, ?_, rest⟩
    dsimp only
    rw [objects]
    exact List.mem_append_left _ isObject
  · intro object isObject
    dsimp only at isObject ⊢
    rw [objects] at isObject
    rcases List.mem_append.mp isObject with isObject | isNew
    · exact grows (balanced.handlers object isObject)
    · rw [List.mem_singleton.mp isNew, ← balanced.length]
      exact List.getElem?_concat_length
  · dsimp only
    rw [List.length_append, List.length_singleton, balanced.length, nextObject]
  · rw [List.append_nil]
    exact balanced.calls_perm

/-- A step that neither stores nor releases: objects and threads are kept, and objects
may be marked as constructed. -/
theorem Balanced.of_session
    (balanced : Balanced ledger)
    {session : Session Pointer Handler}
    (agrees : session.Agrees ledger.stored)
    (threads : ∀ thread ∈ ledger.session.threads, thread ∈ session.threads)
    (live : ∀ object ∈ ledger.session.objects, object.isConstructed = true →
      ∃ later ∈ session.objects,
        later.name = object.name ∧ later.isConstructed = true)
    (objects : ∀ object ∈ session.objects, ∃ earlier ∈ ledger.session.objects,
      earlier.name = object.name ∧ earlier.handler = object.handler)
    (nextObject : session.nextObject = ledger.session.nextObject) :
    Balanced { ledger with session := session, calls := ledger.calls ++ [] } where
  entries := { balanced.entries with }
  agrees := agrees
  running := fun holding isHeld => threads _ (balanced.running holding isHeld)
  live := by
    intro holding isHeld
    obtain ⟨object, isObject, named, constructed⟩ := balanced.live holding isHeld
    obtain ⟨later, isLater, same, constructed⟩ := live object isObject constructed
    exact ⟨later, isLater, same.trans named, constructed⟩
  handlers := by
    intro object isObject
    obtain ⟨earlier, isEarlier, named, handler⟩ := objects object isObject
    rw [← named, ← handler]
    exact balanced.handlers earlier isEarlier
  length := balanced.length.trans nextObject.symm
  calls_perm := by
    rw [List.append_nil]
    exact balanced.calls_perm

/-- The handler of an object is made known, which completes its construction. -/
theorem Balanced.setHandler
    (balanced : Balanced ledger)
    {name : Nat}
    {session : Session Pointer Handler}
    (objects : session.objects = ledger.session.objects.map (fun object =>
      if object.name = name then { object with isConstructed := true } else object))
    (threads : session.threads = ledger.session.threads)
    (nextObject : session.nextObject = ledger.session.nextObject)
    (agrees : session.Agrees ledger.stored) :
    Balanced { ledger with session := session, calls := ledger.calls ++ [] } := by
  refine balanced.of_session agrees (fun _ running => threads ▸ running) ?_ ?_ nextObject
  · intro object isObject constructed
    rw [objects]
    refine ⟨_, List.mem_map_of_mem isObject, ?_⟩
    split
    · exact ⟨rfl, rfl⟩
    · exact ⟨rfl, constructed⟩
  · intro object isObject
    rw [objects] at isObject
    obtain ⟨earlier, isEarlier, rfl⟩ := List.mem_map.mp isObject
    refine ⟨earlier, isEarlier, ?_⟩
    split <;> exact ⟨rfl, rfl⟩

/-- What is stored through an object leaves with it. -/
theorem Balanced.destroy
    (balanced : Balanced ledger)
    {object : Object Handler}
    (found : ledger.session.live? object.name = some object)
    {calls : List (Handler × Pointer)}
    (due : calls.Perm (ledger.session.dueCalls ledger.stored (.destroy object.name)))
    {session : Session Pointer Handler}
    (objects : session.objects =
      ledger.session.objects.filter (fun other => other.name ≠ object.name))
    (threads : session.threads = ledger.session.threads)
    (nextObject : session.nextObject = ledger.session.nextObject)
    (agrees : session.Agrees ledger.stored) :
    Balanced { ledger.release (fun holding => holding.object == object.name) with
      session := session
      calls := ledger.calls ++ calls } := by
  obtain ⟨isObject, -, -⟩ := Session.of_live? found
  refine balanced.release ?_ ?_ ?_ ?_ ?_ nextObject
  · refine due.trans ?_
    rw [Session.dueCalls, found]
    simpa using balanced.calls_destroy isObject
  · refine agrees.congr ?_
    intro other isOther thread _
    rw [objects] at isOther
    have notObject := of_decide_eq_true (List.mem_filter.mp isOther).2
    rw [stored_takeOut (fun _ name => name == object.name) (fun _ => rfl),
      if_neg (by simpa using notObject)]
  · intro holding isHeld _
    rw [threads]
    exact balanced.running holding isHeld
  · intro holding isHeld stays
    obtain ⟨other, isOther, named, constructed⟩ := balanced.live holding isHeld
    refine ⟨other, ?_, named, constructed⟩
    rw [objects]
    refine List.mem_filter.mpr ⟨isOther, decide_eq_true ?_⟩
    rw [named]
    exact beq_eq_false_iff_ne.mp stays
  · intro other isOther
    rw [objects] at isOther
    exact (List.mem_filter.mp isOther).1

/-- What a thread has stored leaves with it. -/
theorem Balanced.threadExits
    (balanced : Balanced ledger)
    {thread : Nat}
    (running : thread ∈ ledger.session.threads)
    {calls : List (Handler × Pointer)}
    (due : calls.Perm (ledger.session.dueCalls ledger.stored (.threadExits thread)))
    {session : Session Pointer Handler}
    (objects : session.objects = ledger.session.objects)
    (threads : session.threads =
      ledger.session.threads.filter (fun other => other ≠ thread))
    (nextObject : session.nextObject = ledger.session.nextObject)
    (nextThread : session.nextThread = ledger.session.nextThread)
    (agrees : session.Agrees ledger.stored) :
    Balanced { ledger.release (fun holding => holding.thread == thread) with
      session := session
      calls := ledger.calls ++ calls } := by
  refine balanced.release (due.trans (balanced.calls_exit thread)) ?_ ?_ ?_ ?_ nextObject
  · refine agrees.congr ?_
    intro other _ thread' notExited
    have notThread : thread' ≠ thread := by
      rintro rfl
      rcases notExited with isRunning | isUnborn
      · rw [threads] at isRunning
        exact absurd rfl (of_decide_eq_true (List.mem_filter.mp isRunning).2)
      · rw [nextThread] at isUnborn
        exact absurd (balanced.agrees.threads_lt _ running) (Nat.not_lt.mpr isUnborn)
    rw [stored_takeOut (fun thread' _ => thread' == thread) (fun _ => rfl),
      if_neg (by simpa using notThread)]
  · intro holding isHeld stays
    rw [threads]
    refine List.mem_filter.mpr ⟨balanced.running holding isHeld, decide_eq_true ?_⟩
    exact beq_eq_false_iff_ne.mp stays
  · intro holding isHeld _
    rw [objects]
    exact balanced.live holding isHeld
  · intro other isOther
    rw [objects] at isOther
    exact isOther

/-- The pointer is stored if the slot holds what is expected. -/
theorem Balanced.compareAndSwap
    [DecidableEq Pointer]
    (balanced : Balanced ledger)
    {thread : Nat}
    {object : Object Handler}
    (found : ledger.session.used? thread object.name = some object)
    {ptr expected : Option Pointer}
    {answer : Answer Pointer}
    (answers : ledger.session.Answers ledger.stored
      (.compareAndSwap thread object.name ptr expected) answer)
    {session : Session Pointer Handler}
    (objects : session.objects = ledger.session.objects)
    (threads : session.threads = ledger.session.threads)
    (nextObject : session.nextObject = ledger.session.nextObject)
    (agrees : session.Agrees (ledger.session.storedNext ledger.stored
      (.compareAndSwap thread object.name ptr expected))) :
    Balanced { ledger.enter (.compareAndSwap thread object.name ptr expected) answer with
      session := session
      calls := ledger.calls ++ [] } := by
  rw [Session.Answers] at answers
  rw [Session.storedNext] at agrees
  by_cases succeeds : ledger.stored thread object.name = expected
  · rw [if_pos succeeds] at answers agrees
    rw [answers]
    exact balanced.store found (balanced.entries.overwrite _) rfl rfl rfl objects
      threads nextObject agrees
  · rw [if_neg succeeds] at answers agrees
    rw [answers]
    exact balanced.of_slots objects threads nextObject rfl rfl balanced.entries agrees
      (fun _ isHeld => .inl isHeld)

/-- An action that the program can take and that does not exhaust the ids has a
result, and the account stays right. -/
theorem Balanced.step
    [DecidableEq Pointer]
    (balanced : Balanced ledger)
    {action : Action Pointer Handler}
    (offers : ledger.session.Offers action)
    (fits : ledger.session.Fits action) :
    ∃ next, ledger.step action = some next ∧ Balanced next := by
  obtain ⟨response, session, steps, answers, calls, agrees⟩ :=
    balanced.agrees.step offers fits
  obtain ⟨objects, threads, nextObject, nextThread⟩ := Session.of_step steps
  refine ⟨{ ledger.enter action response.answer with
    session := session
    calls := ledger.calls ++ response.calls }, by rw [Ledger.step, steps]; rfl, ?_⟩
  cases action with
  | construct handler =>
      rw [calls.eq_nil]
      exact balanced.construct objects threads nextObject agrees
  | setHandler name =>
      rw [calls.eq_nil]
      exact balanced.setHandler objects threads nextObject agrees
  | destroy name =>
      obtain ⟨object, found⟩ := offers
      obtain ⟨-, rfl, -⟩ := Session.of_live? found
      exact balanced.destroy found calls objects threads nextObject agrees
  | threadStarts =>
      rw [calls.eq_nil]
      refine balanced.of_session agrees ?_ ?_ ?_ nextObject
      · intro thread running
        rw [threads]
        exact List.mem_append_left _ running
      · intro object isObject constructed
        rw [objects]
        exact ⟨object, isObject, rfl, constructed⟩
      · intro object isObject
        rw [objects] at isObject
        exact ⟨object, isObject, rfl, rfl⟩
  | threadExits thread =>
      exact balanced.threadExits offers calls objects threads nextObject nextThread agrees
  | get thread name =>
      rw [calls.eq_nil]
      exact balanced.of_slots objects threads nextObject rfl rfl balanced.entries agrees
        (fun _ isHeld => .inl isHeld)
  | reset thread name ptr =>
      obtain ⟨object, found⟩ := offers
      obtain ⟨-, -, rfl, -⟩ := Session.of_used? found
      rw [calls.eq_nil]
      exact balanced.store found (balanced.entries.overwrite _) rfl rfl rfl objects threads
        nextObject agrees
  | swap thread name ptr =>
      obtain ⟨object, found⟩ := offers
      obtain ⟨-, -, rfl, -⟩ := Session.of_used? found
      rw [calls.eq_nil]
      exact balanced.store found (balanced.entries.handOut _) rfl rfl rfl objects threads
        nextObject agrees
  | compareAndSwap thread name ptr expected =>
      obtain ⟨object, found⟩ := offers
      obtain ⟨-, -, rfl, -⟩ := Session.of_used? found
      rw [calls.eq_nil]
      exact balanced.compareAndSwap found answers objects threads nextObject agrees
  | scrape name replacement =>
      obtain ⟨object, found⟩ := offers
      obtain ⟨-, rfl, -⟩ := Session.of_live? found
      rw [calls.eq_nil]
      refine balanced.scrape found objects threads nextObject nextThread ?_
      refine agrees.congr ?_
      intro other _ thread _
      simp [Session.storedNext, found]

end Steps

/-! ## Runs -/

section Runs

variable [DecidableEq Pointer]

/-- The ledger does not change what the session does. -/
theorem session_fittingStep
    (ledger : Ledger Pointer Handler)
    (action : Action Pointer Handler) :
    (ledger.fittingStep action).map session = ledger.session.fittingNext action := by
  unfold fittingStep Session.fittingNext step Session.next
  split
  · rw [Option.map_map]
    rfl
  · rfl

theorem of_fittingStep
    {ledger ledger' : Ledger Pointer Handler}
    {action : Action Pointer Handler}
    (steps : ledger.fittingStep action = some ledger') :
    ledger.session.Offers action ∧ ledger.session.Fits action ∧
      ledger.step action = some ledger' := by
  unfold fittingStep at steps
  split at steps
  · obtain ⟨⟨response, session⟩, stepped, -⟩ := Option.map_eq_some_iff.mp steps
    exact ⟨Session.offers_of_step stepped, ‹_›, steps⟩
  · cases steps

/-- In every run that does not exhaust the ids, every pointer that was stored is still
stored, or was overwritten, handed out, released to the handler of its object or, where
that has none, dropped, and that once; the handlers are called for the pointers that
are released and for nothing else.  When a thread exits or an object is destroyed, that
is the case for all that is stored. -/
theorem released_once
    {actions : List (Action Pointer Handler)}
    {session : Session Pointer Handler}
    (runs : Machine.run Session.fittingNext .new actions = some session) :
    ∃ ledger, Machine.run fittingStep new actions = some ledger ∧
      ledger.session = session ∧
      Balanced ledger ∧
      ∀ action, session.Offers action → session.Fits action →
        ∃ response session', session.step action = some (response, session') ∧
          response.calls.Perm (session.dueCalls ledger.stored action) := by
  obtain ⟨ledger, kept, rfl⟩ : ∃ ledger, Machine.run fittingStep new actions =
      some ledger ∧ ledger.session = session := by
    have erased := Machine.run_map session_fittingStep new actions
    exact Option.map_eq_some_iff.mp (erased.trans runs)
  have balanced : Balanced ledger := by
    refine Machine.run_preserves Balanced ?_ kept balanced_new
    intro before action after balanced steps
    obtain ⟨offers, fits, stepped⟩ := of_fittingStep steps
    obtain ⟨next, stepped', balanced'⟩ := balanced.step offers fits
    rw [stepped] at stepped'
    cases stepped'
    exact balanced'
  refine ⟨ledger, kept, rfl, balanced, ?_⟩
  intro action offers fits
  obtain ⟨response, session', steps, -, calls, -⟩ := balanced.agrees.step offers fits
  exact ⟨response, session', steps, calls⟩

end Runs

/-- A thread stores through an object with a handler, and exits. -/
theorem released_once_sample :
    ∃ session : Session Nat Nat,
      Machine.run Session.fittingNext .new
          [.threadStarts, .construct (some 7), .setHandler 0, .reset 0 0 (some 5),
            .threadExits 0] = some session ∧
        ∃ ledger, ledger.session = session ∧ Balanced ledger := by
  have defined : (Machine.run Session.fittingNext (.new : Session Nat Nat)
      [.threadStarts, .construct (some 7), .setHandler 0, .reset 0 0 (some 5),
        .threadExits 0]).isSome = true := by
    decide
  obtain ⟨session, runs⟩ := Option.isSome_iff_exists.mp defined
  obtain ⟨ledger, -, isSession, balanced, -⟩ := released_once runs
  exact ⟨session, runs, ledger, isSession, balanced⟩

/-! ## A handler of another object -/

/-- A pointer is stored through an object with a handler. -/
def oneStored : Session Nat Nat :=
  (Machine.run Session.next .new
    [.threadStarts, .construct (some 7), .setHandler 0, .reset 0 0 (some 5)]).getD .new

theorem objects_oneStored (count : Nat) :
    (oneStored.constructed count).objects =
      ⟨0, 0, some 7, true⟩ :: (List.range count).map (fun index =>
        ⟨1 + index, 1 + UInt32.ofNat index, none, true⟩) :=
  rfl

/-- The last of the further objects. -/
theorem live?_oneStored (count : Nat) :
    (oneStored.constructed (count + 1)).live? (count + 1) =
      some ⟨count + 1, 1 + UInt32.ofNat count, none, true⟩ := by
  have index : (List.range (count + 1)).find? (fun index => 1 + index == count + 1) =
      some count := by
    rw [List.find?_range_eq_some]
    refine ⟨beq_iff_eq.mpr (Nat.add_comm 1 count), List.mem_range.mpr (by omega), ?_⟩
    intro earlier isEarlier
    simp only [Bool.not_eq_true', beq_eq_false_iff_ne]
    omega
  rw [Session.live?, Session.object?, objects_oneStored,
    List.find?_cons_of_neg (by simp), List.find?_map]
  have composed : ((fun object : Object Nat => object.name == count + 1) ∘ fun index =>
      (⟨1 + index, 1 + UInt32.ofNat index, none, true⟩ : Object Nat)) =
        fun index => 1 + index == count + 1 := rfl
  rw [composed, index]
  simp [Nat.add_comm]

theorem destroy_oneStored
    {count name : Nat}
    {object : Object Nat}
    (found : (oneStored.constructed count).live? name = some object)
    (isFirst : object.id = 0) :
    ∃ session', (oneStored.constructed count).step (.destroy name) =
      some (⟨.done, [(7, 5)]⟩, session') := by
  have reclaimed : ∃ static, (oneStored.constructed count).static.reclaimId 0 =
      some ([(7, 5)], static) := ⟨_, rfl⟩
  obtain ⟨static, reclaimed⟩ := reclaimed
  rw [Session.step, found, Option.bind_eq_bind, Option.bind_some, isFirst, reclaimed]
  exact ⟨_, rfl⟩

/-- After `2 ^ 32` further objects, the last of which has no handler, the destruction
of that one calls the handler of the first object, which is still there. -/
theorem handler_of_another :
    ∃ session : Session Nat Nat,
      Machine.run Session.next .new
          ([.threadStarts, .construct (some 7), .setHandler 0, .reset 0 0 (some 5)] ++
            List.replicate (2 ^ 32) (.construct none)) = some session ∧
        session.live? 0 = some ⟨0, 0, some 7, true⟩ ∧
        session.live? (2 ^ 32) = some ⟨2 ^ 32, 0, none, true⟩ ∧
        ∃ session', session.step (.destroy (2 ^ 32)) =
          some (⟨.done, [(7, 5)]⟩, session') := by
  have first : Machine.run Session.next (.new : Session Nat Nat)
      [.threadStarts, .construct (some 7), .setHandler 0, .reset 0 0 (some 5)] =
        some oneStored := rfl
  have runs (count : Nat) : Machine.run Session.next oneStored
      (List.replicate count (.construct none)) = some (oneStored.constructed count) :=
    Session.run_construct oneStored rfl count
  have stays (count : Nat) : (oneStored.constructed count).live? 0 =
      some ⟨0, 0, some 7, true⟩ := rfl
  have wraps : 1 + UInt32.ofNat (2 ^ 32 - 1) = 0 := by decide
  have isLast (count : Nat) (isCount : count = 2 ^ 32 - 1 + 1) :
      (oneStored.constructed count).live? count = some ⟨count, 0, none, true⟩ := by
    rw [isCount, live?_oneStored, wraps]
  have last := isLast (2 ^ 32) (by omega)
  refine ⟨oneStored.constructed (2 ^ 32), ?_, ?_, last, destroy_oneStored last rfl⟩
  · rw [Machine.run_append, first, Option.bind_some]
    exact runs (2 ^ 32)
  · exact stays (2 ^ 32)

end Ledger
end ThreadLocal
end RocksUtil
