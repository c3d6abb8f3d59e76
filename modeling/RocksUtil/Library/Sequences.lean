import Mathlib.Logic.Function.Basic
import RocksUtil.Library.Machine

/-!
# Families of sequences

A container holds items in order and is changed by a few operations.  A family of
containers, one for each name, takes one operation after another.  The ordinary container
is a list; what a growing `resize` adds to it is open.  Containers that do with every
operation what a list does, for some choice of the items that are added, go along with
lists through every run.
-/

namespace Sequences

variable {Name Item State : Type*}

/-- The operations on a family of containers. -/
inductive Operation (Name Item : Type*)
  | pushBack (name : Name) (item : Item)
  | popBack (name : Name)
  | resize (name : Name) (count : Nat)
  | clear (name : Name)
  | assign (name other : Name)
  | store (name : Name) (index : Nat) (item : Item)

/-- What the operations do to a container.  Those that may be impossible have an optional
result. -/
structure Container (State Item : Type*) where
  pushBack : State → Item → State
  popBack : State → Option State
  resize : State → Nat → State
  clear : State → State
  assign : State → State → State
  store : State → Nat → Item → Option State

/-- One operation on a family.  A container is assigned from another one. -/
def Container.step
    [DecidableEq Name]
    (container : Container State Item)
    (family : Name → State) : Operation Name Item → Option (Name → State)
  | .pushBack name item =>
      some (Function.update family name (container.pushBack (family name) item))
  | .popBack name => (container.popBack (family name)).map (Function.update family name)
  | .resize name count =>
      some (Function.update family name (container.resize (family name) count))
  | .clear name => some (Function.update family name (container.clear (family name)))
  | .assign name other =>
      if name = other then none
      else
        some (Function.update family name (container.assign (family name) (family other)))
  | .store name index item =>
      (container.store (family name) index item).map (Function.update family name)

/-! ## Lists -/

/-- An ordinary list, for a choice of what a `resize` exposes at each index that it adds. -/
def list (exposed : Nat → Item) : Container (List Item) Item where
  pushBack items item := items ++ [item]
  popBack items := if items = [] then none else some items.dropLast
  resize items count :=
    items.take count ++ (List.range' items.length (count - items.length)).map exposed
  clear _ := []
  assign _ other := other
  store items index item := if index < items.length then some (items.set index item) else none

@[simp] theorem list_popBack (exposed : Nat → Item) (items : List Item) :
    (list exposed).popBack items = if items = [] then none else some items.dropLast := rfl

@[simp] theorem list_store
    (exposed : Nat → Item)
    (items : List Item)
    (index : Nat)
    (item : Item) :
    (list exposed).store items index item =
      if index < items.length then some (items.set index item) else none := rfl

/-- A list of the right length that keeps the items below both lengths is what a `resize`
makes, if it exposes the other items. -/
theorem list_resize
    [Inhabited Item]
    {items resized : List Item}
    {count : Nat}
    (sameLength : resized.length = count)
    (kept : resized.take items.length = items.take count) :
    (list fun index => resized.getD index default).resize items count = resized := by
  have added :
      (List.range' items.length (count - items.length)).map
          (fun index => resized.getD index default) =
        resized.drop items.length := by
    apply List.ext_getElem
    · rw [List.length_map, List.length_range', List.length_drop, sameLength]
    · intro index inRange inDrop
      rw [List.length_drop] at inDrop
      rw [List.getElem_map, List.getElem_range', List.getElem_drop, Nat.one_mul,
        List.getD_eq_getElem?_getD, List.getElem?_eq_getElem (by omega), Option.getD_some]
  change items.take count ++ _ = resized
  rw [added, ← kept, List.take_append_drop]

/-- One operation on a family of lists, with what it exposes if it is a growing `resize`. -/
def listStep
    [DecidableEq Name]
    (family : Name → List Item)
    (action : Operation Name Item × (Nat → Item)) : Option (Name → List Item) :=
  (list action.2).step family action.1

/-! ## Refinement -/

/-- Every operation does to the container what it does to the list that the container
represents, and is possible on both or on neither. -/
structure Refines
    (Represents : State → List Item → Prop)
    (container : Container State Item) : Prop where
  pushBack : ∀ {state items} exposed item, Represents state items →
    Represents (container.pushBack state item) ((list exposed).pushBack items item)
  popBack : ∀ {state items} exposed, Represents state items →
    Option.Rel Represents (container.popBack state) ((list exposed).popBack items)
  resize : ∀ {state items} count, Represents state items → ∃ exposed,
    Represents (container.resize state count) ((list exposed).resize items count)
  clear : ∀ {state items} exposed, Represents state items →
    Represents (container.clear state) ((list exposed).clear items)
  assign : ∀ {state items other otherItems} exposed, Represents state items →
    Represents other otherItems →
      Represents (container.assign state other) ((list exposed).assign items otherItems)
  store : ∀ {state items} exposed index item, Represents state items →
    Option.Rel Represents (container.store state index item)
      ((list exposed).store items index item)

/-- Each container of a family represents the list of its name. -/
def Pointwise
    (Represents : State → List Item → Prop)
    (family : Name → State)
    (lists : Name → List Item) : Prop :=
  ∀ name, Represents (family name) (lists name)

variable {Represents : State → List Item → Prop}
  {family : Name → State}
  {lists : Name → List Item}

theorem Pointwise.update
    [DecidableEq Name]
    {state : State}
    {items : List Item}
    (represents : Pointwise Represents family lists)
    (name : Name)
    (representsHere : Represents state items) :
    Pointwise Represents (Function.update family name state)
      (Function.update lists name items) := by
  intro other
  by_cases same : other = name
  · subst same
    rw [Function.update_self, Function.update_self]
    exact representsHere
  · rw [Function.update_of_ne same, Function.update_of_ne same]
    exact represents other

/-- The same for an update that may be impossible. -/
theorem Pointwise.updateOption
    [DecidableEq Name]
    {result : Option State}
    {listResult : Option (List Item)}
    (represents : Pointwise Represents family lists)
    (name : Name)
    (representsHere : Option.Rel Represents result listResult) :
    Option.Rel (Pointwise Represents) (result.map (Function.update family name))
      (listResult.map (Function.update lists name)) := by
  cases representsHere with
  | none => exact .none
  | some representsHere => exact .some (represents.update name representsHere)

variable {container : Container State Item}

theorem Refines.step
    [DecidableEq Name]
    [Nonempty Item]
    (refines : Refines Represents container)
    (represents : Pointwise Represents family lists)
    (operation : Operation Name Item) :
    ∃ exposed, Option.Rel (Pointwise Represents) (container.step family operation)
      (listStep lists (operation, exposed)) := by
  -- Only a `resize` makes use of the choice.
  obtain ⟨item⟩ := ‹Nonempty Item›
  let any : Nat → Item := fun _ => item
  cases operation with
  | pushBack name item =>
      exact ⟨any, .some (represents.update name
        (refines.pushBack any item (represents name)))⟩
  | popBack name =>
      exact ⟨any, represents.updateOption name (refines.popBack any (represents name))⟩
  | resize name count =>
      obtain ⟨exposed, representsHere⟩ := refines.resize count (represents name)
      exact ⟨exposed, .some (represents.update name representsHere)⟩
  | clear name =>
      exact ⟨any, .some (represents.update name (refines.clear any (represents name)))⟩
  | assign name other =>
      refine ⟨any, ?_⟩
      rw [listStep, Container.step, Container.step]
      split
      · exact .none
      · exact .some (represents.update name
          (refines.assign any (represents name) (represents other)))
  | store name index item =>
      exact ⟨any, represents.updateOption name
        (refines.store any index item (represents name))⟩

/-- After every run the containers represent lists that have taken the same operations, for
some choice of what these expose; or the run is possible on neither side. -/
theorem Refines.run
    [DecidableEq Name]
    [Nonempty Item]
    (refines : Refines Represents container)
    (represents : Pointwise Represents family lists)
    (operations : List (Operation Name Item)) :
    ∃ exposures : List (Nat → Item), exposures.length = operations.length ∧
      Option.Rel (Pointwise Represents) (Machine.run container.step family operations)
        (Machine.run listStep lists (operations.zip exposures)) :=
  Machine.run_refines refines.step represents operations

end Sequences
