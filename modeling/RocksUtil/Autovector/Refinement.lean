import RocksUtil.Autovector.Contents
import RocksUtil.Library.Sequences

/-!
# Vectors with a part on the stack refine lists

Any number of such vectors, changed in any order and assigned from each other, go along
with ordinary lists that take the same operations.  What a growing `resize` adds may be
whatever the array held before, so the lists are free to add anything there.  The users of
these vectors may therefore be modelled with lists.
-/

namespace RocksUtil
namespace Autovector

variable {Name Item : Type*} {kSize : Nat}

/-- The operations of `autovector`, as those of a container. -/
def container [Inhabited Item] : Sequences.Container (Autovector Item kSize) Item where
  pushBack := pushBack
  popBack := popBack
  resize := resize
  clear := clear
  assign := assign
  store := store

/-- A vector has the items of a list. -/
structure Represents (vector : Autovector Item kSize) (items : List Item) : Prop where
  wellFormed : vector.WellFormed
  contents : vector.contents = items

namespace Represents

variable {vector other : Autovector Item kSize} {items otherItems : List Item}

theorem size (represents : vector.Represents items) : vector.size = items.length := by
  rw [← represents.contents, represents.wellFormed.length_contents]

theorem popBack (represents : vector.Represents items) (exposed : Nat → Item) :
    Option.Rel Represents vector.popBack ((Sequences.list exposed).popBack items) := by
  have wellFormed := represents.wellFormed
  rw [Sequences.list_popBack, ← represents.contents]
  split
  · next noneLeft =>
      rw [popBack_of_empty wellFormed noneLeft]
      exact .none
  · next someLeft =>
      obtain ⟨popped, pops, wellFormed', contents⟩ := popBack_of_nonempty wellFormed someLeft
      rw [pops]
      exact .some ⟨wellFormed', contents⟩

theorem store
    (represents : vector.Represents items)
    (exposed : Nat → Item)
    (index : Nat)
    (item : Item) :
    Option.Rel Represents (vector.store index item)
      ((Sequences.list exposed).store items index item) := by
  have wellFormed := represents.wellFormed
  rw [Sequences.list_store, ← represents.size, ← represents.contents]
  split
  · next counted =>
      obtain ⟨stored, stores, wellFormed', contents⟩ :=
        store_eq wellFormed index item counted
      rw [stores]
      exact .some ⟨wellFormed', contents⟩
  · next beyond =>
      rw [Autovector.store, if_neg beyond]
      exact .none

/-- What a growing `resize` exposes is whatever the vector has there afterwards. -/
theorem resize
    [Inhabited Item]
    (represents : vector.Represents items)
    (count : Nat) :
    ∃ exposed,
      (vector.resize count).Represents ((Sequences.list exposed).resize items count) := by
  have resized := wellFormed_resize vector count
  refine ⟨_, resized, (Sequences.list_resize ?_ ?_).symm⟩
  · rw [resized.length_contents, size_resize]
  · rw [← represents.contents]
    exact take_contents_resize represents.wellFormed count

end Represents

/-- Every operation of `autovector` is that of a list. -/
theorem refines_list [Inhabited Item] :
    Sequences.Refines (Represents : Autovector Item kSize → List Item → Prop) container where
  pushBack _ item represents :=
    ⟨represents.wellFormed.pushBack item,
      represents.contents ▸ contents_pushBack represents.wellFormed item⟩
  popBack exposed represents := represents.popBack exposed
  resize count represents := represents.resize count
  clear _ _ := ⟨wellFormed_clear _, contents_clear _⟩
  assign _ _ representsOther :=
    ⟨representsOther.wellFormed.assign _,
      (contents_assign _ _).trans representsOther.contents⟩
  store exposed index item represents := represents.store exposed index item

/-! ## What the users see -/

/-- What the users of a vector see of it is what they would see of a list. -/
structure Agrees (vector : Autovector Item kSize) (items : List Item) : Prop where
  size : vector.size = items.length
  /-- `operator[]` reads the items of the list, and its assertion fails beyond them. -/
  subscript : ∀ index, vector.subscript index = items[index]?
  /-- A loop from `begin` to `end` comes to its end, and visits the items in order. -/
  iteration : ∀ fuel > vector.size, vector.forward fuel = some items
  overflow : vector.vect ≠ [] → vector.numStackItems = kSize

theorem Represents.agrees
    {vector : Autovector Item kSize}
    {items : List Item}
    (represents : vector.Represents items) :
    vector.Agrees items where
  size := represents.size
  subscript index := by
    rw [subscript_eq represents.wellFormed, represents.contents]
  iteration fuel enough := by
    rw [forward_eq represents.wellFormed enough, represents.contents]
  overflow := represents.wellFormed.overflow

/-- Whatever operations any number of vectors take, in any order, each of them agrees
afterwards with the list that has taken the same operations, for some choice of the items
that growing `resize`s have exposed.  The vectors can take the operations if and only if the
lists can. -/
theorem run_agrees
    [DecidableEq Name]
    [Inhabited Item]
    (values : Name → Vector Item kSize)
    (operations : List (Sequences.Operation Name Item)) :
    ∃ exposures : List (Nat → Item), exposures.length = operations.length ∧
      Option.Rel
        (fun (vectors : Name → Autovector Item kSize) (lists : Name → List Item) =>
          ∀ name, (vectors name).Agrees (lists name))
        (Machine.run container.step (fun name => new (values name)) operations)
        (Machine.run Sequences.listStep (fun _ => []) (operations.zip exposures)) := by
  have initial : Sequences.Pointwise Represents (fun name => new (values name))
      (fun _ => []) :=
    fun name => ⟨wellFormed_new (values name), contents_new (values name)⟩
  obtain ⟨exposures, sameLength, represents⟩ := refines_list.run initial operations
  refine ⟨exposures, sameLength, Machine.rel_mono ?_ represents⟩
  intro vectors lists represents name
  exact (represents name).agrees

-- The end of the array is crossed both ways.
example :
    (Machine.run container.step
        (fun _ : Bool => (new (Vector.replicate 2 0) : Autovector Nat 2))
        [.pushBack true 1, .pushBack true 2, .pushBack true 3, .assign false true,
          .popBack true, .popBack true, .pushBack true 4, .resize false 1]).map
      (fun vectors => ((vectors true).forward 3, (vectors false).forward 2)) =
        some (some [1, 4], some [1]) := by
  decide

end Autovector
end RocksUtil
