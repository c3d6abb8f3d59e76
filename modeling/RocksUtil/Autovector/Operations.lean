import Mathlib.Data.List.Basic

/-!
# Vectors with a part on the stack

`autovector`: the first `kSize` items are in an array in the object, the others in a
`std::vector`.  `num_stack_items_` counts the items in the array; what the array holds
beyond them is left from before.  An operation has no result where an assertion of the
source fails or where it would read outside the array or the vector.
-/

namespace RocksUtil

/-- `autovector<T, kSize>`.  The sizes are numbers: the array and the vector are both in
memory, so that the sum of their sizes does not wrap around. -/
structure Autovector (Item : Type*) (kSize : Nat) where
  /-- `num_stack_items_`. -/
  numStackItems : Nat
  /-- `values_`. -/
  values : Vector Item kSize
  /-- `vect_`. -/
  vect : List Item
  deriving DecidableEq

namespace Autovector

variable {Item : Type*} {kSize : Nat}

/-! ## Operations -/

/-- The default constructor, which does not initialize the array. -/
def new (values : Vector Item kSize) : Autovector Item kSize where
  numStackItems := 0
  values := values
  vect := []

/-- `size`. -/
def size (vector : Autovector Item kSize) : Nat :=
  vector.numStackItems + vector.vect.length

/-- `std::vector::resize`, which initializes what it adds. -/
def resizeVect [Inhabited Item] (vect : List Item) (n : Nat) : List Item :=
  vect.take n ++ List.replicate (n - vect.length) default

/-- `resize`. -/
def resize
    [Inhabited Item]
    (vector : Autovector Item kSize)
    (n : Nat) : Autovector Item kSize :=
  if n > kSize then
    { vector with vect := resizeVect vector.vect (n - kSize), numStackItems := kSize }
  else
    { vector with vect := [], numStackItems := n }

/-- `empty`. -/
def empty (vector : Autovector Item kSize) : Bool :=
  vector.size == 0

/-- What `operator[]` refers to.  `at` is the same. -/
def subscript (vector : Autovector Item kSize) (n : Nat) : Option Item :=
  if n < vector.size then
    if inStack : n < kSize then some vector.values[n] else vector.vect[n - kSize]?
  else none

/-- Assign to what `operator[]` refers to. -/
def store
    (vector : Autovector Item kSize)
    (n : Nat)
    (item : Item) : Option (Autovector Item kSize) :=
  if n < vector.size then
    if inStack : n < kSize then
      some { vector with values := vector.values.set n item inStack }
    else if n - kSize < vector.vect.length then
      some { vector with vect := vector.vect.set (n - kSize) item }
    else none
  else none

/-- `push_back`.  Its two variants differ in whether an item for the array is moved or
copied, and `emplace_back` passes the item that it constructs on. -/
def pushBack (vector : Autovector Item kSize) (item : Item) : Autovector Item kSize :=
  if inStack : vector.numStackItems < kSize then
    { vector with
      values := vector.values.set vector.numStackItems item inStack
      numStackItems := vector.numStackItems + 1 }
  else
    { vector with vect := vector.vect ++ [item] }

/-- `pop_back`. -/
def popBack (vector : Autovector Item kSize) : Option (Autovector Item kSize) :=
  if vector.empty then none
  else if vector.vect = [] then
    some { vector with numStackItems := vector.numStackItems - 1 }
  else
    some { vector with vect := vector.vect.dropLast }

/-- `clear`. -/
def clear (vector : Autovector Item kSize) : Autovector Item kSize :=
  { vector with numStackItems := 0, vect := [] }

/-- `assign`, from another vector: of its array only the items that count are copied.  They
are at most `kSize` in every vector that the operations make. -/
def assign (vector other : Autovector Item kSize) : Autovector Item kSize where
  vect := other.vect
  numStackItems := other.numStackItems
  values := Vector.ofFn fun index =>
    if index < other.numStackItems then other.values[index] else vector.values[index]

/-! ## Iterators -/

/-- `iterator_impl`, with the vector that its pointer refers to. -/
structure Iterator (Item : Type*) (kSize : Nat) where
  /-- `vect_`. -/
  vect : Autovector Item kSize
  /-- `index_`. -/
  index : Nat

namespace Iterator

/-- `operator++`. -/
def next (iterator : Iterator Item kSize) : Iterator Item kSize :=
  { iterator with index := iterator.index + 1 }

/-- `operator*`.  Its own assertion lets the end pass, that of `operator[]` does not. -/
def dereference (iterator : Iterator Item kSize) : Option Item :=
  if iterator.vect.size ≥ iterator.index then iterator.vect.subscript iterator.index
  else none

end Iterator

/-- `begin`. -/
def beginIterator (vector : Autovector Item kSize) : Iterator Item kSize :=
  ⟨vector, 0⟩

/-- `end`. -/
def endIterator (vector : Autovector Item kSize) : Iterator Item kSize :=
  ⟨vector, vector.size⟩

/-- The items that a loop from one iterator to another visits. -/
def visit (last : Iterator Item kSize) : Nat → Iterator Item kSize → Option (List Item)
  | 0, _ => none
  | fuel + 1, iterator =>
      if iterator.index = last.index then some []
      else do
        let item ← iterator.dereference
        let items ← visit last fuel iterator.next
        some (item :: items)

/-- A loop from `begin` to `end`. -/
def forward (vector : Autovector Item kSize) (fuel : Nat) : Option (List Item) :=
  visit vector.endIterator fuel vector.beginIterator

end Autovector
end RocksUtil
