import RocksUtil.Autovector.Operations

/-!
# The contents of a vector with a part on the stack

The items of such a vector, in order, are those in use of its array and then those of its
`std::vector`.  The latter is used only when the array is full; every operation keeps this,
and does to the contents what its name says.
-/

namespace RocksUtil
namespace Autovector

variable {Item : Type*} {kSize : Nat}

/-- The items in order. -/
def contents (vector : Autovector Item kSize) : List Item :=
  vector.values.toList.take vector.numStackItems ++ vector.vect

/-- The invariant of the operations. -/
structure WellFormed (vector : Autovector Item kSize) : Prop where
  bounded : vector.numStackItems ≤ kSize
  overflow : vector.vect ≠ [] → vector.numStackItems = kSize

variable {vector other : Autovector Item kSize}

namespace WellFormed

theorem length_inStack (wellFormed : vector.WellFormed) :
    (vector.values.toList.take vector.numStackItems).length = vector.numStackItems := by
  rw [List.length_take, Vector.length_toList, Nat.min_eq_left wellFormed.bounded]

theorem length_contents (wellFormed : vector.WellFormed) :
    vector.contents.length = vector.size := by
  rw [contents, List.length_append, wellFormed.length_inStack, size]

theorem empty_iff (wellFormed : vector.WellFormed) :
    vector.empty = true ↔ vector.contents = [] := by
  rw [empty, beq_iff_eq, ← wellFormed.length_contents, List.length_eq_zero_iff]

/-- While there is room in the array, nothing is outside it. -/
theorem vect_eq_nil
    (wellFormed : vector.WellFormed)
    (room : vector.numStackItems < kSize) :
    vector.vect = [] := by
  by_contra used
  have full := wellFormed.overflow used
  omega

theorem contents_of_room
    (wellFormed : vector.WellFormed)
    (room : vector.numStackItems < kSize) :
    vector.contents = vector.values.toList.take vector.numStackItems := by
  rw [contents, wellFormed.vect_eq_nil room, List.append_nil]

end WellFormed

/-! ## Construction -/

theorem wellFormed_new (values : Vector Item kSize) : (new values).WellFormed where
  bounded := Nat.zero_le kSize
  overflow used := absurd rfl used

@[simp] theorem contents_new (values : Vector Item kSize) : (new values).contents = [] := rfl

/-! ## Access -/

/-- An item that is counted and whose place is in the array is one of those in use. -/
theorem WellFormed.lt_numStackItems
    (wellFormed : vector.WellFormed)
    {n : Nat}
    (counted : n < vector.size)
    (inStack : n < kSize) :
    n < vector.numStackItems := by
  by_contra beyond
  have outside := wellFormed.vect_eq_nil (by omega)
  rw [size, outside, List.length_nil] at counted
  omega

/-- An item that is counted and whose place is not in the array is in the other part. -/
theorem WellFormed.numStackItems_eq
    (wellFormed : vector.WellFormed)
    {n : Nat}
    (counted : n < vector.size)
    (outside : ¬n < kSize) :
    vector.numStackItems = kSize := by
  apply wellFormed.overflow
  intro unused
  have bounded := wellFormed.bounded
  rw [size, unused, List.length_nil] at counted
  omega

theorem subscript_eq (wellFormed : vector.WellFormed) (n : Nat) :
    vector.subscript n = vector.contents[n]? := by
  rw [subscript]
  split
  · next counted =>
      split
      · next inStack =>
          have used := wellFormed.lt_numStackItems counted inStack
          rw [contents, List.getElem?_append_left (by rwa [wellFormed.length_inStack]),
            List.getElem?_take_of_lt used, Vector.getElem?_toList,
            Vector.getElem?_eq_getElem inStack]
      · next outside =>
          have full := wellFormed.numStackItems_eq counted outside
          have beyond : vector.numStackItems ≤ n := by omega
          rw [contents, List.getElem?_append_right (by rwa [wellFormed.length_inStack]),
            wellFormed.length_inStack, full]
  · next =>
      rw [List.getElem?_eq_none]
      rw [wellFormed.length_contents]
      omega

theorem store_eq
    (wellFormed : vector.WellFormed)
    (n : Nat)
    (item : Item)
    (counted : n < vector.size) :
    ∃ stored, vector.store n item = some stored ∧ stored.WellFormed ∧
      stored.contents = vector.contents.set n item := by
  rw [store, if_pos counted]
  split
  · next inStack =>
      have used := wellFormed.lt_numStackItems counted inStack
      refine ⟨_, rfl, ⟨wellFormed.bounded, wellFormed.overflow⟩, ?_⟩
      rw [contents, contents, List.set_append_left _ _ (by rwa [wellFormed.length_inStack]),
        Vector.toList_set, List.take_set]
  · next outside =>
      have full := wellFormed.numStackItems_eq counted outside
      have beyond : vector.numStackItems ≤ n := by omega
      have inVect : n - kSize < vector.vect.length := by
        rw [size, full] at counted
        omega
      rw [if_pos inVect]
      refine ⟨_, rfl, ⟨wellFormed.bounded, fun _ => full⟩, ?_⟩
      rw [contents, contents, List.set_append_right _ _ (by rwa [wellFormed.length_inStack]),
        wellFormed.length_inStack, full]

/-! ## Changes at the end -/

theorem WellFormed.pushBack (wellFormed : vector.WellFormed) (item : Item) :
    (vector.pushBack item).WellFormed := by
  rw [Autovector.pushBack]
  split
  · next room => exact ⟨room, fun used => absurd (wellFormed.vect_eq_nil room) used⟩
  · next full =>
      refine ⟨wellFormed.bounded, fun _ => ?_⟩
      have bounded := wellFormed.bounded
      change vector.numStackItems = kSize
      omega

theorem contents_pushBack (wellFormed : vector.WellFormed) (item : Item) :
    (vector.pushBack item).contents = vector.contents ++ [item] := by
  rw [pushBack]
  split
  · next room =>
      have inArray : vector.numStackItems < vector.values.toList.length := by
        rwa [Vector.length_toList]
      rw [wellFormed.contents_of_room room, contents, wellFormed.vect_eq_nil room,
        List.append_nil, Vector.toList_set, List.take_add_one, List.take_set,
        List.set_eq_of_length_le (Nat.le_of_eq wellFormed.length_inStack),
        List.getElem?_set_self inArray, Option.toList_some]
  · exact (List.append_assoc ..).symm

theorem popBack_of_empty
    (wellFormed : vector.WellFormed)
    (noneLeft : vector.contents = []) :
    vector.popBack = none := by
  rw [popBack, if_pos (wellFormed.empty_iff.mpr noneLeft)]

theorem popBack_of_nonempty
    (wellFormed : vector.WellFormed)
    (someLeft : vector.contents ≠ []) :
    ∃ popped, vector.popBack = some popped ∧ popped.WellFormed ∧
      popped.contents = vector.contents.dropLast := by
  rw [popBack, if_neg (mt wellFormed.empty_iff.mp someLeft)]
  split
  · next unused =>
      have bounded := wellFormed.bounded
      refine ⟨_, rfl, ⟨by change _ - 1 ≤ _; omega, fun used => absurd unused used⟩, ?_⟩
      rw [contents, contents, unused, List.append_nil, List.append_nil,
        List.dropLast_eq_take, wellFormed.length_inStack, List.take_take,
        Nat.min_eq_left (Nat.sub_le ..)]
  · next used =>
      refine ⟨_, rfl, ⟨wellFormed.bounded, fun _ => wellFormed.overflow used⟩, ?_⟩
      rw [contents, contents, List.dropLast_append_of_ne_nil used]

/-! ## Changes of the whole -/

theorem wellFormed_clear (vector : Autovector Item kSize) : vector.clear.WellFormed where
  bounded := Nat.zero_le kSize
  overflow used := absurd rfl used

@[simp] theorem contents_clear (vector : Autovector Item kSize) :
    vector.clear.contents = [] := rfl

theorem WellFormed.assign
    (wellFormed : other.WellFormed)
    (vector : Autovector Item kSize) :
    (vector.assign other).WellFormed where
  bounded := wellFormed.bounded
  overflow := wellFormed.overflow

theorem contents_assign (vector other : Autovector Item kSize) :
    (vector.assign other).contents = other.contents := by
  rw [contents, contents]
  refine congrArg (· ++ other.vect) (List.ext_getElem? fun index => ?_)
  change ((vector.assign other).values.toList.take other.numStackItems)[index]? = _
  rw [List.getElem?_take, List.getElem?_take]
  split
  · next copied =>
      rw [Vector.getElem?_toList, Vector.getElem?_toList]
      by_cases inStack : index < kSize
      · rw [Vector.getElem?_eq_getElem inStack, Vector.getElem?_eq_getElem inStack]
        simp [Autovector.assign, copied]
      · rw [Vector.getElem?_eq_none (by omega), Vector.getElem?_eq_none (by omega)]
  · rfl

theorem wellFormed_resize
    [Inhabited Item]
    (vector : Autovector Item kSize)
    (n : Nat) :
    (vector.resize n).WellFormed := by
  rw [resize]
  split
  · exact ⟨Nat.le_refl kSize, fun _ => rfl⟩
  · next small => exact ⟨Nat.le_of_not_lt small, fun used => absurd rfl used⟩

@[simp] theorem size_resize
    [Inhabited Item]
    (vector : Autovector Item kSize)
    (n : Nat) :
    (vector.resize n).size = n := by
  rw [resize, size]
  split
  · simp only [resizeVect, List.length_append, List.length_take, List.length_replicate]
    omega
  · rfl

/-- What a `resize` does not cut off stays where it is. -/
theorem subscript_resize
    [Inhabited Item]
    (wellFormed : vector.WellFormed)
    {n index : Nat}
    (counted : index < vector.size)
    (kept : index < n) :
    (vector.resize n).subscript index = vector.subscript index := by
  rw [subscript, subscript, size_resize, if_pos kept, if_pos counted]
  split
  · rw [resize]
    split <;> rfl
  · next outside =>
      have full := wellFormed.numStackItems_eq counted outside
      rw [size, full] at counted
      have large : n > kSize := by omega
      have inBoth : index - kSize < (vector.vect.take (n - kSize)).length := by
        rw [List.length_take]
        omega
      rw [resize, if_pos large, resizeVect, List.getElem?_append_left inBoth,
        List.getElem?_take_of_lt (by omega)]

theorem take_contents_resize
    [Inhabited Item]
    (wellFormed : vector.WellFormed)
    (n : Nat) :
    (vector.resize n).contents.take vector.contents.length = vector.contents.take n := by
  have resized := wellFormed_resize vector n
  refine List.ext_getElem? fun index => ?_
  rw [wellFormed.length_contents, List.getElem?_take, List.getElem?_take,
    ← subscript_eq resized, ← subscript_eq wellFormed]
  by_cases counted : index < vector.size
  · by_cases kept : index < n
    · rw [if_pos counted, if_pos kept, subscript_resize wellFormed counted kept]
    · rw [if_pos counted, if_neg kept, subscript, size_resize, if_neg kept]
  · rw [if_neg counted, subscript, if_neg counted, ite_self]

/-! ## Iteration -/

theorem dereference_eq (wellFormed : vector.WellFormed) (index : Nat) :
    (Iterator.mk vector index).dereference = vector.contents[index]? := by
  rw [Iterator.dereference, subscript_eq wellFormed]
  split
  · rfl
  · next beyond =>
      rw [List.getElem?_eq_none]
      rw [wellFormed.length_contents]
      exact Nat.le_of_not_le beyond

/-- A loop that has come to an index visits the items from there on. -/
theorem visit_eq
    (wellFormed : vector.WellFormed)
    {fuel index : Nat}
    (within : index ≤ vector.size)
    (enough : vector.size < index + fuel) :
    visit vector.endIterator fuel ⟨vector, index⟩ = some (vector.contents.drop index) := by
  induction fuel generalizing index with
  | zero => omega
  | succ fuel inductionHypothesis =>
      rw [visit]
      split
      · next done =>
          rw [List.drop_of_length_le]
          rw [wellFormed.length_contents]
          exact Nat.le_of_eq done.symm
      · next goesOn =>
          have inside : index < vector.contents.length := by
            rw [wellFormed.length_contents]
            exact Nat.lt_of_le_of_ne within goesOn
          have later :
              visit vector.endIterator fuel ⟨vector, index + 1⟩ =
                some (vector.contents.drop (index + 1)) :=
            inductionHypothesis (Nat.lt_of_le_of_ne within goesOn) (by omega)
          rw [dereference_eq wellFormed, List.getElem?_eq_getElem inside,
            List.drop_eq_getElem_cons inside]
          change (visit vector.endIterator fuel ⟨vector, index + 1⟩).bind _ = _
          rw [later]
          rfl

theorem forward_eq
    (wellFormed : vector.WellFormed)
    {fuel : Nat}
    (enough : vector.size < fuel) :
    vector.forward fuel = some vector.contents := by
  rw [forward, beginIterator, visit_eq wellFormed (Nat.zero_le _) (by omega), List.drop_zero]

end Autovector
end RocksUtil
