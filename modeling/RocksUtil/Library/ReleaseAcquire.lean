import Mathlib.Data.List.Basic

/-!
# One atomic location

The stores to an atomic location under release and acquire ordering.  Each is a message
that takes a segment of the modification order for itself.  A load may return any message
that is not older than what its thread has seen.  A read-modify-write puts its own message
directly behind the one it reads, so that no two of them can read the same (`Sealed`).
-/

namespace ReleaseAcquire

/-- A store: its value, the segment of the modification order that it takes, and what
happened before it and is learned from it. -/
structure Message (Value Clock : Type*) where
  value : Value
  after : Nat
  upTo : Nat
  clock : Clock
  nonempty : after < upTo
  deriving DecidableEq

variable {Value Clock : Type*} {history : List (Message Value Clock)}
  {message later : Message Value Clock} {after upTo : Nat}

/-- A segment of the modification order is free. -/
def Room (history : List (Message Value Clock)) (after upTo : Nat) : Prop :=
  after < upTo ∧ ∀ message ∈ history, message.upTo ≤ after ∨ upTo ≤ message.after

instance (history : List (Message Value Clock)) (after upTo : Nat) :
    Decidable (Room history after upTo) := inferInstanceAs (Decidable (_ ∧ _))

/-- There is a message directly behind this one. -/
def Sealed (history : List (Message Value Clock)) (message : Message Value Clock) : Prop :=
  ∃ later ∈ history, later.after = message.upTo

theorem Sealed.cons
    (isSealed : Sealed history message)
    (later : Message Value Clock) : Sealed (later :: history) message := by
  obtain ⟨behind, within, directly⟩ := isSealed
  exact ⟨behind, List.mem_cons_of_mem later within, directly⟩

/-- Nothing can be put directly behind a message that another one is directly behind. -/
theorem Sealed.not_room
    (isSealed : Sealed history message)
    (upTo : Nat) : ¬ Room history message.upTo upTo := by
  rintro ⟨nonempty, apart⟩
  obtain ⟨later, within, directly⟩ := isSealed
  have := later.nonempty
  rcases apart later within with before | behind <;> omega

/-- Every message of a history is older than one. -/
def Newest (history : List (Message Value Clock)) (newest : Message Value Clock) : Prop :=
  ∀ message ∈ history, message.upTo ≤ newest.after

theorem Newest.upTo_le
    {newest : Message Value Clock}
    (isNewest : Newest history newest)
    (within : message ∈ newest :: history) : message.upTo ≤ newest.upTo := by
  rcases List.mem_cons.mp within with rfl | older
  · exact Nat.le_refl _
  · exact Nat.le_trans (isNewest message older) (Nat.le_of_lt newest.nonempty)

/-- There is room behind the newest message. -/
theorem Newest.room
    {newest : Message Value Clock}
    (isNewest : Newest history newest)
    (behind : newest.upTo ≤ after)
    (nonempty : after < upTo) : Room (newest :: history) after upTo :=
  ⟨nonempty, fun _ within => .inl (Nat.le_trans (isNewest.upTo_le within) behind)⟩

end ReleaseAcquire
