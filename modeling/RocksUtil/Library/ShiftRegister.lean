import Mathlib.Logic.Function.Iterate
import Mathlib.Data.BitVec

/-!
# Linear feedback shift registers

A register of `w` bits that is shifted down one place at a time; whenever the
bit that falls out is set, a feedback word is added.  The step is linear for
exclusive or, and as long as only cleared bits fall out it is a plain shift.
These two facts are what table-driven checksums rest on.
-/

namespace ShiftRegister

variable {w : Nat}

/-- Shift the register down by one place, adding `feedback` when a set bit
falls out. -/
def step (feedback register : BitVec w) : BitVec w :=
  (register >>> 1) ^^^ (if register.getLsbD 0 then feedback else 0#w)

/-- One step is linear. -/
theorem step_xor (feedback left right : BitVec w) :
    step feedback (left ^^^ right) =
      step feedback left ^^^ step feedback right := by
  unfold step
  simp only [BitVec.getLsbD_xor, BitVec.ushiftRight_xor_distrib]
  cases left.getLsbD 0 <;> cases right.getLsbD 0
  · simp
  · simp [BitVec.xor_assoc]
  · simp only [Bool.true_bne, Bool.not_false, if_true, Bool.false_eq_true,
      if_false, BitVec.xor_zero]
    ac_rfl
  · have cancel : (left >>> 1 ^^^ feedback) ^^^ (right >>> 1 ^^^ feedback) =
        left >>> 1 ^^^ right >>> 1 ^^^ (feedback ^^^ feedback) := by
      ac_rfl
    simp [cancel]

/-- Any number of steps is linear. -/
theorem iterate_step_xor
    (feedback : BitVec w)
    (count : Nat)
    (left right : BitVec w) :
    (step feedback)^[count] (left ^^^ right) =
      (step feedback)^[count] left ^^^ (step feedback)^[count] right := by
  induction count generalizing left right with
  | zero => rfl
  | succ count inductionHypothesis =>
      simp only [Function.iterate_succ_apply, step_xor]
      exact inductionHypothesis _ _

/-- While only cleared bits fall out, the register is just shifted. -/
theorem iterate_step_of_low_clear
    (feedback register : BitVec w)
    (count : Nat)
    (clear : ∀ index, index < count → register.getLsbD index = false) :
    (step feedback)^[count] register = register >>> count := by
  induction count with
  | zero => simp
  | succ count inductionHypothesis =>
      have earlier : ∀ index, index < count →
          register.getLsbD index = false :=
        fun index bound => clear index (by omega)
      have lowBit : (register >>> count).getLsbD 0 = false := by
        simpa using clear count (by omega)
      rw [Function.iterate_succ_apply', inductionHypothesis earlier, step,
        lowBit]
      simp [BitVec.shiftRight_add]

/-- A bit of a message enters at the low end of the register. -/
def feed (feedback register : BitVec w) (bit : Bool) : BitVec w :=
  (register >>> 1) ^^^ (if register.getLsbD 0 ^^ bit then feedback else 0#w)

/-- The lowest `count` bits of a word, the lowest first. -/
def lowBits (count : Nat) (word : BitVec w) : List Bool :=
  (List.range count).map word.getLsbD

theorem lowBits_succ (count : Nat) (word : BitVec w) :
    lowBits (count + 1) word = word.getLsbD 0 :: lowBits count (word >>> 1) := by
  unfold lowBits
  rw [List.range_succ_eq_map, List.map_cons, List.map_map]
  congr 1
  apply List.map_congr_left
  intro index _
  rw [Function.comp_apply, BitVec.getLsbD_ushiftRight, Nat.succ_eq_one_add]

/-- Adding a word to the register and shifting is the same as feeding its bits one by
one, up to the part of the word that is still to come. -/
theorem iterate_step_xor_word
    (feedback : BitVec w)
    (count : Nat)
    (register word : BitVec w) :
    (step feedback)^[count] (register ^^^ word) =
      (lowBits count word).foldl (feed feedback) register ^^^ (word >>> count) := by
  induction count generalizing register word with
  | zero => simp [lowBits]
  | succ count inductionHypothesis =>
      have first : step feedback (register ^^^ word) =
          feed feedback register (word.getLsbD 0) ^^^ (word >>> 1) := by
        rw [step, feed, BitVec.getLsbD_xor, BitVec.ushiftRight_xor_distrib, BitVec.xor_assoc,
          BitVec.xor_assoc]
        congr 1
        exact BitVec.xor_comm _ _
      rw [Function.iterate_succ_apply, first, inductionHypothesis, lowBits_succ,
        List.foldl_cons, Nat.add_comm, BitVec.shiftRight_add]

/-- When the top bit of the feedback is set, no two registers step to the same
one. -/
theorem step_injective
    {feedback : BitVec w}
    (top : feedback.getLsbD (w - 1) = true) :
    Function.Injective (step feedback) := by
  intro left right same
  have positive : 0 < w := by
    by_contra empty
    have := BitVec.lt_of_getLsbD top
    omega
  have topBit (register : BitVec w) :
      (step feedback register).getLsbD (w - 1) = register.getLsbD 0 := by
    have behind : register.getLsbD (1 + (w - 1)) = false :=
      BitVec.getLsbD_of_ge register _ (by omega)
    unfold step
    cases low : register.getLsbD 0 with
    | false => simp [behind]
    | true => simp [behind, top]
  have low : left.getLsbD 0 = right.getLsbD 0 := by
    rw [← topBit left, same, topBit]
  have shifted : left >>> 1 = right >>> 1 := by
    unfold step at same
    rw [low] at same
    exact BitVec.xor_left_inj _ |>.mp same
  apply BitVec.eq_of_getLsbD_eq
  intro index bound
  cases index with
  | zero => exact low
  | succ index =>
      have bit := congrArg (fun register => register.getLsbD index) shifted
      simpa [Nat.add_comm] using bit

end ShiftRegister
