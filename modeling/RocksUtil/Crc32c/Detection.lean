import RocksUtil.Crc32c.Extend

/-!
# What the checksum detects

The register of CRC-32C can be run backwards, so two strings that differ in one
byte have different checksums (`value_ne`), and a masked checksum determines the
checksum.  Four bytes fill the register, so the same holds of two strings that
differ within four bytes in a row (`DifferWithin.extendImpl_ne`).
-/

namespace RocksUtil
namespace Crc32c

open Coding

theorem shifts_injective (count : Nat) : Function.Injective (shifts count) := by
  intro left right same
  apply UInt32.eq_of_toBitVec_eq
  apply (ShiftRegister.step_injective (by decide : polynomial.getLsbD 31 = true)).iterate
    count
  exact congrArg UInt32.toBitVec same

theorem step1_injective (byte : UInt8) :
    Function.Injective fun register => step1 register byte := by
  intro left right same
  simp only [step1_eq_shifts] at same
  have added := shifts_injective 8 same
  exact (UInt32.xor_left_inj _).mp added

theorem foldl_step1_injective (bytes : Bytes) :
    Function.Injective fun register => bytes.foldl step1 register := by
  induction bytes with
  | nil => exact Function.injective_id
  | cons byte bytes inductionHypothesis =>
      exact inductionHypothesis.comp (step1_injective byte)

/-- Strings that differ in one byte have different checksums. -/
theorem value_ne
    (before behind : Bytes)
    {left right : UInt8}
    (different : left ≠ right) :
    value (before ++ left :: behind) ≠ value (before ++ right :: behind) := by
  intro same
  simp only [value, extend, extendImpl_eq_foldl, List.foldl_append,
    List.foldl_cons] at same
  have registers := foldl_step1_injective behind ((UInt32.xor_left_inj _).mp same)
  rw [step1_eq_shifts, step1_eq_shifts] at registers
  have bytes := (UInt32.xor_right_inj _).mp (shifts_injective 8 registers)
  exact different (UInt8.toUInt32_inj.mp bytes)

/-! ## Bursts -/

/-- Two strings of one length that differ, and in `width` bytes in a row only. -/
structure DifferWithin (width : Nat) (left right : Bytes) : Prop where
  length_eq : left.length = right.length
  ne : left ≠ right
  window : ∃ start, ∀ index, left[index]? ≠ right[index]? →
    start ≤ index ∧ index < start + width

/-- What lies in front of the window and behind it is the same. -/
theorem DifferWithin.split
    {width : Nat}
    {left right : Bytes}
    (differ : DifferWithin width left right) :
    ∃ before inLeft inRight behind,
      left = before ++ inLeft ++ behind ∧ right = before ++ inRight ++ behind ∧
        inLeft.length = inRight.length ∧ inLeft.length ≤ width ∧ inLeft ≠ inRight := by
  obtain ⟨start, inWindow⟩ := differ.window
  have sameFront : left.take start = right.take start := by
    apply List.ext_getElem?
    intro index
    rw [List.getElem?_take, List.getElem?_take]
    split
    · by_contra different
      have := (inWindow index different).1
      omega
    · rfl
  have sameBack : (left.drop start).drop width = (right.drop start).drop width := by
    apply List.ext_getElem?
    intro index
    rw [List.drop_drop, List.drop_drop, List.getElem?_drop, List.getElem?_drop]
    by_contra different
    have := (inWindow _ different).2
    omega
  have leftSplit : left =
      left.take start ++ (left.drop start).take width ++ (left.drop start).drop width := by
    rw [List.append_assoc, List.take_append_drop, List.take_append_drop]
  have rightSplit : right =
      left.take start ++ (right.drop start).take width ++
        (left.drop start).drop width := by
    rw [sameFront, sameBack, List.append_assoc, List.take_append_drop,
      List.take_append_drop]
  refine ⟨_, _, _, _, leftSplit, rightSplit, ?_, ?_, ?_⟩
  · simp only [List.length_take, List.length_drop, differ.length_eq]
  · exact List.length_take_le _ _
  · intro sameWindow
    apply differ.ne
    rw [leftSplit, sameWindow]
    exact rightSplit.symm

/-- Four bytes are added to the register, which is then shifted all the way. -/
theorem foldl_step1_four
    (register : UInt32)
    {bytes : Bytes}
    (four : bytes.length = 4) :
    bytes.foldl step1 register = shifts 32 (register ^^^ decodeFixed32 bytes) := by
  match bytes, four with
  | [b0, b1, b2, b3], _ => rw [← slowWord_eq_shifts, slowWord_eq_foldl]

/-- No two strings of at most four bytes take a register to the same one. -/
theorem foldl_step1_ne
    (register : UInt32)
    {left right : Bytes}
    (sameLength : left.length = right.length)
    (short : left.length ≤ 4)
    (different : left ≠ right) :
    left.foldl step1 register ≠ right.foldl step1 register := by
  intro same
  -- Filled up to four bytes, both are a whole word.
  have filled (bytes : Bytes) (size : bytes.length = left.length) :
      (bytes ++ List.replicate (4 - left.length) 0).length = 4 := by
    rw [List.length_append, List.length_replicate, size]
    omega
  have filledSame :
      (left ++ List.replicate (4 - left.length) 0).foldl step1 register =
        (right ++ List.replicate (4 - left.length) 0).foldl step1 register := by
    rw [List.foldl_append, List.foldl_append, same]
  rw [foldl_step1_four register (filled left rfl),
    foldl_step1_four register (filled right sameLength.symm)] at filledSame
  have words := (UInt32.xor_right_inj _).mp (shifts_injective 32 filledSame)
  have bytes := take_four_of_decodeFixed32 (filled left rfl).ge
    (filled right sameLength.symm).ge words
  rw [List.take_of_length_le (filled left rfl).le,
    List.take_of_length_le (filled right sameLength.symm).le] at bytes
  exact different (List.append_cancel_right bytes)

theorem DifferWithin.foldl_ne
    {left right : Bytes}
    (differ : DifferWithin 4 left right)
    (register : UInt32) :
    left.foldl step1 register ≠ right.foldl step1 register := by
  obtain ⟨before, inLeft, inRight, behind, rfl, rfl, sameLength, short, different⟩ :=
    differ.split
  intro same
  simp only [List.foldl_append] at same
  exact foldl_step1_ne _ sameLength short different (foldl_step1_injective behind same)

/-- Strings that differ within four bytes in a row have different checksums, whichever
checksum is continued and wherever they lie. -/
theorem DifferWithin.extendImpl_ne
    {left right : Bytes}
    (differ : DifferWithin 4 left right)
    (here there : Nat)
    (crc : UInt32) :
    extendImpl here crc left ≠ extendImpl there crc right := by
  intro same
  rw [extendImpl_eq_foldl, extendImpl_eq_foldl] at same
  exact differ.foldl_ne _ ((UInt32.xor_left_inj _).mp same)

/-- The bytes in front of both do not count. -/
theorem DifferWithin.append_left
    {width : Nat}
    {left right : Bytes}
    (differ : DifferWithin width left right)
    (front : Bytes) :
    DifferWithin width (front ++ left) (front ++ right) := by
  obtain ⟨start, inWindow⟩ := differ.window
  refine ⟨?_, fun same => differ.ne (List.append_cancel_left same),
    front.length + start, fun index different => ?_⟩
  · rw [List.length_append, List.length_append, differ.length_eq]
  · by_cases inFront : index < front.length
    · rw [List.getElem?_append_left inFront, List.getElem?_append_left inFront] at different
      exact absurd rfl different
    · rw [List.getElem?_append_right (by omega), List.getElem?_append_right (by omega)]
        at different
      have := inWindow _ different
      omega

/-! ## Masked checksums -/

/-- `Mask` undoes `Unmask`. -/
theorem mask_unmask (maskedCrc : UInt32) : mask (unmask maskedCrc) = maskedCrc := by
  have rotated (rot : UInt32) :
      (((rot >>> 17) ||| (rot <<< 15)) >>> 15) |||
        (((rot >>> 17) ||| (rot <<< 15)) <<< 17) = rot := by
    apply UInt32.eq_of_toBitVec_eq
    apply BitVec.eq_of_getLsbD_eq
    intro index bound
    simp only [UInt32.toBitVec_or, UInt32.toBitVec_shiftLeft,
      UInt32.toBitVec_shiftRight, BitVec.getLsbD_or]
    interval_cases index <;> simp
  rw [unmask, mask, rotated, UInt32.sub_add_cancel]

theorem unmask_injective : Function.Injective unmask :=
  Function.LeftInverse.injective mask_unmask

end Crc32c
end RocksUtil
