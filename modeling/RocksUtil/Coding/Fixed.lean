import RocksUtil.Status
import Mathlib.Data.BitVec
import Mathlib.Tactic.IntervalCases

/-!
# Fixed-width integers

`EncodeFixed32`, `DecodeFixed32` and the same for 64 bits: least significant byte
first.
-/

namespace RocksUtil
namespace Coding

/-- The four bytes `EncodeFixed32` stores. -/
def encodeFixed32 (value : UInt32) : Bytes :=
  [value.toUInt8, (value >>> 8).toUInt8, (value >>> 16).toUInt8,
    (value >>> 24).toUInt8]

/-- The number `DecodeFixed32` loads from the four bytes at `ptr`. -/
def decodeFixed32 (ptr : Bytes) : UInt32 :=
  (ptr.getD 0 0).toUInt32 ||| ((ptr.getD 1 0).toUInt32 <<< 8) |||
    ((ptr.getD 2 0).toUInt32 <<< 16) ||| ((ptr.getD 3 0).toUInt32 <<< 24)

@[simp] theorem length_encodeFixed32 (value : UInt32) :
    (encodeFixed32 value).length = 4 := rfl

/-- Loading what was stored gives the number back, whatever follows. -/
@[simp] theorem decodeFixed32_encodeFixed32_append
    (value : UInt32)
    (rest : Bytes) :
    decodeFixed32 (encodeFixed32 value ++ rest) = value := by
  apply UInt32.eq_of_toBitVec_eq
  apply BitVec.eq_of_getLsbD_eq
  intro index bound
  simp only [decodeFixed32, encodeFixed32, List.cons_append,
    List.getD_cons_zero, List.getD_cons_succ, UInt32.toBitVec_or,
    UInt32.toBitVec_shiftLeft, UInt8.toBitVec_toUInt32,
    UInt32.toBitVec_toUInt8, UInt32.toBitVec_shiftRight, BitVec.getLsbD_or]
  interval_cases index <;> simp

/-- The eight bytes `EncodeFixed64` stores. -/
def encodeFixed64 (value : UInt64) : Bytes :=
  [value.toUInt8, (value >>> 8).toUInt8, (value >>> 16).toUInt8, (value >>> 24).toUInt8,
    (value >>> 32).toUInt8, (value >>> 40).toUInt8, (value >>> 48).toUInt8,
    (value >>> 56).toUInt8]

/-- The number `DecodeFixed64` loads from the eight bytes at `ptr`. -/
def decodeFixed64 (ptr : Bytes) : UInt64 :=
  let lo := (decodeFixed32 ptr).toUInt64
  let hi := (decodeFixed32 (ptr.drop 4)).toUInt64
  (hi <<< 32) ||| lo

@[simp] theorem length_encodeFixed64 (value : UInt64) :
    (encodeFixed64 value).length = 8 := rfl

/-- The low half is stored in front of the high half. -/
theorem encodeFixed64_eq (value : UInt64) :
    encodeFixed64 value =
      encodeFixed32 value.toUInt32 ++ encodeFixed32 (value >>> 32).toUInt32 := by
  simp only [encodeFixed64, encodeFixed32, List.cons_append, List.nil_append,
    List.cons.injEq, and_true]
  refine ⟨?_, ?_, ?_, ?_, ?_, ?_, ?_, ?_⟩ <;>
  · apply UInt8.toNat_inj.mp
    simp [UInt64.toNat_shiftRight, UInt32.toNat_shiftRight, Nat.shiftRight_eq_div_pow]
    try omega

@[simp] theorem decodeFixed64_encodeFixed64_append
    (value : UInt64)
    (rest : Bytes) :
    decodeFixed64 (encodeFixed64 value ++ rest) = value := by
  have low : decodeFixed32 (encodeFixed64 value ++ rest) = value.toUInt32 := by
    rw [encodeFixed64_eq, List.append_assoc, decodeFixed32_encodeFixed32_append]
  have high : decodeFixed32 ((encodeFixed64 value ++ rest).drop 4) =
      (value >>> 32).toUInt32 := by
    rw [encodeFixed64_eq, List.append_assoc, List.drop_left' (length_encodeFixed32 _),
      decodeFixed32_encodeFixed32_append]
  have halves : value.toNat = value.toNat / 2 ^ 32 * 2 ^ 32 + value.toNat % 2 ^ 32 := by
    omega
  have bound := value.toNat_lt
  rw [decodeFixed64, low, high]
  apply UInt64.toNat_inj.mp
  simp only [UInt64.toNat_or, UInt64.toNat_shiftLeft, UInt32.toNat_toUInt64,
    UInt64.toNat_toUInt32, UInt64.toNat_shiftRight, UInt64.reduceToNat, Nat.reduceMod,
    Nat.shiftRight_eq_div_pow]
  rw [Nat.mod_eq_of_lt (by omega : value.toNat / 2 ^ 32 < 2 ^ 32), Nat.shiftLeft_eq,
    Nat.mod_eq_of_lt (by omega), ← Nat.shiftLeft_eq,
    ← Nat.shiftLeft_add_eq_or_of_lt (Nat.mod_lt _ (by decide)), Nat.shiftLeft_eq]
  exact halves.symm

/-- Storing what was loaded. -/
theorem encodeFixed32_decodeFixed32 (p : Bytes) (enough : 4 ≤ p.length) :
    encodeFixed32 (decodeFixed32 p) = p.take 4 := by
  match p, enough with
  | b0 :: b1 :: b2 :: b3 :: rest, _ =>
      have byte (value : UInt32) (byte : UInt8)
          (bits : ∀ index < 8, value.toBitVec.getLsbD index = byte.toBitVec.getLsbD index) :
          value.toUInt8 = byte := by
        apply UInt8.eq_of_toBitVec_eq
        apply BitVec.eq_of_getLsbD_eq
        intro index bound
        simpa [bound] using bits index bound
      simp only [encodeFixed32, decodeFixed32, List.getD_cons_zero, List.getD_cons_succ,
        List.take_succ_cons, List.take_zero, List.cons.injEq, and_true]
      refine ⟨byte _ _ ?_, byte _ _ ?_, byte _ _ ?_, byte _ _ ?_⟩ <;>
      · intro index bound
        simp only [UInt32.toBitVec_or, UInt32.toBitVec_shiftLeft, UInt32.toBitVec_shiftRight,
          UInt8.toBitVec_toUInt32]
        interval_cases index <;> simp

/-- Loading two numbers that are the same means that the bytes are. -/
theorem take_four_of_decodeFixed32
    {left right : Bytes}
    (leftLong : 4 ≤ left.length)
    (rightLong : 4 ≤ right.length)
    (same : decodeFixed32 left = decodeFixed32 right) :
    left.take 4 = right.take 4 := by
  have bytes := congrArg encodeFixed32 same
  rwa [encodeFixed32_decodeFixed32 left leftLong,
    encodeFixed32_decodeFixed32 right rightLong] at bytes

theorem encodeFixed64_decodeFixed64 (p : Bytes) (enough : 8 ≤ p.length) :
    encodeFixed64 (decodeFixed64 p) = p.take 8 := by
  have low : (decodeFixed64 p).toUInt32 = decodeFixed32 p := by
    apply UInt32.eq_of_toBitVec_eq
    apply BitVec.eq_of_getLsbD_eq
    intro index bound
    simp [decodeFixed64, bound]
  have high : (decodeFixed64 p >>> 32).toUInt32 = decodeFixed32 (p.drop 4) := by
    apply UInt32.eq_of_toBitVec_eq
    apply BitVec.eq_of_getLsbD_eq
    intro index bound
    have inHigh : 32 + index < 64 := by omega
    simp [decodeFixed64, bound, inHigh]
  rw [encodeFixed64_eq, low, high, encodeFixed32_decodeFixed32 p (by omega),
    encodeFixed32_decodeFixed32 (p.drop 4) (by rw [List.length_drop]; omega),
    ← List.take_add]

end Coding
end RocksUtil
