import RocksUtil.Coding.Fixed
import RocksUtil.Crc32c.Tables
import RocksUtil.Library.ShiftRegister

/-!
# CRC-32C

`ExtendImpl` of the source with the portable `Slow_CRC32`: bytes one at a time
up to a 16-byte boundary of the address, then eight at a time through four
tables, then the rest one at a time.  The main result is that the address and
the grouping do not matter: the checksum is a plain fold over the bytes
(`extendImpl_eq_foldl`), hence continuing a checksum is concatenation
(`extend_append`).

The source keeps the register in a `uint64_t`; it starts from a 32-bit word and
every step yields a table word xored with a shifted register, so its upper half
stays zero and a 32-bit word represents it exactly.
-/

namespace RocksUtil
namespace Crc32c

open Coding

/-- `STEP1`: advance the register by one byte. -/
def step1 (l : UInt32) (byte : UInt8) : UInt32 :=
  table0.getD ((l &&& 0xff) ^^^ byte.toUInt32).toNat 0 ^^^ (l >>> 8)

/-- Half of `Slow_CRC32`: advance the register by the four bytes at `p`. -/
def slowWord (l : UInt32) (p : Bytes) : UInt32 :=
  let c := l ^^^ decodeFixed32 p
  table3.getD (c &&& 0xff).toNat 0 ^^^
    table2.getD ((c >>> 8) &&& 0xff).toNat 0 ^^^
    table1.getD ((c >>> 16) &&& 0xff).toNat 0 ^^^
    table0.getD (c >>> 24).toNat 0

/-- `Slow_CRC32`: the four-byte step, done twice. -/
def slowCrc32 (l : UInt32) (p : Bytes) : UInt32 :=
  slowWord (slowWord l p) (p.drop 4)

/-- The loop that takes sixteen bytes at a time; returns the register and the
bytes left over. -/
def loop16 (l : UInt32) (p : Bytes) : UInt32 × Bytes :=
  if 16 ≤ p.length then
    loop16 (slowCrc32 (slowCrc32 l p) (p.drop 8)) (p.drop 16)
  else (l, p)
termination_by p.length
decreasing_by simp only [List.length_drop]; omega

/-- The loop that takes eight bytes at a time. -/
def loop8 (l : UInt32) (p : Bytes) : UInt32 × Bytes :=
  if 8 ≤ p.length then loop8 (slowCrc32 l p) (p.drop 8) else (l, p)
termination_by p.length
decreasing_by simp only [List.length_drop]; omega

/-- Number of bytes from `address` up to the next multiple of 16. -/
def toAligned (address : Nat) : Nat := (address + 15) / 16 * 16 - address

/-- `ExtendImpl<Slow_CRC32>` on a buffer that starts at `address`. -/
def extendImpl (address : Nat) (crc : UInt32) (buf : Bytes) : UInt32 :=
  let l := crc ^^^ 0xffffffff
  let x := toAligned address
  let (l, p) :=
    if x ≤ buf.length then ((buf.take x).foldl step1 l, buf.drop x)
    else (l, buf)
  let (l, p) := loop16 l p
  let (l, p) := loop8 l p
  p.foldl step1 l ^^^ 0xffffffff

/-- `Extend`: the checksum of a string continued by `data`. -/
def extend (crc : UInt32) (data : Bytes) : UInt32 := extendImpl 0 crc data

/-- `Value`: the checksum of `data` alone. -/
def value (data : Bytes) : UInt32 := extend 0 data

/-- `kMaskDelta`. -/
def kMaskDelta : UInt32 := 0xa282ead8

/-- `Mask`: rotate right by 15 bits and add a constant. -/
def mask (crc : UInt32) : UInt32 := ((crc >>> 15) ||| (crc <<< 17)) + kMaskDelta

/-- `Unmask`: the checksum whose masked form is given. -/
def unmask (maskedCrc : UInt32) : UInt32 :=
  let rot := maskedCrc - kMaskDelta
  (rot >>> 17) ||| (rot <<< 15)

/-! ## The tables as shift registers -/

/-- The reflected CRC-32C polynomial. -/
def polynomial : BitVec 32 := 0x82f63b78#32

/-- `count` shifts of the bit-serial CRC-32C register. -/
def shifts (count : Nat) (register : UInt32) : UInt32 :=
  ⟨(ShiftRegister.step polynomial)^[count] register.toBitVec⟩

@[simp] theorem shifts_shifts (left right : Nat) (register : UInt32) :
    shifts left (shifts right register) = shifts (left + right) register := by
  simp only [shifts, Function.iterate_add_apply]

theorem shifts_xor (count : Nat) (left right : UInt32) :
    shifts count (left ^^^ right) = shifts count left ^^^ shifts count right := by
  apply UInt32.eq_of_toBitVec_eq
  simp only [shifts, UInt32.toBitVec_xor]
  exact ShiftRegister.iterate_step_xor polynomial count _ _

/-- Entry `index` of `table` is the register after shifting out the byte
`index`, `count` places in all. -/
def Tabulates (table : Array UInt32) (count : Nat) : Prop :=
  table.toList =
    (List.range 256).map fun index => shifts count (UInt32.ofNat index)

theorem Tabulates.getD
    {table : Array UInt32}
    {count : Nat}
    (tabulates : Tabulates table count)
    (index : UInt32)
    (bound : index.toNat < 256) :
    table.getD index.toNat 0 = shifts count index := by
  rw [Array.getD_eq_getD_getElem?, ← Array.getElem?_toList, tabulates]
  simp [bound]

theorem table0_tabulates : Tabulates table0 8 := by
  unfold Tabulates
  decide +kernel

theorem table1_tabulates : Tabulates table1 16 := by
  unfold Tabulates
  decide +kernel

theorem table2_tabulates : Tabulates table2 24 := by
  unfold Tabulates
  decide +kernel

theorem table3_tabulates : Tabulates table3 32 := by
  unfold Tabulates
  decide +kernel

/-- A byte that was moved up by `count` places comes back down unchanged. -/
theorem iterate_step_shiftLeft
    (byte : BitVec 32)
    (count : Nat)
    (bound : byte.toNat < 256)
    (room : count ≤ 24) :
    (ShiftRegister.step polynomial)^[count] (byte <<< count) = byte := by
  rw [ShiftRegister.iterate_step_of_low_clear]
  · apply BitVec.eq_of_toNat_eq
    have small : byte.toNat * 2 ^ count < 2 ^ 32 := by
      calc byte.toNat * 2 ^ count
          < 256 * 2 ^ count := Nat.mul_lt_mul_of_pos_right bound (by positivity)
        _ ≤ 256 * 2 ^ 24 := Nat.mul_le_mul_left _ (Nat.pow_le_pow_right (by omega) room)
        _ = 2 ^ 32 := by norm_num
    rw [BitVec.toNat_ushiftRight, BitVec.toNat_shiftLeft, Nat.shiftLeft_eq,
      Nat.mod_eq_of_lt small, Nat.shiftRight_eq_div_pow,
      Nat.mul_div_cancel _ (by positivity)]
  · intro index below
    simp [below]

theorem shifts_shiftLeft_8 (byte : UInt32) (bound : byte.toNat < 256) :
    shifts 8 (byte <<< 8) = byte :=
  UInt32.eq_of_toBitVec_eq
    (iterate_step_shiftLeft byte.toBitVec 8 bound (by omega))

theorem shifts_shiftLeft_16 (byte : UInt32) (bound : byte.toNat < 256) :
    shifts 16 (byte <<< 16) = byte :=
  UInt32.eq_of_toBitVec_eq
    (iterate_step_shiftLeft byte.toBitVec 16 bound (by omega))

theorem shifts_shiftLeft_24 (byte : UInt32) (bound : byte.toNat < 256) :
    shifts 24 (byte <<< 24) = byte :=
  UInt32.eq_of_toBitVec_eq
    (iterate_step_shiftLeft byte.toBitVec 24 bound (by omega))

theorem toNat_and_255_lt (word : UInt32) : (word &&& 0xff).toNat < 256 := by
  have le : word.toNat &&& 255 ≤ 255 := Nat.and_le_right
  simpa using Nat.lt_succ_of_le le

theorem toNat_shiftRight_24_lt (word : UInt32) : (word >>> 24).toNat < 256 := by
  have bound := word.toNat_lt
  simp only [UInt32.toNat_shiftRight, Nat.shiftRight_eq_div_pow]
  simp
  omega

theorem toNat_toUInt32_lt (byte : UInt8) : byte.toUInt32.toNat < 256 := by
  simpa using byte.toNat_lt

/-- A word is the sum of its four bytes, each moved to its place. -/
theorem xor_bytes (c : UInt32) :
    (c &&& (0xff : UInt32)) ^^^ (((c >>> 8) &&& (0xff : UInt32)) <<< 8) ^^^
      (((c >>> 16) &&& (0xff : UInt32)) <<< 16) ^^^ ((c >>> 24) <<< 24) = c := by
  apply UInt32.eq_of_toBitVec_eq
  apply BitVec.eq_of_getLsbD_eq
  intro index bound
  simp only [UInt32.toBitVec_xor, UInt32.toBitVec_and, UInt32.toBitVec_shiftLeft,
    UInt32.toBitVec_shiftRight, BitVec.getLsbD_xor]
  interval_cases index <;> simp

/-- Loading four bytes adds each of them, moved to its place. -/
theorem decodeFixed32_eq_xor (b0 b1 b2 b3 : UInt8) (rest : Bytes) :
    decodeFixed32 (b0 :: b1 :: b2 :: b3 :: rest) =
      b0.toUInt32 ^^^ (b1.toUInt32 <<< 8) ^^^ (b2.toUInt32 <<< 16) ^^^
        (b3.toUInt32 <<< 24) := by
  apply UInt32.eq_of_toBitVec_eq
  apply BitVec.eq_of_getLsbD_eq
  intro index bound
  simp only [decodeFixed32, List.getD_cons_zero, List.getD_cons_succ,
    UInt32.toBitVec_or, UInt32.toBitVec_xor, UInt32.toBitVec_shiftLeft,
    UInt8.toBitVec_toUInt32, BitVec.getLsbD_or, BitVec.getLsbD_xor]
  interval_cases index <;> simp

/-- Eight shifts look the low byte up and move the rest down. -/
theorem shifts_8 (x : UInt32) :
    shifts 8 x = table0.getD (x &&& 0xff).toNat 0 ^^^ (x >>> 8) := by
  have split : x = (x &&& (0xff : UInt32)) ^^^ ((x >>> 8) <<< 8) := by
    apply UInt32.eq_of_toBitVec_eq
    apply BitVec.eq_of_getLsbD_eq
    intro index bound
    simp only [UInt32.toBitVec_xor, UInt32.toBitVec_and,
      UInt32.toBitVec_shiftLeft, UInt32.toBitVec_shiftRight,
      BitVec.getLsbD_xor]
    interval_cases index <;> simp
  have moved : shifts 8 ((x >>> 8) <<< 8) = x >>> 8 := by
    apply UInt32.eq_of_toBitVec_eq
    simp only [shifts]
    rw [ShiftRegister.iterate_step_of_low_clear]
    · apply BitVec.eq_of_getLsbD_eq
      intro index bound
      simp only [UInt32.toBitVec_shiftLeft, UInt32.toBitVec_shiftRight]
      interval_cases index <;> simp
    · intro index below
      simp only [UInt32.toBitVec_shiftLeft, UInt32.toBitVec_shiftRight]
      interval_cases index <;> simp
  rw [table0_tabulates.getD _ (toNat_and_255_lt x)]
  conv_lhs => rw [split]
  rw [shifts_xor, moved]

/-- One table step is eight shifts of the register with the byte added. -/
theorem step1_eq_shifts (l : UInt32) (byte : UInt8) :
    step1 l byte = shifts 8 (l ^^^ byte.toUInt32) := by
  have low : (l ^^^ byte.toUInt32) &&& 0xff = (l &&& 0xff) ^^^ byte.toUInt32 := by
    apply UInt32.eq_of_toBitVec_eq
    apply BitVec.eq_of_getLsbD_eq
    intro index bound
    simp only [UInt32.toBitVec_xor, UInt32.toBitVec_and, UInt8.toBitVec_toUInt32]
    interval_cases index <;> simp
  have high : (l ^^^ byte.toUInt32) >>> 8 = l >>> 8 := by
    apply UInt32.eq_of_toBitVec_eq
    apply BitVec.eq_of_getLsbD_eq
    intro index bound
    simp only [UInt32.toBitVec_xor, UInt32.toBitVec_shiftRight,
      UInt8.toBitVec_toUInt32]
    interval_cases index <;> simp
  rw [shifts_8, low, high, step1]

/-- The four-table step is thirty-two shifts. -/
theorem slowWord_eq_shifts (l : UInt32) (p : Bytes) :
    slowWord l p = shifts 32 (l ^^^ decodeFixed32 p) := by
  simp only [slowWord]
  generalize l ^^^ decodeFixed32 p = c
  rw [table3_tabulates.getD _ (toNat_and_255_lt _),
    table2_tabulates.getD _ (toNat_and_255_lt _),
    table1_tabulates.getD _ (toNat_and_255_lt _),
    table0_tabulates.getD _ (toNat_shiftRight_24_lt _)]
  have second : shifts 32 (((c >>> 8) &&& (0xff : UInt32)) <<< 8) =
      shifts 24 ((c >>> 8) &&& 0xff) := by
    rw [← shifts_shifts 24 8, shifts_shiftLeft_8 _ (toNat_and_255_lt _)]
  have third : shifts 32 (((c >>> 16) &&& (0xff : UInt32)) <<< 16) =
      shifts 16 ((c >>> 16) &&& 0xff) := by
    rw [← shifts_shifts 16 16, shifts_shiftLeft_16 _ (toNat_and_255_lt _)]
  have fourth : shifts 32 ((c >>> 24) <<< 24) = shifts 8 (c >>> 24) := by
    rw [← shifts_shifts 8 24, shifts_shiftLeft_24 _ (toNat_shiftRight_24_lt _)]
  conv_rhs => rw [← xor_bytes c]
  rw [shifts_xor, shifts_xor, shifts_xor, second, third, fourth]

/-- The four-table step is four single-byte steps. -/
theorem slowWord_eq_foldl (l : UInt32) (b0 b1 b2 b3 : UInt8) (rest : Bytes) :
    slowWord l (b0 :: b1 :: b2 :: b3 :: rest) =
      [b0, b1, b2, b3].foldl step1 l := by
  rw [slowWord_eq_shifts, decodeFixed32_eq_xor]
  have add (register byte : UInt32) (count : Nat) (moved : UInt32)
      (back : shifts count moved = byte) :
      shifts 8 (shifts count register ^^^ byte) =
        shifts (8 + count) (register ^^^ moved) := by
    rw [← back, ← shifts_xor, shifts_shifts]
  simp only [List.foldl_cons, List.foldl_nil, step1_eq_shifts]
  rw [add _ _ 8 _ (shifts_shiftLeft_8 _ (toNat_toUInt32_lt b1)),
    add _ _ 16 _ (shifts_shiftLeft_16 _ (toNat_toUInt32_lt b2)),
    add _ _ 24 _ (shifts_shiftLeft_24 _ (toNat_toUInt32_lt b3))]
  simp only [UInt32.xor_assoc]

/-- `Slow_CRC32` advances the register by the next eight bytes. -/
theorem slowCrc32_eq_foldl (l : UInt32) (p : Bytes) (enough : 8 ≤ p.length) :
    slowCrc32 l p = (p.take 8).foldl step1 l := by
  match p, enough with
  | b0 :: b1 :: b2 :: b3 :: b4 :: b5 :: b6 :: b7 :: rest, _ =>
      simp only [slowCrc32, List.drop_succ_cons, List.drop_zero,
        slowWord_eq_foldl]
      simp

/-! ## The loops of `ExtendImpl` -/

theorem loop16_spec (l : UInt32) (p : Bytes) :
    (loop16 l p).2.foldl step1 (loop16 l p).1 = p.foldl step1 l := by
  fun_induction loop16 l p with
  | case1 l p enough inductionHypothesis =>
      rw [inductionHypothesis, slowCrc32_eq_foldl _ _ (by simp; omega),
        slowCrc32_eq_foldl _ _ (by omega), ← List.foldl_append,
        ← List.foldl_append, ← List.append_assoc, ← List.take_add,
        List.take_append_drop]
  | case2 l p short => rfl

theorem loop8_spec (l : UInt32) (p : Bytes) :
    (loop8 l p).2.foldl step1 (loop8 l p).1 = p.foldl step1 l := by
  fun_induction loop8 l p with
  | case1 l p enough inductionHypothesis =>
      rw [inductionHypothesis, slowCrc32_eq_foldl _ _ enough,
        ← List.foldl_append, List.take_append_drop]
  | case2 l p short => rfl

/-- The checksum is a fold over the bytes, wherever the buffer starts. -/
theorem extendImpl_eq_foldl (address : Nat) (crc : UInt32) (buf : Bytes) :
    extendImpl address crc buf =
      buf.foldl step1 (crc ^^^ 0xffffffff) ^^^ 0xffffffff := by
  simp only [extendImpl]
  rw [loop8_spec, loop16_spec]
  split
  · rw [← List.foldl_append, List.take_append_drop]
  · rfl

/-- Continuing a checksum is the checksum of the concatenation. -/
theorem extend_append (crc : UInt32) (first second : Bytes) :
    extend (extend crc first) second = extend crc (first ++ second) := by
  simp only [extend, extendImpl_eq_foldl, List.foldl_append, UInt32.xor_assoc,
    UInt32.xor_self, UInt32.xor_zero]

theorem extend_value (first second : Bytes) :
    extend (value first) second = value (first ++ second) :=
  extend_append 0 first second

/-- `Unmask` undoes `Mask`. -/
@[simp] theorem unmask_mask (crc : UInt32) : unmask (mask crc) = crc := by
  simp only [unmask, mask, UInt32.add_sub_cancel]
  apply UInt32.eq_of_toBitVec_eq
  apply BitVec.eq_of_getLsbD_eq
  intro index bound
  simp only [UInt32.toBitVec_or, UInt32.toBitVec_shiftLeft,
    UInt32.toBitVec_shiftRight, BitVec.getLsbD_or]
  interval_cases index <;> simp

end Crc32c
end RocksUtil
