import RocksUtil.Crc32c.Detection

/-!
# The implementations of CRC-32C

`ExtendImpl` of the source is a template over the step that takes eight bytes, and keeps
its register in a `uint64_t`.  Both of its instances compute the bit-serial CRC-32C,
whatever the address of the buffer: the one with `Slow_CRC32`, and the one with
`Fast_CRC32` if the instructions it uses do what their documentation says
(`extendImplOf_eq_bitSerial`).
-/

namespace RocksUtil
namespace Crc32c

open Coding

/-! ## The bit-serial checksum -/

/-- The register after the bits of a byte, the lowest first. -/
def feedByte (register : UInt32) (byte : UInt8) : UInt32 :=
  ⟨((List.range 8).map byte.toBitVec.getLsbD).foldl (ShiftRegister.feed polynomial)
    register.toBitVec⟩

/-- Reflected CRC-32C by the bit: the register starts from and ends with the complement
of a checksum. -/
def bitSerial (crc : UInt32) (data : Bytes) : UInt32 := ~~~(data.foldl feedByte (~~~crc))

theorem feedByte_eq_step1 (register : UInt32) (byte : UInt8) :
    feedByte register byte = step1 register byte := by
  have low : (List.range 8).map byte.toBitVec.getLsbD =
      ShiftRegister.lowBits 8 byte.toUInt32.toBitVec := by
    apply List.map_congr_left
    intro index inByte
    have bound : index < 8 := List.mem_range.mp inByte
    have wider : index < 32 := by omega
    simp [UInt8.toBitVec_toUInt32, wider]
  have whole : byte.toUInt32.toBitVec >>> 8 = 0#32 := by
    apply BitVec.eq_of_toNat_eq
    have bound := toNat_toUInt32_lt byte
    rw [BitVec.toNat_ushiftRight, Nat.shiftRight_eq_div_pow]
    exact Nat.div_eq_of_lt bound
  rw [step1_eq_shifts, shifts, UInt32.toBitVec_xor, ShiftRegister.iterate_step_xor_word,
    whole, BitVec.xor_zero, feedByte, low]

theorem bitSerial_eq_foldl (crc : UInt32) (data : Bytes) :
    bitSerial crc data = data.foldl step1 (crc ^^^ 0xffffffff) ^^^ 0xffffffff := by
  have complement (word : UInt32) : ~~~word = word ^^^ 0xffffffff := by
    apply UInt32.eq_of_toBitVec_eq
    exact (BitVec.xor_allOnes).symm
  have sameStep : feedByte = step1 := funext fun register =>
    funext fun byte => feedByte_eq_step1 register byte
  rw [bitSerial, complement, complement, sameStep]

/-! ## `ExtendImpl` -/

/-- `STEP1` on the register of the source. -/
def step1Wide (l : UInt64) (byte : UInt8) : UInt64 :=
  let c := (l &&& 0xff) ^^^ byte.toUInt64
  (table0.getD c.toNat 0).toUInt64 ^^^ (l >>> 8)

/-- Half of `Slow_CRC32` on the register of the source. -/
def slowWordWide (l : UInt64) (p : Bytes) : UInt64 :=
  let c := (l ^^^ (decodeFixed32 p).toUInt64).toUInt32
  (table3.getD (c &&& 0xff).toNat 0 ^^^
    table2.getD ((c >>> 8) &&& 0xff).toNat 0 ^^^
    table1.getD ((c >>> 16) &&& 0xff).toNat 0 ^^^
    table0.getD (c >>> 24).toNat 0).toUInt64

/-- `Slow_CRC32`, for the eight bytes at `p`. -/
def slowCrc32Wide (l : UInt64) (p : Bytes) : UInt64 :=
  slowWordWide (slowWordWide l p) (p.drop 4)

/-- What the source is compiled for. -/
inductive Target
  /-- `__SSE4_2__` and `__LP64__`. -/
  | sse42Lp64
  /-- `__SSE4_2__` only. -/
  | sse42
  /-- Neither. -/
  | portable
  deriving DecidableEq, Repr

/-- `Fast_CRC32`, for the eight bytes at `p`, over the two instructions. -/
def fastCrc32
    (mmCrc32U64 : UInt64 → UInt64 → UInt64)
    (mmCrc32U32 : UInt32 → UInt32 → UInt32)
    (target : Target)
    (l : UInt64)
    (p : Bytes) : UInt64 :=
  match target with
  | .sse42Lp64 => mmCrc32U64 l (decodeFixed64 p)
  | .sse42 =>
      let l := (mmCrc32U32 l.toUInt32 (decodeFixed32 p)).toUInt64
      (mmCrc32U32 l.toUInt32 (decodeFixed32 (p.drop 4))).toUInt64
  | .portable => slowCrc32Wide l p

/-- The loop that takes sixteen bytes at a time. -/
def loop16Of (crc32 : UInt64 → Bytes → UInt64) (l : UInt64) (p : Bytes) :
    UInt64 × Bytes :=
  if 16 ≤ p.length then
    loop16Of crc32 (crc32 (crc32 l p) (p.drop 8)) (p.drop 16)
  else (l, p)
termination_by p.length
decreasing_by simp only [List.length_drop]; omega

/-- The loop that takes eight bytes at a time. -/
def loop8Of (crc32 : UInt64 → Bytes → UInt64) (l : UInt64) (p : Bytes) :
    UInt64 × Bytes :=
  if 8 ≤ p.length then loop8Of crc32 (crc32 l p) (p.drop 8) else (l, p)
termination_by p.length
decreasing_by simp only [List.length_drop]; omega

/-- The loop up to the first 16-byte aligned byte, of a string that reaches it. -/
def align (address : Nat) (l : UInt64) (p : Bytes) : UInt64 × Bytes :=
  let x := toAligned address
  if x ≤ p.length then ((p.take x).foldl step1Wide l, p.drop x) else (l, p)

/-- `ExtendImpl<CRC32>` on a buffer that starts at `address`. -/
def extendImplOf
    (crc32 : UInt64 → Bytes → UInt64)
    (address : Nat)
    (crc : UInt32)
    (buf : Bytes) : UInt32 :=
  let l := (crc ^^^ 0xffffffff).toUInt64
  let (l, p) := align address l buf
  let (l, p) := loop16Of crc32 l p
  let (l, p) := loop8Of crc32 l p
  (p.foldl step1Wide l ^^^ 0xffffffff).toUInt32

/-! ## The register is a 32-bit word -/

/-- A step of eight bytes that advances a 32-bit register as eight steps of one byte
do. -/
def TakesEight (crc32 : UInt64 → Bytes → UInt64) : Prop :=
  ∀ (l : UInt32) (p : Bytes), 8 ≤ p.length →
    crc32 l.toUInt64 p = ((p.take 8).foldl step1 l).toUInt64

theorem step1Wide_toUInt64 (l : UInt32) (byte : UInt8) :
    step1Wide l.toUInt64 byte = (step1 l byte).toUInt64 := by
  have index : ((l.toUInt64 &&& 0xff) ^^^ byte.toUInt64).toNat =
      ((l &&& 0xff) ^^^ byte.toUInt32).toNat := by
    simp
  have rest : l.toUInt64 >>> 8 = (l >>> 8).toUInt64 := by
    apply UInt64.toNat_inj.mp
    simp
  simp only [step1Wide, step1, index, rest, UInt32.toUInt64_xor]

theorem foldl_step1Wide (l : UInt32) (p : Bytes) :
    p.foldl step1Wide l.toUInt64 = (p.foldl step1 l).toUInt64 := by
  induction p generalizing l with
  | nil => rfl
  | cons byte p inductionHypothesis =>
      rw [List.foldl_cons, step1Wide_toUInt64, inductionHypothesis, List.foldl_cons]

theorem slowWordWide_toUInt64 (l : UInt32) (p : Bytes) :
    slowWordWide l.toUInt64 p = (slowWord l p).toUInt64 := by
  have word : (l.toUInt64 ^^^ (decodeFixed32 p).toUInt64).toUInt32 =
      l ^^^ decodeFixed32 p := by
    rw [UInt64.toUInt32_xor, UInt32.toUInt32_toUInt64, UInt32.toUInt32_toUInt64]
  rw [slowWordWide, slowWord, word]

theorem slowCrc32Wide_takesEight : TakesEight slowCrc32Wide := by
  intro l p enough
  rw [slowCrc32Wide, slowWordWide_toUInt64, slowWordWide_toUInt64,
    ← slowCrc32_eq_foldl l p enough, slowCrc32]

section Instances

variable {crc32 : UInt64 → Bytes → UInt64}

theorem TakesEight.loop8
    (takes : TakesEight crc32)
    (l : UInt32)
    (p : Bytes) :
    ∃ l' : UInt32, (loop8Of crc32 l.toUInt64 p).1 = l'.toUInt64 ∧
      (loop8Of crc32 l.toUInt64 p).2.foldl step1 l' = p.foldl step1 l := by
  induction size : p.length using Nat.strongRecOn generalizing l p with
  | ind size inductionHypothesis =>
      rw [loop8Of]
      by_cases enough : 8 ≤ p.length
      · rw [if_pos enough, takes l p enough]
        obtain ⟨l', register, rest⟩ := inductionHypothesis (p.drop 8).length
          (by rw [List.length_drop]; omega) ((p.take 8).foldl step1 l) (p.drop 8) rfl
        refine ⟨l', register, ?_⟩
        rw [rest, ← List.foldl_append, List.take_append_drop]
      · rw [if_neg enough]
        exact ⟨l, rfl, rfl⟩

theorem TakesEight.loop16
    (takes : TakesEight crc32)
    (l : UInt32)
    (p : Bytes) :
    ∃ l' : UInt32, (loop16Of crc32 l.toUInt64 p).1 = l'.toUInt64 ∧
      (loop16Of crc32 l.toUInt64 p).2.foldl step1 l' = p.foldl step1 l := by
  induction size : p.length using Nat.strongRecOn generalizing l p with
  | ind size inductionHypothesis =>
      rw [loop16Of]
      by_cases enough : 16 ≤ p.length
      · have behind : 8 ≤ (p.drop 8).length := by
          rw [List.length_drop]
          omega
        rw [if_pos enough, takes l p (by omega), takes _ _ behind]
        obtain ⟨l', register, rest⟩ := inductionHypothesis (p.drop 16).length
          (by rw [List.length_drop]; omega)
          (((p.drop 8).take 8).foldl step1 ((p.take 8).foldl step1 l)) (p.drop 16) rfl
        refine ⟨l', register, ?_⟩
        rw [rest, ← List.foldl_append, ← List.foldl_append, ← List.append_assoc,
          ← List.take_add, List.take_append_drop]
      · rw [if_neg enough]
        exact ⟨l, rfl, rfl⟩

theorem align_spec (address : Nat) (l : UInt32) (p : Bytes) :
    ∃ l' : UInt32, (align address l.toUInt64 p).1 = l'.toUInt64 ∧
      (align address l.toUInt64 p).2.foldl step1 l' = p.foldl step1 l := by
  unfold align
  by_cases reaches : toAligned address ≤ p.length
  · simp only [if_pos reaches]
    refine ⟨(p.take (toAligned address)).foldl step1 l, foldl_step1Wide l _, ?_⟩
    rw [← List.foldl_append, List.take_append_drop]
  · simp only [if_neg reaches]
    exact ⟨l, rfl, rfl⟩

/-- Such an instance computes the bit-serial checksum. -/
theorem TakesEight.eq_bitSerial
    (takes : TakesEight crc32)
    (address : Nat)
    (crc : UInt32)
    (buf : Bytes) :
    extendImplOf crc32 address crc buf = bitSerial crc buf := by
  obtain ⟨l0, register0, rest0⟩ := align_spec address (crc ^^^ 0xffffffff) buf
  obtain ⟨l1, register1, rest1⟩ :=
    takes.loop16 l0 (align address (crc ^^^ 0xffffffff).toUInt64 buf).2
  obtain ⟨l2, register2, rest2⟩ := takes.loop8 l1
    (loop16Of crc32 l0.toUInt64
      (align address (crc ^^^ 0xffffffff).toUInt64 buf).2).2
  have final (l : UInt32) : (l.toUInt64 ^^^ 0xffffffff).toUInt32 = l ^^^ 0xffffffff := by
    rw [UInt64.toUInt32_xor, UInt32.toUInt32_toUInt64]
    rfl
  unfold extendImplOf
  simp only [register0, register1, register2, foldl_step1Wide]
  rw [final, rest2, rest1, rest0, bitSerial_eq_foldl]

end Instances

/-! ## The instance over the instructions -/

/-- What the documentation says of `_mm_crc32_u64`: the low word of the register is
advanced by the eight bytes of the operand, and the rest is zero. -/
def AdvancesU64 (mmCrc32U64 : UInt64 → UInt64 → UInt64) : Prop :=
  ∀ crc v, mmCrc32U64 crc v = ((encodeFixed64 v).foldl feedByte crc.toUInt32).toUInt64

/-- What the documentation says of `_mm_crc32_u32`. -/
def AdvancesU32 (mmCrc32U32 : UInt32 → UInt32 → UInt32) : Prop :=
  ∀ crc v, mmCrc32U32 crc v = (encodeFixed32 v).foldl feedByte crc

section Instructions

variable {mmCrc32U64 : UInt64 → UInt64 → UInt64} {mmCrc32U32 : UInt32 → UInt32 → UInt32}

theorem fastCrc32_takesEight
    (advancesU64 : AdvancesU64 mmCrc32U64)
    (advancesU32 : AdvancesU32 mmCrc32U32)
    (target : Target) :
    TakesEight (fastCrc32 mmCrc32U64 mmCrc32U32 target) := by
  have sameStep : feedByte = step1 := funext fun register =>
    funext fun byte => feedByte_eq_step1 register byte
  intro l p enough
  cases target with
  | sse42Lp64 =>
      rw [fastCrc32, advancesU64, encodeFixed64_decodeFixed64 p enough, sameStep,
        UInt32.toUInt32_toUInt64]
  | sse42 =>
      have behind : 4 ≤ (p.drop 4).length := by
        rw [List.length_drop]
        omega
      simp only [fastCrc32, advancesU32 _ _, UInt32.toUInt32_toUInt64, sameStep]
      rw [encodeFixed32_decodeFixed32 p (by omega), encodeFixed32_decodeFixed32 _ behind,
        ← List.foldl_append, ← List.take_add]
  | portable => exact slowCrc32Wide_takesEight l p enough

/-- A checksum that is continued over pieces, wherever each of them lies, is that of the
whole string. -/
theorem TakesEight.pieces
    {crc32 : UInt64 → Bytes → UInt64}
    (takes : TakesEight crc32)
    (crc : UInt32)
    (pieces : List (Nat × Bytes)) :
    pieces.foldl (fun crc piece => extendImplOf crc32 piece.1 crc piece.2) crc =
      bitSerial crc (pieces.map Prod.snd).flatten := by
  induction pieces generalizing crc with
  | nil =>
      simp [bitSerial]
  | cons piece pieces inductionHypothesis =>
      rw [List.foldl_cons, inductionHypothesis, takes.eq_bitSerial, List.map_cons,
        List.flatten_cons, bitSerial, bitSerial, bitSerial, UInt32.not_not,
        List.foldl_append]

/-- Strings that differ within four bytes in a row have different checksums. -/
theorem TakesEight.ne
    {crc32 : UInt64 → Bytes → UInt64}
    (takes : TakesEight crc32)
    {left right : Bytes}
    (differ : DifferWithin 4 left right)
    (here there : Nat)
    (crc : UInt32) :
    extendImplOf crc32 here crc left ≠ extendImplOf crc32 there crc right := by
  intro same
  rw [takes.eq_bitSerial, takes.eq_bitSerial, bitSerial_eq_foldl, bitSerial_eq_foldl]
    at same
  exact differ.foldl_ne _ ((UInt32.xor_left_inj _).mp same)

/-- Both instances of `ExtendImpl` are the bit-serial checksum, for every address, and
so continue it over any pieces of a string; `Extend` continues `Value`. -/
theorem extendImplOf_eq_bitSerial
    (advancesU64 : AdvancesU64 mmCrc32U64)
    (advancesU32 : AdvancesU32 mmCrc32U32)
    (target : Target) :
    (∀ crc32 ∈ [slowCrc32Wide, fastCrc32 mmCrc32U64 mmCrc32U32 target],
      (∀ address crc buf, extendImplOf crc32 address crc buf = bitSerial crc buf) ∧
      (∀ here there first second,
        extendImplOf crc32 here (extendImplOf crc32 there 0 first) second =
          extendImplOf crc32 there 0 (first ++ second)) ∧
      ∀ (address : Nat) (crc : UInt32) (pieces : List (Nat × Bytes)),
        pieces.foldl (fun crc piece => extendImplOf crc32 piece.1 crc piece.2) crc =
          extendImplOf crc32 address crc (pieces.map Prod.snd).flatten) ∧
    (∀ crc data, extend crc data = extendImplOf slowCrc32Wide 0 crc data) ∧
    ∀ first second, extend (value first) second = value (first ++ second) := by
  refine ⟨fun crc32 member => ?_, fun crc data => ?_, extend_value⟩
  · have takes : TakesEight crc32 := by
      rcases List.mem_pair.mp member with slow | fast
      · rw [slow]
        exact slowCrc32Wide_takesEight
      · rw [fast]
        exact fastCrc32_takesEight advancesU64 advancesU32 target
    refine ⟨takes.eq_bitSerial, fun here there first second => ?_,
      fun address crc pieces => ?_⟩
    · have whole := takes.pieces 0 [(there, first), (here, second)]
      simp only [List.foldl_cons, List.foldl_nil, List.map_cons, List.map_nil,
        List.flatten_cons, List.flatten_nil, List.append_nil] at whole
      rw [whole, takes.eq_bitSerial]
    · rw [takes.pieces, takes.eq_bitSerial]
  · rw [slowCrc32Wide_takesEight.eq_bitSerial, bitSerial_eq_foldl, extend,
      extendImpl_eq_foldl]

end Instructions

/-- Instructions that do what their documentation says, on nine digits. -/
theorem extendImplOf_eq_bitSerial_digits :
    extendImplOf
        (fastCrc32
          (fun crc v => ((encodeFixed64 v).foldl feedByte crc.toUInt32).toUInt64)
          (fun crc v => (encodeFixed32 v).foldl feedByte crc) .sse42Lp64)
        5 0 [0x31, 0x32, 0x33, 0x34, 0x35, 0x36, 0x37, 0x38, 0x39] = 0xe3069283 := by
  have both := (extendImplOf_eq_bitSerial (fun _ _ => rfl) (fun _ _ => rfl) .sse42Lp64).1
  rw [(both _ (List.mem_pair.mpr (.inr rfl))).1]
  decide +kernel

end Crc32c
end RocksUtil
