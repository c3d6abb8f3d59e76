import RocksUtil.Log.Writing

/-!
# The writer with its integers and its assertions

`AddRecord` and `EmitPhysicalRecord` once more, with the integer types of the source and
with its assertions: `none` is an assertion that fails, or a loop that is not left within
the fuel.  Each call of `EmitPhysicalRecord` is recorded.  From a block offset inside the
block no assertion fails, and the writer does what the one without them does
(`addRecord_eq`).
-/

namespace RocksUtil
namespace Log

/-- A call of `EmitPhysicalRecord`. -/
structure Emission (δ : Type) where
  /-- `dest_` when it is called. -/
  before : δ
  type : RecordType
  payload : Bytes
  /-- `dest_` when it returns. -/
  after : δ
  /-- `block_offset_` when it returns. -/
  blockOffset : UInt64

/-- The state of a `log::Writer`, with the type of `block_offset_`. -/
structure AssertingWriter (δ : Type) where
  dest : δ
  blockOffset : UInt64
  logNumber : UInt64
  recycleLogFiles : Bool

namespace AssertingWriter

variable {δ : Type}

/-- The constructor. -/
def new (dest : δ) (logNumber : UInt64) (recycleLogFiles : Bool) : AssertingWriter δ where
  dest := dest
  blockOffset := 0
  logNumber := logNumber
  recycleLogFiles := recycleLogFiles

/-- The same state, with a natural number as block offset. -/
def writer (asserting : AssertingWriter δ) : Writer δ where
  dest := asserting.dest
  blockOffset := asserting.blockOffset.toNat
  logNumber := asserting.logNumber
  recycleLogFiles := asserting.recycleLogFiles

/-- `kBlockSize`, an `unsigned int`, as a `size_t`. -/
def blockSize : UInt64 := (32768 : UInt32).toUInt64

/-- `header_size` of `AddRecord`, an `int`. -/
def headerInt (recycle : Bool) : Int32 := if recycle then 4 + 1 + 4 + 2 else 4 + 1 + 2

/-- `header_size` of `EmitPhysicalRecord`, a `size_t`. -/
def headerWord (t : RecordType) : UInt64 :=
  (headerInt (Writer.isRecyclable t)).toInt64.toUInt64

/-- `EmitPhysicalRecord`, for the `n` bytes at `ptr`. -/
def emitPhysicalRecord
    (D : Destination δ)
    (asserting : AssertingWriter δ)
    (t : RecordType)
    (ptr : Bytes)
    (n : UInt64) : Option (Status × Emission δ × AssertingWriter δ) :=
  if ¬n ≤ 0xffff then none
  else if ¬asserting.blockOffset + headerWord t + n ≤ blockSize then none
  else
    let payload := ptr.take n.toNat
    let result := asserting.writer.emitPhysicalRecord D t payload
    let blockOffset := asserting.blockOffset + (headerWord t + n)
    some (result.1, ⟨asserting.dest, t, payload, result.2.dest, blockOffset⟩,
      { asserting with dest := result.2.dest, blockOffset := blockOffset })

/-- The zeros that `AddRecord` takes a trailer from. -/
def zeros : Bytes := List.replicate 10 0

/-- `AddRecord` switches to a new block. -/
def switchBlock (D : Destination δ) (asserting : AssertingWriter δ) :
    Option (AssertingWriter δ) :=
  let leftover : Int64 := (blockSize - asserting.blockOffset).toInt64
  let headerSize := headerInt asserting.recycleLogFiles
  if ¬0 ≤ leftover then none
  else if leftover < headerSize.toInt64 then
    if 0 < leftover then
      if ¬headerSize ≤ 11 then none
      else
        some { asserting with
          dest := (D.append (zeros.take leftover.toUInt64.toNat) asserting.dest).2
          blockOffset := 0 }
    else some { asserting with blockOffset := 0 }
  else some asserting

/-- The rest of the body of the loop of `AddRecord`, up to the call of
`EmitPhysicalRecord`.  Returns `fragment_length` too. -/
def emitFragment
    (D : Destination δ)
    (asserting : AssertingWriter δ)
    (start : Bool)
    (ptr : Bytes)
    (left : UInt64) : Option (UInt64 × Status × Emission δ × AssertingWriter δ) :=
  let headerSize := headerInt asserting.recycleLogFiles
  if ¬headerSize.toInt64 ≤ (blockSize - asserting.blockOffset).toInt64 then none
  else
    let avail := blockSize - asserting.blockOffset - headerSize.toInt64.toUInt64
    let fragmentLength := if left < avail then left else avail
    let finish := left == fragmentLength
    (asserting.emitPhysicalRecord D
      (Writer.fragmentType asserting.recycleLogFiles start finish) ptr
        fragmentLength).map (fun result => (fragmentLength, result))

/-- The `do`-`while` loop of `AddRecord`, for the `left` bytes at `ptr`. -/
def addRecordLoop (D : Destination δ) :
    Nat → AssertingWriter δ → Bool → Bytes → UInt64 →
      Option (Status × List (Emission δ) × AssertingWriter δ)
  | 0, _, _, _, _ => none
  | fuel + 1, asserting, start, ptr, left => do
      let asserting ← asserting.switchBlock D
      let (fragmentLength, s, emission, asserting) ←
        asserting.emitFragment D start ptr left
      let left := left - fragmentLength
      if s.ok && 0 < left then
        let (s, emissions, asserting) ←
          addRecordLoop D fuel asserting false (ptr.drop fragmentLength.toNat) left
        some (s, emission :: emissions, asserting)
      else
        some (s, [emission], asserting)

/-- `AddRecord`. -/
def addRecord
    (D : Destination δ)
    (fuel : Nat)
    (asserting : AssertingWriter δ)
    (slice : Bytes) : Option (Status × List (Emission δ) × AssertingWriter δ) :=
  addRecordLoop D fuel asserting true slice (UInt64.ofNat slice.length)

/-- Run `AddRecord` on each record in turn. -/
def addRecords (D : Destination δ) (fuel : Nat) :
    AssertingWriter δ → List Bytes → Option (List (Emission δ) × AssertingWriter δ)
  | asserting, [] => some ([], asserting)
  | asserting, slice :: slices => do
      let (_, emissions, asserting) ← asserting.addRecord D fuel slice
      let (others, asserting) ← addRecords D fuel asserting slices
      some (emissions ++ others, asserting)

/-! ## Integers -/

@[simp] theorem toNat_blockSize : blockSize.toNat = kBlockSize := rfl

theorem toInt_headerInt (recycle : Bool) :
    (headerInt recycle).toInt64.toInt = headerSize recycle := by
  cases recycle <;> decide

theorem toNat_headerInt (recycle : Bool) :
    (headerInt recycle).toInt64.toUInt64.toNat = headerSize recycle := by
  cases recycle <;> decide

theorem toNat_headerWord (t : RecordType) :
    (headerWord t).toNat = headerSize (Writer.isRecyclable t) :=
  toNat_headerInt _

section Steps

variable {asserting : AssertingWriter δ}

theorem toNat_leftover (inside : asserting.blockOffset.toNat ≤ kBlockSize) :
    (blockSize - asserting.blockOffset).toNat = asserting.writer.leftover := by
  rw [UInt64.toNat_sub_of_le _ _ (UInt64.le_iff_toNat_le.mpr inside)]
  rfl

theorem toInt_leftover (inside : asserting.blockOffset.toNat ≤ kBlockSize) :
    (blockSize - asserting.blockOffset).toInt64.toInt = asserting.writer.leftover := by
  have natural := toNat_leftover inside
  have small : asserting.writer.leftover ≤ kBlockSize := Nat.sub_le _ _
  rw [kBlockSize_eq] at small
  change (blockSize - asserting.blockOffset).toBitVec.toInt = _
  rw [BitVec.toInt_eq_toNat_of_lt, UInt64.toNat_toBitVec, natural]
  rw [UInt64.toNat_toBitVec, natural]
  omega

/-- No assertion fails when the block is switched. -/
theorem switchBlock_eq
    (D : Destination δ)
    (inside : asserting.blockOffset.toNat ≤ kBlockSize) :
    ∃ switched, asserting.switchBlock D = some switched ∧
      switched.writer = asserting.writer.switchBlock D := by
  have bounds := headerSize_bounds asserting.recycleLogFiles
  have leftover := toInt_leftover inside
  have header := toInt_headerInt asserting.recycleLogFiles
  have zero : (0 : Int64).toInt = 0 := rfl
  have nonnegative : (0 : Int64) ≤ (blockSize - asserting.blockOffset).toInt64 := by
    rw [Int64.le_iff_toInt_le, leftover, zero]
    omega
  have small : headerInt asserting.recycleLogFiles ≤ 11 := by
    cases asserting.recycleLogFiles <;> decide
  have switches : (blockSize - asserting.blockOffset).toInt64 <
      (headerInt asserting.recycleLogFiles).toInt64 ↔
        asserting.writer.leftover < headerSize asserting.writer.recycleLogFiles := by
    rw [Int64.lt_iff_toInt_lt, leftover, header]
    exact Int.ofNat_lt
  have positive : (0 : Int64) < (blockSize - asserting.blockOffset).toInt64 ↔
      0 < asserting.writer.leftover := by
    rw [Int64.lt_iff_toInt_lt, leftover, zero]
    exact Int.natCast_pos
  unfold switchBlock Writer.switchBlock
  simp only [not_true_eq_false, if_false, nonnegative, small, switches, positive]
  split
  · rename_i short
    split
    · refine ⟨_, rfl, ?_⟩
      have trailer : zeros.take
          (blockSize - asserting.blockOffset).toInt64.toUInt64.toNat =
            List.replicate asserting.writer.leftover 0 := by
        have few : asserting.writer.leftover < headerSize asserting.recycleLogFiles := short
        rw [UInt64.toUInt64_toInt64, toNat_leftover inside, zeros, List.take_replicate,
          Nat.min_eq_left (by omega)]
      rw [trailer]
      rfl
    · exact ⟨_, rfl, rfl⟩
  · exact ⟨_, rfl, rfl⟩

/-- No assertion fails when a fragment is emitted that fits in the block. -/
theorem emitPhysicalRecord_eq
    (D : Destination δ)
    (asserting : AssertingWriter δ)
    (t : RecordType)
    (ptr : Bytes)
    (n : UInt64)
    (enough : n.toNat ≤ ptr.length)
    (fits : asserting.blockOffset.toNat + headerSize (Writer.isRecyclable t) + n.toNat ≤
      kBlockSize) :
    ∃ emission emitted,
      asserting.emitPhysicalRecord D t ptr n =
        some ((asserting.writer.emitPhysicalRecord D t (ptr.take n.toNat)).1, emission,
          emitted) ∧
      emitted.writer = (asserting.writer.emitPhysicalRecord D t (ptr.take n.toNat)).2 ∧
      emission = ⟨asserting.dest, t, ptr.take n.toNat, emitted.dest,
        emitted.blockOffset⟩ := by
  have header := toNat_headerWord t
  rw [kBlockSize_eq] at fits
  have small : n ≤ 0xffff := by
    have cap : (0xffff : UInt64).toNat = 0xffff := rfl
    rw [UInt64.le_iff_toNat_le, cap]
    omega
  have inBlock : asserting.blockOffset + headerWord t + n ≤ blockSize := by
    rw [UInt64.le_iff_toNat_le, UInt64.toNat_add, UInt64.toNat_add, header, toNat_blockSize,
      kBlockSize_eq]
    omega
  unfold emitPhysicalRecord
  rw [if_neg (not_not.mpr small), if_neg (not_not.mpr inBlock)]
  refine ⟨_, _, rfl, ?_, rfl⟩
  have offset : (asserting.blockOffset + (headerWord t + n)).toNat =
      (asserting.writer.emitPhysicalRecord D t (ptr.take n.toNat)).2.blockOffset := by
    have same : asserting.writer.blockOffset = asserting.blockOffset.toNat := rfl
    rw [Writer.blockOffset_emitPhysicalRecord, UInt64.toNat_add, UInt64.toNat_add, header,
      List.length_take, same]
    omega
  unfold writer
  dsimp only
  rw [offset]
  rfl

/-- No assertion fails when the next fragment is emitted. -/
theorem emitFragment_eq
    (D : Destination δ)
    (asserting : AssertingWriter δ)
    (start : Bool)
    {ptr : Bytes}
    (sized : ptr.length < 2 ^ 64)
    (room : asserting.blockOffset.toNat + headerSize asserting.recycleLogFiles ≤
      kBlockSize) :
    ∃ fragmentLength emission emitted,
      asserting.emitFragment D start ptr (UInt64.ofNat ptr.length) =
        some (fragmentLength, (asserting.writer.emitFragment D start ptr).1, emission,
          emitted) ∧
      fragmentLength.toNat = asserting.writer.fragmentLength ptr ∧
      emitted.writer = (asserting.writer.emitFragment D start ptr).2 ∧
      emission = ⟨asserting.dest,
        Writer.fragmentType asserting.recycleLogFiles start
          (decide (ptr.length = asserting.writer.fragmentLength ptr)),
        ptr.take (asserting.writer.fragmentLength ptr), emitted.dest,
        emitted.blockOffset⟩ := by
  have inside : asserting.blockOffset.toNat ≤ kBlockSize := by omega
  have leftover := toNat_leftover inside
  have leftoverEq : asserting.writer.leftover =
      kBlockSize - asserting.blockOffset.toNat := rfl
  have header := toNat_headerInt asserting.recycleLogFiles
  have length : (UInt64.ofNat ptr.length).toNat = ptr.length :=
    UInt64.toNat_ofNat_of_lt' sized
  have enough : (headerInt asserting.recycleLogFiles).toInt64 ≤
      (blockSize - asserting.blockOffset).toInt64 := by
    rw [Int64.le_iff_toInt_le, toInt_headerInt, toInt_leftover inside, leftoverEq]
    omega
  have avail : (blockSize - asserting.blockOffset -
      (headerInt asserting.recycleLogFiles).toInt64.toUInt64).toNat =
        asserting.writer.avail := by
    rw [UInt64.toNat_sub_of_le, leftover, header]
    · rfl
    · rw [UInt64.le_iff_toNat_le, leftover, header, leftoverEq]
      omega
  have fragment : (if UInt64.ofNat ptr.length < blockSize - asserting.blockOffset -
      (headerInt asserting.recycleLogFiles).toInt64.toUInt64 then UInt64.ofNat ptr.length
      else blockSize - asserting.blockOffset -
        (headerInt asserting.recycleLogFiles).toInt64.toUInt64).toNat =
        asserting.writer.fragmentLength ptr := by
    rw [apply_ite UInt64.toNat]
    simp only [UInt64.lt_iff_toNat_lt, avail, length]
    rfl
  unfold emitFragment
  rw [if_neg (not_not.mpr enough)]
  dsimp only
  generalize (if UInt64.ofNat ptr.length < blockSize - asserting.blockOffset -
      (headerInt asserting.recycleLogFiles).toInt64.toUInt64 then UInt64.ofNat ptr.length
      else blockSize - asserting.blockOffset -
        (headerInt asserting.recycleLogFiles).toInt64.toUInt64) = fragmentLength
    at fragment ⊢
  have finish : (UInt64.ofNat ptr.length == fragmentLength) =
      decide (ptr.length = asserting.writer.fragmentLength ptr) := by
    rw [Bool.eq_iff_iff, beq_iff_eq, decide_eq_true_iff, ← UInt64.toNat_inj, length,
      fragment]
  have shorter := Writer.fragmentLength_eq_min asserting.writer ptr
  have availEq : asserting.writer.avail = kBlockSize - asserting.blockOffset.toNat -
      headerSize asserting.recycleLogFiles := rfl
  obtain ⟨emission, emitted, emits, same, recorded⟩ := emitPhysicalRecord_eq D asserting
    (Writer.fragmentType asserting.recycleLogFiles start
      (UInt64.ofNat ptr.length == fragmentLength))
    ptr fragmentLength (by omega)
    (by rw [Writer.isRecyclable_fragmentType]; omega)
  rw [emits, Option.map_some]
  rw [fragment, finish] at same recorded
  refine ⟨fragmentLength, emission, emitted, ?_, fragment, same, recorded⟩
  rw [fragment, finish]
  rfl

end Steps

end AssertingWriter

end Log
end RocksUtil
