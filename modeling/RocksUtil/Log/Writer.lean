import RocksUtil.Crc32c.Extend
import RocksUtil.Log.Format

/-!
# The log writer

`log::Writer` of the source: `AddRecord` cuts a record into fragments that each
fit in the current 32768-byte block, and `EmitPhysicalRecord` appends one
fragment behind its header.  The destination is reached only through `Append`
and `Flush`, so the writer is generic in it.
-/

namespace RocksUtil
namespace Log

open Coding

/-- The two operations of `WritableFileWriter` the log writer uses. -/
structure Destination (δ : Type) where
  /-- `Append(data)`. -/
  append : Bytes → δ → Status × δ
  /-- `Flush()`. -/
  flush : δ → Status × δ

/-- The state of a `log::Writer`. -/
structure Writer (δ : Type) where
  /-- `dest_`. -/
  dest : δ
  /-- `block_offset_`: the current offset in the block. -/
  blockOffset : Nat
  /-- `log_number_`. -/
  logNumber : UInt64
  /-- `recycle_log_files_`. -/
  recycleLogFiles : Bool

namespace Writer

variable {δ : Type}

/-- The constructor of `log::Writer`. -/
def new (dest : δ) (logNumber : UInt64) (recycleLogFiles : Bool) : Writer δ where
  dest := dest
  blockOffset := 0
  logNumber := logNumber
  recycleLogFiles := recycleLogFiles

/-- An entry of `type_crc_`, the precomputed checksums of the type bytes. -/
def typeCrc (t : RecordType) : UInt32 := Crc32c.value [UInt8.ofNat t.code]

/-- Record types from `kRecyclableFullType` on carry the log number. -/
def isRecyclable (t : RecordType) : Bool :=
  decide (RecordType.recyclableFull.code ≤ t.code)

/-- The log number field: only the low 32 bits are stored. -/
def logNumberField (logNumber : UInt64) (t : RecordType) : Bytes :=
  if isRecyclable t then encodeFixed32 logNumber.toUInt32 else []

/-- The checksum of a physical record, before masking. -/
def recordCrc (logNumber : UInt64) (t : RecordType) (ptr : Bytes) : UInt32 :=
  let crc := typeCrc t
  let crc :=
    if isRecyclable t then
      Crc32c.extend crc (encodeFixed32 logNumber.toUInt32)
    else crc
  Crc32c.extend crc ptr

/-- The header `EmitPhysicalRecord` formats for payload `ptr`. -/
def formatHeader (logNumber : UInt64) (t : RecordType) (ptr : Bytes) : Bytes :=
  encodeFixed32 (Crc32c.mask (recordCrc logNumber t ptr)) ++
    [UInt8.ofNat ptr.length, UInt8.ofNat (ptr.length >>> 8),
      UInt8.ofNat t.code] ++
    logNumberField logNumber t

/-- `EmitPhysicalRecord`.  The block offset advances by the size of the header
and the payload whether or not they were appended. -/
def emitPhysicalRecord
    (D : Destination δ)
    (writer : Writer δ)
    (t : RecordType)
    (ptr : Bytes) : Status × Writer δ :=
  let header := formatHeader writer.logNumber t ptr
  let appendHeader := D.append header writer.dest
  let result :=
    if appendHeader.1.ok then
      let appendPayload := D.append ptr appendHeader.2
      if appendPayload.1.ok then D.flush appendPayload.2 else appendPayload
    else appendHeader
  (result.1, { writer with
    dest := result.2
    blockOffset := writer.blockOffset + (header.length + ptr.length) })

/-- The type `AddRecord` gives to a fragment. -/
def fragmentType (recycle start finish : Bool) : RecordType :=
  if start && finish then
    if recycle then .recyclableFull else .full
  else if start then
    if recycle then .recyclableFirst else .first
  else if finish then
    if recycle then .recyclableLast else .last
  else
    if recycle then .recyclableMiddle else .middle

/-- Number of bytes left in the current block. -/
def leftover (writer : Writer δ) : Nat := kBlockSize - writer.blockOffset

/-- `AddRecord` switches to a new block when no header fits any more, filling
the trailer with zeros.  The status of that `Append` is ignored. -/
def switchBlock (D : Destination δ) (writer : Writer δ) : Writer δ :=
  if writer.leftover < headerSize writer.recycleLogFiles then
    { writer with
      dest :=
        if 0 < writer.leftover then
          (D.append (List.replicate writer.leftover 0) writer.dest).2
        else writer.dest
      blockOffset := 0 }
  else writer

/-- Payload bytes that fit in the rest of the block, behind a header. -/
def avail (writer : Writer δ) : Nat :=
  kBlockSize - writer.blockOffset - headerSize writer.recycleLogFiles

theorem blockOffset_switchBlock (D : Destination δ) (writer : Writer δ) :
    (writer.switchBlock D).blockOffset =
      if writer.leftover < headerSize writer.recycleLogFiles then 0
      else writer.blockOffset := by
  unfold switchBlock
  split <;> rfl

@[simp] theorem recycleLogFiles_switchBlock
    (D : Destination δ)
    (writer : Writer δ) :
    (writer.switchBlock D).recycleLogFiles = writer.recycleLogFiles := by
  unfold switchBlock
  split <;> rfl

@[simp] theorem logNumber_switchBlock
    (D : Destination δ)
    (writer : Writer δ) :
    (writer.switchBlock D).logNumber = writer.logNumber := by
  unfold switchBlock
  split <;> rfl

@[simp] theorem recycleLogFiles_emitPhysicalRecord
    (D : Destination δ)
    (writer : Writer δ)
    (t : RecordType)
    (ptr : Bytes) :
    (writer.emitPhysicalRecord D t ptr).2.recycleLogFiles =
      writer.recycleLogFiles := rfl

@[simp] theorem logNumber_emitPhysicalRecord
    (D : Destination δ)
    (writer : Writer δ)
    (t : RecordType)
    (ptr : Bytes) :
    (writer.emitPhysicalRecord D t ptr).2.logNumber = writer.logNumber := rfl

@[simp] theorem isRecyclable_fragmentType (recycle start finish : Bool) :
    isRecyclable (fragmentType recycle start finish) = recycle := by
  cases recycle <;> cases start <;> cases finish <;> rfl

theorem length_formatHeader (logNumber : UInt64) (t : RecordType) (ptr : Bytes) :
    (formatHeader logNumber t ptr).length = headerSize (isRecyclable t) := by
  unfold formatHeader logNumberField
  cases isRecyclable t <;> simp [headerSize, kHeaderSize, kRecyclableHeaderSize]

@[simp] theorem blockOffset_emitPhysicalRecord
    (D : Destination δ)
    (writer : Writer δ)
    (t : RecordType)
    (ptr : Bytes) :
    (writer.emitPhysicalRecord D t ptr).2.blockOffset =
      writer.blockOffset + (headerSize (isRecyclable t) + ptr.length) := by
  rw [← length_formatHeader writer.logNumber t ptr]
  rfl

/-- Length of the next fragment of `left`. -/
def fragmentLength (writer : Writer δ) (left : Bytes) : Nat :=
  if left.length < writer.avail then left.length else writer.avail

theorem fragmentLength_eq_min (writer : Writer δ) (left : Bytes) :
    writer.fragmentLength left = min left.length writer.avail := by
  unfold fragmentLength
  split <;> omega

/-- The fragment the loop of `AddRecord` emits next, once the block has been
switched. -/
def emitFragment
    (D : Destination δ)
    (writer : Writer δ)
    (start : Bool)
    (left : Bytes) : Status × Writer δ :=
  let fragmentLength := writer.fragmentLength left
  let finish := decide (left.length = fragmentLength)
  writer.emitPhysicalRecord D
    (fragmentType writer.recycleLogFiles start finish)
    (left.take fragmentLength)

@[simp] theorem recycleLogFiles_emitFragment
    (D : Destination δ)
    (writer : Writer δ)
    (start : Bool)
    (left : Bytes) :
    (writer.emitFragment D start left).2.recycleLogFiles =
      writer.recycleLogFiles := rfl

@[simp] theorem logNumber_emitFragment
    (D : Destination δ)
    (writer : Writer δ)
    (start : Bool)
    (left : Bytes) :
    (writer.emitFragment D start left).2.logNumber = writer.logNumber := rfl

theorem blockOffset_emitFragment
    (D : Destination δ)
    (writer : Writer δ)
    (start : Bool)
    (left : Bytes) :
    (writer.emitFragment D start left).2.blockOffset =
      writer.blockOffset +
        (headerSize writer.recycleLogFiles + writer.fragmentLength left) := by
  have fits : writer.fragmentLength left ≤ left.length := by
    rw [fragmentLength_eq_min]
    omega
  simp only [emitFragment, blockOffset_emitPhysicalRecord,
    isRecyclable_fragmentType, List.length_take]
  omega

/-- Decreases along the loop of `AddRecord`: only a fragment that exactly fills
its block with a header takes no payload byte, and the next one does. -/
def loopMeasure (writer : Writer δ) (left : Bytes) : Nat :=
  2 * left.length +
    if writer.blockOffset + headerSize writer.recycleLogFiles = kBlockSize then 1
    else 0

theorem loopMeasure_emitFragment_lt
    (D : Destination δ)
    (writer : Writer δ)
    (start : Bool)
    (left : Bytes)
    (more : 0 < (left.drop
      ((writer.switchBlock D).fragmentLength left)).length) :
    ((writer.switchBlock D).emitFragment D start left).2.loopMeasure
        (left.drop ((writer.switchBlock D).fragmentLength left)) <
      writer.loopMeasure left := by
  have bounds := headerSize_bounds writer.recycleLogFiles
  have block := kBlockSize_eq
  have offset := blockOffset_switchBlock D writer
  have room : writer.leftover = kBlockSize - writer.blockOffset := rfl
  simp only [loopMeasure, blockOffset_emitFragment,
    recycleLogFiles_emitFragment, recycleLogFiles_switchBlock,
    fragmentLength_eq_min, avail, List.length_drop] at more ⊢
  by_cases switches : writer.leftover < headerSize writer.recycleLogFiles
  · rw [if_pos switches] at offset
    rw [offset] at more ⊢
    split <;> omega
  · rw [if_neg switches] at offset
    rw [offset] at more ⊢
    split <;> split <;> omega

/-- The `do`-`while` loop of `AddRecord`, with the bytes still to be written. -/
def addRecordLoop
    (D : Destination δ)
    (writer : Writer δ)
    (start : Bool)
    (left : Bytes) : Status × Writer δ :=
  let left' := left.drop ((writer.switchBlock D).fragmentLength left)
  let result := (writer.switchBlock D).emitFragment D start left
  if result.1.ok ∧ 0 < left'.length then
    addRecordLoop D result.2 false left'
  else result
termination_by writer.loopMeasure left
decreasing_by
  rename_i continues
  exact loopMeasure_emitFragment_lt D writer start left continues.2

/-- `AddRecord`. -/
def addRecord
    (D : Destination δ)
    (writer : Writer δ)
    (slice : Bytes) : Status × Writer δ :=
  writer.addRecordLoop D true slice

end Writer
end Log
end RocksUtil
