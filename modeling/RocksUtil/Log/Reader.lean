import Mathlib
import RocksUtil.Crc32c.Extend
import RocksUtil.Env.SequentialFile
import RocksUtil.Log.Format

/-!
# The log reader

`log::Reader` of the source.  `ReadPhysicalRecord` takes the next physical
record out of the block held in `buffer_`, reading further blocks as needed;
`ReadRecord` assembles logical records from physical ones; `UnmarkEOF` makes
the reader look at the file again after it has grown.

The codes `ReadPhysicalRecord` returns are plain numbers, as in the source: the
reader's own codes continue the numbering of the types found on disk.  `buffer_`
is the byte string it denotes; how it is laid out inside `backing_store_` is not
observable.  The loop of `ReadRecord` need not end, so it is given fuel, one
unit for each physical record it asks for.
-/

namespace RocksUtil
namespace Log

open Coding

/-- `WALRecoveryMode`. -/
inductive WALRecoveryMode
  | tolerateCorruptedTailRecords
  | absoluteConsistency
  | pointInTimeRecovery
  | skipAnyCorruptedRecords
  deriving DecidableEq, Repr

/-- One call of `Reporter::Corruption`. -/
structure Report where
  /-- The approximate number of bytes dropped. -/
  bytes : Nat
  /-- The reason. -/
  status : Status
  deriving DecidableEq, Repr

/-- The state of a `log::Reader` over a file state `φ`. -/
structure Reader (φ : Type) where
  /-- `file_`. -/
  file : φ
  /-- `reporter_`: `none` is a null pointer, otherwise the calls it received. -/
  reporter : Option (List Report)
  /-- `checksum_`. -/
  checksum : Bool
  /-- `buffer_`. -/
  buffer : Bytes
  /-- `eof_`: the last read returned less than a block. -/
  eof : Bool
  /-- `read_error_`. -/
  readError : Bool
  /-- `eof_offset_`: the file position within its block at the last end of
  file. -/
  eofOffset : Nat
  /-- `last_record_offset_`. -/
  lastRecordOffset : UInt64
  /-- `end_of_buffer_offset_`: the file offset just behind `buffer_`. -/
  endOfBufferOffset : UInt64
  /-- `initial_offset_`. -/
  initialOffset : UInt64
  /-- `log_number_`. -/
  logNumber : UInt64
  /-- `recycled_`: the log starts with a recyclable record. -/
  recycled : Bool

/-- `kEof`. -/
def kEof : Nat := kMaxRecordType + 1

/-- `kBadRecord`: an invalid physical record. -/
def kBadRecord : Nat := kMaxRecordType + 2

/-- `kBadHeader`: no complete header or payload before the end of the file. -/
def kBadHeader : Nat := kMaxRecordType + 3

/-- `kOldRecord`: a record of a previous user of the log file. -/
def kOldRecord : Nat := kMaxRecordType + 4

/-- `kBadRecordLen`. -/
def kBadRecordLen : Nat := kMaxRecordType + 5

/-- `kBadRecordChecksum`. -/
def kBadRecordChecksum : Nat := kMaxRecordType + 6

namespace Reader

variable {φ : Type}

/-- The constructor of `log::Reader`. -/
def new
    (file : φ)
    (reporter : Option (List Report))
    (checksum : Bool)
    (initialOffset logNumber : UInt64) : Reader φ where
  file := file
  reporter := reporter
  checksum := checksum
  buffer := []
  eof := false
  readError := false
  eofOffset := 0
  lastRecordOffset := 0
  endOfBufferOffset := 0
  initialOffset := initialOffset
  logNumber := logNumber
  recycled := false

/-- The file offset of the first byte of `buffer_`. -/
def bufferOffset (reader : Reader φ) : UInt64 :=
  reader.endOfBufferOffset - UInt64.ofNat reader.buffer.length

/-- `ReportDrop`: drops before the initial offset are not reported. -/
def reportDrop (reader : Reader φ) (bytes : Nat) (reason : Status) : Reader φ :=
  match reader.reporter with
  | none => reader
  | some calls =>
      if reader.initialOffset ≤ reader.bufferOffset - UInt64.ofNat bytes then
        { reader with reporter := some (calls ++ [⟨bytes, reason⟩]) }
      else reader

/-- `ReportCorruption`. -/
def reportCorruption (reader : Reader φ) (bytes : Nat) (reason : String) :
    Reader φ :=
  reader.reportDrop bytes (.Corruption reason)

/-- What `ReadMore` hands back: more input, or an error code and the number of
bytes dropped. -/
inductive MoreResult (φ : Type)
  | more (reader : Reader φ)
  | stop (error dropSize : Nat) (reader : Reader φ)

/-- `ReadMore`: replace the buffer by the next block of the file. -/
def readMore (F : SequentialFile φ) (reader : Reader φ) (dropSize : Nat) :
    MoreResult φ :=
  if !reader.eof && !reader.readError then
    let read := F.read kBlockSize reader.file
    let reader := { reader with
      file := read.2
      buffer := read.1.2
      endOfBufferOffset :=
        reader.endOfBufferOffset + UInt64.ofNat read.1.2.length }
    if !read.1.1.ok then
      let reader := { reader with buffer := [] }
      let reader := reader.reportDrop kBlockSize read.1.1
      .stop kEof dropSize { reader with readError := true }
    else if reader.buffer.length < kBlockSize then
      .more { reader with eof := true, eofOffset := reader.buffer.length }
    else .more reader
  else if reader.buffer.length ≠ 0 then
    -- A truncated header at the end of the file.
    .stop kBadHeader reader.buffer.length { reader with buffer := [] }
  else .stop kEof dropSize { reader with buffer := [] }

/-- What `ReadPhysicalRecord` returns and stores through its arguments.  The
fragment is empty where the source leaves it untouched, as no caller looks at
it then. -/
structure PhysicalRead (φ : Type) where
  /-- The record type, or one of the reader's own codes. -/
  code : Nat
  /-- `*result`. -/
  fragment : Bytes
  /-- `*drop_size`. -/
  dropSize : Nat
  /-- The reader afterwards. -/
  reader : Reader φ

/-- Conversion of a `char`, which is signed, to an `unsigned int`. -/
def charToUnsigned (char : UInt8) : Nat :=
  if char.toNat < 128 then char.toNat else 2 ^ 32 - 256 + char.toNat

/-- The type field of a header. -/
def headerType (header : Bytes) : Nat := charToUnsigned (header.getD 6 0)

/-- The length field of a header. -/
def headerLength (header : Bytes) : Nat :=
  (header.getD 4 0).toNat ||| ((header.getD 5 0).toNat <<< 8)

/-- The types whose header carries a log number. -/
def isRecyclableType (type : Nat) : Bool :=
  decide (RecordType.recyclableFull.code ≤ type ∧
    type ≤ RecordType.recyclableLast.code)

/-- The checksum stored in a header agrees with type, log number and payload. -/
def crcMatches (header : Bytes) (headerSize length : Nat) : Bool :=
  Crc32c.value ((header.drop 6).take (length + headerSize - 6)) ==
    Crc32c.unmask (decodeFixed32 header)

/-- The part of `ReadPhysicalRecord` behind the parsed header. -/
def takeRecord (reader : Reader φ) (headerSize type length dropSize : Nat) :
    PhysicalRead φ :=
  let header := reader.buffer
  if reader.buffer.length < headerSize + length then
    let dropSize := reader.buffer.length
    let reader := { reader with buffer := [] }
    if !reader.eof then ⟨kBadRecordLen, [], dropSize, reader⟩
    else if dropSize ≠ 0 then ⟨kBadHeader, [], dropSize, reader⟩
    else ⟨kEof, [], dropSize, reader⟩
  else if type = RecordType.zero.code ∧ length = 0 then
    -- Left behind by writers that preallocate the file.
    ⟨kBadRecord, [], dropSize, { reader with buffer := [] }⟩
  else if reader.checksum && !crcMatches header headerSize length then
    -- The length itself may be wrong, so the rest of the block is dropped.
    ⟨kBadRecordChecksum, [], reader.buffer.length, { reader with buffer := [] }⟩
  else
    let reader := { reader with
      buffer := reader.buffer.drop (headerSize + length) }
    if reader.bufferOffset - UInt64.ofNat headerSize - UInt64.ofNat length <
        reader.initialOffset then
      ⟨kBadRecord, [], dropSize, reader⟩
    else ⟨type, (header.drop headerSize).take length, dropSize, reader⟩

/-- A recyclable record at the very start of the file marks a recycled log. -/
def noteRecycled (reader : Reader φ) : Reader φ :=
  if reader.bufferOffset = 0 then { reader with recycled := true } else reader

/-- Bounds how often `ReadPhysicalRecord` can still read a block. -/
def readsLeft (reader : Reader φ) : Nat :=
  if reader.eof || reader.readError then 0
  else if reader.buffer.length < kRecyclableHeaderSize then 2
  else 1

theorem readsLeft_readMore
    {F : SequentialFile φ}
    {reader next : Reader φ}
    {dropSize : Nat}
    (short : reader.buffer.length < kRecyclableHeaderSize)
    (more : reader.readMore F dropSize = .more next) :
    next.readsLeft < reader.readsLeft := by
  unfold readMore at more
  split at more
  · rename_i live
    simp only [Bool.and_eq_true, Bool.not_eq_true'] at live
    have two : reader.readsLeft = 2 := by
      simp [readsLeft, live.1, live.2, short]
    rw [two]
    dsimp only at more
    split at more
    · cases more
    · split at more
      · cases more
        simp [readsLeft]
      · rename_i full
        cases more
        have one : ¬(F.read kBlockSize reader.file).1.2.length <
            kRecyclableHeaderSize := by
          have block := kBlockSize_eq
          have header := kRecyclableHeaderSize_eq
          omega
        simp [readsLeft, live.1, live.2, one]
  · split at more <;> cases more

@[simp] theorem buffer_noteRecycled (reader : Reader φ) :
    reader.noteRecycled.buffer = reader.buffer := by
  unfold noteRecycled
  split <;> rfl

@[simp] theorem readsLeft_noteRecycled (reader : Reader φ) :
    reader.noteRecycled.readsLeft = reader.readsLeft := by
  unfold noteRecycled
  split <;> rfl

set_option linter.unusedVariables false in
/-- `ReadPhysicalRecord`. -/
def readPhysicalRecord (F : SequentialFile φ) (reader : Reader φ)
    (dropSize : Nat) : PhysicalRead φ :=
  if short : reader.buffer.length < kHeaderSize then
    match more : reader.readMore F dropSize with
    | .stop error dropSize reader => ⟨error, [], dropSize, reader⟩
    | .more next => readPhysicalRecord F next dropSize
  else
    let type := headerType reader.buffer
    let length := headerLength reader.buffer
    if isRecyclableType type then
      let reader' := reader.noteRecycled
      if needsMore : reader'.buffer.length < kRecyclableHeaderSize then
        match more : reader'.readMore F dropSize with
        | .stop error dropSize reader => ⟨error, [], dropSize, reader⟩
        | .more next => readPhysicalRecord F next dropSize
      else if (decodeFixed32 (reader'.buffer.drop 7)).toUInt64 ≠
          reader'.logNumber then
        ⟨kOldRecord, [], dropSize, reader'⟩
      else reader'.takeRecord kRecyclableHeaderSize type length dropSize
    else reader.takeRecord kHeaderSize type length dropSize
termination_by reader.readsLeft
decreasing_by
  · have header := kHeaderSize_eq
    have recyclable := kRecyclableHeaderSize_eq
    exact readsLeft_readMore (by omega) more
  · rw [← readsLeft_noteRecycled reader]
    exact readsLeft_readMore needsMore more

/-- The local variables of `ReadRecord` between two physical records. -/
structure Assembly (φ : Type) where
  /-- The reader. -/
  reader : Reader φ
  /-- `in_fragmented_record`. -/
  inFragmentedRecord : Bool
  /-- `*scratch`. -/
  scratch : Bytes
  /-- `prospective_record_offset`. -/
  prospectiveRecordOffset : UInt64

/-- What `ReadRecord` returns. -/
structure ReadResult (φ : Type) where
  /-- The return value. -/
  found : Bool
  /-- `*record`. -/
  record : Bytes
  /-- The reader afterwards. -/
  reader : Reader φ

namespace Assembly

/-- Report through the reader. -/
def report (assembly : Assembly φ) (bytes : Nat) (reason : String) :
    Assembly φ :=
  { assembly with reader := assembly.reader.reportCorruption bytes reason }

/-- Report when the condition holds. -/
def reportIf (assembly : Assembly φ) (condition : Bool) (bytes : Nat)
    (reason : String) : Assembly φ :=
  if condition then assembly.report bytes reason else assembly

/-- Forget the record under assembly. -/
def dropPartial (assembly : Assembly φ) : Assembly φ :=
  { assembly with inFragmentedRecord := false, scratch := [] }

/-- Report a record that was interrupted, and forget it. -/
def interrupt (assembly : Assembly φ) : Assembly φ :=
  if assembly.inFragmentedRecord then
    (assembly.report assembly.scratch.length
      "error in middle of record").dropPartial
  else assembly

/-- Return `false` at the end of the log. -/
def finish (assembly : Assembly φ) (mode : WALRecoveryMode) : ReadResult φ :=
  let assembly := assembly.reportIf
    (assembly.inFragmentedRecord &&
      decide (mode = .absoluteConsistency))
    assembly.scratch.length "error reading trailing data"
  ⟨false, [], assembly.reader⟩

/-- Return a complete record. -/
def complete (assembly : Assembly φ) (record : Bytes) (offset : UInt64) :
    ReadResult φ :=
  ⟨true, record, { assembly.reader with lastRecordOffset := offset }⟩

end Assembly

/-- The `switch` of `ReadRecord` on one physical record that started at
`physicalRecordOffset`: go on assembling, or return. -/
def handle
    (mode : WALRecoveryMode)
    (assembly : Assembly φ)
    (physicalRecordOffset : UInt64)
    (physical : PhysicalRead φ) : Assembly φ ⊕ ReadResult φ :=
  let assembly := { assembly with reader := physical.reader }
  let code := physical.code
  let fragment := physical.fragment
  let inFragment := assembly.inFragmentedRecord
  if code = RecordType.full.code ∨ code = RecordType.recyclableFull.code then
    let assembly := assembly.reportIf (inFragment && !assembly.scratch.isEmpty)
      assembly.scratch.length "partial record without end(1)"
    .inr (assembly.complete fragment physicalRecordOffset)
  else if code = RecordType.first.code ∨
      code = RecordType.recyclableFirst.code then
    let assembly := assembly.reportIf (inFragment && !assembly.scratch.isEmpty)
      assembly.scratch.length "partial record without end(2)"
    .inl { assembly with
      inFragmentedRecord := true
      scratch := fragment
      prospectiveRecordOffset := physicalRecordOffset }
  else if code = RecordType.middle.code ∨
      code = RecordType.recyclableMiddle.code then
    if !inFragment then
      .inl (assembly.report fragment.length
        "missing start of fragmented record(1)")
    else .inl { assembly with scratch := assembly.scratch ++ fragment }
  else if code = RecordType.last.code ∨
      code = RecordType.recyclableLast.code then
    if !inFragment then
      .inl (assembly.report fragment.length
        "missing start of fragmented record(2)")
    else
      .inr (assembly.complete (assembly.scratch ++ fragment)
        assembly.prospectiveRecordOffset)
  else if code = kBadHeader then
    let assembly := assembly.reportIf (decide (mode = .absoluteConsistency))
      physical.dropSize "truncated header"
    .inr (assembly.finish mode)
  else if code = kEof then .inr (assembly.finish mode)
  else if code = kOldRecord then
    if mode ≠ .skipAnyCorruptedRecords then .inr (assembly.finish mode)
    else .inl assembly.interrupt
  else if code = kBadRecord then .inl assembly.interrupt
  else if code = kBadRecordLen ∨ code = kBadRecordChecksum then
    if assembly.reader.recycled = true ∧
        mode = .tolerateCorruptedTailRecords then
      .inr ⟨false, [], assembly.reader⟩
    else
      let assembly := assembly.report physical.dropSize
        (if code = kBadRecordLen then "bad record length"
          else "checksum mismatch")
      .inl assembly.interrupt
  else
    let dropped :=
      fragment.length + (if inFragment then assembly.scratch.length else 0)
    .inl (assembly.report dropped
      ("unknown record type " ++ toString code)).dropPartial

/-- One iteration of the loop of `ReadRecord`. -/
def readRecordStep
    (F : SequentialFile φ)
    (mode : WALRecoveryMode)
    (assembly : Assembly φ) : Assembly φ ⊕ ReadResult φ :=
  handle mode assembly assembly.reader.bufferOffset
    (assembly.reader.readPhysicalRecord F 0)

/-- The loop of `ReadRecord`, for at most `fuel` iterations. -/
def readRecordLoop
    (F : SequentialFile φ)
    (mode : WALRecoveryMode) : Nat → Assembly φ → Option (ReadResult φ)
  | 0, _ => none
  | fuel + 1, assembly =>
      match readRecordStep F mode assembly with
      | .inl next => readRecordLoop F mode fuel next
      | .inr result => some result

/-- `SkipToInitialBlock`. -/
def skipToInitialBlock (F : SequentialFile φ) (reader : Reader φ) :
    Bool × Reader φ :=
  let blockSize := UInt64.ofNat kBlockSize
  let initialOffsetInBlock := reader.initialOffset % blockSize
  let blockStartLocation := reader.initialOffset - initialOffsetInBlock
  let blockStartLocation :=
    if blockSize - 6 < initialOffsetInBlock then blockStartLocation + blockSize
    else blockStartLocation
  let reader := { reader with endOfBufferOffset := blockStartLocation }
  if 0 < blockStartLocation then
    let skip := F.skip blockStartLocation reader.file
    let reader := { reader with file := skip.2 }
    if !skip.1.ok then
      (false, reader.reportDrop blockStartLocation.toNat skip.1)
    else (true, reader)
  else (true, reader)

/-- The local variables `ReadRecord` starts with. -/
def startAssembly (reader : Reader φ) : Assembly φ where
  reader := reader
  inFragmentedRecord := false
  scratch := []
  prospectiveRecordOffset := 0

/-- `ReadRecord`; `none` when it has not returned after `fuel` physical
records. -/
def readRecord
    (F : SequentialFile φ)
    (mode : WALRecoveryMode)
    (fuel : Nat)
    (reader : Reader φ) : Option (ReadResult φ) :=
  if reader.lastRecordOffset < reader.initialOffset then
    let skip := reader.skipToInitialBlock F
    if !skip.1 then some ⟨false, [], skip.2⟩
    else readRecordLoop F mode fuel (startAssembly skip.2)
  else readRecordLoop F mode fuel (startAssembly reader)

/-- Call `ReadRecord` until it returns `false`: the records it returned and the
reader afterwards.  Fuel bounds the calls and the work of each. -/
def readRecords
    (F : SequentialFile φ)
    (mode : WALRecoveryMode) : Nat → Reader φ → Option (List Bytes × Reader φ)
  | 0, _ => none
  | fuel + 1, reader => do
      let result ← readRecord F mode (fuel + 1) reader
      if result.found then
        let (records, final) ← readRecords F mode fuel result.reader
        some (result.record :: records, final)
      else some ([], result.reader)

/-- `UnmarkEOF`: forget the end of file, and if it was met inside a block read
the rest of that block behind what is left in the buffer. -/
def unmarkEOF (F : SequentialFile φ) (reader : Reader φ) : Reader φ :=
  if reader.readError then reader
  else
    let reader := { reader with eof := false }
    if reader.eofOffset = 0 then reader
    else
      let remaining := kBlockSize - reader.eofOffset
      let read := F.read remaining reader.file
      let added := read.1.2.length
      let reader := { reader with
        file := read.2
        endOfBufferOffset := reader.endOfBufferOffset + UInt64.ofNat added }
      if !read.1.1.ok then
        let reader :=
          if 0 < added then reader.reportDrop added read.1.1 else reader
        { reader with readError := true }
      else
        let reader := { reader with buffer := reader.buffer ++ read.1.2 }
        if added < remaining then
          { reader with eof := true, eofOffset := reader.eofOffset + added }
        else { reader with eofOffset := 0 }

end Reader
end Log
end RocksUtil
