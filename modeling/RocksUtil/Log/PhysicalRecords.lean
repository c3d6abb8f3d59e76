import RocksUtil.Log.Layout
import RocksUtil.Log.Reader

/-!
# Reading physical records

What `ReadPhysicalRecord` does on each kind of buffer a written log can put in
front of it: a complete physical record, a physical record cut off by the end of
the file, and the zeros that fill up a block.
-/

namespace RocksUtil
namespace Log

open Coding

/-! ## Header fields -/

/-- The part of a header that both formats share. -/
def headerStart (crc : UInt32) (length : Nat) (t : RecordType) : Bytes :=
  encodeFixed32 crc ++
    [UInt8.ofNat length, UInt8.ofNat (length >>> 8), UInt8.ofNat t.code]

@[simp] theorem length_headerStart (crc : UInt32) (length : Nat) (t : RecordType) :
    (headerStart crc length t).length = 7 := by
  simp [headerStart]

namespace Writer

theorem formatHeader_eq (logNumber : UInt64) (t : RecordType) (ptr : Bytes) :
    formatHeader logNumber t ptr =
      headerStart (Crc32c.mask (recordCrc logNumber t ptr)) ptr.length t ++
        logNumberField logNumber t := rfl

/-- The checksum covers the type byte, the log number and the payload. -/
theorem recordCrc_eq_value (logNumber : UInt64) (t : RecordType) (ptr : Bytes) :
    recordCrc logNumber t ptr =
      Crc32c.value
        (UInt8.ofNat t.code :: (logNumberField logNumber t ++ ptr)) := by
  unfold recordCrc typeCrc logNumberField
  split <;> simp [Crc32c.extend_value]

end Writer

namespace Reader

theorem headerType_headerStart
    (crc : UInt32)
    (length : Nat)
    (t : RecordType)
    (rest : Bytes) :
    headerType (headerStart crc length t ++ rest) = t.code := by
  have byte : (headerStart crc length t ++ rest).getD 6 0 =
      UInt8.ofNat t.code := rfl
  rw [headerType, byte]
  cases t <;> rfl

theorem headerLength_headerStart
    (crc : UInt32)
    (length : Nat)
    (t : RecordType)
    (rest : Bytes)
    (small : length < 65536) :
    headerLength (headerStart crc length t ++ rest) = length := by
  have low : (headerStart crc length t ++ rest).getD 4 0 =
      UInt8.ofNat length := rfl
  have high : (headerStart crc length t ++ rest).getD 5 0 =
      UInt8.ofNat (length >>> 8) := rfl
  rw [headerLength, low, high]
  have lowNat : (UInt8.ofNat length).toNat = length % 256 := by simp
  have highNat : (UInt8.ofNat (length >>> 8)).toNat = length / 256 := by
    simp [Nat.shiftRight_eq_div_pow]
    omega
  have bound : length % 256 < 2 ^ 8 := Nat.mod_lt _ (by norm_num)
  rw [lowNat, highNat, Nat.or_comm, ← Nat.shiftLeft_add_eq_or_of_lt bound,
    Nat.shiftLeft_eq]
  omega

theorem isRecyclableType_code (t : RecordType) :
    isRecyclableType t.code = Writer.isRecyclable t := by
  cases t <;> rfl

theorem decodeFixed32_logNumber
    (crc : UInt32)
    (length : Nat)
    (t : RecordType)
    (logNumber : UInt64)
    (recyclable : Writer.isRecyclable t = true)
    (rest : Bytes) :
    decodeFixed32 ((headerStart crc length t ++
      (Writer.logNumberField logNumber t ++ rest)).drop 7) =
        logNumber.toUInt32 := by
  have dropped : (headerStart crc length t ++
      (Writer.logNumberField logNumber t ++ rest)).drop 7 =
        Writer.logNumberField logNumber t ++ rest := by
    rw [List.drop_append_of_le_length (by simp)]
    simp [headerStart, encodeFixed32]
  rw [dropped, Writer.logNumberField, if_pos recyclable,
    decodeFixed32_encodeFixed32_append]

/-- The stored checksum of a written record matches. -/
theorem crcMatches_formatHeader
    (logNumber : UInt64)
    (t : RecordType)
    (payload rest : Bytes) :
    crcMatches (Writer.formatHeader logNumber t payload ++ (payload ++ rest))
      (headerSize (Writer.isRecyclable t)) payload.length = true := by
  have stored : decodeFixed32
      (Writer.formatHeader logNumber t payload ++ (payload ++ rest)) =
        Crc32c.mask (Writer.recordCrc logNumber t payload) := by
    rw [Writer.formatHeader, List.append_assoc, List.append_assoc,
      decodeFixed32_encodeFixed32_append]
  have covered :
      ((Writer.formatHeader logNumber t payload ++ (payload ++ rest)).drop 6).take
          (payload.length + headerSize (Writer.isRecyclable t) - 6) =
        UInt8.ofNat t.code :: (Writer.logNumberField logNumber t ++ payload) := by
    have behind : (Writer.formatHeader logNumber t payload ++
        (payload ++ rest)).drop 6 =
          (UInt8.ofNat t.code :: (Writer.logNumberField logNumber t ++ payload)) ++
            rest := by
      simp [Writer.formatHeader, encodeFixed32]
    have size : payload.length + headerSize (Writer.isRecyclable t) - 6 =
        (UInt8.ofNat t.code ::
          (Writer.logNumberField logNumber t ++ payload)).length := by
      have total := Writer.length_formatHeader logNumber t payload
      simp only [Writer.formatHeader, List.length_append, List.length_cons,
        List.length_nil, length_encodeFixed32] at total
      simp only [List.length_cons, List.length_append]
      omega
    rw [behind, size, List.take_left]
  rw [crcMatches, stored, covered, Crc32c.unmask_mask,
    Writer.recordCrc_eq_value]
  simp

/-! ## The branches of `ReadPhysicalRecord` -/

section Branches

variable {φ : Type} {F : SequentialFile φ} {reader : Reader φ} {dropSize : Nat}

/-- How `ReadPhysicalRecord` goes on after `ReadMore`. -/
def afterMore (F : SequentialFile φ) (dropSize : Nat) : MoreResult φ → PhysicalRead φ
  | .stop error dropSize next => ⟨error, [], dropSize, next⟩
  | .more next => next.readPhysicalRecord F dropSize

theorem readPhysicalRecord_of_short (short : reader.buffer.length < kHeaderSize) :
    reader.readPhysicalRecord F dropSize =
      afterMore F dropSize (reader.readMore F dropSize) := by
  rw [readPhysicalRecord, dif_pos short]
  split
  · next result => rw [result, afterMore]
  · next result => rw [result, afterMore]

theorem readPhysicalRecord_of_recyclable_short
    (enough : kHeaderSize ≤ reader.buffer.length)
    (recyclable : isRecyclableType (headerType reader.buffer) = true)
    (short : reader.buffer.length < kRecyclableHeaderSize) :
    reader.readPhysicalRecord F dropSize =
      afterMore F dropSize (reader.noteRecycled.readMore F dropSize) := by
  rw [readPhysicalRecord, dif_neg (by omega), if_pos recyclable]
  dsimp only
  rw [dif_pos (by simpa using short)]
  split
  · next result => rw [result, afterMore]
  · next result => rw [result, afterMore]

theorem readPhysicalRecord_of_stop
    {error dropped : Nat}
    {next : Reader φ}
    (short : reader.buffer.length < kHeaderSize)
    (stop : reader.readMore F dropSize = .stop error dropped next) :
    reader.readPhysicalRecord F dropSize = ⟨error, [], dropped, next⟩ := by
  rw [readPhysicalRecord_of_short short, stop, afterMore]

theorem readPhysicalRecord_of_more
    {next : Reader φ}
    (short : reader.buffer.length < kHeaderSize)
    (more : reader.readMore F dropSize = .more next) :
    reader.readPhysicalRecord F dropSize =
      next.readPhysicalRecord F dropSize := by
  rw [readPhysicalRecord_of_short short, more, afterMore]

/-- A header of the legacy format. -/
theorem readPhysicalRecord_of_legacy
    (enough : kHeaderSize ≤ reader.buffer.length)
    (legacy : isRecyclableType (headerType reader.buffer) = false) :
    reader.readPhysicalRecord F dropSize =
      reader.takeRecord kHeaderSize (headerType reader.buffer)
        (headerLength reader.buffer) dropSize := by
  rw [readPhysicalRecord, dif_neg (by omega), if_neg (by simp [legacy])]

/-- A complete header of the recyclable format. -/
theorem readPhysicalRecord_of_recyclable
    (enough : kRecyclableHeaderSize ≤ reader.buffer.length)
    (recyclable : isRecyclableType (headerType reader.buffer) = true) :
    reader.readPhysicalRecord F dropSize =
      if (decodeFixed32 (reader.buffer.drop 7)).toUInt64 ≠
          reader.noteRecycled.logNumber then
        ⟨kOldRecord, [], dropSize, reader.noteRecycled⟩
      else
        reader.noteRecycled.takeRecord kRecyclableHeaderSize
          (headerType reader.buffer) (headerLength reader.buffer) dropSize := by
  have header := kHeaderSize_eq
  have recyclableHeader := kRecyclableHeaderSize_eq
  rw [readPhysicalRecord, dif_neg (by omega), if_pos recyclable]
  simp only [buffer_noteRecycled]
  rw [dif_neg (by omega)]

/-- An incomplete header of the recyclable format at the end of the file. -/
theorem readPhysicalRecord_of_recyclable_stop
    {error dropped : Nat}
    {next : Reader φ}
    (enough : kHeaderSize ≤ reader.buffer.length)
    (recyclable : isRecyclableType (headerType reader.buffer) = true)
    (short : reader.buffer.length < kRecyclableHeaderSize)
    (stop : reader.noteRecycled.readMore F dropSize =
      .stop error dropped next) :
    reader.readPhysicalRecord F dropSize = ⟨error, [], dropped, next⟩ := by
  rw [readPhysicalRecord_of_recyclable_short enough recyclable short, stop, afterMore]

/-- An incomplete header of the recyclable format inside the file. -/
theorem readPhysicalRecord_of_recyclable_more
    {next : Reader φ}
    (enough : kHeaderSize ≤ reader.buffer.length)
    (recyclable : isRecyclableType (headerType reader.buffer) = true)
    (short : reader.buffer.length < kRecyclableHeaderSize)
    (more : reader.noteRecycled.readMore F dropSize = .more next) :
    reader.readPhysicalRecord F dropSize =
      next.readPhysicalRecord F dropSize := by
  rw [readPhysicalRecord_of_recyclable_short enough recyclable short, more, afterMore]

theorem noteRecycled_eq (reader : Reader φ) :
    ∃ recycled, reader.noteRecycled = { reader with recycled := recycled } := by
  unfold noteRecycled
  split
  · exact ⟨true, rfl⟩
  · exact ⟨reader.recycled, rfl⟩

/-- At the end of the file nothing more can be read. -/
theorem readMore_of_eof (ended : reader.eof = true) :
    reader.readMore F dropSize =
      if reader.buffer.length ≠ 0 then
        .stop kBadHeader reader.buffer.length { reader with buffer := [] }
      else .stop kEof dropSize { reader with buffer := [] } := by
  simp [readMore, ended]

end Branches

/-! ## Complete records -/

/-- The reader takes the records of this format for its own. -/
def Accepts {φ : Type} (reader : Reader φ) (format : Format) : Prop :=
  format.recycle = true →
    format.logNumber.toUInt32.toUInt64 = reader.logNumber

theorem toUInt32_toUInt64_of_lt
    {number : UInt64}
    (small : number.toNat < 2 ^ 32) :
    number.toUInt32.toUInt64 = number := by
  apply UInt64.toNat_inj.mp
  rw [UInt32.toNat_toUInt64, UInt64.toNat_toUInt32]
  exact Nat.mod_eq_of_lt small

section Records

variable {φ : Type} {F : SequentialFile φ} {reader : Reader φ}
  {format : Format} {fragment : Fragment}

theorem takeRecord_complete
    (dropSize : Nat)
    {rest : Bytes}
    (buffered : reader.buffer = format.encode fragment ++ rest)
    (fromStart : reader.initialOffset = 0) :
    reader.takeRecord format.header (format.type fragment).code
        fragment.payload.length dropSize =
      ⟨(format.type fragment).code, fragment.payload, dropSize,
        { reader with buffer := rest }⟩ := by
  have length := format.length_encode fragment
  have enough : ¬reader.buffer.length <
      format.header + fragment.payload.length := by
    rw [buffered, List.length_append]
    omega
  have notZero : ¬((format.type fragment).code = RecordType.zero.code ∧
      fragment.payload.length = 0) := by
    intro both
    have different : (format.type fragment).code ≠ RecordType.zero.code := by
      unfold Format.type Writer.fragmentType
      cases format.recycle <;> cases fragment.start <;>
        cases fragment.finish <;> decide
    exact different both.1
  have checked : crcMatches reader.buffer format.header
      fragment.payload.length = true := by
    have matching := crcMatches_formatHeader format.logNumber
      (format.type fragment) fragment.payload rest
    rw [Format.type, Writer.isRecyclable_fragmentType] at matching
    rw [buffered, Format.encode, List.append_assoc]
    exact matching
  have payload : (reader.buffer.drop format.header).take
      fragment.payload.length = fragment.payload := by
    have headerLength : (Writer.formatHeader format.logNumber
        (format.type fragment) fragment.payload).length = format.header := by
      simp [Writer.length_formatHeader, Format.type, Format.header]
    rw [buffered, Format.encode, List.append_assoc,
      List.drop_left' headerLength, List.take_left]
  have remaining : reader.buffer.drop
      (format.header + fragment.payload.length) = rest := by
    rw [buffered, List.drop_left' length]
  simp only [takeRecord, if_neg enough, if_neg notZero, checked, remaining,
    payload, fromStart]
  simp

/-- The header fields of a buffer that starts with a header of this format. -/
theorem header_fields
    {tail : Bytes}
    (buffered : reader.buffer =
      Writer.formatHeader format.logNumber (format.type fragment)
        fragment.payload ++ tail)
    (small : fragment.payload.length < 65536) :
    headerType reader.buffer = (format.type fragment).code ∧
      headerLength reader.buffer = fragment.payload.length ∧
      isRecyclableType (headerType reader.buffer) = format.recycle ∧
      format.header ≤ reader.buffer.length := by
  have length := Writer.length_formatHeader format.logNumber
    (format.type fragment) fragment.payload
  rw [Format.type, Writer.isRecyclable_fragmentType] at length
  have type : headerType reader.buffer = (format.type fragment).code := by
    rw [buffered, Writer.formatHeader_eq, List.append_assoc,
      headerType_headerStart]
  refine ⟨type, ?_, ?_, ?_⟩
  · rw [buffered, Writer.formatHeader_eq, List.append_assoc,
      headerLength_headerStart _ _ _ _ small]
  · rw [type, isRecyclableType_code, Format.type,
      Writer.isRecyclable_fragmentType]
  · rw [buffered, List.length_append]
    exact Nat.le_add_right_of_le (Nat.le_of_eq length.symm)

/-- Behind a complete header the reader goes on to take the record. -/
theorem readPhysicalRecord_header
    (dropSize : Nat)
    {tail : Bytes}
    (buffered : reader.buffer =
      Writer.formatHeader format.logNumber (format.type fragment)
        fragment.payload ++ tail)
    (small : fragment.payload.length < 65536)
    (accepts : reader.Accepts format) :
    ∃ recycled, reader.readPhysicalRecord F dropSize =
      { reader with recycled := recycled }.takeRecord format.header
        (format.type fragment).code fragment.payload.length dropSize := by
  obtain ⟨type, length, recyclable, enough⟩ := header_fields buffered small
  cases recycle : format.recycle with
  | false =>
      have header : format.header = kHeaderSize := by
        simp [Format.header, headerSize, recycle]
      refine ⟨reader.recycled, ?_⟩
      rw [readPhysicalRecord_of_legacy (by omega) (recyclable.trans recycle),
        type, length, header]
  | true =>
      have header : format.header = kRecyclableHeaderSize := by
        simp [Format.header, headerSize, recycle]
      obtain ⟨recycled, noted⟩ := noteRecycled_eq reader
      have number : decodeFixed32 (reader.buffer.drop 7) =
          format.logNumber.toUInt32 := by
        rw [buffered, Writer.formatHeader_eq, List.append_assoc]
        apply decodeFixed32_logNumber
        rw [Format.type, Writer.isRecyclable_fragmentType, recycle]
      refine ⟨recycled, ?_⟩
      rw [readPhysicalRecord_of_recyclable (by omega) (recyclable.trans recycle),
        number, accepts recycle, noted, type, length, header]
      simp

/-- A complete record in the buffer is taken out of it. -/
theorem readPhysicalRecord_complete
    (dropSize : Nat)
    {rest : Bytes}
    (buffered : reader.buffer = format.encode fragment ++ rest)
    (small : fragment.payload.length < 65536)
    (accepts : reader.Accepts format)
    (fromStart : reader.initialOffset = 0) :
    ∃ recycled, reader.readPhysicalRecord F dropSize =
      ⟨(format.type fragment).code, fragment.payload, dropSize,
        { reader with buffer := rest, recycled := recycled }⟩ := by
  obtain ⟨recycled, taken⟩ := readPhysicalRecord_header (F := F) dropSize
    (buffered.trans (List.append_assoc _ _ _)) small accepts
  refine ⟨recycled, ?_⟩
  rw [taken]
  exact takeRecord_complete dropSize buffered fromStart

/-! ## Records cut off by the end of the file -/

/-- Less than a header is left at the end of the file. -/
theorem readPhysicalRecord_short
    (dropSize : Nat)
    (ended : reader.eof = true)
    (short : reader.buffer.length < kHeaderSize) :
    reader.readPhysicalRecord F dropSize =
      if reader.buffer = [] then
        ⟨kEof, [], dropSize, { reader with buffer := [] }⟩
      else
        ⟨kBadHeader, [], reader.buffer.length,
          { reader with buffer := [] }⟩ := by
  by_cases empty : reader.buffer = []
  · rw [if_pos empty]
    exact readPhysicalRecord_of_stop short (by
      rw [readMore_of_eof ended, if_neg (by simp [empty])])
  · rw [if_neg empty]
    exact readPhysicalRecord_of_stop short (by
      rw [readMore_of_eof ended, if_pos (by simpa using empty)])

/-- A record that the end of the file cuts off. -/
theorem readPhysicalRecord_truncated
    (dropSize : Nat)
    {visible : Nat}
    (ended : reader.eof = true)
    (buffered : reader.buffer = (format.encode fragment).take visible)
    (positive : 0 < visible)
    (cut : visible < (format.encode fragment).length)
    (small : fragment.payload.length < 65536)
    (accepts : reader.Accepts format) :
    ∃ recycled, reader.readPhysicalRecord F dropSize =
      ⟨kBadHeader, [], visible,
        { reader with buffer := [], recycled := recycled }⟩ := by
  have size : reader.buffer.length = visible := by
    rw [buffered, List.length_take]
    omega
  have nonempty : reader.buffer ≠ [] := by
    intro empty
    rw [empty] at size
    exact absurd size (by simp; omega)
  have headerLength := Writer.length_formatHeader format.logNumber
    (format.type fragment) fragment.payload
  rw [Format.type, Writer.isRecyclable_fragmentType] at headerLength
  have total := format.length_encode fragment
  by_cases whole : format.header ≤ visible
  · -- The header is there, so its length field shows that payload is missing.
    have split : reader.buffer =
        Writer.formatHeader format.logNumber (format.type fragment)
          fragment.payload ++
        fragment.payload.take (visible - format.header) := by
      rw [buffered, Format.encode, List.take_append]
      congr 1
      · exact List.take_of_length_le (headerLength.trans_le whole)
      · rw [Format.type, headerLength]
        rfl
    obtain ⟨recycled, taken⟩ := readPhysicalRecord_header (F := F) dropSize
      split small accepts
    refine ⟨recycled, ?_⟩
    rw [taken, takeRecord]
    dsimp only
    rw [if_pos (by omega)]
    simp [ended, size, positive.ne']
  · by_cases short : reader.buffer.length < kHeaderSize
    · refine ⟨reader.recycled, ?_⟩
      rw [readPhysicalRecord_short dropSize ended short, if_neg nonempty, size]
    · -- Only the recyclable format has headers of more than seven bytes.
      have bounds := kHeaderSize_eq
      have recycle : format.recycle = true := by
        cases recycle : format.recycle with
        | true => rfl
        | false =>
            have header : format.header = 7 := by
              simp [Format.header, headerSize, recycle, kHeaderSize]
            omega
      have header : format.header = kRecyclableHeaderSize := by
        simp [Format.header, headerSize, recycle]
      have start : reader.buffer =
          headerStart (Crc32c.mask (Writer.recordCrc format.logNumber
            (format.type fragment) fragment.payload)) fragment.payload.length
            (format.type fragment) ++
          (Writer.logNumberField format.logNumber (format.type fragment) ++
            fragment.payload).take (visible - 7) := by
        rw [buffered, Format.encode, Writer.formatHeader_eq, List.append_assoc,
          List.take_append, length_headerStart]
        congr 1
        exact List.take_of_length_le (by simp; omega)
      have recyclable : isRecyclableType (headerType reader.buffer) = true := by
        rw [start, headerType_headerStart, isRecyclableType_code, Format.type,
          Writer.isRecyclable_fragmentType, recycle]
      obtain ⟨recycled, noted⟩ := noteRecycled_eq reader
      refine ⟨recycled, ?_⟩
      apply readPhysicalRecord_of_recyclable_stop (by omega) recyclable (by omega)
      rw [noted, @readMore_of_eof φ F { reader with recycled := recycled }
        dropSize ended, if_pos (by simpa using nonempty)]
      simp [size]

/-! ## The zeros between records -/

/-- Seven or more zeros read as an empty record of type zero, which drops the
rest of the block. -/
theorem readPhysicalRecord_zeros
    (dropSize : Nat)
    {count : Nat}
    (buffered : reader.buffer = List.replicate count 0)
    (enough : kHeaderSize ≤ count) :
    reader.readPhysicalRecord F dropSize =
      ⟨kBadRecord, [], dropSize, { reader with buffer := [] }⟩ := by
  have header := kHeaderSize_eq
  have size : reader.buffer.length = count := by simp [buffered]
  have zeroAt (index : Nat) : reader.buffer.getD index 0 = 0 := by
    rw [buffered, List.getD_eq_getElem?_getD, List.getElem?_replicate]
    split <;> rfl
  have type : headerType reader.buffer = 0 := by
    rw [headerType, zeroAt]
    rfl
  have length : headerLength reader.buffer = 0 := by
    rw [headerLength, zeroAt, zeroAt]
    rfl
  rw [readPhysicalRecord_of_legacy (by omega) (by rw [type]; rfl), type, length,
    takeRecord]
  dsimp only
  rw [if_neg (by omega), if_pos ⟨rfl, rfl⟩]

end Records

/-! ## Refilling the buffer -/

/-- The reader after `ReadMore` has fetched the next block. -/
def refill (reader : Reader GrowingFile) : Reader GrowingFile :=
  let data := reader.file.arrive.unread.take kBlockSize
  { reader with
    file := { reader.file.arrive with pos := reader.file.pos + data.length }
    buffer := data
    endOfBufferOffset := reader.endOfBufferOffset + UInt64.ofNat data.length
    eof := decide (data.length < kBlockSize)
    eofOffset :=
      if data.length < kBlockSize then data.length else reader.eofOffset }

theorem readMore_refill
    (reader : Reader GrowingFile)
    (dropSize : Nat)
    (live : reader.eof = false)
    (noError : reader.readError = false) :
    reader.readMore GrowingFile.sequentialFile dropSize =
      .more reader.refill := by
  rw [readMore, if_pos (by simp [live, noError])]
  simp only [GrowingFile.sequentialFile, GrowingFile.read, Status.ok_OK,
    Bool.not_true, Bool.false_eq_true, if_false, refill]
  by_cases partly :
      (reader.file.arrive.unread.take kBlockSize).length < kBlockSize
  · simp only [partly, if_true, decide_true]
  · simp only [partly, if_false, decide_false, live]

/-- More input is the next block. -/
theorem of_readMore_more
    {reader next : Reader GrowingFile}
    {dropSize : Nat}
    (more : reader.readMore GrowingFile.sequentialFile dropSize = .more next) :
    reader.eof = false ∧ next = reader.refill := by
  by_cases live : reader.eof = false ∧ reader.readError = false
  · rw [readMore_refill reader dropSize live.1 live.2] at more
    cases more
    exact ⟨live.1, rfl⟩
  · rw [readMore, if_neg (by simpa using live)] at more
    split at more <;> cases more

/-- Where there is no more input, the buffer is dropped. -/
theorem of_readMore_stop
    {reader next : Reader GrowingFile}
    {dropSize error dropped : Nat}
    (stop : reader.readMore GrowingFile.sequentialFile dropSize =
      .stop error dropped next) :
    kMaxRecordType < error ∧ next = { reader with buffer := [] } := by
  by_cases live : reader.eof = false ∧ reader.readError = false
  · rw [readMore_refill reader dropSize live.1 live.2] at stop
    cases stop
  · rw [readMore, if_neg (by simpa using live)] at stop
    split at stop
    · cases stop
      exact ⟨by decide, rfl⟩
    · cases stop
      exact ⟨by decide, rfl⟩

/-- With less than a header left, a reader that is not at the end of the file
fetches the next block first. -/
theorem readPhysicalRecord_refill
    (reader : Reader GrowingFile)
    (dropSize : Nat)
    (live : reader.eof = false)
    (noError : reader.readError = false)
    (short : reader.buffer.length < kHeaderSize) :
    reader.readPhysicalRecord GrowingFile.sequentialFile dropSize =
      reader.refill.readPhysicalRecord GrowingFile.sequentialFile dropSize :=
  readPhysicalRecord_of_more short (readMore_refill reader dropSize live noError)

/-! ## What every physical read keeps -/

section Keeping

variable {φ : Type} {Keeps : Reader φ → Prop}
  (takes : ∀ reader count recycled, Keeps reader → count ≤ reader.buffer.length →
    Keeps { reader with buffer := reader.buffer.drop count, recycled := recycled })
include takes

theorem keeps_clear
    {reader : Reader φ}
    (keeps : Keeps reader) : Keeps { reader with buffer := [] } := by
  have all := takes reader _ reader.recycled keeps (Nat.le_refl _)
  rw [List.drop_length] at all
  exact all

theorem keeps_noteRecycled
    {reader : Reader φ}
    (keeps : Keeps reader) : Keeps reader.noteRecycled := by
  obtain ⟨recycled, noted⟩ := noteRecycled_eq reader
  rw [noted]
  exact takes reader 0 recycled keeps (Nat.zero_le _)

theorem keeps_takeRecord
    {reader : Reader φ}
    (keeps : Keeps reader)
    (headerSize type length dropSize : Nat) :
    Keeps (reader.takeRecord headerSize type length dropSize).reader := by
  have cleared := keeps_clear takes keeps
  have taken (fits : ¬reader.buffer.length < headerSize + length) :=
    takes reader _ reader.recycled keeps (Nat.not_lt.mp fits)
  unfold takeRecord
  dsimp only
  split_ifs
  any_goals exact cleared
  · exact taken ‹_›
  · exact taken ‹_›

end Keeping

/-- What taking bytes out of the buffer and fetching the next block keep is kept by every
physical read. -/
theorem keeps_readPhysicalRecord
    {Keeps : Reader GrowingFile → Prop}
    (takes : ∀ reader count recycled, Keeps reader → count ≤ reader.buffer.length →
      Keeps { reader with buffer := reader.buffer.drop count, recycled := recycled })
    (refills : ∀ reader, Keeps reader → Keeps reader.refill)
    {reader : Reader GrowingFile}
    (keeps : Keeps reader)
    (dropSize : Nat) :
    Keeps (reader.readPhysicalRecord GrowingFile.sequentialFile dropSize).reader := by
  fun_induction readPhysicalRecord GrowingFile.sequentialFile reader dropSize with
  | case1 reader short error dropped next more =>
      rw [(of_readMore_stop more).2]
      exact keeps_clear takes keeps
  | case2 reader short next more inductionHypothesis =>
      apply inductionHypothesis
      rw [(of_readMore_more more).2]
      exact refills reader keeps
  | case3 =>
      rename_i more
      rw [(of_readMore_stop more).2]
      exact keeps_clear takes (keeps_noteRecycled takes keeps)
  | case4 =>
      rename_i more inductionHypothesis
      apply inductionHypothesis
      rw [(of_readMore_more more).2]
      exact refills _ (keeps_noteRecycled takes keeps)
  | case5 => exact keeps_noteRecycled takes keeps
  | case6 => exact keeps_takeRecord takes (keeps_noteRecycled takes keeps) _ _ _ _
  | case7 => exact keeps_takeRecord takes keeps _ _ _ _

end Reader
end Log
end RocksUtil
