import RocksUtil.Log.Outcomes
import RocksUtil.Log.Writing

/-!
# Recycled log files

A log file that was written over an older one goes on, behind the new log, in the
middle of the old one.  In `kTolerateCorruptedTailRecords` a reader stops there
without a report, whatever the first bytes behind the new log look like: the old
log is recognised by its number at the latest where its next block starts.
-/

namespace RocksUtil
namespace Log

open Coding

namespace Reader

/-- There are no bytes, or they start with the header of a record that is not of
log `number`. -/
def StartsOld (number : UInt64) (bytes : Bytes) : Prop :=
  bytes ≠ [] →
    kRecyclableHeaderSize ≤ bytes.length ∧
      isRecyclableType (headerType bytes) = true ∧
      (decodeFixed32 (bytes.drop 7)).toUInt64 ≠ number

/-- The bytes start with a complete physical record of at most `room` bytes, with a
matching checksum, that does not carry the number of another log. -/
def StartsOwn (number : UInt64) (room : Nat) (bytes : Bytes) : Prop :=
  let length := headerLength bytes
  if isRecyclableType (headerType bytes) = true then
    kRecyclableHeaderSize + length ≤ room ∧
      (decodeFixed32 (bytes.drop 7)).toUInt64 = number ∧
      crcMatches bytes kRecyclableHeaderSize length = true
  else
    kHeaderSize + length ≤ room ∧ crcMatches bytes kHeaderSize length = true

section OldLog

variable {format : Format} {number : UInt64}

theorem startsOld_encode
    (recycle : format.recycle = true)
    (other : format.logNumber.toUInt32.toUInt64 ≠ number)
    (fragment : Fragment)
    (rest : Bytes) :
    StartsOld number (format.encode fragment ++ rest) := by
  intro _
  have recyclable : Writer.isRecyclable (format.type fragment) = true := by
    rw [Format.type, Writer.isRecyclable_fragmentType, recycle]
  have header : format.header = kRecyclableHeaderSize := by
    simp [Format.header, headerSize, recycle]
  refine ⟨?_, ?_, ?_⟩
  · rw [List.length_append, format.length_encode, header]
    omega
  · rw [Format.encode, Writer.formatHeader_eq, List.append_assoc, List.append_assoc,
      headerType_headerStart, isRecyclableType_code, recyclable]
  · rw [Format.encode, Writer.formatHeader_eq, List.append_assoc, List.append_assoc,
      decodeFixed32_logNumber _ _ _ _ recyclable]
    exact other

/-- Every block of a log starts with a record of that log. -/
theorem startsOld_place
    (recycle : format.recycle = true)
    (other : format.logNumber.toUInt32.toUInt64 ≠ number)
    {offset position : Nat}
    {fragments : List Fragment}
    (fits : format.Fits offset fragments)
    (inBlock : Format.InBlock position offset)
    {blocks : Nat}
    (ahead : position ≤ blocks * kBlockSize) :
    StartsOld number
      ((format.place offset fragments).drop (blocks * kBlockSize - position)) := by
  induction fragments generalizing offset position with
  | nil =>
      rw [Format.place_nil, List.drop_nil]
      exact fun nonempty => absurd rfl nonempty
  | cons fragment fragments inductionHypothesis =>
      have ends := fits.endOffset_le
      obtain ⟨inBlock', here⟩ := inBlock.next ends
      have length := format.length_encode fragment
      have start := @Format.InBlock.start_eq format _ _ inBlock
      have startsIn := format.startOffset_le offset
      rw [Format.place_cons]
      by_cases isBehind : position + format.gap offset < blocks * kBlockSize
      · -- The block starts behind the fragment.
        have beyond : position + format.gap offset +
            (format.header + fragment.payload.length) ≤ blocks * kBlockSize := by
          unfold Format.endOffset at ends
          have divided := Nat.div_add_mod (position + format.gap offset) kBlockSize
          have next : (position + format.gap offset) / kBlockSize + 1 ≤ blocks := by
            rw [Nat.succ_le_iff, Nat.div_lt_iff_lt_mul (by decide)]
            exact isBehind
          have scaled := Nat.mul_le_mul_left kBlockSize next
          rw [Nat.mul_add, Nat.mul_one, Nat.mul_comm kBlockSize blocks] at scaled
          omega
        have rest := inductionHypothesis fits.2.2 inBlock' beyond
        have same : blocks * kBlockSize - position =
            (List.replicate (format.gap offset) (0 : UInt8) ++
              format.encode fragment).length +
              (blocks * kBlockSize - (position + format.gap offset +
                (format.header + fragment.payload.length))) := by
          rw [List.length_append, List.length_replicate, length]
          omega
        rw [← List.append_assoc, same, List.drop_append, List.drop_of_length_le
          (by omega), List.nil_append, Nat.add_sub_cancel_left]
        exact rest
      · -- The fragment starts the block.
        have same : blocks * kBlockSize - position = format.gap offset := by
          obtain ⟨positive, inside, congruent⟩ := inBlock
          have block := kBlockSize_eq
          have bounds := format.header_bounds
          unfold Format.gap at isBehind ⊢
          rw [block] at inside congruent ahead isBehind ⊢
          split <;> split at isBehind <;> omega
        rw [same, List.drop_left' (by simp)]
        exact startsOld_encode recycle other fragment _

/-- From any block on, a log has a record of that log ahead of it. -/
theorem startsOld_logBytes
    (recycle : format.recycle = true)
    (other : format.logNumber.toUInt32.toUInt64 ≠ number)
    (records : List Bytes)
    (blocks : Nat) :
    StartsOld number ((format.logBytes 0 records).drop (blocks * kBlockSize)) := by
  have start : Format.InBlock 0 kBlockSize :=
    ⟨by decide, Nat.le_refl _, by rw [Nat.mod_self, Nat.zero_mod]⟩
  have fits := format.fits_fragmentsOf kBlockSize records (Nat.le_refl _)
  rw [← Format.logBytes_kBlockSize]
  exact startsOld_place recycle other fits start (Nat.zero_le _)

end OldLog

/-! ## Telling a recycled log -/

section Recycled

variable {φ : Type}

theorem recycled_reportDrop (reader : Reader φ) (bytes : Nat) (reason : Status) :
    (reader.reportDrop bytes reason).recycled = reader.recycled := by
  obtain ⟨reporter, reported⟩ := reportDrop_eq reader bytes reason
  rw [reported]

theorem recycled_readMore
    (F : SequentialFile φ)
    (reader : Reader φ)
    (dropSize : Nat) :
    (reader.readMore F dropSize).reader.recycled = reader.recycled := by
  unfold readMore
  split
  · dsimp only
    split
    · exact recycled_reportDrop _ _ _
    · split <;> rfl
  · split <;> rfl

theorem recycled_noteRecycled
    {reader : Reader φ}
    (recycled : reader.recycled = true) :
    reader.noteRecycled.recycled = true := by
  unfold noteRecycled
  split
  · rfl
  · exact recycled

theorem recycled_takeRecord
    (reader : Reader φ)
    (headerSize type length dropSize : Nat) :
    (reader.takeRecord headerSize type length dropSize).reader.recycled =
      reader.recycled := by
  unfold takeRecord
  dsimp only
  split_ifs <;> rfl

theorem recycled_readPhysicalRecord
    (F : SequentialFile φ)
    {reader : Reader φ}
    (recycled : reader.recycled = true)
    (dropSize : Nat) :
    (reader.readPhysicalRecord F dropSize).reader.recycled = true := by
  fun_induction readPhysicalRecord F reader dropSize with
  | case1 reader short error dropped next more =>
      have step := recycled_readMore F reader dropSize
      rw [more] at step
      exact step.trans recycled
  | case2 reader short next more inductionHypothesis =>
      have step := recycled_readMore F reader dropSize
      rw [more] at step
      exact inductionHypothesis (step.trans recycled)
  | case3 reader _ _ _ _ _ error dropped next more =>
      have step := recycled_readMore F reader.noteRecycled dropSize
      rw [more] at step
      exact step.trans (recycled_noteRecycled recycled)
  | case4 reader _ _ _ _ _ next more inductionHypothesis =>
      have step := recycled_readMore F reader.noteRecycled dropSize
      rw [more] at step
      exact inductionHypothesis (step.trans (recycled_noteRecycled recycled))
  | case5 reader => exact recycled_noteRecycled recycled
  | case6 reader =>
      rw [recycled_takeRecord]
      exact recycled_noteRecycled recycled
  | case7 reader =>
      rw [recycled_takeRecord]
      exact recycled

theorem recycled_readRecordStep
    {F : SequentialFile φ}
    {mode : WALRecoveryMode}
    {assembly : Assembly φ}
    {result : Assembly φ ⊕ ReadResult φ}
    (step : readRecordStep F mode assembly = result)
    (recycled : (assembly.reader.readPhysicalRecord F 0).reader.recycled = true) :
    (stepReader result).recycled = true := by
  obtain ⟨reporter, recordOffset, alike⟩ := alike_handle mode assembly
    assembly.reader.bufferOffset (assembly.reader.readPhysicalRecord F 0)
  rw [← step, readRecordStep, alike]
  exact recycled

theorem Steps.recycled
    {F : SequentialFile φ}
    {mode : WALRecoveryMode}
    {assembly final : Assembly φ}
    {records : List Bytes}
    (steps : Steps F mode assembly records final)
    (before : assembly.reader.recycled = true) :
    final.reader.recycled = true := by
  induction steps with
  | refl => exact before
  | record step _ _ _ inductionHypothesis =>
      exact inductionHypothesis (recycled_readRecordStep step
        (recycled_readPhysicalRecord F before 0))
  | next step _ inductionHypothesis =>
      exact inductionHypothesis (recycled_readRecordStep step
        (recycled_readPhysicalRecord F before 0))

/-- It is enough that the first physical record shows that the log is recycled. -/
theorem Steps.recycled_of_first
    {F : SequentialFile φ}
    {mode : WALRecoveryMode}
    {assembly final : Assembly φ}
    {records : List Bytes}
    (steps : Steps F mode assembly records final)
    (nonempty : records ≠ [])
    (first : (assembly.reader.readPhysicalRecord F 0).reader.recycled = true) :
    final.reader.recycled = true := by
  cases steps with
  | refl => exact absurd rfl nonempty
  | record step _ _ steps => exact steps.recycled (recycled_readRecordStep step first)
  | next step steps => exact steps.recycled (recycled_readRecordStep step first)

/-- A file that starts with a header of the recyclable format is recycled. -/
theorem recycled_of_new
    {file : Bytes}
    (reporter : Option (List Report))
    (checksum : Bool)
    (logNumber : UInt64)
    (enough : kRecyclableHeaderSize ≤ file.length)
    (recyclable : isRecyclableType (headerType file) = true) :
    ((Reader.new (GrowingFile.atRest file) reporter checksum 0
      logNumber).readPhysicalRecord GrowingFile.sequentialFile 0).reader.recycled =
        true := by
  have seven := kHeaderSize_eq
  have eleven := kRecyclableHeaderSize_eq
  have block := kBlockSize_eq
  rw [readPhysicalRecord_refill _ 0 rfl rfl (by rw [seven]; exact Nat.zero_lt_succ 6)]
  generalize refilled : (Reader.new (GrowingFile.atRest file) reporter checksum 0
    logNumber).refill = reader
  have buffer : reader.buffer = file.take kBlockSize := by
    rw [← refilled, refill]
    simp [Reader.new, GrowingFile.atRest, GrowingFile.unread, GrowingFile.arrive,
      GrowingFile.nextArrival]
  have offset : reader.bufferOffset = 0 := by
    rw [← refilled, bufferOffset, refill]
    simp [Reader.new]
  have noted : reader.noteRecycled.recycled = true := by
    rw [noteRecycled, if_pos offset]
  have long : kRecyclableHeaderSize ≤ reader.buffer.length := by
    rw [buffer, List.length_take]
    omega
  have type : isRecyclableType (headerType reader.buffer) = true := by
    rw [← recyclable]
    conv_rhs => rw [← List.take_append_drop kBlockSize file, ← buffer]
    rw [headerType_append _ (by omega)]
  rw [readPhysicalRecord_of_recyclable long type]
  split
  · exact noted
  · rw [recycled_takeRecord]
    exact noted

end Recycled

/-! ## Stopping behind the new log -/

section Tail

variable {assembly : Assembly GrowingFile} {there : Reader GrowingFile}
  {format : Format} {offset : Nat} {tail : Bytes}

/-- A record of another log ends the reading. -/
theorem Sees.stops_old
    (sees : Sees assembly there)
    (facing : Standing format there offset tail)
    (enough : kRecyclableHeaderSize ≤ there.buffer.length)
    (recyclable : isRecyclableType (headerType there.buffer) = true)
    (other : (decodeFixed32 (tail.drop 7)).toUInt64 ≠ there.logNumber)
    (between : assembly.pending = none) :
    PassesOver .tolerateCorruptedTailRecords assembly := by
  obtain ⟨recycled, -, physical⟩ := facing.complete_header enough recyclable
  rw [if_pos other] at physical
  obtain ⟨final, step, quiet, -⟩ := sees.step_old
    (show WALRecoveryMode.tolerateCorruptedTailRecords ≠ .skipAnyCorruptedRecords by
      decide) physical facing.fromStart rfl
  exact ⟨final, .stop step rfl, quiet between⟩

/-- A header or a record that the end of the file cuts off ends the reading. -/
theorem Sees.stops_badHeader
    (sees : Sees assembly there)
    {dropSize : Nat}
    {next : Reader GrowingFile}
    (physical : there.readPhysicalRecord GrowingFile.sequentialFile 0 =
      ⟨kBadHeader, [], dropSize, next⟩)
    (fromStart : next.initialOffset = 0)
    (silent : next.reporter = there.reporter) :
    PassesOver .tolerateCorruptedTailRecords assembly := by
  obtain ⟨final, step, quiet, -⟩ := sees.step_badHeader
    .tolerateCorruptedTailRecords physical fromStart silent
  exact ⟨final, .stop step rfl, quiet (by decide)⟩

/-- In a recycled log a record of a wrong length or checksum ends the reading. -/
theorem Sees.stops_drop
    (sees : Sees assembly there)
    {code dropSize : Nat}
    (isDrop : code = kBadRecordLen ∨ code = kBadRecordChecksum)
    {next : Reader GrowingFile}
    (physical : there.readPhysicalRecord GrowingFile.sequentialFile 0 =
      ⟨code, [], dropSize, next⟩)
    (recycled : next.recycled = true)
    (silent : next.reporter = there.reporter) :
    PassesOver .tolerateCorruptedTailRecords assembly := by
  have step : readRecordStep GrowingFile.sequentialFile
      .tolerateCorruptedTailRecords assembly = .inr ⟨false, [], next⟩ := by
    rw [readRecordStep, sees.same, physical]
    rcases isDrop with rfl | rfl
    · simp [handle, RecordType.code, kBadRecordLen, kBadRecord, kBadHeader, kEof,
        kOldRecord, kMaxRecordType, recycled]
    · simp [handle, RecordType.code, kBadRecordLen, kBadRecordChecksum, kBadRecord,
        kBadHeader, kEof, kOldRecord, kMaxRecordType, recycled]
  exact ⟨next, .stop step rfl, silent.trans sees.silent⟩

/-- Behind a dropped block the old log is recognised, or the file ends. -/
theorem Behind.stops
    (sees : Sees assembly there)
    (behind : Behind format there offset tail)
    (inside : offset ≤ kBlockSize)
    (old : StartsOld there.logNumber (tail.drop (kBlockSize - offset)))
    (between : assembly.pending = none) :
    PassesOver .tolerateCorruptedTailRecords assembly := by
  by_cases nothing : tail.drop (kBlockSize - offset) = []
  · rw [Behind, nothing] at behind
    exact sees.reads_end .tolerateCorruptedTailRecords behind between
  · obtain ⟨enough, recyclable, other⟩ := old nothing
    have long : kBlockSize - offset < tail.length := by
      rw [List.drop_eq_nil_iff] at nothing
      omega
    have atEnd : min kBlockSize (offset + tail.length) = kBlockSize := by omega
    rw [Behind, atEnd] at behind
    have positioned := behind.positioned
    have reached := behind.whole
    have header := kRecyclableHeaderSize_eq
    have seven := kHeaderSize_eq
    have block := kBlockSize_eq
    rw [← List.nil_append (tail.drop (kBlockSize - offset)),
      ← List.replicate_zero (a := (0 : UInt8)), ← format.gap_kBlockSize]
      at positioned
    obtain ⟨next, same, moved, consumed, silent, -⟩ := approach 0 positioned
      (by rw [format.gap_kBlockSize]; omega) (by rw [format.gap_kBlockSize]; omega)
    rw [format.gap_kBlockSize] at consumed
    rw [Format.startOffset_kBlockSize] at moved
    have facing := behind.move consumed moved (Nat.add_zero _)
    have buffered : kRecyclableHeaderSize ≤ next.buffer.length := by
      rw [facing.length_buffer]
      omega
    have type := (facing.header_eq (by omega : kHeaderSize ≤ _)).1
    apply Sees.stops_old ⟨sees.same.trans same, silent.trans sees.silent⟩ facing
      buffered (by rw [type]; exact recyclable) _ between
    rw [consumed.settings.2.1]
    exact other

/-- A record that is neither complete with a matching checksum nor an empty one of
type zero ends the reading. -/
theorem Sees.stops_takeRecord
    (sees : Sees assembly there)
    (checked : there.checksum = true)
    (fromStart : there.initialOffset = 0)
    {headerSize type length : Nat}
    (physical : there.readPhysicalRecord GrowingFile.sequentialFile 0 =
      { there with recycled := true }.takeRecord headerSize type length 0)
    (nonempty : there.buffer.length ≠ 0)
    (notZero : ¬(type = RecordType.zero.code ∧ length = 0))
    (regular : ¬(headerSize + length ≤ there.buffer.length ∧
      crcMatches there.buffer headerSize length = true)) :
    PassesOver .tolerateCorruptedTailRecords assembly := by
  by_cases overlong : there.buffer.length < headerSize + length
  · have taken := @takeRecord_overlong { there with recycled := true } headerSize
      type length overlong nonempty
    rw [taken] at physical
    cases ended : there.eof with
    | true =>
        simp only [ended, if_true] at physical
        exact sees.stops_badHeader physical fromStart rfl
    | false =>
        simp only [ended, Bool.false_eq_true, if_false] at physical
        exact sees.stops_drop (.inl rfl) physical rfl rfl
  · have fits : headerSize + length ≤ there.buffer.length := by omega
    have mismatch : crcMatches there.buffer headerSize length = false := by
      rw [Bool.eq_false_iff]
      exact fun matching => regular ⟨fits, matching⟩
    have taken := takeRecord_mismatch { there with recycled := true } fits notZero
      checked mismatch
    rw [taken] at physical
    exact sees.stops_drop (.inr rfl) physical rfl rfl

/-- Whatever lies behind the new log, the reading ends there without a report,
unless it looks like a record of the new log. -/
theorem Standing.stops
    (facing : Standing format assembly.reader offset tail)
    (recycle : format.recycle = true)
    (old : StartsOld format.logNumber.toUInt32.toUInt64
      (tail.drop (kBlockSize - offset)))
    (regular : ¬StartsOwn format.logNumber.toUInt32.toUInt64
      (min (kBlockSize - offset) tail.length) tail)
    (recycled : assembly.reader.recycled = true)
    (between : assembly.pending = none) :
    PassesOver .tolerateCorruptedTailRecords assembly := by
  have inside := facing.positioned.offset_le
  have sees := Sees.refl assembly
  have seven := kHeaderSize_eq
  have eleven := kRecyclableHeaderSize_eq
  have number := facing.accepts recycle
  have old' (next : Reader GrowingFile) (behind : Behind format next offset tail) :
      StartsOld next.logNumber (tail.drop (kBlockSize - offset)) := by
    rw [← Standing.accepts behind recycle]
    exact old
  rw [← facing.length_buffer, number, StartsOwn] at regular
  by_cases short : assembly.reader.buffer.length < kHeaderSize
  · cases ended : assembly.reader.eof with
    | true =>
        have physical := @readPhysicalRecord_short _ GrowingFile.sequentialFile
          assembly.reader 0 ended short
        by_cases empty : assembly.reader.buffer = []
        · have nothing : tail = [] := by
            have length := facing.length_buffer
            have atEnd := facing.positioned.ended ended
            rw [empty, List.length_nil] at length atEnd
            rw [← List.length_eq_zero_iff]
            omega
          rw [nothing] at facing
          exact sees.reads_end .tolerateCorruptedTailRecords facing between
        · rw [if_neg empty] at physical
          exact sees.stops_badHeader physical facing.fromStart rfl
    | false =>
        obtain ⟨next, sees', behind⟩ := sees.of_short facing short ended
        exact behind.stops sees' inside (old' next behind) between
  · have enough : kHeaderSize ≤ assembly.reader.buffer.length := by omega
    obtain ⟨typeEq, lengthEq⟩ := facing.header_eq enough
    rw [← typeEq, ← lengthEq] at regular
    cases recyclable : isRecyclableType (headerType assembly.reader.buffer) with
    | true =>
        by_cases cut : assembly.reader.buffer.length < kRecyclableHeaderSize
        · cases ended : assembly.reader.eof with
          | true =>
              obtain ⟨next, physical, fromStart, silent⟩ :=
                facing.incomplete_eof enough recyclable cut ended
              exact sees.stops_badHeader physical fromStart silent
          | false =>
              obtain ⟨next, sees', behind⟩ := sees.of_incomplete facing enough
                recyclable cut ended
              exact behind.stops sees' inside (old' next behind) between
        · have complete := Nat.le_of_not_lt cut
          by_cases other : (decodeFixed32 (tail.drop 7)).toUInt64 ≠
              assembly.reader.logNumber
          · exact sees.stops_old facing complete recyclable other between
          · obtain ⟨noted, kept, physical⟩ := facing.complete_header complete
              recyclable
            rw [if_neg other, kept recycled] at physical
            refine sees.stops_takeRecord facing.checked facing.fromStart physical
              (by omega) ?_ ?_
            · rintro ⟨isZero, -⟩
              rw [isZero] at recyclable
              cases recyclable
            · rintro ⟨fits, matching⟩
              rw [if_pos recyclable] at regular
              refine regular ⟨fits, not_not.mp other, ?_⟩
              rw [facing.body_eq, crcMatches_append _ (by omega) fits]
              exact matching
    | false =>
        by_cases isZero : headerType assembly.reader.buffer = RecordType.zero.code ∧
            headerLength assembly.reader.buffer = 0
        · obtain ⟨next, step, behind, none', quiet, -⟩ := sees.step_zero facing
            .tolerateCorruptedTailRecords enough (typeEq ▸ isZero.1)
            (lengthEq ▸ isZero.2)
          obtain ⟨final, reads, silent⟩ := behind.stops (Sees.refl next) inside
            (old' _ behind) none'
          exact ⟨final, .next step reads, silent.trans (quiet between)⟩
        · have self : { assembly.reader with recycled := true } =
              assembly.reader := by
            rw [← recycled]
          have physical :
              assembly.reader.readPhysicalRecord GrowingFile.sequentialFile 0 =
                { assembly.reader with recycled := true }.takeRecord kHeaderSize
                  (headerType assembly.reader.buffer)
                  (headerLength assembly.reader.buffer) 0 := by
            rw [self]
            exact readPhysicalRecord_of_legacy enough recyclable
          refine sees.stops_takeRecord facing.checked facing.fromStart physical
            (by omega) isZero ?_
          rintro ⟨fits, matching⟩
          rw [if_neg (by rw [recyclable]; exact Bool.false_ne_true)] at regular
          refine regular ⟨fits, ?_⟩
          rw [facing.body_eq, crcMatches_append _ (by omega) fits]
          exact matching

end Tail

/-! ## Reading a recycled file -/

section RecycledFile

variable {newer older : Format} {records : List Bytes}

theorem logBytes_ne_nil
    (format : Format)
    (record : Bytes)
    (records : List Bytes) :
    format.logBytes 0 (record :: records) ≠ [] := by
  intro nothing
  have nonempty := format.fragments_ne_nil 0 true record
  obtain ⟨fragment, fragments, first⟩ := List.exists_cons_of_ne_nil nonempty
  rw [Format.logBytes, Format.fragmentsOf, first, List.cons_append,
    Format.place_cons] at nothing
  have length := congrArg List.length nothing
  have bounds := format.header_bounds
  rw [List.length_append, List.length_append, format.length_encode,
    List.length_nil] at length
  omega

/-- The tail of an older log, as a reader of the newer one finds it. -/
theorem startsOld_tail
    (recycle : older.recycle = true)
    (other : older.logNumber.toUInt32.toUInt64 ≠ newer.logNumber.toUInt32.toUInt64)
    (old : List Bytes)
    {position offset : Nat}
    (inBlock : Format.InBlock position offset) :
    StartsOld newer.logNumber.toUInt32.toUInt64
      (((older.logBytes 0 old).drop position).drop (kBlockSize - offset)) := by
  obtain ⟨positive, inside, congruent⟩ := inBlock
  have block := kBlockSize_eq
  have atBlock : position + (kBlockSize - offset) =
      (position + (kBlockSize - offset)) / kBlockSize * kBlockSize := by
    rw [block] at congruent inside ⊢
    omega
  rw [List.drop_drop, atBlock]
  exact startsOld_logBytes recycle other old _

/-- At the end of a block there is no room for a record. -/
theorem not_startsOwn
    {position offset : Nat}
    (inBlock : Format.InBlock position offset)
    {number : UInt64}
    {tail : Bytes}
    (regular : ¬StartsOwn number
      (min (kBlockSize - position % kBlockSize) tail.length) tail) :
    ¬StartsOwn number (min (kBlockSize - offset) tail.length) tail := by
  obtain ⟨positive, inside, congruent⟩ := inBlock
  by_cases full : offset = kBlockSize
  · rw [full, Nat.sub_self, Nat.zero_min, StartsOwn, kHeaderSize_eq,
      kRecyclableHeaderSize_eq]
    split
    · rintro ⟨fits, -⟩
      omega
    · rintro ⟨fits, -⟩
      omega
  · rw [congruent, Nat.mod_eq_of_lt (by omega)] at regular
    exact regular

/-- Reading a log that was written over an older one. -/
theorem readRecords_recycled
    (recycle : newer.recycle = true)
    (olderRecycle : older.recycle = true)
    (other : older.logNumber.toUInt32.toUInt64 ≠ newer.logNumber.toUInt32.toUInt64)
    (old : List Bytes)
    {written : Bytes}
    (log : written = newer.logBytes 0 records)
    {tail : Bytes}
    (isTail : tail = (older.logBytes 0 old).drop written.length)
    (regular : ¬StartsOwn newer.logNumber.toUInt32.toUInt64
      (min (kBlockSize - written.length % kBlockSize) tail.length) tail) :
    ∃ final,
      (∃ enough, ∀ fuel, enough ≤ fuel →
        (Reader.new (GrowingFile.atRest (written ++ tail)) (some []) true 0
          newer.logNumber.toUInt32.toUInt64).readRecords
            GrowingFile.sequentialFile .tolerateCorruptedTailRecords fuel =
          some (records, final)) ∧
        final.reporter = some [] := by
  let reader := Reader.new (GrowingFile.atRest (written ++ tail)) (some []) true 0
    newer.logNumber.toUInt32.toUInt64
  have standing : Standing newer reader kBlockSize (written ++ tail) :=
    standing_new newer _ (some []) _ (fun _ => rfl)
  cases records with
  | nil =>
      have nothing : written = [] := log
      have old' := startsOld_logBytes olderRecycle other old 0
      have whole : written ++ tail = older.logBytes 0 old := by
        rw [isTail, nothing]
        rfl
      rw [Nat.zero_mul, List.drop_zero, ← whole] at old'
      have behind : Behind newer reader kBlockSize (written ++ tail) := by
        rw [Behind, Nat.sub_self, List.drop_zero, Nat.min_eq_left (by omega)]
        exact standing
      obtain ⟨final, reads, silent⟩ := @Behind.stops (startAssembly reader) reader
        newer kBlockSize (written ++ tail) (Sees.refl (startAssembly reader)) behind
        (Nat.le_refl _) (by rw [Nat.sub_self]; exact old') rfl
      exact ⟨final, reads.readRecords rfl, silent⟩
  | cons record records =>
      subst log
      obtain ⟨next, steps, moved, consumed, -, -, pending, quiet⟩ :=
        steps_log newer (record :: records) .tolerateCorruptedTailRecords tail
          (some []) true newer.logNumber.toUInt32.toUInt64 (fun _ => rfl)
      have inBlock := inBlock_log newer (record :: records)
      have facing := standing.move consumed moved (by
        rw [List.length_append, Nat.add_comm])
      have recycled : next.reader.recycled = true := by
        have first := startsOld_logBytes recycle other.symm (record :: records) 0
        rw [Nat.zero_mul, List.drop_zero] at first
        obtain ⟨enough, recyclable, -⟩ :=
          first (logBytes_ne_nil newer record records)
        rw [kRecyclableHeaderSize_eq] at enough
        apply steps.recycled_of_first (List.cons_ne_nil _ _)
        apply recycled_of_new
        · rw [List.length_append, kRecyclableHeaderSize_eq]
          omega
        · rw [headerType_append _ (by rw [kHeaderSize_eq]; omega)]
          exact recyclable
      have old' := startsOld_tail olderRecycle other old inBlock
      rw [← isTail] at old'
      obtain ⟨final, reads, silent⟩ := facing.stops recycle old'
        (not_startsOwn inBlock regular) recycled pending
      have all := steps.reads reads
      rw [List.append_nil] at all
      exact ⟨final, all.readRecords rfl, silent.trans quiet⟩

end RecycledFile

section Modes

variable {δ : Type} {D : Destination δ} {contents : δ → Bytes} {dest oldDest : δ}

/-- A log written over an older one of another number is read back without a
report, unless the rest of the older log starts by accident with a record that
looks like one of the new log. -/
theorem recycled_log_read
    (succeeds : D.Succeeds contents)
    (fresh : contents dest = [])
    (freshOld : contents oldDest = [])
    (old new : List Bytes)
    (oldNumber newNumber : UInt64)
    (small : newNumber.toNat < 2 ^ 32)
    (different : oldNumber.toNat % 2 ^ 32 ≠ newNumber.toNat) :
    let older := contents ((Writer.new oldDest oldNumber true).addRecords D
      old).dest
    let written := contents ((Writer.new dest newNumber true).addRecords D new).dest
    let tail := older.drop written.length
    ¬StartsOwn newNumber
        (min (kBlockSize - written.length % kBlockSize) tail.length) tail →
      ∃ final,
        (∃ enough, ∀ fuel, enough ≤ fuel →
          (Reader.new (GrowingFile.atRest (written ++ tail)) (some []) true 0
            newNumber).readRecords GrowingFile.sequentialFile
              .tolerateCorruptedTailRecords fuel = some (new, final)) ∧
          final.reporter = some [] := by
  intro older written tail regular
  have same := toUInt32_toUInt64_of_lt small
  have log : written = Format.logBytes ⟨true, newNumber⟩ 0 new :=
    Writer.contents_addRecords_new succeeds fresh true newNumber new
  have oldLog : older = Format.logBytes ⟨true, oldNumber⟩ 0 old :=
    Writer.contents_addRecords_new succeeds freshOld true oldNumber old
  have isTail : tail =
      (Format.logBytes ⟨true, oldNumber⟩ 0 old).drop written.length := by
    rw [← oldLog]
  have other : oldNumber.toUInt32.toUInt64 ≠ newNumber.toUInt32.toUInt64 := by
    rw [same, ne_eq, ← UInt64.toNat_inj, UInt32.toNat_toUInt64,
      UInt64.toNat_toUInt32]
    exact different
  have read := @readRecords_recycled ⟨true, newNumber⟩ ⟨true, oldNumber⟩ new rfl rfl
    other old written log tail isTail
  simp only [same] at read
  exact read regular

/-- The log a writer of the recyclable format keeps in memory. -/
def recyclableLog (logNumber : UInt64) (records : List Bytes) : Bytes :=
  id ((Writer.new [] logNumber true).addRecords Destination.memory records).dest

theorem recycled_log_read_sample :
    let tail := (recyclableLog 7 [[1], [3]]).drop (recyclableLog 8 [[2]]).length
    tail ≠ [] ∧
      ∃ final,
        (∃ enough, ∀ fuel, enough ≤ fuel →
          (Reader.new (GrowingFile.atRest (recyclableLog 8 [[2]] ++ tail)) (some [])
            true 0 8).readRecords GrowingFile.sequentialFile
              .tolerateCorruptedTailRecords fuel = some ([[2]], final)) ∧
          final.reporter = some [] := by
  intro tail
  have nonempty : tail ≠ [] := by decide +kernel
  have recyclable : isRecyclableType (headerType tail) = true := by decide +kernel
  have other : (decodeFixed32 (tail.drop 7)).toUInt64 ≠ 8 := by decide +kernel
  refine ⟨nonempty, ?_⟩
  apply recycled_log_read Destination.memory_succeeds (rfl : id ([] : Bytes) = [])
    (rfl : id ([] : Bytes) = []) [[1], [3]] [[2]] 7 8 (by decide) (by decide)
  intro own
  change StartsOwn 8 _ tail at own
  rw [StartsOwn, if_pos recyclable] at own
  exact other own.2.1

end Modes

end Reader

end Log
end RocksUtil
