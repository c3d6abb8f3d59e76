import RocksUtil.File.Mapped
import RocksUtil.Log.Seeking
import RocksUtil.Log.Tailing
import RocksUtil.Log.ZeroSuffix

/-!
# Following a log that is written through a mapping

A writer and a reader on the same file, which is written through a mapping: it is longer
than the log in it and reads as zeros behind the log.  Between records the reader drains
the file: it calls `UnmarkEOF`, and then `ReadRecord` until that returns `false`.

A drain passes over the zeros and ends at the end of the file, so what is written over
zeros afterwards is never read (`overwritten_lost`).  As long as every `AddRecord` writes
its first header where no drain has read yet, each drain returns all that has been written
since the one before it (`follows_mapped`).
-/

namespace RocksUtil
namespace Log
namespace Reader

/-! ## Draining a file with zeros at its end -/

/-- Between two drains the reader stands at the end of a block, with nothing in its
buffer. -/
structure Waits (format : Format) (reader : Reader GrowingFile) : Prop where
  noError : reader.readError = false
  empty : reader.buffer = []
  eofOffset : reader.eofOffset = 0
  blocks : kBlockSize ∣ reader.file.pos
  atRest : reader.file.arrivals = []
  fromStart : reader.initialOffset = 0
  accepts : reader.Accepts format

section Drains

variable {format : Format} {reader : Reader GrowingFile} {todo : List Bytes}
  {count : Nat}

theorem waits_new
    (reporter : Option (List Report))
    (checksum : Bool)
    (logNumber : UInt64)
    (accepts : format.recycle = true →
      format.logNumber.toUInt32.toUInt64 = logNumber) :
    (Reader.new (GrowingFile.atRest []) reporter checksum 0 logNumber).Waits format :=
  ⟨rfl, rfl, rfl, Nat.dvd_zero _, rfl, rfl, accepts⟩

/-- `UnmarkEOF` lets the reader go on with the next block. -/
theorem Waits.positioned
    (waits : reader.Waits format)
    (inFile : reader.file.pos ≤ reader.file.contents.length) :
    (reader.unmarkEOF GrowingFile.sequentialFile).Positioned kBlockSize
        reader.file.unread ∧
      (reader.unmarkEOF GrowingFile.sequentialFile).reach = reader.file.unread.length ∧
      reader.unmarkEOF GrowingFile.sequentialFile = { reader with eof := false } := by
  have unmarked : reader.unmarkEOF GrowingFile.sequentialFile =
      { reader with eof := false } := by
    unfold unmarkEOF
    rw [waits.noError, if_neg Bool.false_ne_true, if_pos waits.eofOffset]
  rw [unmarked]
  refine ⟨⟨waits.noError, inFile, ?_, fun _ => ⟨?_, waits.eofOffset⟩, nofun⟩, ?_, rfl⟩
  · change reader.buffer ++ (_ ++ reader.file.arrivals.flatten) <+: _
    rw [waits.empty, waits.atRest, List.flatten_nil, List.append_nil, List.nil_append]
  · change kBlockSize + reader.buffer.length = kBlockSize
    rw [waits.empty, List.length_nil, Nat.add_zero]
  · change reader.buffer.length + reader.file.unread.length = _
    rw [waits.empty, List.length_nil, Nat.zero_add]

/-- Zeros up to the end of a block of the file leave the reader there. -/
theorem InZeros.at_blockEnd
    {offset : Nat}
    (zeros : InZeros reader offset count)
    (ended : reader.eof = true)
    (ends : (offset + count) % kBlockSize = 0) :
    reader.eofOffset = 0 ∧ reader.file.pos = reader.file.contents.length := by
  have facts := zeros.positioned.ended ended
  have whole := zeros.whole
  rw [reach, if_pos ended] at whole
  have ahead := zeros.positioned.consistent.length_le
  have inFile := zeros.positioned.inFile
  simp only [List.length_append, List.length_replicate, GrowingFile.unread,
    List.length_drop] at ahead
  rw [Nat.mod_eq_of_lt (by omega)] at ends
  omega

/-- What calls of `ReadRecord` leave alone of a file at rest. -/
theorem Reads.keeps_file
    {mode : WALRecoveryMode}
    {assembly : Assembly GrowingFile}
    {records : List Bytes}
    {final : Reader GrowingFile}
    (reads : Reads GrowingFile.sequentialFile mode assembly records final)
    (atRest : assembly.reader.file.arrivals = []) :
    final.file.arrivals = [] ∧
      final.file.contents = assembly.reader.file.contents ∧
      final.initialOffset = assembly.reader.initialOffset ∧
      final.logNumber = assembly.reader.logNumber := by
  refine @Reads.keeps (fun reader => reader.file.arrivals = [] ∧
    reader.file.contents = assembly.reader.file.contents ∧
      reader.initialOffset = assembly.reader.initialOffset ∧
        reader.logNumber = assembly.reader.logNumber) ?_ ?_ ?_ ?_ _ _ _ _ reads
          ⟨atRest, rfl, rfl, rfl⟩
  · intro reader _ _ keeps _
    exact keeps
  · rintro reader ⟨arrivals, contents, settings⟩
    have arrived := GrowingFile.arrive_of_atRest arrivals
    refine ⟨?_, ?_, settings⟩
    · change reader.file.arrive.arrivals = []
      rw [arrived, arrivals]
    · change reader.file.arrive.contents = _
      rw [arrived, contents]
  · intro reader bytes reason keeps
    obtain ⟨reporter, same⟩ := reportDrop_eq reader bytes (.Corruption reason)
    rw [reportCorruption, same]
    exact keeps
  · intro reader _ keeps
    exact keeps

/-- A drain returns the records ahead of the reader, and ends at the end of the file. -/
theorem Waits.drains
    {mode : WALRecoveryMode}
    (tolerant : mode ≠ .absoluteConsistency)
    (waits : reader.Waits format)
    (inFile : reader.file.pos ≤ reader.file.contents.length)
    (whole : kBlockSize ∣ reader.file.contents.length)
    (ahead : reader.file.unread =
      format.logBytes kBlockSize todo ++ List.replicate count 0) :
    ∃ final,
      (∃ enough, ∀ fuel, enough ≤ fuel →
        (reader.unmarkEOF GrowingFile.sequentialFile).readRecords
          GrowingFile.sequentialFile mode fuel = some (todo, final)) ∧
        final.Waits format ∧
        final.file.contents = reader.file.contents ∧
        final.file.pos = reader.file.contents.length := by
  obtain ⟨positioned, reached, unmarked⟩ := waits.positioned inFile
  have fits := format.fits_fragmentsOf kBlockSize todo (Nat.le_refl _)
  obtain ⟨assembled, complete, -⟩ := format.assemble_fragmentsOf kBlockSize todo
  have length := congrArg List.length ahead
  rw [List.length_append, List.length_replicate] at length
  rw [ahead] at positioned
  generalize isReader : reader.unmarkEOF GrowingFile.sequentialFile = unmarkedReader at *
  have atRest : unmarkedReader.file.arrivals = [] := by
    rw [unmarked]
    exact waits.atRest
  obtain ⟨next, steps, moved, consumed, pending, -⟩ :=
    @steps_fragments mode (startAssembly unmarkedReader) format kBlockSize
      (format.fragmentsOf kBlockSize todo) _ positioned fits
      (by
        rw [Assembly.reader_startAssembly, reached, length]
        exact Nat.le_add_right _ _)
      (by rw [unmarked]; exact waits.accepts)
      (by rw [unmarked]; exact waits.fromStart) nofun
  rw [Assembly.pending_startAssembly, assembled] at steps
  rw [Assembly.pending_startAssembly, complete] at pending
  obtain ⟨reachedNext, atRestNext⟩ := consumed.reach_eq atRest
  rw [Assembly.reader_startAssembly, reached, length] at reachedNext
  have zeros : InZeros next.reader
      (format.advance kBlockSize (format.fragmentsOf kBlockSize todo)) count :=
    ⟨moved, atRestNext, Nat.add_right_cancel (reachedNext.trans (Nat.add_comm _ _))⟩
  have ends : (format.advance kBlockSize (format.fragmentsOf kBlockSize todo) + count) %
      kBlockSize = 0 % kBlockSize := by
    have blocks : kBlockSize ∣ (format.logBytes kBlockSize todo).length + count := by
      rw [← length, GrowingFile.unread, List.length_drop]
      exact Nat.dvd_sub whole waits.blocks
    rw [Nat.add_mod, fits.advance_mod, ← Nat.add_mod, Nat.add_assoc, Nat.add_mod_left]
    exact Nat.mod_eq_zero_of_dvd blocks
  obtain ⟨there, offset, left, reads, ended, behind, sameEnd⟩ :=
    zeros.passes tolerant ends pending
  have all := steps.reads reads
  rw [List.append_nil] at all
  obtain ⟨arrivals, contents, initialOffset, logNumber⟩ := all.keeps_file atRest
  obtain ⟨eofOffset, pos⟩ := behind.at_blockEnd ended sameEnd
  rw [Assembly.reader_startAssembly, unmarked] at contents initialOffset logNumber
  have sameContents : there.file.contents = reader.file.contents := contents
  rw [sameContents] at pos
  refine ⟨_, all.readRecords ?_, ⟨behind.positioned.noError, rfl, eofOffset, ?_, arrivals,
    initialOffset.trans waits.fromStart, ?_⟩, contents, pos⟩
  · rw [unmarked]
    exact waits.fromStart
  · change kBlockSize ∣ there.file.pos
    rw [pos]
    exact whole
  · intro recycles
    rw [logNumber]
    exact waits.accepts recycles

end Drains

end Reader

/-! ## The writer and the reader -/

/-- A writer through a mapping, a reader of the same file, and what has gone through so
far. -/
structure MappedTail where
  /-- The writer; its destination is a buffered writer over the mapped file. -/
  writer : Writer (WritableFileWriter PosixMmapFile)
  /-- The reader. -/
  reader : Reader GrowingFile
  /-- The records of the `AddRecord` calls so far. -/
  written : List Bytes
  /-- The records that the drains have returned so far. -/
  returned : List Bytes

namespace MappedTail

/-- A new writer and a new reader on a file that has just been created. -/
def new
    (file : PosixMmapFile)
    (maxBufferSize bytesPerSync : Nat)
    (recycle : Bool)
    (logNumber : UInt64)
    (checksum : Bool)
    (reporter : Option (List Report)) : MappedTail where
  writer := Writer.new
    (WritableFileWriter.new PosixMmapFile.operations file maxBufferSize bytesPerSync)
    logNumber recycle
  reader := Reader.new (GrowingFile.atRest file.contents) reporter checksum 0 logNumber
  written := []
  returned := []

/-- `AddRecord`: what it does to the file is what the reader finds there. -/
def addRecord (tail : MappedTail) (record : Bytes) : MappedTail :=
  let result := tail.writer.addRecord Writer.mapped record
  { writer := result.2
    reader := { tail.reader with
      file := { tail.reader.file with
        contents := result.2.dest.writableFile.contents } }
    written := tail.written ++ [record]
    returned := tail.returned }

/-- `UnmarkEOF`, and then `ReadRecord` in the default mode until it returns `false`. -/
def drain (tail : MappedTail) (fuel : Nat) : Option (List Bytes × Reader GrowingFile) :=
  (tail.reader.unmarkEOF GrowingFile.sequentialFile).readRecords
    GrowingFile.sequentialFile .tolerateCorruptedTailRecords fuel

/-- A drain has returned these records. -/
def after
    (tail : MappedTail)
    (records : List Bytes)
    (reader : Reader GrowingFile) : MappedTail where
  writer := tail.writer
  reader := reader
  written := tail.written
  returned := tail.returned ++ records

/-- The next header goes where the reader has not read yet: behind the data of the file
and the trailer of its last block. -/
def Unread (tail : MappedTail) : Prop :=
  tail.reader.file.pos ≤ tail.writer.dest.writableFile.getFileSize +
    tail.writer.format.gap tail.writer.blockOffset

instance (tail : MappedTail) : Decidable tail.Unread :=
  inferInstanceAs (Decidable (_ ≤ _))

/-- The runs from `start` in which `AddRecord` is called only in states that are
`Allowed`. -/
inductive Runs (Allowed : MappedTail → Prop) (start : MappedTail) : MappedTail → Prop
  | start : Runs Allowed start start
  | addRecord {tail : MappedTail} (runs : Runs Allowed start tail)
      (allowed : Allowed tail) (record : Bytes) :
      Runs Allowed start (tail.addRecord record)
  | drain {tail : MappedTail} (runs : Runs Allowed start tail)
      (fuel : Nat) (records : List Bytes) (reader : Reader GrowingFile)
      (returned : tail.drain fuel = some (records, reader)) :
      Runs Allowed start (tail.after records reader)

/-- What holds of the two between their calls: `data` is the log, and `todo` is still to
be returned. -/
structure Follows
    (format : Format)
    (tail : MappedTail)
    (data : Bytes)
    (todo : List Bytes) : Prop where
  flushed : tail.writer.Flushed data
  format_eq : tail.writer.format = format
  offset_le : tail.writer.blockOffset ≤ kBlockSize
  offset_eq : tail.writer.blockOffset % kBlockSize = data.length % kBlockSize
  waits : tail.reader.Waits format
  contents_eq : tail.reader.file.contents = tail.writer.dest.writableFile.contents
  written_eq : tail.written = tail.returned ++ todo
  ahead : todo = [] ∧ tail.reader.file.pos = tail.reader.file.contents.length ∨
    ∃ front, data = front ++ format.logBytes kBlockSize todo ∧
      front.length = tail.reader.file.pos

section Runs

variable {format : Format} {tail : MappedTail} {data : Bytes} {todo : List Bytes}

/-- What the reader has before it are the records still to be returned, and zeros. -/
theorem Follows.unread
    (follows : tail.Follows format data todo) :
    tail.reader.file.pos ≤ tail.reader.file.contents.length ∧
      ∃ count, tail.reader.file.unread =
        format.logBytes kBlockSize todo ++ List.replicate count 0 := by
  have contents := follows.flushed.extended.holds.contents
  rw [← follows.contents_eq] at contents
  rcases follows.ahead with ⟨rfl, atEnd⟩ | ⟨front, split, length⟩
  · refine ⟨Nat.le_of_eq atEnd, 0, ?_⟩
    rw [GrowingFile.unread, atEnd, List.drop_length]
    rfl
  · rw [split, List.append_assoc] at contents
    rw [GrowingFile.unread, contents, ← length, List.drop_left, List.length_append]
    exact ⟨Nat.le_add_right _ _, _, rfl⟩

/-- Each drain returns, and what it returns is all that has not been returned. -/
theorem Follows.drains
    (follows : tail.Follows format data todo) :
    ∃ final,
      (∃ enough, ∀ fuel, enough ≤ fuel → tail.drain fuel = some (todo, final)) ∧
        (tail.after todo final).Follows format data [] ∧
        final.file.pos = final.file.contents.length := by
  obtain ⟨inFile, count, ahead⟩ := follows.unread
  have whole := follows.flushed.extended.dvd_length
  rw [← follows.contents_eq] at whole
  obtain ⟨final, runs, waits, contents, pos⟩ := @Reader.Waits.drains _ _ _ _
    .tolerateCorruptedTailRecords (by decide) follows.waits inFile whole ahead
  have atEnd : final.file.pos = final.file.contents.length := by rw [pos, contents]
  refine ⟨final, runs, ⟨follows.flushed, follows.format_eq, follows.offset_le,
    follows.offset_eq, waits, contents.trans follows.contents_eq, ?_, .inl ⟨rfl, atEnd⟩⟩,
    atEnd⟩
  change tail.written = tail.returned ++ todo ++ []
  rw [List.append_nil, follows.written_eq]

/-- What the next record appends continues the records still to be returned, from where
the reader stands. -/
theorem Follows.front
    (follows : tail.Follows format data todo)
    (unread : tail.Unread)
    (record : Bytes) :
    ∃ front, data ++ format.logBytes tail.writer.blockOffset [record] =
        front ++ format.logBytes kBlockSize (todo ++ [record]) ∧
      front.length = tail.reader.file.pos := by
  have inside := follows.offset_le
  have sameOffset := follows.offset_eq
  have blocks := Nat.mod_eq_zero_of_dvd follows.waits.blocks
  rcases follows.ahead with ⟨rfl, atEnd⟩ | ⟨front, split, length⟩
  · have holds := follows.flushed.extended.holds
    have behind : data.length ≤ tail.reader.file.pos := by
      rw [atEnd, follows.contents_eq, holds.contents, List.length_append]
      exact Nat.le_add_right _ _
    rw [Unread, holds.size, follows.format_eq] at unread
    rcases Nat.eq_zero_or_pos (format.gap tail.writer.blockOffset) with none | some
    · have same : data.length = tail.reader.file.pos := by omega
      rw [← same] at blocks
      refine ⟨data, ?_, same⟩
      rw [format.logBytes_sameOffset inside (Nat.le_refl kBlockSize)
        (by rw [sameOffset, blocks, Nat.mod_self]), List.nil_append]
    · obtain ⟨isGap, -⟩ := format.startOffset_of_gap some
      have narrow := format.gap_lt_header tail.writer.blockOffset
      have bounds := format.header_bounds
      refine ⟨data ++ List.replicate (format.gap tail.writer.blockOffset) 0, ?_, ?_⟩
      · rw [format.logBytes_of_gap some (List.cons_ne_nil record []), List.append_assoc,
          List.nil_append]
      · rw [List.length_append, List.length_replicate]
        rw [kBlockSize_eq] at blocks sameOffset inside isGap
        rw [isGap] at unread narrow ⊢
        omega
  · refine ⟨front, ?_, length⟩
    have fits := format.fits_fragmentsOf kBlockSize todo (Nat.le_refl _)
    have continued : tail.writer.blockOffset % kBlockSize =
        format.advance kBlockSize (format.fragmentsOf kBlockSize todo) % kBlockSize := by
      rw [sameOffset, split, fits.advance_mod, List.length_append, length, Nat.add_mod,
        blocks, Nat.zero_add, Nat.mod_mod, Nat.add_mod_left]
      rfl
    rw [Format.logBytes_append, ← List.append_assoc, ← split,
      format.logBytes_sameOffset inside fits.advance_le continued]

/-- The bytes of one record. -/
theorem place_fragments (format : Format) (offset : Nat) (record : Bytes) :
    format.place offset (format.fragments offset true record) =
      format.logBytes offset [record] := by
  rw [Format.logBytes, Format.fragmentsOf, Format.fragmentsOf, List.append_nil]

/-- The calls of the writer do not concern where the reader stands. -/
theorem Follows.waits_addRecord
    (follows : tail.Follows format data todo)
    (record : Bytes) : (tail.addRecord record).reader.Waits format :=
  have waits := follows.waits
  ⟨waits.noError, waits.empty, waits.eofOffset, waits.blocks, waits.atRest,
    waits.fromStart, waits.accepts⟩

/-- `AddRecord` where no drain has read yet. -/
theorem Follows.addRecord
    (follows : tail.Follows format data todo)
    (unread : tail.Unread)
    (record : Bytes) :
    (tail.addRecord record).Follows format
      (data ++ format.logBytes tail.writer.blockOffset [record]) (todo ++ [record]) := by
  obtain ⟨-, flushed, offset, sameFormat, -⟩ :=
    Writer.addRecord_mapped follows.flushed record
  rw [follows.format_eq] at flushed offset sameFormat
  have placed := place_fragments format tail.writer.blockOffset record
  have fits := format.fits_fragments _ true record follows.offset_le
  rw [placed] at flushed
  constructor
  case flushed => exact flushed
  case format_eq => exact sameFormat
  case offset_le =>
    change (tail.writer.addRecord Writer.mapped record).2.blockOffset ≤ kBlockSize
    rw [offset]
    exact fits.advance_le
  case offset_eq =>
    change (tail.writer.addRecord Writer.mapped record).2.blockOffset % kBlockSize = _
    rw [offset, fits.advance_mod, placed, List.length_append, Nat.add_mod,
      follows.offset_eq, ← Nat.add_mod]
  case waits => exact follows.waits_addRecord record
  case contents_eq => rfl
  case written_eq =>
    change tail.written ++ [record] = tail.returned ++ (todo ++ [record])
    rw [follows.written_eq, List.append_assoc]
  case ahead => exact .inr (follows.front unread record)

theorem follows_new
    {file : PosixMmapFile}
    (extended : PosixMmapFile.Extends kBlockSize [] file)
    (isNew : file.contents = [])
    (maxBufferSize bytesPerSync : Nat)
    (recycle : Bool)
    (logNumber : UInt64)
    (checksum : Bool)
    (reporter : Option (List Report))
    (small : recycle = true → logNumber.toNat < 2 ^ 32) :
    (new file maxBufferSize bytesPerSync recycle logNumber checksum reporter).Follows
      ⟨recycle, logNumber⟩ [] [] where
  flushed := ⟨rfl, le_roundup 65536 (Nat.pos_of_isPowerOfTwo
    PosixMmapFile.operations.powerOfTwo), rfl, extended⟩
  format_eq := rfl
  offset_le := Nat.zero_le _
  offset_eq := rfl
  waits := by
    rw [new, isNew]
    exact Reader.waits_new reporter checksum logNumber fun recycles =>
      Reader.toUInt32_toUInt64_of_lt (small recycles)
  contents_eq := rfl
  written_eq := rfl
  ahead := .inl ⟨rfl, by rw [new, isNew]; rfl⟩

/-- In a run in which `AddRecord` writes only where no drain has read yet. -/
theorem Runs.follows
    {start : MappedTail}
    (runs : Runs Unread start tail)
    (begins : start.Follows format [] []) :
    ∃ data todo, tail.Follows format data todo := by
  induction runs with
  | start => exact ⟨_, _, begins⟩
  | addRecord _ allowed record inductionHypothesis =>
      obtain ⟨data, todo, follows⟩ := inductionHypothesis
      exact ⟨_, _, follows.addRecord allowed record⟩
  | drain _ fuel records reader returned inductionHypothesis =>
      obtain ⟨data, todo, follows⟩ := inductionHypothesis
      obtain ⟨final, ⟨enough, returns⟩, drained, -⟩ := follows.drains
      have same := Reader.readRecords_eq returned ⟨enough, returns⟩
      cases same
      exact ⟨_, _, drained⟩

/-- Behind a drain of some data the reader is at least a block into the file. -/
theorem Follows.block_le
    (follows : tail.Follows format data todo)
    (atEnd : tail.reader.file.pos = tail.reader.file.contents.length)
    (some : 0 < data.length) : kBlockSize ≤ tail.reader.file.pos := by
  have contents := congrArg List.length follows.flushed.extended.holds.contents
  rw [← follows.contents_eq, ← atEnd, List.length_append] at contents
  exact Nat.le_of_dvd (by omega) follows.waits.blocks

/-- What is written over zeros that a drain has read is never read. -/
theorem Follows.overwritten_lost
    (follows : tail.Follows format data [])
    (atEnd : tail.reader.file.pos = tail.reader.file.contents.length)
    (record : Bytes)
    (room : (data ++ format.logBytes tail.writer.blockOffset [record]).length ≤
      tail.reader.file.pos) :
    ∃ final enough, ∀ fuel, enough ≤ fuel →
      (tail.addRecord record).drain fuel = some ([], final) := by
  obtain ⟨-, flushed, -, -, short⟩ := Writer.addRecord_mapped follows.flushed record
  rw [follows.format_eq, place_fragments] at flushed short
  have whole := flushed.extended.dvd_length
  rw [atEnd, follows.contents_eq] at room
  have sameLength : (tail.addRecord record).reader.file.contents.length =
      tail.reader.file.pos := by
    rw [atEnd, follows.contents_eq]
    exact short room
  have nothing : (tail.addRecord record).reader.file.unread =
      format.logBytes kBlockSize [] ++ List.replicate 0 0 :=
    List.drop_of_length_le (Nat.le_of_eq sameLength)
  obtain ⟨final, ⟨enough, returns⟩, -⟩ := @Reader.Waits.drains _ _ _ _
    .tolerateCorruptedTailRecords (by decide) (follows.waits_addRecord record)
    (Nat.le_of_eq sameLength.symm) whole nothing
  exact ⟨final, enough, returns⟩

end Runs

section Following

variable (filename : String) (pageSize : Nat) (powerOfTwo : pageSize.isPowerOfTwo)
  (fallocateWithKeepSize : Bool) (place : Nat → {address : Nat // 0 < address})
  (maxBufferSize bytesPerSync : Nat) (recycle : Bool) (logNumber : UInt64)
  (checksum : Bool) (reporter : Option (List Report))

/-- A writer and a reader on a mapped file that has just been created, each region of
which will be allocated before it is mapped. -/
abbrev newMapped : MappedTail :=
  new (PosixMmapFile.new filename pageSize powerOfTwo true fallocateWithKeepSize place [])
    maxBufferSize bytesPerSync recycle logNumber checksum reporter

theorem follows_newMapped (small : recycle = true → logNumber.toNat < 2 ^ 32) :
    (newMapped filename pageSize powerOfTwo fallocateWithKeepSize place maxBufferSize
      bytesPerSync recycle logNumber checksum reporter).Follows ⟨recycle, logNumber⟩
        [] [] :=
  follows_new
    (PosixMmapFile.extends_new filename pageSize powerOfTwo fallocateWithKeepSize place)
    rfl maxBufferSize bytesPerSync recycle logNumber checksum reporter small

/-- A reader and a writer through a mapping, in a run in which `AddRecord` is called only
where no drain has read yet: all `AddRecord` calls return OK, each drain returns, and then
all that has been written has been returned, in order. -/
theorem follows_mapped
    (small : recycle = true → logNumber.toNat < 2 ^ 32)
    {tail : MappedTail}
    (runs : Runs Unread
      (newMapped filename pageSize powerOfTwo fallocateWithKeepSize place maxBufferSize
        bytesPerSync recycle logNumber checksum reporter) tail) :
    (∀ record, (tail.writer.addRecord Writer.mapped record).1.ok = true) ∧
      (∃ enough, ∀ fuel, enough ≤ fuel → (tail.drain fuel).isSome) ∧
      ∀ fuel records reader, tail.drain fuel = some (records, reader) →
        tail.returned ++ records = tail.written := by
  obtain ⟨data, todo, follows⟩ := runs.follows
    (follows_newMapped filename pageSize powerOfTwo fallocateWithKeepSize place
      maxBufferSize bytesPerSync recycle logNumber checksum reporter small)
  obtain ⟨final, ⟨enough, returns⟩, -⟩ := follows.drains
  refine ⟨fun record => (Writer.addRecord_mapped follows.flushed record).1,
    ⟨enough, fun fuel bound => ?_⟩, fun fuel records reader returned => ?_⟩
  · rw [returns fuel bound]
    rfl
  · cases Reader.readRecords_eq returned ⟨enough, returns⟩
    exact follows.written_eq.symm

end Following

theorem pageSize_sample : ∃ k, 4096 = 2 ^ k := ⟨12, rfl⟩

/-- Files with pages of 4096 bytes. -/
abbrev sample : MappedTail :=
  newMapped "000001.log" 4096 pageSize_sample true (fun _ => ⟨1, by decide⟩) 1048576 0 false 0
    true none

/-- Two records, and then a drain. -/
theorem follows_mapped_two :
    ∃ tail, Runs Unread sample tail ∧ tail.written = [[1], [2]] ∧
      tail.returned = [[1], [2]] := by
  let tail := (sample.addRecord [1]).addRecord [2]
  have runs : Runs Unread sample tail :=
    .addRecord (.addRecord .start (Nat.zero_le _) [1]) (Nat.zero_le _) [2]
  obtain ⟨-, ⟨enough, returns⟩, all⟩ := follows_mapped "000001.log" 4096 ⟨12, rfl⟩ true
    (fun _ => ⟨1, by decide⟩) 1048576 0 false 0 true none Bool.false_ne_true.elim runs
  obtain ⟨⟨records, reader⟩, returned⟩ := Option.isSome_iff_exists.mp
    (returns enough (Nat.le_refl _))
  exact ⟨tail.after records reader, .drain runs enough records reader returned, rfl,
    all enough records reader returned⟩

/-- A record, a drain that reads the zeros behind it, and a record over these zeros: from
then on drains return nothing. -/
theorem record_over_zeros_lost :
    ∃ tail, Runs (fun _ => True) sample tail ∧ tail.written = [[1], [2]] ∧
      tail.returned = [[1]] ∧
      ∃ final enough, ∀ fuel, enough ≤ fuel → tail.drain fuel = some ([], final) := by
  have first : (sample.addRecord [1]).Follows ⟨false, 0⟩
      (Format.logBytes ⟨false, 0⟩ 0 [[1]]) [[1]] :=
    (follows_newMapped "000001.log" 4096 ⟨12, rfl⟩ true (fun _ => ⟨1, by decide⟩) 1048576
      0 false 0 true none Bool.false_ne_true.elim).addRecord (Nat.zero_le _) [1]
  obtain ⟨reader, ⟨enough, returns⟩, drained, atEnd⟩ := first.drains
  have runs : Runs (fun _ => True) sample ((sample.addRecord [1]).after [[1]] reader) :=
    .drain (.addRecord .start trivial [1]) enough [[1]] reader
      (returns enough (Nat.le_refl _))
  have one : (Format.logBytes ⟨false, 0⟩ 0 [[1]]).length = 8 := by decide +kernel
  have two : (Format.logBytes ⟨false, 0⟩ 8 [[2]]).length = 8 := by decide +kernel
  have block := drained.block_le atEnd (by omega)
  have offset := drained.offset_eq
  have inside := drained.offset_le
  rw [kBlockSize_eq] at block offset inside
  rw [one] at offset
  have eight : ((sample.addRecord [1]).after [[1]] reader).writer.blockOffset = 8 := by
    omega
  refine ⟨_, .addRecord runs trivial [2], rfl, rfl, drained.overwritten_lost atEnd [2] ?_⟩
  rw [eight, List.length_append, one, two]
  omega

end MappedTail
end Log
end RocksUtil
