import RocksUtil.Env.PosixEnv
import RocksUtil.File.DirectIO
import RocksUtil.File.Mapped
import RocksUtil.Log.WriteFailures
import RocksUtil.Log.ZeroSuffix

/-!
# Logs on files of any kind

A file that is mapped, preallocated or written in whole pages is longer than the data in it
and reads as zeros behind it.  What the log writer needs of such a file is that a flush
leaves the data, and nothing but zeros behind it (`Destination.Pads`).  Then the file holds
the log behind every `AddRecord`, and a reader that knows to skip zeros finds all records
(`log_read_back`), also where `Close` does not trim the file.
-/

namespace RocksUtil
namespace Log

/-- A destination whose calls succeed, and which a flush leaves with a file that holds the
data and zeros behind it. -/
structure Destination.Pads
    {δ : Type}
    (D : Destination δ)
    (contents : δ → Bytes)
    (Room : Nat → δ → Prop)
    (file : δ → Bytes) : Prop
    extends D.Accepts contents Room where
  flushes : ∀ dest, Room 0 dest → (D.flush dest).1.ok = true
  padded : ∀ dest, Room 0 dest →
    ∃ zeros, file (D.flush dest).2 = contents dest ++ List.replicate zeros 0

namespace Writer

section Padding

variable {δ : Type} {D : Destination δ} {contents file : δ → Bytes} {Room : Nat → δ → Prop}
  {writer : Writer δ} {records : List Bytes}

/-- Between two records: the file holds the log, and zeros behind it. -/
structure Padded
    (contents : δ → Bytes)
    (Room : Nat → δ → Prop)
    (file : δ → Bytes)
    (records : List Bytes)
    (writer : Writer δ) : Prop where
  bytes : contents writer.dest = writer.format.logBytes 0 records
  offset : writer.blockOffset =
    writer.format.advance 0 (writer.format.fragmentsOf 0 records)
  room : ∀ count, count ≤ 2 * kBlockSize → Room count writer.dest
  padded : ∃ zeros, file writer.dest =
    writer.format.logBytes 0 records ++ List.replicate zeros 0

/-- `AddRecord` succeeds, and leaves the file padded. -/
theorem Padded.addRecord
    (pads : D.Pads contents Room file)
    (padded : Padded contents Room file records writer)
    (record : Bytes) :
    let result := writer.addRecord D record
    result.1.ok = true ∧ Padded contents Room file (records ++ [record]) result.2 ∧
      result.2.format = writer.format := by
  intro result
  have accepts := pads.toAccepts
  have room := padded.room _ (writer.firstSpan_le record)
  obtain ⟨written, others, split, -, bytes, offset, sameFormat, -, whole, always⟩ :=
    writer.addRecord_accepts accepts record room
  have succeeds : result.1.ok = true := always pads.flushes
  rw [whole succeeds, List.append_nil] at split
  have logged : contents result.2.dest =
      writer.format.logBytes 0 (records ++ [record]) := by
    rw [bytes, padded.bytes, ← split, padded.offset, Format.logBytes_append]
    congr 1
    rw [Format.logBytes, Format.fragmentsOf, Format.fragmentsOf, List.append_nil]
  obtain ⟨dest, roomDest, flushes, isFlush⟩ :=
    writer.addRecord_flushes accepts record room succeeds
  have sameContents : contents result.2.dest = contents dest := by
    change contents (writer.addRecord D record).2.dest = _
    rw [isFlush]
    exact (accepts.flush dest roomDest).1
  refine ⟨succeeds, ⟨by rw [sameFormat]; exact logged, ?_, ?_, ?_⟩, sameFormat⟩
  · rw [offset, sameFormat, ← split, padded.offset, Format.fragmentsOf_append,
      Format.advance_append, Format.fragmentsOf, Format.fragmentsOf, List.append_nil]
  · rw [isFlush]
    exact accepts.flush_ok dest roomDest flushes
  · rw [sameFormat, isFlush, ← logged, sameContents]
    exact pads.padded dest roomDest

/-- All `AddRecord` calls succeed. -/
theorem Padded.addRecords
    (pads : D.Pads contents Room file)
    (padded : Padded contents Room file records writer)
    (more : List Bytes) :
    acknowledged D writer more = more ∧
      Padded contents Room file (records ++ more) (writer.addRecords D more) ∧
      (writer.addRecords D more).format = writer.format := by
  induction more generalizing writer records with
  | nil =>
      rw [List.append_nil]
      exact ⟨rfl, padded, rfl⟩
  | cons record more inductionHypothesis =>
      obtain ⟨succeeds, padded', sameFormat⟩ := padded.addRecord pads record
      obtain ⟨all, padded'', sameFormat'⟩ := inductionHypothesis padded'
      rw [List.append_assoc] at padded''
      refine ⟨?_, padded'', sameFormat'.trans sameFormat⟩
      rw [acknowledged, all, if_pos succeeds]
      rfl

end Padding

end Writer

/-! ## Files behind the buffer of the operating system -/

section Buffered

open WritableFileWriter (accepted destination Roomy)

variable {ω : Type} {F : WritableFile ω} {contents held : ω → Bytes} {valid : ω → Prop}

/-- A file in buffered mode whose calls succeed, and which holds its data and zeros. -/
theorem pads_of_neverFails
    (leaks : F.Leaks contents valid fun _ _ => 0)
    (neverFails : F.NeverFails valid)
    (shown : ∀ file, valid file →
      ∃ zeros, held file = contents file ++ List.replicate zeros 0) :
    (destination F).Pads (accepted contents) (Roomy valid)
      fun writer => held writer.writableFile where
  toAccepts := WritableFileWriter.destination_accepts_of_neverFails leaks neverFails
  flushes := fun _ roomy =>
    WritableFileWriter.ok_flush neverFails roomy.buffered roomy.isValid
  padded := by
    intro writer roomy
    obtain ⟨flushed, empty, same⟩ := roomy.flush leaks neverFails (Nat.zero_le 65536)
    obtain ⟨zeros, holds⟩ := shown _ flushed.isValid
    refine ⟨zeros, holds.trans ?_⟩
    rw [← same, accepted, empty, List.append_nil]

/-- `Close` flushes an empty buffer, and leaves the rest to the file. -/
theorem close_of_roomy
    (leaks : F.Leaks contents valid fun _ _ => 0)
    (neverFails : F.NeverFails valid)
    (truncates : ∀ size file, F.truncate size file = (.OK, file))
    {writer : WritableFileWriter ω}
    (roomy : writer.Roomy valid 0) :
    ∃ file, valid file ∧ contents file = accepted contents writer ∧
      ((F.close file).1.ok = true → (writer.close F).1.ok = true) ∧
      (writer.close F).2 = (F.close file).2 := by
  obtain ⟨flushed, empty, same⟩ := roomy.flush leaks neverFails (Nat.zero_le 65536)
  have succeeds := WritableFileWriter.ok_flush neverFails roomy.buffered roomy.isValid
  refine ⟨(writer.flush F).2.writableFile, flushed.isValid, ?_, ?_, ?_⟩
  · rw [← same, accepted, empty, List.append_nil]
  · intro closes
    simp [WritableFileWriter.close, truncates, succeeds, closes]
  · rw [WritableFileWriter.close, truncates]

end Buffered

/-! ## Files written by direct I/O -/

section Direct

open PosixWritableFile (Direct directIOOperations directWritesPages)
open WritableFileWriter (DirectFor destination)

variable {blockSize : Nat} {data : Bytes} {writer : WritableFileWriter PosixWritableFile}

/-- What a writer in unbuffered mode has accepted: the pages that it will not write again,
and its buffer. -/
def directBytes (writer : WritableFileWriter PosixWritableFile) : Bytes :=
  writer.writableFile.contents.take writer.nextWriteOffset ++ writer.buf.bytes

theorem directBytes_eq (direct : DirectFor blockSize data writer) :
    directBytes writer = data := by
  obtain ⟨pages, rest, length, whole, held, -, -⟩ := direct.paged.split
  rw [directBytes, held, ← length, List.take_left, whole]

theorem directPads (blockSize : Nat) :
    (destination directIOOperations).Pads directBytes
      (fun _ writer => DirectFor blockSize (directBytes writer) writer)
      fun writer => writer.writableFile.contents where
  append := by
    intro more _ writer _ direct
    obtain ⟨succeeds, appended⟩ := direct.call (.append more)
    have same := directBytes_eq appended
    change directBytes (WritableFileWriter.append directIOOperations more writer).2 =
      directBytes writer ++ more at same
    refine ⟨succeeds, same, ?_⟩
    change DirectFor blockSize
      (directBytes (WritableFileWriter.append directIOOperations more writer).2) _
    rw [same]
    exact appended
  flush := by
    intro writer direct
    obtain ⟨-, flushed, -⟩ := direct.flush (directWritesPages blockSize _)
    have same := directBytes_eq flushed
    change directBytes (writer.flush directIOOperations).2 = directBytes writer at same
    refine ⟨same, ?_⟩
    change DirectFor blockSize (directBytes (writer.flush directIOOperations).2) _
    rw [same]
    exact flushed
  flush_ok := by
    intro writer direct _ count _
    obtain ⟨-, flushed, -⟩ := direct.flush (directWritesPages blockSize _)
    have same := directBytes_eq flushed
    change DirectFor blockSize (directBytes (writer.flush directIOOperations).2) _
    rw [same]
    exact flushed
  flushes := fun _ direct => (direct.flush (directWritesPages blockSize _)).1
  padded := by
    intro writer direct
    obtain ⟨-, -, zeros, -, padded⟩ := direct.flush (directWritesPages blockSize _)
    exact ⟨zeros, padded⟩

/-- `Close` leaves the data, and zeros that it has not trimmed or has put there itself. -/
theorem close_direct (direct : DirectFor blockSize data writer) :
    (writer.close directIOOperations).1.ok = true ∧
      ∃ zeros, (writer.close directIOOperations).2.contents =
        data ++ List.replicate zeros 0 := by
  obtain ⟨-, kept, zeros, -, padded⟩ := direct.flush (directWritesPages blockSize _)
  have isValid := kept.paged.isValid
  refine ⟨direct.close.1, ?_⟩
  change ∃ zeros, ((writer.flush directIOOperations).2.writableFile.close).2.contents = _
  generalize (writer.flush directIOOperations).2.writableFile = file at isValid padded ⊢
  unfold PosixWritableFile.close
  split
  · dsimp only
    by_cases empty : file.contents = []
    · rw [empty] at padded
      obtain ⟨none, -⟩ := List.append_eq_nil_iff.mp padded.symm
      rw [isValid.filesize_eq empty, none]
      exact ⟨0, by rw [ftruncate, List.take_zero]; rfl⟩
    · have longer := isValid.filesize_gt empty
      refine ⟨zeros + (file.filesize - file.contents.length), ?_⟩
      rw [ftruncate, List.take_of_length_le (by
        rw [List.length_append, List.length_replicate]
        omega), padded, List.append_assoc, List.replicate_append_replicate]
  · exact ⟨zeros, padded⟩

end Direct

/-! ## Writing a log to a file -/

/-- What becomes of a log that is written and closed. -/
structure WrittenLog where
  /-- The records whose `AddRecord` returned OK. -/
  acknowledged : List Bytes
  /-- What the file holds behind the last record. -/
  contents : Bytes
  /-- What `Close` returns. -/
  closeStatus : Status
  /-- What the file holds behind `Close`. -/
  closed : Bytes

variable {ω : Type}

/-- Add records to a new log on a file that has just been opened, and close it. -/
def writeLogTo
    (F : WritableFile ω)
    (contents : ω → Bytes)
    (file : ω)
    (options : EnvOptions)
    (logNumber : UInt64)
    (recycle : Bool)
    (records : List Bytes) : WrittenLog :=
  let D := WritableFileWriter.destination F
  let start := Writer.new (WritableFileWriter.new F file options.writableFileMaxBufferSize
    options.bytesPerSync) logNumber recycle
  let writer := start.addRecords D records
  let closed := writer.dest.close F
  { acknowledged := start.acknowledged D records
    contents := contents writer.dest.writableFile
    closeStatus := closed.1
    closed := contents closed.2 }

/-- The same for a file of any kind. -/
def writeLog
    (options : EnvOptions)
    (logNumber : UInt64)
    (recycle : Bool)
    (records : List Bytes) : PosixFile → WrittenLog
  | .mapped file => writeLogTo PosixMmapFile.operations PosixMmapFile.contents file options
      logNumber recycle records
  | .direct file => writeLogTo PosixWritableFile.directIOOperations
      PosixWritableFile.contents file options logNumber recycle records
  | .buffered file => writeLogTo PosixWritableFile.operations PosixWritableFile.contents file
      options logNumber recycle records

/-- The log is complete, up to zeros behind it. -/
structure WrittenLog.Complete
    (format : Format)
    (records : List Bytes)
    (log : WrittenLog) : Prop where
  acknowledged_eq : log.acknowledged = records
  closes : log.closeStatus.ok = true
  contents : ∃ zeros, log.contents = format.logBytes 0 records ++ List.replicate zeros 0
  closed : ∃ zeros, log.closed = format.logBytes 0 records ++ List.replicate zeros 0

section Kinds

variable (options : EnvOptions) (logNumber : UInt64) (recycle : Bool) (records : List Bytes)

/-- A log on a file in buffered mode that `Close` trims. -/
theorem complete_of_neverFails
    {F : WritableFile ω}
    {contents held : ω → Bytes}
    {valid : ω → Prop}
    (leaks : F.Leaks contents valid fun _ _ => 0)
    (neverFails : F.NeverFails valid)
    (shown : ∀ file, valid file →
      ∃ zeros, held file = contents file ++ List.replicate zeros 0)
    (truncates : ∀ size file, F.truncate size file = (.OK, file))
    (closes : ∀ file, valid file →
      (F.close file).1.ok = true ∧ held (F.close file).2 = contents file)
    (buffered : F.useOSBuffer = true)
    {file : ω}
    (isValid : valid file)
    (isNew : held file = []) :
    (writeLogTo F held file options logNumber recycle records).Complete ⟨recycle, logNumber⟩
      records := by
  have fresh : contents file = [] := by
    obtain ⟨zeros, holds⟩ := shown file isValid
    rw [isNew] at holds
    exact (List.append_eq_nil_iff.mp holds.symm).1
  have roomy (count : Nat) (short : count ≤ 2 * kBlockSize) :
      (WritableFileWriter.new F file options.writableFileMaxBufferSize
        options.bytesPerSync).Roomy valid count := by
    refine ⟨buffered, le_roundup 65536 (Nat.pos_of_isPowerOfTwo F.powerOfTwo), isValid, ?_⟩
    rw [kBlockSize_eq] at short
    exact (Nat.zero_add count).trans_le short
  have start : Writer.Padded (WritableFileWriter.accepted contents)
      (WritableFileWriter.Roomy valid) (fun writer => held writer.writableFile) []
      (Writer.new (WritableFileWriter.new F file options.writableFileMaxBufferSize
        options.bytesPerSync) logNumber recycle) :=
    ⟨congrArg (· ++ []) fresh, rfl, roomy, 0, isNew⟩
  obtain ⟨all, padded, sameFormat⟩ :=
    start.addRecords (pads_of_neverFails leaks neverFails shown) records
  have isFormat : _ = Format.mk recycle logNumber := sameFormat
  obtain ⟨last, isValidLast, holds, closesLast, isClosed⟩ :=
    close_of_roomy leaks neverFails truncates (padded.room 0 (Nat.zero_le _))
  obtain ⟨status, trimmed⟩ := closes last isValidLast
  obtain ⟨zeros, contents'⟩ := padded.padded
  have bytes := padded.bytes
  rw [isFormat, List.nil_append] at contents' bytes
  refine ⟨all, closesLast status, ⟨zeros, contents'⟩, 0, ?_⟩
  rw [List.replicate_zero, List.append_nil, ← bytes, ← holds, ← trimmed, ← isClosed]
  rfl

theorem complete_mapped
    (fname : String)
    (env : PosixEnv.Opening)
    (fallocateWithKeepSize : Bool)
    (place : Nat → {address : Nat // 0 < address}) :
    (writeLog options logNumber recycle records (.mapped (.new fname env.pageSize
      env.powerOfTwo true fallocateWithKeepSize place []))).Complete ⟨recycle, logNumber⟩
        records := by
  have extended := PosixMmapFile.extends_new fname env.pageSize env.powerOfTwo
    fallocateWithKeepSize place
  refine @complete_of_neverFails _ options logNumber recycle records
    PosixMmapFile.operations PosixMmapFile.data PosixMmapFile.contents _
    (PosixMmapFile.leaks 0) (PosixMmapFile.neverFails 0) ?_ (fun _ _ => rfl) ?_ rfl _
    (PosixMmapFile.valid_self extended) rfl
  · rintro file ⟨data, extended, -⟩
    refine ⟨file.limit - file.dst, ?_⟩
    rw [PosixMmapFile.data, extended.holds.take_getFileSize]
    exact extended.holds.contents
  · rintro file ⟨data, extended, -⟩
    obtain ⟨succeeds, trimmed⟩ := extended.holds.close
    refine ⟨congrArg Status.ok succeeds, ?_⟩
    rw [PosixMmapFile.data, extended.holds.take_getFileSize]
    exact trimmed

theorem complete_buffered
    (fname : String)
    (allowFallocate fallocateWithKeepSize : Bool)
    {schedule : List SystemWrite}
    (noError : ∀ call ∈ schedule, call.fails = false)
    (blockSize : Nat) :
    (writeLog options logNumber recycle records (.buffered ((PosixWritableFile.new fname
      allowFallocate fallocateWithKeepSize schedule).setPreallocationBlockSize
        blockSize))).Complete ⟨recycle, logNumber⟩ records := by
  refine @complete_of_neverFails _ options logNumber recycle records
    PosixWritableFile.operations PosixWritableFile.written PosixWritableFile.contents _
    PosixWritableFile.validLeaks PosixWritableFile.validNeverFails ?_ (fun _ _ => rfl) ?_ rfl _
    (PosixWritableFile.valid_new fname allowFallocate fallocateWithKeepSize blockSize noError)
    rfl
  · intro file valid
    obtain ⟨data, holds⟩ := valid.holds
    refine ⟨file.contents.length - data.length, ?_⟩
    rw [holds.written_eq]
    exact holds.contents
  · intro file valid
    exact ⟨congrArg Status.ok valid.close.1, valid.close.2⟩

theorem complete_direct
    (fname : String)
    {schedule : List SystemWrite}
    (noError : ∀ call ∈ schedule, call.fails = false)
    (blockSize : Nat) :
    (writeLog options logNumber recycle records (.direct ((PosixWritableFile.new fname
      true true schedule).setPreallocationBlockSize blockSize))).Complete
        ⟨recycle, logNumber⟩ records := by
  have fresh : PosixWritableFile.Direct blockSize ([] ≠ ([] : Bytes))
      ((PosixWritableFile.new fname true true schedule).setPreallocationBlockSize blockSize) :=
    ⟨noError, Nat.dvd_zero _, rfl, rfl, fun _ => rfl, fun some => absurd rfl some,
      fun _ => rfl, fun some => absurd rfl some⟩
  have isNew : WritableFileWriter.DirectFor blockSize []
      (WritableFileWriter.new PosixWritableFile.directIOOperations
        ((PosixWritableFile.new fname true true schedule).setPreallocationBlockSize blockSize)
        options.writableFileMaxBufferSize options.bytesPerSync) :=
    .new PosixWritableFile.directIOOperations rfl fresh rfl _ _
  have empty := directBytes_eq isNew
  have start : Writer.Padded directBytes
      (fun _ writer => WritableFileWriter.DirectFor blockSize (directBytes writer) writer)
      (fun writer => writer.writableFile.contents) []
      (Writer.new (WritableFileWriter.new PosixWritableFile.directIOOperations
        ((PosixWritableFile.new fname true true schedule).setPreallocationBlockSize blockSize)
        options.writableFileMaxBufferSize options.bytesPerSync) logNumber recycle) := by
    refine ⟨empty, rfl, fun _ _ => ?_, 0, rfl⟩
    change WritableFileWriter.DirectFor blockSize (directBytes (WritableFileWriter.new ..)) _
    rw [empty]
    exact isNew
  obtain ⟨all, padded, sameFormat⟩ := start.addRecords (directPads blockSize) records
  have isFormat : _ = Format.mk recycle logNumber := sameFormat
  obtain ⟨zeros, contents⟩ := padded.padded
  have bytes := padded.bytes
  obtain ⟨closes, zeros', closed⟩ := close_direct (padded.room 0 (Nat.zero_le _))
  rw [bytes] at closed
  rw [isFormat] at contents closed
  exact ⟨all, closes, ⟨zeros, contents⟩, zeros', closed⟩

end Kinds

/-- A log on a file of the kind that `NewWritableFile` gives to any options, mapped, by
direct I/O or neither, preallocated or not, with system calls that succeed, if only by and
by: all `AddRecord` calls and `Close` return OK, and both in front of `Close` and behind it
a reader that tolerates an incomplete tail finds exactly the records, and reports nothing. -/
theorem log_read_back
    (env : PosixEnv.Opening)
    (fname : String)
    (options : EnvOptions)
    (calls : OpenCalls)
    (noError : ∀ call ∈ calls.writes, call.fails = false)
    (noFault : calls.calls = [])
    (blockSize : Nat)
    {file : PosixFile}
    (opens : (env.newWritableFile fname options calls).1.2 = some file)
    (allocates : ∀ mapped, file = .mapped mapped →
      options.allowFallocate = true ∧ blockSize = 0)
    (logNumber : UInt64)
    (recycle : Bool)
    (small : recycle = true → logNumber.toNat < 2 ^ 32)
    (records : List Bytes)
    {mode : WALRecoveryMode}
    (tolerant : mode ≠ .absoluteConsistency)
    (checksum : Bool) :
    let log := writeLog options logNumber recycle records
      (file.setPreallocationBlockSize blockSize)
    log.acknowledged = records ∧ log.closeStatus.ok = true ∧
      ∀ disk, disk = log.contents ∨ disk = log.closed →
        ∃ final,
          (∃ enough, ∀ fuel, enough ≤ fuel →
            (Reader.new (GrowingFile.atRest disk) (some []) checksum 0 logNumber).readRecords
              GrowingFile.sequentialFile mode fuel = some (records, final)) ∧
            final.reporter = some [] := by
  intro log
  have complete : log.Complete ⟨recycle, logNumber⟩ records := by
    unfold PosixEnv.Opening.newWritableFile at opens
    dsimp only at opens
    split at opens
    · cases opens
    · split at opens
      · cases opens
        obtain ⟨allocated, none⟩ := allocates _ rfl
        subst none
        let checked := env.checkDiskForMmap options calls
        change (writeLog options logNumber recycle records (.mapped (.new fname
          checked.pageSize checked.powerOfTwo options.allowFallocate
            options.fallocateWithKeepSize calls.place calls.calls))).Complete _ _
        rw [allocated, noFault]
        exact complete_mapped options logNumber recycle records fname checked _ _
      · split at opens
        · split at opens
          · cases opens
          · cases opens
            exact complete_direct options logNumber recycle records fname noError blockSize
        · cases opens
          exact complete_buffered options logNumber recycle records fname _ _ noError blockSize
  refine ⟨complete.acknowledged_eq, complete.closes, ?_⟩
  have reads {disk : Bytes} (padded : ∃ zeros, disk =
      Format.logBytes ⟨recycle, logNumber⟩ 0 records ++ List.replicate zeros 0) :
      ∃ final,
        (∃ enough, ∀ fuel, enough ≤ fuel →
          (Reader.new (GrowingFile.atRest disk) (some []) checksum 0 logNumber).readRecords
            GrowingFile.sequentialFile mode fuel = some (records, final)) ∧
          final.reporter = some [] := by
    obtain ⟨zeros, rfl⟩ := padded
    exact @Reader.readRecords_zeroSuffix mode ⟨recycle, logNumber⟩ records tolerant _ rfl zeros
      checksum logNumber fun recyclable => Reader.toUInt32_toUInt64_of_lt (small recyclable)
  rintro disk (rfl | rfl)
  · exact reads complete.contents
  · exact reads complete.closed

/-- The disk does not support a mapping, writes are not direct, and the file is allocated
ahead in blocks of 512 bytes. -/
theorem log_read_back_two :
    ∃ file, (PosixEnv.Opening.newWritableFile "000001.log"
        { EnvOptions.default with fallocateWithKeepSize := false }
        ⟨none, none, false, fun _ => ⟨1, by decide⟩, [.done 3, .interrupted], []⟩
        ⟨4096, false, false, 12, rfl⟩).1.2 = some file ∧
      ∃ final enough, ∀ fuel, enough ≤ fuel →
        (Reader.new (GrowingFile.atRest (writeLog
          { EnvOptions.default with fallocateWithKeepSize := false } 7 true [[1], [2, 3]]
            (file.setPreallocationBlockSize 512)).contents) (some []) true 0 7).readRecords
              GrowingFile.sequentialFile .pointInTimeRecovery fuel =
                some ([[1], [2, 3]], final) := by
  have noError : ∀ call ∈ [SystemWrite.done 3, .interrupted], call.fails = false := by
    simp [SystemWrite.fails]
  obtain ⟨-, -, reads⟩ := @log_read_back ⟨4096, false, false, 12, rfl⟩ "000001.log"
    { EnvOptions.default with fallocateWithKeepSize := false }
    ⟨none, none, false, fun _ => ⟨1, by decide⟩, [.done 3, .interrupted], []⟩ noError rfl 512 _
    rfl (fun _ isMapped => by cases isMapped) 7 true (fun _ => by decide) [[1], [2, 3]]
    .pointInTimeRecovery (by decide) true
  obtain ⟨final, returns, -⟩ := reads _ (.inl rfl)
  exact ⟨_, rfl, final, returns⟩

end Log
end RocksUtil
