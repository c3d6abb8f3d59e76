import RocksUtil.Env.Preallocation
import RocksUtil.File.Accounting

/-!
# Retrying a write

`PosixWritableFile::Append` returns an error when write(2) fails, also when some of the
data has already reached the file.  The `WritableFileWriter` above it keeps its whole
buffer for the next flush, which writes that part again.  A flush that returns OK finds
exactly the accepted data in the file if no request was torn and no space that has been
preallocated makes the file longer (`contents_of_flush_iff`).
-/

namespace RocksUtil
namespace WritableFileWriter

open PosixWritableFile (operations Torn leak leak_eq_zero leaks written)

/-- The buffer is not torn when it is written. -/
def FlushWhole (writer : WritableFileWriter PosixWritableFile) : Prop :=
  0 < writer.buf.currentSize →
    ¬Torn writer.writableFile.schedule writer.buf.currentSize

/-- No request of the call is torn: not the buffer, where it is written, nor the data
of an `Append` that is too long for the buffer. -/
def CallWhole (writer : WritableFileWriter PosixWritableFile) : Call → Prop
  | .append data =>
      let prepared := writer.prepare operations data.length
      let room := prepared.makeRoom operations data.length
      (prepared.mustFlush data.length → prepared.FlushWhole) ∧
        (room.1.ok = true → room.2.buf.capacity < data.length →
          ¬Torn room.2.writableFile.schedule data.length)
  | _ => writer.FlushWhole

/-- No request of the calls is torn. -/
def RunWhole (writer : WritableFileWriter PosixWritableFile) : List Call → Prop
  | [] => True
  | next :: calls =>
      writer.CallWhole next ∧ (writer.call operations next).2.RunWhole calls

theorem flushLeak_eq_zero (writer : WritableFileWriter PosixWritableFile) :
    flushLeak leak writer = 0 ↔ writer.FlushWhole := by
  unfold flushLeak FlushWhole
  by_cases some : 0 < writer.buf.currentSize
  · rw [if_pos some, leak_eq_zero]
    exact ⟨fun whole _ => whole, fun whole => whole some⟩
  · rw [if_neg some]
    exact ⟨fun _ present => absurd present some, fun _ => rfl⟩

theorem callLeak_eq_zero
    (writer : WritableFileWriter PosixWritableFile)
    (next : Call) :
    callLeak operations leak writer next = 0 ↔ writer.CallWhole next := by
  cases next with
  | append data =>
      unfold callLeak appendLeak CallWhole
      simp only [Nat.add_eq_zero_iff]
      apply and_congr
      · split
        · rename_i must
          rw [flushLeak_eq_zero]
          exact ⟨fun whole _ => whole, fun whole => whole must⟩
        · rename_i need
          exact ⟨fun _ must => absurd must need, fun _ => rfl⟩
      · split
        · rename_i past
          rw [leak_eq_zero]
          exact ⟨fun whole _ _ => whole, fun whole => whole past.1 past.2⟩
        · rename_i inBuffer
          exact ⟨fun _ ok long => absurd ⟨ok, long⟩ inBuffer, fun _ => rfl⟩
  | flush => exact flushLeak_eq_zero writer
  | sync useFsync => exact flushLeak_eq_zero writer

theorem leaked_eq_zero
    (calls : List Call)
    (writer : WritableFileWriter PosixWritableFile) :
    leaked operations leak writer calls = 0 ↔ writer.RunWhole calls := by
  induction calls generalizing writer with
  | nil => exact ⟨fun _ => trivial, fun _ => rfl⟩
  | cons next calls inductionHypothesis =>
      rw [leaked, Nat.add_eq_zero_iff, callLeak_eq_zero, inductionHypothesis]
      rfl

/-- A flush writes the buffer, and changes nothing else of a file that `Flush` and
`RangeSync` leave as it is. -/
theorem writableFile_flush
    {ω : Type}
    {F : WritableFile ω}
    (flushes : ∀ file, (F.flush file).2 = file)
    (rangeSyncs : ∀ offset nbytes file, (F.rangeSync offset nbytes file).2 = file)
    (writer : WritableFileWriter ω) :
    (writer.flush F).2.writableFile = (writer.writeOut F).2.writableFile := by
  unfold flush syncBehind
  simp only [flushes]
  split
  · split
    · split
      · exact rangeSyncs _ _ _
      · rfl
    · rfl
  · rfl

/-- A flush reserves no space. -/
theorem reserved_flush
    {writer : WritableFileWriter PosixWritableFile}
    (buffered : writer.useOSBuffer = true)
    (reserves : writer.writableFile.Reserves) :
    (writer.flush operations).2.writableFile.reserved = writer.writableFile.reserved := by
  rw [writableFile_flush (fun _ => rfl) (fun _ _ _ => rfl), writeOut]
  by_cases some : 0 < writer.buf.currentSize
  · have nonempty : 0 < writer.buf.bytes.length := some
    obtain ⟨-, -, -, same⟩ := reserves.append writer.buf.bytes
    simp only [if_pos some, if_pos buffered, writeBuffered, if_pos nonempty]
    split
    · exact same
    · exact same
  · rw [if_neg some]

/-- The flush of a `PosixWritableFile` that returns OK leaks nothing. -/
theorem flushLeak_of_ok
    {writer : WritableFileWriter PosixWritableFile}
    (buffered : writer.useOSBuffer = true)
    (reserves : writer.writableFile.Reserves)
    (succeeds : (writer.flush operations).1.ok = true) :
    flushLeak leak writer = 0 := by
  unfold flushLeak
  by_cases some : 0 < writer.buf.currentSize
  · rw [if_pos some]
    have written : (writer.writeOut operations).1.ok = true := by
      unfold flush at succeeds
      simp only at succeeds
      split at succeeds
      · rename_i written
        exact written
      · exact succeeds
    have appends : (PosixWritableFile.append writer.buf.bytes writer.writableFile).1.ok = true := by
      have nonempty : 0 < writer.buf.bytes.length := some
      simp only [writeOut, if_pos some, if_pos buffered, writeBuffered, if_pos nonempty]
        at written
      split at written
      · exact written
      · exact written
    exact (leaks.append_ok _ _ reserves appends).1
  · rw [if_neg some]

/-- Space that has been preallocated does not make the file longer than its data. -/
def ReservesWithin (writer : WritableFileWriter PosixWritableFile) : Prop :=
  writer.writableFile.reserved ≤ writer.filesize

/-- A writer over a new `PosixWritableFile`, with any block size for preallocation, any
sequence of calls and any behaviour of write(2): when a flush behind them returns OK, the
file holds exactly the data of the `Append`s that have returned OK if and only if no request
was torn, and no space that has been preallocated makes the file longer. -/
theorem contents_of_flush_iff
    (filename : String)
    (allowFallocate fallocateWithKeepSize : Bool)
    (blockSize : Nat)
    (schedule : List SystemWrite)
    (maxBufferSize bytesPerSync : Nat)
    (calls : List Call) :
    let file := (PosixWritableFile.new filename allowFallocate fallocateWithKeepSize
      schedule).setPreallocationBlockSize blockSize
    let start := new operations file maxBufferSize bytesPerSync
    let ran := start.run operations calls
    let flushed := ran.2.flush operations
    flushed.1.ok = true →
      (flushed.2.writableFile.contents = appended ran.1 ↔
        start.RunWhole calls ∧ ran.2.ReservesWithin) := by
  intro file start ran flushed succeeds
  have fresh : file.Reserves := ⟨[], ⟨rfl, rfl, fun _ => rfl⟩, by
    simp [file, PosixWritableFile.new, PosixWritableFile.setPreallocationBlockSize,
      PosixWritableFile.reserved]⟩
  have account : Accepts written PosixWritableFile.Reserves start
      (appended ran.1) (leaked operations leak start calls) ran.2 :=
    run_accepts leaks calls rfl fresh
  have last := flush_accepts leaks account.buffered account.isValid
  rw [flushLeak_of_ok account.buffered account.isValid succeeds] at last
  have both := account.trans last
  have held : flushed.2.writableFile.written = accepted written flushed.2 :=
    contents_of_flush account.buffered succeeds
  have size := both.length_eq
  rw [List.append_nil] at size
  change (accepted written flushed.2).length = 0 + _ + _ at size
  rw [← held] at size
  rw [← leaked_eq_zero]
  have counted : ran.2.filesize = (appended ran.1).length :=
    (filesize_run operations calls start).trans (Nat.zero_add _)
  obtain ⟨data, holds, length⟩ := both.isValid
  have kept : flushed.2.writableFile.reserved = ran.2.writableFile.reserved :=
    reserved_flush account.buffered account.isValid
  rw [holds.written_eq] at held size
  rw [kept] at length
  unfold ReservesWithin
  constructor
  · intro same
    change flushed.2.writableFile.contents.length = _ at length
    rw [same] at length
    omega
  · rintro ⟨none, within⟩
    have same := both.accepted_eq none
    rw [List.append_nil, ← held] at same
    change data = [] ++ appended ran.1 at same
    have isContents := holds.contents
    rw [length, Nat.sub_eq_zero_of_le (by omega), List.replicate_zero, List.append_nil]
      at isContents
    exact isContents.trans same

/-- A file of two bytes that are written in two parts, in a block of two bytes. -/
def interruptedFile : PosixWritableFile :=
  (PosixWritableFile.new "log" true false [.done 1, .interrupted]).setPreallocationBlockSize 2

/-- A short count and an interrupt tear nothing, and the data fill the block. -/
theorem contents_of_flush_interrupted :
    ∃ ran,
      ran = (new operations interruptedFile 65536 0).run operations [.append [1, 2]] ∧
      (ran.2.flush operations).2.writableFile.contents = [1, 2] := by
  have holds := contents_of_flush_iff "log" true false 2 [.done 1, .interrupted] 65536 0
    [.append [1, 2]]
  refine ⟨_, rfl, ?_⟩
  have succeeds : (((new operations interruptedFile 65536
      0).run operations [.append [1, 2]]).2.flush operations).1.ok = true := by
    simp [run, call, new, append, prepare, makeRoom, store, place, appendLoop, fill,
      flush, writeOut, writeBuffered, syncBehind, syncDue, AlignedBuffer.allocate,
      AlignedBuffer.append, AlignedBuffer.currentSize, roundup, operations, interruptedFile,
      PosixWritableFile.new, PosixWritableFile.setPreallocationBlockSize,
      PosixWritableFile.prepareWrite, PosixWritableFile.allocate,
      WritableFile.prepareWriteWith, PosixWritableFile.append,
      PosixWritableFile.appendLoop, PosixWritableFile.write]
  have whole : (new operations interruptedFile 65536 0).RunWhole [.append [1, 2]] := by
    simp [RunWhole, CallWhole, mustFlush, makeRoom, prepare, new, AlignedBuffer.allocate,
      AlignedBuffer.currentSize, roundup, operations]
  have within : ((new operations interruptedFile 65536
      0).run operations [.append [1, 2]]).2.ReservesWithin := by
    simp [ReservesWithin, run, call, new, append, prepare, makeRoom, store, place, appendLoop,
      fill, AlignedBuffer.allocate, AlignedBuffer.append, AlignedBuffer.currentSize, roundup,
      operations, interruptedFile, PosixWritableFile.new,
      PosixWritableFile.setPreallocationBlockSize, PosixWritableFile.prepareWrite,
      PosixWritableFile.allocate, WritableFile.prepareWriteWith, PosixWritableFile.reserved]
  refine ((holds succeeds).mpr ⟨whole, within⟩).trans ?_
  simp [run, call, new, append, prepare, makeRoom, store, place, appendLoop, fill,
    AlignedBuffer.allocate, AlignedBuffer.append, AlignedBuffer.currentSize, roundup,
    operations, added]

/-- The disk is full after one byte of two, and has room again at the next flush. -/
theorem contents_duplicated :
    ∃ schedule calls ran,
      ran = (new operations (.new "log" true true schedule) 65536 0).run operations
        calls ∧
      appended ran.1 = [1, 2] ∧
      (ran.2.flush operations).1.ok = true ∧
      (ran.2.flush operations).2.writableFile.contents = [1, 1, 2] := by
  refine ⟨[.done 1, .error "No space left on device"], [.append [1, 2], .flush], _, rfl, ?_⟩
  simp [run, call, new, append, prepare, makeRoom, store, place, appendLoop, fill, flush,
    writeOut, writeBuffered, syncBehind, syncDue, AlignedBuffer.allocate,
    AlignedBuffer.append, AlignedBuffer.currentSize, AlignedBuffer.size, roundup, operations,
    PosixWritableFile.new, PosixWritableFile.prepareWrite, WritableFile.prepareWriteWith,
    PosixWritableFile.append, PosixWritableFile.appendLoop, PosixWritableFile.write,
    PosixWritableFile.ioError, overwrite, added]

/-- One byte, in a block of four that has been preallocated. -/
theorem contents_preallocated :
    ∃ ran,
      ran = (new operations ((PosixWritableFile.new "log" true false
        []).setPreallocationBlockSize 4) 65536 0).run operations [.append [1]] ∧
      appended ran.1 = [1] ∧
      (ran.2.flush operations).1.ok = true ∧
      (ran.2.flush operations).2.writableFile.contents = [1, 0, 0, 0] := by
  refine ⟨_, rfl, ?_⟩
  simp [run, call, new, append, prepare, makeRoom, store, place, appendLoop, fill, flush,
    writeOut, writeBuffered, syncBehind, syncDue, AlignedBuffer.allocate,
    AlignedBuffer.append, AlignedBuffer.currentSize, AlignedBuffer.size, roundup, operations,
    PosixWritableFile.new, PosixWritableFile.setPreallocationBlockSize,
    PosixWritableFile.prepareWrite, PosixWritableFile.allocate,
    WritableFile.prepareWriteWith, PosixWritableFile.append, PosixWritableFile.appendLoop,
    PosixWritableFile.write, overwrite, added]

end WritableFileWriter
end RocksUtil
