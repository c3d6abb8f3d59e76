import RocksUtil.File.Buffered
import RocksUtil.Log.Writing

/-!
# One write for each physical record

A `log::Writer` over a buffered `WritableFileWriter` flushes behind every physical
record, and a record with the trailer in front of it always fits in the buffer that the
constructor allocates.  So each of them reaches the file in one `Append`
(`one_append_each`), and a file of which some `Append`s are completed ends where a
physical record does.
-/

namespace RocksUtil
namespace Log

namespace Format

/-- The bytes of each fragment, behind the trailer in front of it. -/
def pieceBytes (format : Format) : Nat → List Fragment → List Bytes
  | _, [] => []
  | offset, fragment :: fragments =>
      (List.replicate (format.gap offset) 0 ++ format.encode fragment) ::
        format.pieceBytes (format.endOffset offset fragment.payload.length) fragments

theorem flatten_pieceBytes
    (format : Format)
    (offset : Nat)
    (fragments : List Fragment) :
    (format.pieceBytes offset fragments).flatten = format.place offset fragments := by
  induction fragments generalizing offset with
  | nil => rfl
  | cons fragment fragments inductionHypothesis =>
      rw [pieceBytes, List.flatten_cons, inductionHypothesis, place_cons, List.append_assoc]

theorem take_pieceBytes
    (format : Format)
    (offset count : Nat)
    (fragments : List Fragment) :
    (format.pieceBytes offset fragments).take count =
      format.pieceBytes offset (fragments.take count) := by
  induction fragments generalizing offset count with
  | nil => simp [pieceBytes]
  | cons fragment fragments inductionHypothesis =>
      cases count with
      | zero => rfl
      | succ count =>
          rw [pieceBytes, List.take_succ_cons, inductionHypothesis, List.take_succ_cons,
            pieceBytes]

theorem pieceBytes_append
    (format : Format)
    (offset : Nat)
    (left right : List Fragment) :
    format.pieceBytes offset (left ++ right) =
      format.pieceBytes offset left ++
        format.pieceBytes (format.advance offset left) right := by
  induction left generalizing offset with
  | nil => rfl
  | cons fragment left inductionHypothesis =>
      rw [List.cons_append, pieceBytes, inductionHypothesis, pieceBytes, advance,
        List.cons_append]

end Format

/-- A destination that holds what is appended until it is flushed, and then writes it at
once.  There is room for two blocks. -/
structure Destination.Collects
    {δ : Type}
    (D : Destination δ)
    (writes : δ → List Bytes)
    (held : δ → Bytes)
    (valid : δ → Prop) : Prop where
  append : ∀ data dest, valid dest →
    (held dest).length + data.length ≤ 2 * kBlockSize →
      let result := D.append data dest
      result.1.ok = true ∧ valid result.2 ∧ writes result.2 = writes dest ∧
        held result.2 = held dest ++ data
  flush : ∀ dest, valid dest → held dest ≠ [] →
    let result := D.flush dest
    result.1.ok = true ∧ valid result.2 ∧ writes result.2 = writes dest ++ [held dest] ∧
      held result.2 = []

namespace Writer

section Collecting

variable {δ : Type} {D : Destination δ} {writes : δ → List Bytes} {held : δ → Bytes}
  {valid : δ → Prop}

theorem switchBlock_collects
    (collects : D.Collects writes held valid)
    (writer : Writer δ)
    (isValid : valid writer.dest)
    (empty : held writer.dest = []) :
    valid (writer.switchBlock D).dest ∧
      writes (writer.switchBlock D).dest = writes writer.dest ∧
      held (writer.switchBlock D).dest =
        List.replicate (writer.format.gap writer.blockOffset) 0 := by
  have gapEq : writer.format.gap writer.blockOffset =
      if writer.leftover < headerSize writer.recycleLogFiles then writer.leftover
      else 0 := rfl
  have bounds := headerSize_bounds writer.recycleLogFiles
  have block := kBlockSize_eq
  rw [gapEq]
  unfold switchBlock
  by_cases switches : writer.leftover < headerSize writer.recycleLogFiles
  · simp only [if_pos switches]
    by_cases positive : 0 < writer.leftover
    · obtain ⟨-, stillValid, sameWrites, holds⟩ :=
        collects.append (List.replicate writer.leftover 0) writer.dest isValid (by
          rw [empty, List.length_replicate, List.length_nil]
          omega)
      simp only [if_pos positive]
      rw [empty, List.nil_append] at holds
      exact ⟨stillValid, sameWrites, holds⟩
    · have none : writer.leftover = 0 := by omega
      simp only [none, Nat.lt_irrefl, if_false, List.replicate_zero]
      exact ⟨isValid, trivial, empty⟩
  · simp only [if_neg switches, List.replicate_zero]
    exact ⟨isValid, trivial, empty⟩

theorem emitPhysicalRecord_collects
    (collects : D.Collects writes held valid)
    (writer : Writer δ)
    (t : RecordType)
    (ptr : Bytes)
    (isValid : valid writer.dest)
    (room : (held writer.dest).length +
      (headerSize (isRecyclable t) + ptr.length) ≤ 2 * kBlockSize) :
    let result := writer.emitPhysicalRecord D t ptr
    result.1.ok = true ∧ valid result.2.dest ∧ held result.2.dest = [] ∧
      writes result.2.dest = writes writer.dest ++
        [held writer.dest ++ (formatHeader writer.logNumber t ptr ++ ptr)] := by
  have bounds := headerSize_bounds (isRecyclable t)
  rw [← length_formatHeader writer.logNumber t ptr] at room bounds
  obtain ⟨headerOk, headerValid, headerWrites, headerHeld⟩ :=
    collects.append (formatHeader writer.logNumber t ptr) writer.dest isValid (by omega)
  obtain ⟨payloadOk, payloadValid, payloadWrites, payloadHeld⟩ :=
    collects.append ptr _ headerValid (by
      rw [headerHeld, List.length_append]
      omega)
  rw [headerHeld, List.append_assoc] at payloadHeld
  have some : held (D.append ptr
      (D.append (formatHeader writer.logNumber t ptr) writer.dest).2).2 ≠ [] := by
    rw [payloadHeld]
    intro none
    have size := congrArg List.length none
    simp only [List.length_append, List.length_nil] at size
    omega
  obtain ⟨flushOk, flushValid, flushWrites, flushHeld⟩ :=
    collects.flush _ payloadValid some
  rw [payloadWrites, headerWrites, payloadHeld] at flushWrites
  simp only [emitPhysicalRecord, headerOk, payloadOk, if_true]
  exact ⟨flushOk, flushValid, flushHeld, flushWrites⟩

/-- A fragment is written with the trailer in front of it, all at once. -/
theorem emitFragment_collects
    (collects : D.Collects writes held valid)
    (writer : Writer δ)
    (start : Bool)
    (left : Bytes)
    (isValid : valid writer.dest)
    (empty : held writer.dest = []) :
    let result := (writer.switchBlock D).emitFragment D start left
    result.1.ok = true ∧ valid result.2.dest ∧ held result.2.dest = [] ∧
      writes result.2.dest = writes writer.dest ++
        [List.replicate (writer.format.gap writer.blockOffset) 0 ++
          writer.format.encode (writer.firstFragment start left)] := by
  have short := writer.firstSpan_le left
  obtain ⟨switchedValid, switchedWrites, switchedHeld⟩ :=
    switchBlock_collects collects writer isValid empty
  have size := size_firstFragment writer start left
  rw [emitFragment_switchBlock]
  obtain ⟨succeeds, stillValid, nothing, written⟩ := emitPhysicalRecord_collects collects
    (writer.switchBlock D)
    (writer.format.type (writer.firstFragment start left))
    (writer.firstFragment start left).payload switchedValid (by
      rw [switchedHeld, List.length_replicate, size]
      exact short)
  refine ⟨succeeds, stillValid, nothing, ?_⟩
  rw [written, switchedWrites, switchedHeld, logNumber_switchBlock]
  rfl

/-- The loop of `AddRecord` writes each fragment at once. -/
theorem addRecordLoop_collects
    (collects : D.Collects writes held valid)
    (writer : Writer δ)
    (start : Bool)
    (left : Bytes)
    (isValid : valid writer.dest)
    (empty : held writer.dest = []) :
    let pieces := writer.format.fragments writer.blockOffset start left
    let result := writer.addRecordLoop D start left
    result.1.ok = true ∧ valid result.2.dest ∧ held result.2.dest = [] ∧
      writes result.2.dest =
        writes writer.dest ++ writer.format.pieceBytes writer.blockOffset pieces ∧
      result.2.blockOffset = writer.format.advance writer.blockOffset pieces ∧
      result.2.format = writer.format := by
  fun_induction writer.addRecordLoop D start left with
  | case1 writer start left left' result continues inductionHypothesis =>
      obtain ⟨-, stillValid, nothing, written⟩ :=
        emitFragment_collects collects writer start left isValid empty
      have leftEq : left' = left.drop (writer.firstLength left) := by
        rw [← fragmentLength_switchBlock D]
      have more := continues.2
      rw [leftEq] at more
      have offset : result.2.blockOffset = writer.format.endOffset
          writer.blockOffset (writer.firstLength left) :=
        blockOffset_emitFragment_switchBlock D writer start left
      have sameFormat : result.2.format = writer.format :=
        format_emitFragment_switchBlock D writer start left
      obtain ⟨succeeds, restValid, restEmpty, restWrites, restOffset, restFormat⟩ :=
        inductionHypothesis stillValid nothing
      rw [sameFormat, offset, leftEq] at restWrites restOffset
      have firstWrites : writes result.2.dest = _ := written
      rw [firstWrites, List.append_assoc] at restWrites
      refine ⟨succeeds, restValid, restEmpty, ?_, ?_, restFormat.trans sameFormat⟩
      · rw [fragments_eq, if_pos more, Format.pieceBytes, length_firstFragment, leftEq]
        exact restWrites
      · rw [fragments_eq, if_pos more, Format.advance, length_firstFragment, leftEq]
        exact restOffset
  | case2 writer start left left' result stops =>
      obtain ⟨succeeds, stillValid, nothing, written⟩ :=
        emitFragment_collects collects writer start left isValid empty
      have leftEq : left' = left.drop (writer.firstLength left) := by
        rw [← fragmentLength_switchBlock D]
      have last : ¬0 < (left.drop (writer.firstLength left)).length := by
        rw [← leftEq]
        exact fun more => stops ⟨succeeds, more⟩
      have offset : result.2.blockOffset = writer.format.endOffset
          writer.blockOffset (writer.firstLength left) :=
        blockOffset_emitFragment_switchBlock D writer start left
      refine ⟨succeeds, stillValid, nothing, ?_, ?_,
        format_emitFragment_switchBlock D writer start left⟩
      · rw [fragments_eq, if_neg last]
        exact written
      · rw [fragments_eq, if_neg last, Format.advance, Format.advance,
          length_firstFragment]
        exact offset

/-- So does a run of `AddRecord` calls. -/
theorem addRecords_collects
    (collects : D.Collects writes held valid)
    (writer : Writer δ)
    (records : List Bytes)
    (isValid : valid writer.dest)
    (empty : held writer.dest = []) :
    writes (writer.addRecords D records).dest = writes writer.dest ++
      writer.format.pieceBytes writer.blockOffset
        (writer.format.fragmentsOf writer.blockOffset records) := by
  induction records generalizing writer with
  | nil => simp [addRecords, Format.fragmentsOf, Format.pieceBytes]
  | cons record records inductionHypothesis =>
      obtain ⟨-, stillValid, nothing, written, offset, sameFormat⟩ :=
        addRecordLoop_collects collects writer true record isValid empty
      have rest := inductionHypothesis (writer.addRecord D record).2 stillValid nothing
      have firstWrites : writes (writer.addRecord D record).2.dest = _ := written
      have firstOffset : (writer.addRecord D record).2.blockOffset = _ := offset
      have firstFormat : (writer.addRecord D record).2.format = _ := sameFormat
      rw [firstWrites, firstOffset, firstFormat, List.append_assoc,
        ← Format.pieceBytes_append] at rest
      exact rest

end Collecting

end Writer
end Log

namespace WritableFileWriter

variable {ω : Type} {F : WritableFile ω} {valid : ω → Prop}

/-- A writer in buffered mode over a file in a valid state. -/
structure Collecting
    (valid : ω → Prop)
    (writer : WritableFileWriter (ω × List Bytes)) : Prop where
  buffered : writer.useOSBuffer = true
  large : 65536 ≤ writer.buf.capacity
  isValid : valid writer.writableFile.1

theorem syncBehind_collecting
    (neverFails : F.NeverFails valid)
    {writer : WritableFileWriter (ω × List Bytes)}
    (collecting : writer.Collecting valid)
    {s : Status}
    (succeeds : s.ok = true) :
    (writer.syncBehind F.recordingAppends s).1.ok = true ∧
      (writer.syncBehind F.recordingAppends s).2.Collecting valid ∧
      (writer.syncBehind F.recordingAppends s).2.writableFile.2 =
        writer.writableFile.2 := by
  have synced := neverFails.rangeSync writer.lastSyncSize writer.syncLength
    writer.writableFile.1 collecting.isValid
  unfold syncBehind
  by_cases due : writer.syncDue = true
  · simp only [if_pos due]
    exact ⟨synced.1, ⟨collecting.buffered, collecting.large, synced.2⟩, rfl⟩
  · simp only [if_neg due]
    exact ⟨succeeds, collecting, trivial⟩

/-- The buffered writer is such a destination. -/
theorem destination_collects (neverFails : F.NeverFails valid) :
    (destination F.recordingAppends).Collects
      (fun writer => writer.writableFile.2) (fun writer => writer.buf.bytes)
      (Collecting valid) where
  append := by
    intro data writer collecting short
    have block := Log.kBlockSize_eq
    have large := collecting.large
    obtain ⟨status, mode, file, capacity, bytes⟩ :=
      @append_of_room _ F.recordingAppends writer data (by
        simp only [AlignedBuffer.currentSize]
        omega)
    have prepared := neverFails.prepareWrite writer.filesize data.length
      writer.writableFile.1 collecting.isValid
    refine ⟨congrArg Status.ok status, ⟨mode.trans collecting.buffered, ?_, ?_⟩, ?_,
      bytes⟩
    · exact Nat.le_trans large (Nat.le_of_eq capacity.symm)
    · rw [show ((destination F.recordingAppends).append data writer).2.writableFile = _
        from file]
      exact prepared
    · change ((append F.recordingAppends data writer).2.writableFile).2 =
        writer.writableFile.2
      rw [file]
      rfl
  flush := by
    intro writer collecting some
    have nonempty : 0 < writer.buf.currentSize := List.length_pos_of_ne_nil some
    have appended := neverFails.append writer.buf.bytes writer.writableFile.1
      collecting.isValid
    have flushed := neverFails.flush _ appended.2
    have written : writer.writeOut F.recordingAppends =
        ((F.append writer.buf.bytes writer.writableFile.1).1, { writer with
          writableFile := ((F.append writer.buf.bytes writer.writableFile.1).2,
            writer.writableFile.2 ++ [writer.buf.bytes])
          buf := writer.buf.size 0 }) := by
      unfold writeOut writeBuffered
      rw [if_pos nonempty, if_pos collecting.buffered]
      rw [if_pos (show 0 < writer.buf.bytes.length from nonempty)]
      have succeeds : (F.recordingAppends.append writer.buf.bytes
          writer.writableFile).1.ok = true := appended.1
      simp only [if_pos succeeds]
      rfl
    let behind := { writer with
      writableFile := ((F.flush (F.append writer.buf.bytes
        writer.writableFile.1).2).2, writer.writableFile.2 ++ [writer.buf.bytes])
      buf := writer.buf.size 0 }
    have collects : behind.Collecting valid :=
      ⟨collecting.buffered, collecting.large, flushed.2⟩
    have after := syncBehind_collecting neverFails collects flushed.1
    have flushEq : writer.flush F.recordingAppends =
        syncBehind F.recordingAppends
          (F.flush (F.append writer.buf.bytes writer.writableFile.1).2).1
          { writer with
            writableFile := ((F.flush (F.append writer.buf.bytes
              writer.writableFile.1).2).2, writer.writableFile.2 ++ [writer.buf.bytes])
            buf := writer.buf.size 0 } := by
      unfold flush
      simp only [written, if_pos appended.1]
      rw [if_pos (show (F.recordingAppends.flush
        ((F.append writer.buf.bytes writer.writableFile.1).2, _)).1.ok = true
          from flushed.1)]
      rfl
    intro result
    rw [show result = _ from flushEq]
    exact ⟨after.1, after.2.1, after.2.2, congrArg AlignedBuffer.bytes (buf_syncBehind _ _ _)⟩

/-- Each physical record, with the trailer in front of it, reaches the file in one
`Append`, whatever the maximal buffer size is; so the `Append`s completed at any moment
are those of the first physical records. -/
theorem one_append_each
    (buffered : F.useOSBuffer = true)
    (neverFails : F.NeverFails valid)
    (file : ω)
    (isValid : valid file)
    (maxBufferSize bytesPerSync : Nat)
    (logNumber : UInt64)
    (recycle : Bool)
    (records : List Bytes) :
    ∃ appends,
      appends = ((Log.Writer.new
        (new F.recordingAppends (file, []) maxBufferSize bytesPerSync) logNumber
          recycle).addRecords (destination F.recordingAppends)
            records).dest.writableFile.2 ∧
      appends = (⟨recycle, logNumber⟩ : Log.Format).pieceBytes 0
        ((⟨recycle, logNumber⟩ : Log.Format).fragmentsOf 0 records) ∧
      ∀ count, (appends.take count).flatten = (⟨recycle, logNumber⟩ : Log.Format).place 0
        (((⟨recycle, logNumber⟩ : Log.Format).fragmentsOf 0 records).take count) := by
  have collecting : Collecting valid
      (new F.recordingAppends (file, []) maxBufferSize bytesPerSync) :=
    ⟨buffered, le_roundup 65536 (Nat.pos_of_isPowerOfTwo F.powerOfTwo), isValid⟩
  have written := Log.Writer.addRecords_collects (destination_collects neverFails)
    (Log.Writer.new (new F.recordingAppends (file, []) maxBufferSize bytesPerSync)
      logNumber recycle) records collecting rfl
  have each := written.trans (List.nil_append _)
  refine ⟨_, rfl, each, fun count => ?_⟩
  rw [each, Log.Format.take_pieceBytes, Log.Format.flatten_pieceBytes]
  rfl

/-- Two records written to a file with the default properties. -/
theorem one_append_each_two :
    ((Log.Writer.new
      (new (FaultyFile.Traits.default.writableFile).recordingAppends (⟨[], []⟩, []) 1048576
        0) 7 false).addRecords
        (destination (FaultyFile.Traits.default.writableFile).recordingAppends)
          [[1], [2, 3]]).dest.writableFile.2 =
      (⟨false, 7⟩ : Log.Format).pieceBytes 0
        ((⟨false, 7⟩ : Log.Format).fragmentsOf 0 [[1], [2, 3]]) := by
  obtain ⟨appends, are, each, -⟩ :=
    one_append_each rfl FaultyFile.Traits.default.neverFails (⟨[], []⟩ : FaultyFile) rfl
      1048576 0 7 false [[1], [2, 3]]
  rw [← are, each]

end WritableFileWriter
end RocksUtil
