import RocksUtil.File.WritableFileWriter

/-!
# Buffered mode

In buffered mode the bytes a `WritableFileWriter` has accepted are those of the
file followed by those of the buffer.  No flush changes them, whether or not it
succeeds, and an `Append` adds either all of its data or nothing
(`append_spec`).  While the buffer has room `Append` does not touch the file
(`append_of_room`); otherwise its fate is that of the flush that makes room.
-/

namespace RocksUtil
namespace WritableFileWriter

variable {ω : Type} {F : WritableFile ω} {contents : ω → Bytes}
  {writer : WritableFileWriter ω} {data : Bytes}

/-- The bytes accepted so far. -/
def accepted (contents : ω → Bytes) (writer : WritableFileWriter ω) : Bytes :=
  contents writer.writableFile ++ writer.buf.bytes

@[simp] theorem useOSBuffer_syncBehind
    (F : WritableFile ω)
    (s : Status)
    (writer : WritableFileWriter ω) :
    (writer.syncBehind F s).2.useOSBuffer = writer.useOSBuffer := by
  unfold syncBehind
  simp only
  split <;> rfl

theorem contents_syncBehind
    (keeps : F.Keeps contents)
    (s : Status)
    (writer : WritableFileWriter ω) :
    contents (writer.syncBehind F s).2.writableFile =
      contents writer.writableFile := by
  unfold syncBehind
  simp only
  split
  · exact keeps.rangeSync _ _ _
  · rfl

@[simp] theorem useOSBuffer_grow (writer : WritableFileWriter ω) :
    writer.grow.useOSBuffer = writer.useOSBuffer := by
  unfold grow
  simp only
  split <;> rfl

@[simp] theorem writableFile_grow (writer : WritableFileWriter ω) :
    writer.grow.writableFile = writer.writableFile := by
  unfold grow
  simp only
  split <;> rfl

/-! ## Flushing -/

theorem writeBuffered_spec
    (keeps : F.Keeps contents)
    (writer : WritableFileWriter ω)
    (data : Bytes) :
    let result := writer.writeBuffered F data
    result.2.useOSBuffer = writer.useOSBuffer ∧
      result.2.buf.capacity = writer.buf.capacity ∧
      (result.1.ok = true →
        contents result.2.writableFile = contents writer.writableFile ++ data ∧
          result.2.buf.bytes = []) ∧
      (result.1.ok = false →
        contents result.2.writableFile = contents writer.writableFile ∧
          result.2.buf = writer.buf) := by
  unfold writeBuffered
  by_cases nonempty : 0 < data.length
  · simp only [if_pos nonempty]
    cases succeeds : (F.append data writer.writableFile).1.ok with
    | true =>
        have grown := keeps.append_ok data writer.writableFile succeeds
        simp [succeeds, grown, AlignedBuffer.size]
    | false =>
        have same := keeps.append_failed data writer.writableFile succeeds
        simp [succeeds, same]
  · have empty : data = [] :=
      List.eq_nil_of_length_eq_zero (Nat.eq_zero_of_not_pos nonempty)
    simp [empty, AlignedBuffer.size]

theorem writeOut_spec
    (keeps : F.Keeps contents)
    (buffered : writer.useOSBuffer = true) :
    (writer.writeOut F).2.useOSBuffer = true ∧
      accepted contents (writer.writeOut F).2 = accepted contents writer := by
  unfold writeOut
  by_cases nonempty : 0 < writer.buf.currentSize
  · simp only [if_pos nonempty, if_pos buffered]
    obtain ⟨mode, -, written, failed⟩ :=
      writeBuffered_spec keeps writer writer.buf.bytes
    refine ⟨mode.trans buffered, ?_⟩
    unfold accepted
    cases succeeds : (writer.writeBuffered F writer.buf.bytes).1.ok with
    | true =>
        obtain ⟨grown, empty⟩ := written succeeds
        rw [grown, empty, List.append_nil]
    | false =>
        obtain ⟨same, kept⟩ := failed succeeds
        rw [same, kept]
  · simp only [if_neg nonempty]
    exact ⟨buffered, trivial⟩

/-- A flush moves bytes from the buffer to the file, but accepts and loses
none. -/
theorem flush_spec
    (keeps : F.Keeps contents)
    (buffered : writer.useOSBuffer = true) :
    (writer.flush F).2.useOSBuffer = true ∧
      accepted contents (writer.flush F).2 = accepted contents writer := by
  obtain ⟨mode, same⟩ := writeOut_spec keeps buffered
  rw [← same]
  unfold flush accepted
  simp only
  split
  · split
    · rw [useOSBuffer_syncBehind, contents_syncBehind keeps, buf_syncBehind,
        keeps.flush]
      exact ⟨mode, rfl⟩
    · rw [keeps.flush]
      exact ⟨mode, rfl⟩
  · exact ⟨mode, rfl⟩

/-- Behind a successful flush the file holds all that was accepted. -/
theorem contents_flush
    (keeps : F.Keeps contents)
    (buffered : writer.useOSBuffer = true)
    (succeeds : (writer.flush F).1.ok = true) :
    contents (writer.flush F).2.writableFile = accepted contents writer := by
  have same := (flush_spec keeps buffered).2
  rw [accepted, bytes_flush (.inl buffered) succeeds, List.append_nil] at same
  exact same

/-! ## Appending -/

/-- A slice that fits in the buffer is taken in one round of the loop. -/
theorem appendLoop_of_room
    (s : Status)
    (room : writer.buf.currentSize + data.length ≤ writer.buf.capacity) :
    (writer.appendLoop F s data).1 = s ∧
      (writer.appendLoop F s data).2.useOSBuffer = writer.useOSBuffer ∧
      (writer.appendLoop F s data).2.writableFile = writer.writableFile ∧
      (writer.appendLoop F s data).2.buf.capacity = writer.buf.capacity ∧
      (writer.appendLoop F s data).2.buf.bytes = writer.buf.bytes ++ data := by
  rw [appendLoop]
  by_cases nonempty : 0 < data.length
  · rw [if_pos nonempty, if_neg (AlignedBuffer.not_lt_left room)]
    exact ⟨rfl, rfl, rfl, rfl, (AlignedBuffer.append_eq room).2⟩
  · have empty : data = [] :=
      List.eq_nil_of_length_eq_zero (Nat.eq_zero_of_not_pos nonempty)
    simp [empty]

theorem currentSize_le (writer : WritableFileWriter ω) :
    writer.buf.currentSize ≤ writer.buf.capacity :=
  writer.buf.inCapacity

/-- A slice that fits in the buffer is stored there. -/
theorem store_of_room
    {s : Status}
    (succeeds : s.ok = true)
    (room : writer.buf.currentSize + data.length ≤ writer.buf.capacity) :
    let result := writer.store F s data
    result.1 = s ∧
      result.2.useOSBuffer = writer.useOSBuffer ∧
      result.2.writableFile = writer.writableFile ∧
      result.2.buf.capacity = writer.buf.capacity ∧
      result.2.buf.bytes = writer.buf.bytes ++ data := by
  obtain ⟨status, mode, file, capacity, bytes⟩ :=
    @appendLoop_of_room ω F writer data s room
  have placed : writer.place F s data = writer.appendLoop F s data := by
    rw [place, if_pos (.inr (by omega))]
  have accepted : (writer.place F s data).1.ok = true := by
    rw [placed, status, succeeds]
  simp only [store, if_pos accepted]
  rw [placed]
  exact ⟨status, mode, file, capacity, bytes⟩

/-- While the buffer has room, `Append` succeeds without touching the file. -/
theorem append_of_room
    (room : writer.buf.currentSize + data.length ≤ writer.buf.capacity) :
    let result := append F data writer
    result.1 = .OK ∧
      result.2.useOSBuffer = writer.useOSBuffer ∧
      result.2.writableFile = (writer.prepare F data.length).writableFile ∧
      result.2.buf.capacity = writer.buf.capacity ∧
      result.2.buf.bytes = writer.buf.bytes ++ data := by
  have noFlush : (writer.prepare F data.length).makeRoom F data.length =
      (.OK, writer.prepare F data.length) := by
    rw [makeRoom, if_neg]
    rintro ⟨-, full⟩
    change writer.buf.capacity - writer.buf.currentSize < data.length at full
    omega
  have appended : append F data writer =
      (writer.prepare F data.length).store F .OK data := by
    rw [append, noFlush]
    rfl
  rw [appended]
  exact store_of_room Status.ok_OK room

/-- Without room, `Append` of a slice shorter than the buffer fails exactly when
the flush does, and then takes nothing. -/
theorem append_of_full
    (buffered : writer.useOSBuffer = true)
    (short : data.length ≤ writer.buf.capacity)
    (full : writer.buf.capacity < writer.buf.currentSize + data.length) :
    let flushed := (writer.prepare F data.length).flush F
    let result := append F data writer
    (flushed.1.ok = false → result = flushed) ∧
      (flushed.1.ok = true →
        result.1.ok = true ∧
          result.2.useOSBuffer = flushed.2.useOSBuffer ∧
          result.2.writableFile = flushed.2.writableFile ∧
          writer.buf.capacity ≤ result.2.buf.capacity ∧
          result.2.buf.bytes = data) := by
  intro flushed result
  have inCapacity := writer.currentSize_le
  have mustFlush : (writer.prepare F data.length).makeRoom F data.length =
      if flushed.1.ok then (flushed.1, flushed.2.grow) else flushed := by
    have nonempty : 0 < (writer.prepare F data.length).buf.currentSize := by
      change 0 < writer.buf.currentSize
      omega
    have noRoom : (writer.prepare F data.length).buf.capacity -
        (writer.prepare F data.length).buf.currentSize < data.length := by
      change writer.buf.capacity - writer.buf.currentSize < data.length
      omega
    rw [makeRoom, if_pos ⟨buffered, noRoom⟩, if_pos nonempty]
  constructor
  · intro failed
    simp [result, append, mustFlush, failed]
  · intro succeeds
    have capacity : writer.buf.capacity ≤ flushed.2.grow.buf.capacity := by
      refine Nat.le_trans (Nat.le_of_eq ?_) (capacity_grow _)
      exact (capacity_flush F (writer.prepare F data.length)).symm
    have empty : flushed.2.grow.buf.bytes = [] :=
      bytes_grow (bytes_flush (.inl buffered) succeeds)
    have stored : result = flushed.2.grow.store F flushed.1 data := by
      simp only [result, append, mustFlush, if_pos succeeds]
    obtain ⟨status, mode, file, size, bytes⟩ :=
      @store_of_room ω F flushed.2.grow data flushed.1 succeeds (by
        rw [AlignedBuffer.currentSize, empty, List.length_nil]
        omega)
    rw [empty, List.nil_append] at bytes
    rw [stored]
    exact ⟨(congrArg Status.ok status).trans succeeds, mode.trans (useOSBuffer_grow _),
      file.trans (writableFile_grow _), capacity.trans (Nat.le_of_eq size.symm),
      bytes⟩

end WritableFileWriter
end RocksUtil
