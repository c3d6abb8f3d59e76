import RocksUtil.Env.WritableFile
import RocksUtil.File.AlignedBuffer
import RocksUtil.Log.Writer

/-!
# The buffered file writer

`WritableFileWriter` of the source.  `Append` collects data in a buffer that
doubles up to a maximal size, and `Flush` hands the buffer to the underlying
file: by `Append` when the operating system buffers writes, and otherwise in
whole pages by `PositionedAppend`.

The loop of `Append` ends because a flush of a full buffer leaves it empty
(`bytes_flush`), in either mode.
-/

namespace RocksUtil

/-- The state of a `WritableFileWriter` over a file state. -/
structure WritableFileWriter (ω : Type) where
  /-- `writable_file_`. -/
  writableFile : ω
  /-- `buf_`. -/
  buf : AlignedBuffer
  /-- `max_buffer_size_`. -/
  maxBufferSize : Nat
  /-- `filesize_`: data accepted so far, not counting padding. -/
  filesize : Nat
  /-- `next_write_offset_`: where the next page is written in unbuffered mode. -/
  nextWriteOffset : Nat
  /-- `pending_sync_`. -/
  pendingSync : Bool
  /-- `direct_io_`. -/
  directIO : Bool
  /-- `use_os_buffer_`. -/
  useOSBuffer : Bool
  /-- `last_sync_size_`. -/
  lastSyncSize : Nat
  /-- `bytes_per_sync_`. -/
  bytesPerSync : Nat
  /-- The constructor allocates a buffer, and it only grows. -/
  positive : 0 < buf.capacity

namespace WritableFileWriter

variable {ω : Type}

/-- The constructor, with the two fields of `EnvOptions` it reads. -/
def new
    (F : WritableFile ω)
    (file : ω)
    (maxBufferSize bytesPerSync : Nat) : WritableFileWriter ω where
  writableFile := file
  buf := .allocate F.requiredBufferAlignment F.powerOfTwo 65536
  maxBufferSize := maxBufferSize
  filesize := 0
  nextWriteOffset := 0
  pendingSync := false
  directIO := F.useDirectIO
  useOSBuffer := F.useOSBuffer
  lastSyncSize := 0
  bytesPerSync := bytesPerSync
  positive := Nat.lt_of_lt_of_le (by decide)
    (le_roundup 65536 (Nat.pos_of_isPowerOfTwo F.powerOfTwo))

/-- `WriteBuffered`.  Nothing limits how much the loop writes at once, so it runs
at most once. -/
def writeBuffered
    (F : WritableFile ω)
    (writer : WritableFileWriter ω)
    (data : Bytes) : Status × WritableFileWriter ω :=
  if 0 < data.length then
    let appended := F.append data writer.writableFile
    if appended.1.ok then
      (appended.1, { writer with
        writableFile := appended.2, buf := writer.buf.size 0 })
    else (appended.1, { writer with writableFile := appended.2 })
  else (.OK, { writer with buf := writer.buf.size 0 })

/-- `WriteUnbuffered`.  Its loop, too, runs at most once. -/
def writeUnbuffered
    (F : WritableFile ω)
    (writer : WritableFileWriter ω) : Status × WritableFileWriter ω :=
  let fileAdvance :=
    truncateToPageBoundary writer.buf.alignment writer.buf.currentSize
  let leftoverTail := writer.buf.currentSize - fileAdvance
  let padded := writer.buf.padToAlignmentWith 0
  let written :=
    if 0 < padded.currentSize then
      F.positionedAppend padded.bytes writer.nextWriteOffset writer.writableFile
    else (.OK, writer.writableFile)
  if written.1.ok then
    (written.1, { writer with
      writableFile := written.2
      buf := padded.refitTail fileAdvance leftoverTail
      nextWriteOffset := writer.nextWriteOffset + fileAdvance
      positive := writer.positive })
  else
    (written.1, { writer with
      writableFile := written.2
      buf := padded.size (fileAdvance + leftoverTail)
      positive := writer.positive })

/-- `kBytesNotSyncRange`: the last megabyte is not synced. -/
def kBytesNotSyncRange : Nat := 1024 * 1024

/-- `kBytesAlignWhenSync`. -/
def kBytesAlignWhenSync : Nat := 4 * 1024

/-- `offset_sync_to`: the end of the range that `Flush` may sync. -/
def offsetSyncTo (writer : WritableFileWriter ω) : Nat :=
  let offset := writer.filesize - kBytesNotSyncRange
  offset - offset % kBytesAlignWhenSync

/-- Length of the range from the last sync on.  The subtraction is one of
unsigned 64-bit numbers. -/
def syncLength (writer : WritableFileWriter ω) : Nat :=
  (writer.offsetSyncTo + 2 ^ 64 - writer.lastSyncSize) % 2 ^ 64

/-- `bytes_per_sync_` bytes have come together behind the recent data. -/
def syncDue (writer : WritableFileWriter ω) : Bool :=
  (!writer.directIO && writer.bytesPerSync != 0) &&
    (decide (kBytesNotSyncRange < writer.filesize) &&
      (decide (0 < writer.offsetSyncTo) &&
        decide (writer.bytesPerSync ≤ writer.syncLength)))

/-- The end of `Flush`: sync the file behind the recent data, for every
`bytes_per_sync_` bytes. -/
def syncBehind
    (F : WritableFile ω)
    (s : Status)
    (writer : WritableFileWriter ω) : Status × WritableFileWriter ω :=
  if writer.syncDue then
    let synced := F.rangeSync writer.lastSyncSize writer.syncLength
      writer.writableFile
    (synced.1, { writer with
      writableFile := synced.2, lastSyncSize := writer.offsetSyncTo })
  else (s, writer)

/-- The first part of `Flush`: hand the buffer to the file. -/
def writeOut
    (F : WritableFile ω)
    (writer : WritableFileWriter ω) : Status × WritableFileWriter ω :=
  if 0 < writer.buf.currentSize then
    if writer.useOSBuffer then writer.writeBuffered F writer.buf.bytes
    else writer.writeUnbuffered F
  else (.OK, writer)

/-- `Flush`. -/
def flush
    (F : WritableFile ω)
    (writer : WritableFileWriter ω) : Status × WritableFileWriter ω :=
  let written := writer.writeOut F
  if written.1.ok then
    let flushed := F.flush written.2.writableFile
    let after := { written.2 with writableFile := flushed.2 }
    if flushed.1.ok then after.syncBehind F flushed.1 else (flushed.1, after)
  else written

/-- Double the buffer, up to the maximal size.  What it held is gone. -/
def grow (writer : WritableFileWriter ω) : WritableFileWriter ω :=
  let desiredCapacity := min (writer.buf.capacity * 2) writer.maxBufferSize
  if smaller : writer.buf.capacity < writer.maxBufferSize then
    { writer with
      buf := writer.buf.allocateNewBuffer desiredCapacity
      positive := by
        have large := writer.buf.capacity_allocate_le desiredCapacity
        have positive := writer.positive
        exact Nat.lt_of_lt_of_le (by simp only [desiredCapacity]; omega) large }
  else writer

/-- The first part of `Append`: flush the buffer when `left` bytes do not fit,
which happens in buffered mode only. -/
def makeRoom
    (F : WritableFile ω)
    (writer : WritableFileWriter ω)
    (left : Nat) : Status × WritableFileWriter ω :=
  if writer.useOSBuffer = true ∧
      writer.buf.capacity - writer.buf.currentSize < left then
    let flushed :=
      if 0 < writer.buf.currentSize then writer.flush F else (.OK, writer)
    if flushed.1.ok then (flushed.1, flushed.2.grow) else flushed
  else (.OK, writer)

/-! ## What flushing leaves in the buffer -/

theorem capacity_grow (writer : WritableFileWriter ω) :
    writer.buf.capacity ≤ writer.grow.buf.capacity := by
  unfold grow
  simp only
  split
  · have large := writer.buf.capacity_allocate_le
      (min (writer.buf.capacity * 2) writer.maxBufferSize)
    change _ ≤ (writer.buf.allocateNewBuffer _).capacity
    omega
  · exact le_refl _

theorem bytes_grow
    {writer : WritableFileWriter ω}
    (empty : writer.buf.bytes = []) : writer.grow.buf.bytes = [] := by
  unfold grow
  simp only
  split
  · rfl
  · exact empty

theorem buf_syncBehind
    (F : WritableFile ω)
    (s : Status)
    (writer : WritableFileWriter ω) :
    (writer.syncBehind F s).2.buf = writer.buf := by
  unfold syncBehind
  simp only
  split <;> rfl

theorem capacity_writeOut (F : WritableFile ω) (writer : WritableFileWriter ω) :
    (writer.writeOut F).2.buf.capacity = writer.buf.capacity := by
  unfold writeOut writeBuffered writeUnbuffered
  simp only
  repeat' split
  all_goals rfl

theorem capacity_flush (F : WritableFile ω) (writer : WritableFileWriter ω) :
    (writer.flush F).2.buf.capacity = writer.buf.capacity := by
  rw [← capacity_writeOut F writer]
  unfold flush
  simp only
  split
  · split
    · rw [buf_syncBehind]
    · rfl
  · rfl

/-- A successful flush empties the buffer in buffered mode, and also a full
buffer in unbuffered mode, where only whole pages leave it. -/
theorem bytes_writeOut
    {F : WritableFile ω}
    {writer : WritableFileWriter ω}
    (buffered : writer.useOSBuffer = true ∨
      writer.buf.currentSize = writer.buf.capacity)
    (succeeds : (writer.writeOut F).1.ok = true) :
    (writer.writeOut F).2.buf.bytes = [] := by
  unfold writeOut at succeeds ⊢
  split
  · rename_i holds
    rw [if_pos holds] at succeeds
    split
    · rename_i mode
      rw [if_pos mode] at succeeds
      unfold writeBuffered at succeeds ⊢
      have nonempty : 0 < writer.buf.bytes.length := holds
      simp only [if_pos nonempty] at succeeds ⊢
      split
      · rfl
      · rename_i failed
        simp_all
    · rename_i mode
      have full : writer.buf.currentSize = writer.buf.capacity :=
        buffered.resolve_left mode
      have whole : truncateToPageBoundary writer.buf.alignment
          writer.buf.currentSize = writer.buf.currentSize := by
        rw [truncateToPageBoundary_eq writer.buf.powerOfTwo, full,
          Nat.mod_eq_zero_of_dvd writer.buf.aligned, Nat.sub_zero]
      rw [if_neg mode] at succeeds
      unfold writeUnbuffered at succeeds ⊢
      simp only [whole, Nat.sub_self] at succeeds ⊢
      generalize (if 0 < (writer.buf.padToAlignmentWith 0).currentSize then _
        else _ : Status × ω) = written at succeeds ⊢
      split
      · simp [AlignedBuffer.refitTail]
      · rename_i failed
        simp_all
  · rename_i holds
    exact List.eq_nil_of_length_eq_zero (Nat.eq_zero_of_not_pos holds)

theorem bytes_flush
    {F : WritableFile ω}
    {writer : WritableFileWriter ω}
    (buffered : writer.useOSBuffer = true ∨
      writer.buf.currentSize = writer.buf.capacity)
    (succeeds : (writer.flush F).1.ok = true) :
    (writer.flush F).2.buf.bytes = [] := by
  unfold flush at succeeds ⊢
  simp only at succeeds ⊢
  split
  · rename_i written
    rw [if_pos written] at succeeds
    split
    · rw [buf_syncBehind]
      exact bytes_writeOut buffered written
    · exact bytes_writeOut buffered written
  · rename_i failed
    rw [if_neg failed] at succeeds
    exact absurd succeeds failed

/-! ## `Append` -/

/-- Put as much of `src` into the buffer as there is room for. -/
def fill (writer : WritableFileWriter ω) (src : Bytes) : WritableFileWriter ω :=
  { writer with buf := (writer.buf.append src).2, positive := writer.positive }

/-- The buffer is full when it has not taken everything. -/
theorem full_fill
    {writer : WritableFileWriter ω}
    {src : Bytes}
    (more : 0 < (src.drop (writer.buf.append src).1).length) :
    (writer.fill src).buf.currentSize = (writer.fill src).buf.capacity := by
  have inCapacity := writer.buf.inCapacity
  rw [List.length_drop] at more
  simp only [AlignedBuffer.append, AlignedBuffer.currentSize] at more
  simp only [fill, AlignedBuffer.append, AlignedBuffer.currentSize,
    List.length_append, List.length_take]
  omega

/-- Decreases along the loop of `Append`: only a full buffer takes nothing, and
it is empty after a flush. -/
def appendMeasure (writer : WritableFileWriter ω) (src : Bytes) : Nat :=
  2 * src.length +
    if writer.buf.currentSize = writer.buf.capacity then 1 else 0

theorem appendMeasure_lt
    {F : WritableFile ω}
    {writer : WritableFileWriter ω}
    {src : Bytes}
    (more : 0 < (src.drop (writer.buf.append src).1).length)
    (succeeds : ((writer.fill src).flush F).1.ok = true) :
    ((writer.fill src).flush F).2.grow.appendMeasure
        (src.drop (writer.buf.append src).1) < writer.appendMeasure src := by
  have inCapacity := writer.buf.inCapacity
  have full := full_fill more
  rw [List.length_drop] at more
  simp only [AlignedBuffer.append, AlignedBuffer.currentSize] at more
  have empty := bytes_grow (bytes_flush (.inr full) succeeds)
  have positive := ((writer.fill src).flush F).2.grow.positive
  have notFull : ¬((writer.fill src).flush F).2.grow.buf.currentSize =
      ((writer.fill src).flush F).2.grow.buf.capacity := by
    rw [AlignedBuffer.currentSize, empty, List.length_nil]
    omega
  unfold appendMeasure
  rw [if_neg notFull, List.length_drop]
  split <;>
  · rename_i isFull
    simp only [AlignedBuffer.append, AlignedBuffer.currentSize] at isFull ⊢
    omega

/-- The loop of `Append`, with the bytes still to be taken and the status of the
last flush. -/
def appendLoop
    (F : WritableFile ω)
    (s : Status)
    (writer : WritableFileWriter ω)
    (src : Bytes) : Status × WritableFileWriter ω :=
  if 0 < src.length then
    if 0 < (src.drop (writer.buf.append src).1).length then
      if ((writer.fill src).flush F).1.ok then
        appendLoop F ((writer.fill src).flush F).1
          ((writer.fill src).flush F).2.grow (src.drop (writer.buf.append src).1)
      else (writer.fill src).flush F
    else (s, writer.fill src)
  else (s, writer)
termination_by writer.appendMeasure src
decreasing_by
  rename_i more succeeds
  exact appendMeasure_lt more succeeds

/-- The second part of `Append`: into the buffer, or past it when the data is
longer than the buffer and writes are buffered. -/
def place
    (F : WritableFile ω)
    (s : Status)
    (writer : WritableFileWriter ω)
    (data : Bytes) : Status × WritableFileWriter ω :=
  if writer.useOSBuffer = false ∨ data.length ≤ writer.buf.capacity then
    writer.appendLoop F s data
  else writer.writeBuffered F data

/-- The last part of `Append`: place the data, and count it. -/
def store
    (F : WritableFile ω)
    (s : Status)
    (writer : WritableFileWriter ω)
    (data : Bytes) : Status × WritableFileWriter ω :=
  let result := writer.place F s data
  if result.1.ok then
    (result.1, { result.2 with filesize := result.2.filesize + data.length })
  else result

/-- What `Append` does first: a sync is pending, and the file prepares for a
write of `left` bytes. -/
def prepare
    (F : WritableFile ω)
    (writer : WritableFileWriter ω)
    (left : Nat) : WritableFileWriter ω :=
  { writer with
    pendingSync := true
    writableFile := F.prepareWrite writer.filesize left writer.writableFile }

/-- `Append`. -/
def append
    (F : WritableFile ω)
    (data : Bytes)
    (writer : WritableFileWriter ω) : Status × WritableFileWriter ω :=
  let room := (writer.prepare F data.length).makeRoom F data.length
  if room.1.ok then room.2.store F room.1 data else room

/-- The writer as the destination of a log. -/
def destination (F : WritableFile ω) : Log.Destination (WritableFileWriter ω) where
  append := append F
  flush := flush F

end WritableFileWriter
end RocksUtil
