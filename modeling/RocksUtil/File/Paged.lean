import RocksUtil.Env.PagedFile
import RocksUtil.File.Calls

/-!
# Unbuffered mode

In unbuffered mode only whole pages are written.  What has been accepted is cut at
`next_write_offset_`: the pages in front of it are final in the file, and the rest is
in the buffer (`Paged`).  A flush writes the rest padded with zeros and keeps the last
page, if it is not full, to write it again.  Behind the pages the file holds at most
that page, so a write covers all of it.
-/

namespace RocksUtil

/-- Rounding up adds the rest of the last page. -/
theorem roundup_eq {y : Nat} (positive : 0 < y) (x : Nat) :
    roundup x y = x - x % y + if x % y = 0 then 0 else y := by
  have division := Nat.div_add_mod x y
  have remainder := Nat.mod_lt x positive
  split
  · rename_i whole
    have least := roundup_le positive (Nat.dvd_of_mod_eq_zero whole) (Nat.le_refl x)
    have large := le_roundup x positive
    omega
  · rename_i partly
    have next : y ∣ x - x % y + y := by
      refine Nat.dvd_add ?_ (Nat.dvd_refl y)
      exact Nat.dvd_sub_mod x
    have least := @roundup_le x y _ positive next (by omega)
    have large := le_roundup x positive
    obtain ⟨pages, isPages⟩ := dvd_roundup x y
    obtain ⟨before, isBefore⟩ : y ∣ x - x % y := Nat.dvd_sub_mod x
    have more : before < pages := by
      by_contra few
      have := Nat.mul_le_mul_left y (Nat.le_of_not_lt few)
      omega
    have := Nat.mul_le_mul_left y more
    rw [Nat.mul_succ] at this
    omega

namespace WritableFileWriter

variable {ω : Type} {F : WritableFile ω} {contents : ω → Bytes} {valid : ω → Prop}
  {writer : WritableFileWriter ω} {data : Bytes}

/-- A writer in unbuffered mode that has accepted `data`. -/
structure Paged
    (F : WritableFile ω)
    (contents : ω → Bytes)
    (valid : ω → Prop)
    (data : Bytes)
    (writer : WritableFileWriter ω) : Prop where
  unbuffered : writer.useOSBuffer = false
  alignment_eq : writer.buf.alignment = F.requiredBufferAlignment
  isValid : valid writer.writableFile
  atPage : F.requiredBufferAlignment ∣ writer.nextWriteOffset
  split : ∃ pages rest,
    pages.length = writer.nextWriteOffset ∧
      data = pages ++ writer.buf.bytes ∧
      contents writer.writableFile = pages ++ rest ∧
      rest.length ≤ F.requiredBufferAlignment ∧
      (writer.buf.bytes = [] → rest = [])

/-- What has been accepted is what lies in front of the next page, and the buffer. -/
theorem Paged.length_eq (paged : Paged F contents valid data writer) :
    writer.nextWriteOffset + writer.buf.currentSize = data.length := by
  obtain ⟨pages, rest, length, whole, -, -, -⟩ := paged.split
  rw [whole, List.length_append, length]
  rfl

/-- What the file holds behind a flush. -/
def Padded (F : WritableFile ω) (data contents : Bytes) : Prop :=
  ∃ zeros < F.requiredBufferAlignment, contents = data ++ List.replicate zeros 0

/-- Changes of the file that do not touch its contents. -/
theorem Paged.of_file
    (paged : Paged F contents valid data writer)
    {valid' : ω → Prop}
    {file : ω}
    (isValid : valid' file)
    (same : contents file = contents writer.writableFile) :
    Paged F contents valid' data { writer with writableFile := file } := by
  obtain ⟨pages, rest, length, whole, held, short, none⟩ := paged.split
  exact ⟨paged.unbuffered, paged.alignment_eq, isValid, paged.atPage, pages, rest,
    length, whole, same.trans held, short, none⟩

/-- Padding rounds the size up to whole pages. -/
theorem padded_spec (buffer : AlignedBuffer) (some : 0 < buffer.currentSize) :
    let advance := buffer.currentSize - buffer.currentSize % buffer.alignment
    let zeros := roundup buffer.currentSize buffer.alignment - buffer.currentSize
    (buffer.padToAlignmentWith 0).bytes = buffer.bytes ++ List.replicate zeros 0 ∧
      buffer.alignment ∣ (buffer.padToAlignmentWith 0).bytes.length ∧
      buffer.alignment ≤ (buffer.padToAlignmentWith 0).bytes.length ∧
      zeros < buffer.alignment ∧
      buffer.currentSize - advance + zeros ≤ buffer.alignment ∧
      (buffer.currentSize - advance = 0 → zeros = 0) := by
  intro advance zeros
  have positive := buffer.alignment_pos
  have remainder := Nat.mod_lt buffer.currentSize positive
  have atMost := Nat.mod_le buffer.currentSize buffer.alignment
  have rounded := roundup_eq positive buffer.currentSize
  have large := le_roundup buffer.currentSize positive
  have bytes : (buffer.padToAlignmentWith 0).bytes =
      buffer.bytes ++ List.replicate zeros 0 := rfl
  have size : (buffer.padToAlignmentWith 0).bytes.length =
      roundup buffer.currentSize buffer.alignment := by
    rw [bytes, List.length_append, List.length_replicate]
    change buffer.currentSize + zeros = _
    omega
  rw [size]
  refine ⟨bytes, dvd_roundup _ _, Nat.le_of_dvd (by omega) (dvd_roundup _ _), ?_, ?_, ?_⟩
  · split at rounded <;> omega
  · split at rounded <;> omega
  · intro whole
    split at rounded <;> omega

/-- The write that flushes the buffer is one of whole pages, and covers what the file holds
behind those that are final. -/
theorem Paged.covers
    (paged : Paged F contents valid data writer)
    (some : 0 < writer.buf.currentSize) :
    let padded := writer.buf.padToAlignmentWith 0
    F.requiredBufferAlignment ∣ padded.bytes.length ∧ 0 < padded.bytes.length ∧
      writer.nextWriteOffset ≤ (contents writer.writableFile).length ∧
        (contents writer.writableFile).length ≤
          writer.nextWriteOffset + padded.bytes.length := by
  obtain ⟨pages, rest, length, -, held, short, -⟩ := paged.split
  obtain ⟨-, inPages, onePage, -, -, -⟩ := padded_spec writer.buf some
  have positive := writer.buf.alignment_pos
  rw [paged.alignment_eq] at inPages onePage positive
  rw [held, List.length_append]
  exact ⟨inPages, Nat.lt_of_lt_of_le positive onePage, by omega, by omega⟩

/-- The write that flushes the buffer, if it succeeds, leaves the last page in the buffer,
unless it is full. -/
theorem Paged.writeUnbuffered_of_ok
    (paged : Paged F contents valid data writer)
    (some : 0 < writer.buf.currentSize)
    (valid' : ω → Prop)
    (writes :
      let result := F.positionedAppend (writer.buf.padToAlignmentWith 0).bytes
        writer.nextWriteOffset writer.writableFile
      result.1.ok = true ∧ valid' result.2 ∧
        contents result.2 = overwrite (contents writer.writableFile) writer.nextWriteOffset
          (writer.buf.padToAlignmentWith 0).bytes) :
    let result := writer.writeUnbuffered F
    result.1.ok = true ∧ Paged F contents valid' data result.2 ∧
      Padded F data (contents result.2.writableFile) := by
  intro result
  obtain ⟨pages, rest, length, whole, held, short, -⟩ := paged.split
  have alignment := paged.alignment_eq
  have fileAdvance := truncateToPageBoundary_eq writer.buf.powerOfTwo
    writer.buf.currentSize
  obtain ⟨bytes, inPages, onePage, fewer, lastPage, full⟩ := padded_spec writer.buf some
  rw [← fileAdvance] at lastPage full
  have atMost := Nat.mod_le writer.buf.currentSize writer.buf.alignment
  generalize isAdvance : truncateToPageBoundary writer.buf.alignment
    writer.buf.currentSize = advance at *
  generalize roundup writer.buf.currentSize writer.buf.alignment -
    writer.buf.currentSize = zeros at *
  rw [alignment] at inPages onePage fewer lastPage
  generalize isPadded : writer.buf.padToAlignmentWith 0 = padded at *
  obtain ⟨succeeds, isValid, written⟩ := writes
  rw [held, ← length, overwrite_append pages rest padded.bytes (by omega), length]
    at written
  have nonempty : 0 < padded.currentSize := by
    have positive := writer.buf.alignment_pos
    change 0 < padded.bytes.length
    omega
  have isResult : result =
      ((F.positionedAppend padded.bytes writer.nextWriteOffset writer.writableFile).1,
        { writer with
          writableFile := (F.positionedAppend padded.bytes writer.nextWriteOffset
            writer.writableFile).2
          buf := padded.refitTail advance (writer.buf.currentSize - advance)
          nextWriteOffset := writer.nextWriteOffset + advance
          positive := isPadded ▸ writer.positive }) := by
    simp [result, WritableFileWriter.writeUnbuffered, isPadded, isAdvance, nonempty,
      succeeds]
  have tailSize : (writer.buf.bytes.drop advance).length =
      writer.buf.currentSize - advance := List.length_drop
  have tail : (padded.refitTail advance (writer.buf.currentSize - advance)).bytes =
      writer.buf.bytes.drop advance := by
    change (padded.bytes.drop advance).take _ = _
    rw [bytes, List.drop_append_of_le_length (by change advance ≤ writer.buf.currentSize; omega),
      ← tailSize, List.take_left]
  have cut := List.take_append_drop advance writer.buf.bytes
  rw [isResult]
  refine ⟨succeeds, ⟨paged.unbuffered, ?_, isValid, ?_, pages ++ writer.buf.bytes.take advance,
    writer.buf.bytes.drop advance ++ List.replicate zeros 0, ?_, ?_, ?_, ?_, ?_⟩, zeros,
    fewer, ?_⟩
  · change padded.alignment = _
    rw [← isPadded]
    exact alignment
  · change _ ∣ writer.nextWriteOffset + advance
    rw [fileAdvance, ← alignment]
    exact Nat.dvd_add (alignment ▸ paged.atPage) (Nat.dvd_sub_mod _)
  · change _ = writer.nextWriteOffset + advance
    rw [List.length_append, length, List.length_take_of_le]
    change advance ≤ writer.buf.currentSize
    omega
  · change data = _ ++ (padded.refitTail _ _).bytes
    rw [tail, List.append_assoc, cut, whole]
  · change contents (F.positionedAppend _ _ _).2 = _
    rw [written, bytes, List.append_assoc, ← List.append_assoc (List.take _ _), cut]
  · rw [List.length_append, tailSize, List.length_replicate]
    exact lastPage
  · intro none
    change (padded.refitTail _ _).bytes = [] at none
    rw [tail] at none
    rw [none, full (by rw [← tailSize, none]; rfl)]
    rfl
  · change contents (F.positionedAppend _ _ _).2 = _
    rw [written, bytes, whole, List.append_assoc]

/-- A write leaves the last page in the buffer, unless it is full. -/
theorem Paged.writeUnbuffered
    (writes : F.WritesPages contents valid)
    (paged : Paged F contents valid data writer)
    (some : 0 < writer.buf.currentSize) :
    let result := writer.writeUnbuffered F
    result.1.ok = true ∧ Paged F contents valid data result.2 ∧
      Padded F data (contents result.2.writableFile) := by
  obtain ⟨inPages, nonempty, inFile, further⟩ := paged.covers some
  exact paged.writeUnbuffered_of_ok some valid (writes.positionedAppend _ _ _ paged.isValid
    paged.atPage inPages nonempty inFile further)

/-! ## Flushing -/

theorem Paged.syncBehind
    (rangeSync : ∀ offset nbytes file, valid file →
      WritableFile.Silent contents valid file (F.rangeSync offset nbytes file))
    (paged : Paged F contents valid data writer)
    {s : Status}
    (succeeds : s.ok = true) :
    let result := writer.syncBehind F s
    result.1.ok = true ∧ Paged F contents valid data result.2 ∧
      contents result.2.writableFile = contents writer.writableFile := by
  intro result
  by_cases due : writer.syncDue = true
  · obtain ⟨synced, isValid, same⟩ := rangeSync writer.lastSyncSize
      writer.syncLength writer.writableFile paged.isValid
    have isResult : result =
        ((F.rangeSync writer.lastSyncSize writer.syncLength writer.writableFile).1,
          { writer with
            writableFile := (F.rangeSync writer.lastSyncSize writer.syncLength
              writer.writableFile).2
            lastSyncSize := writer.offsetSyncTo }) := by
      simp [result, WritableFileWriter.syncBehind, due]
    have paged' := paged.of_file isValid same
    rw [isResult]
    exact ⟨synced, ⟨paged'.unbuffered, paged'.alignment_eq, isValid, paged'.atPage,
      paged'.split⟩, same⟩
  · have isResult : result = (s, writer) := by
      simp [result, WritableFileWriter.syncBehind, due]
    rw [isResult]
    exact ⟨succeeds, paged, rfl⟩

/-- The rest of a flush, behind a write that has succeeded. -/
theorem Paged.flush_of_written
    (flush : ∀ file, valid file → WritableFile.Silent contents valid file (F.flush file))
    (rangeSync : ∀ offset nbytes file, valid file →
      WritableFile.Silent contents valid file (F.rangeSync offset nbytes file))
    (succeeds : (writer.writeOut F).1.ok = true)
    (paged : Paged F contents valid data (writer.writeOut F).2)
    (padded : Padded F data (contents (writer.writeOut F).2.writableFile)) :
    let result := writer.flush F
    result.1.ok = true ∧ Paged F contents valid data result.2 ∧
      Padded F data (contents result.2.writableFile) := by
  intro result
  obtain ⟨flushed, isValid, same⟩ := flush _ paged.isValid
  obtain ⟨synced, paged', same'⟩ := (paged.of_file isValid same).syncBehind rangeSync flushed
  have isResult : result =
      ({ (writer.writeOut F).2 with
        writableFile := (F.flush (writer.writeOut F).2.writableFile).2 }
          : WritableFileWriter ω).syncBehind F
            (F.flush (writer.writeOut F).2.writableFile).1 := by
    simp only [result, WritableFileWriter.flush, if_pos succeeds, if_pos flushed]
  rw [isResult]
  refine ⟨synced, paged', ?_⟩
  rw [same', same]
  exact padded

/-- An empty buffer leaves no page behind those that are final. -/
theorem Paged.padded_of_empty
    (paged : Paged F contents valid data writer)
    (empty : writer.buf.bytes = []) :
    Padded F data (contents writer.writableFile) := by
  obtain ⟨pages, rest, -, whole, held, -, none⟩ := paged.split
  have positive := writer.buf.alignment_pos
  rw [paged.alignment_eq] at positive
  refine ⟨0, positive, ?_⟩
  simp [held, none empty, whole, empty]

/-- Behind a flush the file holds all that was accepted, padded to a page. -/
theorem Paged.flush
    (writes : F.WritesPages contents valid)
    (paged : Paged F contents valid data writer) :
    let result := writer.flush F
    result.1.ok = true ∧ Paged F contents valid data result.2 ∧
      Padded F data (contents result.2.writableFile) := by
  have written : (writer.writeOut F).1.ok = true ∧
      Paged F contents valid data (writer.writeOut F).2 ∧
        Padded F data (contents (writer.writeOut F).2.writableFile) := by
    by_cases some : 0 < writer.buf.currentSize
    · have isWritten : writer.writeOut F = writer.writeUnbuffered F := by
        simp [writeOut, some, paged.unbuffered]
      rw [isWritten]
      exact paged.writeUnbuffered writes some
    · have isWritten : writer.writeOut F = (.OK, writer) := by
        simp [writeOut, some]
      rw [isWritten]
      exact ⟨rfl, paged, paged.padded_of_empty
        (List.eq_nil_of_length_eq_zero (Nat.eq_zero_of_not_pos some))⟩
  exact Paged.flush_of_written writes.flush writes.rangeSync written.1 written.2.1 written.2.2

/-! ## Appending -/

theorem Paged.fill
    (paged : Paged F contents valid data writer)
    (src : Bytes) :
    Paged F contents valid (data ++ src.take (writer.buf.append src).1)
      (writer.fill src) := by
  obtain ⟨pages, rest, length, whole, held, short, none⟩ := paged.split
  refine ⟨paged.unbuffered, paged.alignment_eq, paged.isValid, paged.atPage, pages, rest,
    length, ?_, held, short, fun empty => none (List.append_eq_nil_iff.mp empty).1⟩
  rw [whole, List.append_assoc]
  rfl

/-- `grow` is called with an empty buffer only. -/
theorem Paged.grow
    (paged : Paged F contents valid data writer)
    (empty : writer.buf.bytes = []) :
    Paged F contents valid data writer.grow := by
  obtain ⟨pages, rest, length, whole, held, short, none⟩ := paged.split
  unfold WritableFileWriter.grow
  simp only
  split
  · rw [empty] at whole
    exact ⟨paged.unbuffered, paged.alignment_eq, paged.isValid, paged.atPage, pages, rest,
      length, whole, held, short, fun _ => none empty⟩
  · exact paged

/-- The loop of `Append` takes all of its data. -/
theorem Paged.appendLoop
    (writes : F.WritesPages contents valid)
    {s : Status}
    (succeeds : s.ok = true)
    (paged : Paged F contents valid data writer)
    (src : Bytes) :
    let result := writer.appendLoop F s src
    result.1.ok = true ∧ Paged F contents valid (data ++ src) result.2 ∧
      result.2.filesize = writer.filesize := by
  fun_induction WritableFileWriter.appendLoop F s writer src generalizing data with
  | case1 s writer src some more flushes inductionHypothesis =>
      have filled := paged.fill src
      obtain ⟨flushed, kept, -⟩ := filled.flush writes
      have empty := bytes_flush (.inr (full_fill more)) flushed
      obtain ⟨ok, taken, size⟩ := inductionHypothesis flushed (kept.grow empty)
      rw [List.append_assoc, List.take_append_drop] at taken
      rw [filesize_grow, filesize_flush] at size
      exact ⟨ok, taken, size⟩
  | case2 s writer src some more failed =>
      exact absurd ((paged.fill src).flush writes).1 failed
  | case3 s writer src some all =>
      have taken := paged.fill src
      have whole : (writer.buf.append src).1 = src.length := by
        have atMost : (writer.buf.append src).1 ≤ src.length := Nat.min_le_left _ _
        rw [List.length_drop] at all
        omega
      rw [whole, List.take_length] at taken
      exact ⟨succeeds, taken, rfl⟩
  | case4 s writer src none =>
      have empty : src = [] :=
        List.eq_nil_of_length_eq_zero (Nat.eq_zero_of_not_pos none)
      rw [empty, List.append_nil]
      exact ⟨succeeds, paged, rfl⟩

/-! ## Calls -/

/-- A writer that has accepted and counted `data`. -/
structure PagedFor
    (F : WritableFile ω)
    (contents : ω → Bytes)
    (valid : ω → Prop)
    (data : Bytes)
    (writer : WritableFileWriter ω) : Prop where
  paged : Paged F contents valid data writer
  filesize_eq : writer.filesize = data.length

theorem Paged.prepare
    (paged : Paged F contents valid data writer)
    {valid' : ω → Prop}
    {count : Nat}
    (isValid : valid' (F.prepareWrite writer.filesize count writer.writableFile))
    (same : contents (F.prepareWrite writer.filesize count writer.writableFile) =
      contents writer.writableFile) :
    Paged F contents valid' data (writer.prepare F count) := by
  have prepared := paged.of_file isValid same
  exact ⟨prepared.unbuffered, prepared.alignment_eq, isValid, prepared.atPage,
    prepared.split⟩

/-- `Append` in unbuffered mode. -/
theorem append_of_unbuffered
    (F : WritableFile ω)
    (unbuffered : writer.useOSBuffer = false)
    (more : Bytes) :
    append F more writer =
      let result := (writer.prepare F more.length).appendLoop F .OK more
      if result.1.ok then
        (result.1, { result.2 with filesize := result.2.filesize + more.length })
      else result := by
  have mode : (writer.prepare F more.length).useOSBuffer = false := unbuffered
  simp [WritableFileWriter.append, makeRoom, store, place, mode]

/-- `Append`, behind a preparation of the file that makes it valid. -/
theorem PagedFor.append_of_valid
    {valid' : ω → Prop}
    (writes : F.WritesPages contents valid')
    (pagedFor : PagedFor F contents valid data writer)
    (more : Bytes)
    (isValid : valid' (F.prepareWrite writer.filesize more.length writer.writableFile))
    (same : contents (F.prepareWrite writer.filesize more.length writer.writableFile) =
      contents writer.writableFile) :
    let result := WritableFileWriter.append F more writer
    result.1.ok = true ∧ PagedFor F contents valid' (data ++ more) result.2 := by
  intro result
  have ready := pagedFor.paged.prepare isValid same
  obtain ⟨succeeds, taken, size⟩ := ready.appendLoop writes Status.ok_OK more
  have isResult : result = (((writer.prepare F more.length).appendLoop F .OK more).1,
      { ((writer.prepare F more.length).appendLoop F .OK more).2 with
        filesize := ((writer.prepare F more.length).appendLoop F .OK more).2.filesize +
          more.length }) :=
    (append_of_unbuffered F pagedFor.paged.unbuffered more).trans (if_pos succeeds)
  rw [isResult]
  refine ⟨succeeds, ⟨taken.unbuffered, taken.alignment_eq, taken.isValid, taken.atPage,
    taken.split⟩, ?_⟩
  rw [List.length_append, ← pagedFor.filesize_eq]
  exact congrArg (· + more.length) size

theorem PagedFor.flush
    (writes : F.WritesPages contents valid)
    (pagedFor : PagedFor F contents valid data writer) :
    let result := writer.flush F
    result.1.ok = true ∧ PagedFor F contents valid data result.2 ∧
      Padded F data (contents result.2.writableFile) := by
  obtain ⟨succeeds, paged, padded⟩ := pagedFor.paged.flush writes
  exact ⟨succeeds, ⟨paged, (filesize_flush F writer).trans pagedFor.filesize_eq⟩, padded⟩

theorem PagedFor.sync
    (writes : F.WritesPages contents valid)
    (pagedFor : PagedFor F contents valid data writer)
    (useFsync : Bool) :
    let result := writer.sync F useFsync
    result.1.ok = true ∧ PagedFor F contents valid data result.2 := by
  obtain ⟨succeeds, flushed, -⟩ := pagedFor.flush writes
  have isValid := flushed.paged.isValid
  intro result
  constructor
  · have synced : ((writer.flush F).2.syncInternal F useFsync).1.ok = true := by
      cases useFsync with
      | true => exact (writes.fsync _ isValid).1
      | false => exact (writes.sync _ isValid).1
    simp only [result, WritableFileWriter.sync, if_pos succeeds, if_pos synced]
    split <;> rfl
  · obtain ⟨file, pending, isResult, isFile⟩ := sync_cases F useFsync writer
    have silent : valid file ∧
        contents file = contents (writer.flush F).2.writableFile := by
      rcases isFile with rfl | rfl | rfl
      · exact ⟨isValid, rfl⟩
      · exact (writes.sync _ isValid).2
      · exact (writes.fsync _ isValid).2
    have paged := flushed.paged.of_file silent.1 silent.2
    change PagedFor F contents valid data (writer.sync F useFsync).2
    rw [isResult]
    exact ⟨⟨paged.unbuffered, paged.alignment_eq, paged.isValid, paged.atPage,
      paged.split⟩, flushed.filesize_eq⟩

/-- Each call succeeds, and accepts its data. -/
theorem PagedFor.call
    (writes : F.WritesPages contents valid)
    (pagedFor : PagedFor F contents valid data writer)
    (next : Call) :
    let result := writer.call F next
    result.1.ok = true ∧ PagedFor F contents valid (data ++ next.data) result.2 := by
  cases next with
  | append more =>
      obtain ⟨isValid, same⟩ := writes.prepareWrite writer.filesize more.length
        writer.writableFile pagedFor.paged.isValid
      exact pagedFor.append_of_valid writes more isValid same
  | flush =>
      obtain ⟨succeeds, flushed, -⟩ := pagedFor.flush writes
      rw [Call.data, List.append_nil]
      · exact ⟨succeeds, flushed⟩
      · exact nofun
  | sync useFsync =>
      rw [Call.data, List.append_nil]
      · exact pagedFor.sync writes useFsync
      · exact nofun

/-- Any sequence of calls. -/
theorem PagedFor.run
    (writes : F.WritesPages contents valid)
    (calls : List Call)
    {data : Bytes}
    {writer : WritableFileWriter ω}
    (pagedFor : PagedFor F contents valid data writer) :
    let ran := writer.run F calls
    (∀ event ∈ ran.1, event.2.ok = true) ∧
      PagedFor F contents valid (data ++ calls.flatMap Call.data) ran.2 := by
  induction calls generalizing data writer with
  | nil =>
      rw [List.flatMap_nil, List.append_nil]
      exact ⟨nofun, pagedFor⟩
  | cons next calls inductionHypothesis =>
      obtain ⟨succeeds, called⟩ := pagedFor.call writes next
      obtain ⟨others, ran⟩ := inductionHypothesis called
      rw [List.append_assoc, ← List.flatMap_cons] at ran
      refine ⟨fun event member => ?_, ran⟩
      rcases List.mem_cons.mp member with rfl | later
      · exact succeeds
      · exact others event later

theorem PagedFor.new
    (F : WritableFile ω)
    (unbuffered : F.useOSBuffer = false)
    {file : ω}
    (isValid : valid file)
    (fresh : contents file = [])
    (maxBufferSize bytesPerSync : Nat) :
    PagedFor F contents valid [] (new F file maxBufferSize bytesPerSync) :=
  ⟨⟨unbuffered, rfl, isValid, Nat.dvd_zero _, [], [], rfl, rfl, fresh, Nat.zero_le _,
    fun _ => rfl⟩, rfl⟩

/-- `Close` cuts off the padding. -/
theorem PagedFor.close
    (writes : F.WritesPages contents valid)
    (cuts : F.Cuts contents valid)
    (pagedFor : PagedFor F contents valid data writer) :
    let result := writer.close F
    result.1.ok = true ∧ valid result.2 ∧ contents result.2 = data := by
  obtain ⟨flushed, kept, zeros, -, padded⟩ := pagedFor.flush writes
  obtain ⟨truncated, isValid, cut⟩ := cuts.truncate (writer.flush F).2.filesize
    (writer.flush F).2.writableFile kept.paged.isValid
  obtain ⟨closed, isValid', same⟩ := cuts.close _ isValid
  rw [kept.filesize_eq] at truncated isValid cut closed isValid' same
  rw [padded, List.take_left] at cut
  simp only [WritableFileWriter.close, kept.filesize_eq]
  refine ⟨?_, isValid', same.trans cut⟩
  simp [truncated, closed, flushed]

/-- A writer in unbuffered mode over a new file, of any alignment and any buffer size:
all writes are of whole pages, `next_write_offset_` and the buffer make up the size, a
flush leaves the data and less than a page of zeros in the file, and `Close` leaves the
data. -/
theorem ends_with_data
    (writes : F.WritesPages contents valid)
    (cuts : F.Cuts contents valid)
    (unbuffered : F.useOSBuffer = false)
    {file : ω}
    (isValid : valid file)
    (fresh : contents file = [])
    (maxBufferSize bytesPerSync : Nat)
    (calls : List Call) :
    let ran := (WritableFileWriter.new F.recording (file, []) maxBufferSize
      bytesPerSync).run F.recording calls
    let data := calls.flatMap Call.data
    let flushed := ran.2.flush F.recording
    let closed := ran.2.close F.recording
    (∀ event ∈ ran.1, event.2.ok = true) ∧
      ran.2.nextWriteOffset + ran.2.buf.currentSize = ran.2.filesize ∧
      ran.2.filesize = data.length ∧
      flushed.1.ok = true ∧ Padded F data (contents flushed.2.writableFile.1) ∧
      closed.1.ok = true ∧ contents closed.2.1 = data ∧
      ∀ write ∈ closed.2.2,
        F.requiredBufferAlignment ∣ write.1 ∧ F.requiredBufferAlignment ∣ write.2 := by
  intro ran data flushed closed
  have start : PagedFor F.recording (contents ∘ Prod.fst) (F.Recorded valid) []
      (WritableFileWriter.new F.recording (file, []) maxBufferSize bytesPerSync) :=
    .new F.recording unbuffered ⟨isValid, nofun⟩ fresh maxBufferSize bytesPerSync
  obtain ⟨statuses, paged⟩ := start.run writes.recording calls
  rw [List.nil_append] at paged
  obtain ⟨flushes, -, padded⟩ := paged.flush writes.recording
  obtain ⟨closes, recorded, same⟩ := paged.close writes.recording cuts.recording
  exact ⟨statuses, paged.paged.length_eq.trans paged.filesize_eq.symm, paged.filesize_eq,
    flushes, padded, closes, same, recorded.2⟩

/-- Pages of four bytes, and a flush between the two `Append`s. -/
theorem ends_with_data_four :
    ∃ ran, ran = (WritableFileWriter.new
        (PagedFile.writableFile ⟨true, 4, 2, rfl⟩).recording ([], []) 8 0).run
          (PagedFile.writableFile ⟨true, 4, 2, rfl⟩).recording
          [.append [1, 2, 3], .flush, .append [4, 5]] ∧
      (∀ event ∈ ran.1, event.2.ok = true) ∧
      Padded (PagedFile.writableFile ⟨true, 4, 2, rfl⟩) [1, 2, 3, 4, 5]
        (ran.2.flush (PagedFile.writableFile ⟨true, 4, 2, rfl⟩).recording).2.writableFile.1 ∧
      (ran.2.close (PagedFile.writableFile ⟨true, 4, 2, rfl⟩).recording).2.1 =
        [1, 2, 3, 4, 5] := by
  obtain ⟨statuses, -, -, -, padded, -, same, -⟩ := ends_with_data
    (PagedFile.writesPages ⟨true, 4, 2, rfl⟩) (PagedFile.cuts ⟨true, 4, 2, rfl⟩) rfl
    trivial (rfl : id ([] : Bytes) = []) 8 0 [.append [1, 2, 3], .flush, .append [4, 5]]
  refine ⟨_, rfl, ?_⟩
  generalize (WritableFileWriter.new
    (PagedFile.writableFile ⟨true, 4, 2, rfl⟩).recording ([], []) 8 0).run _ _ = ran
      at statuses padded same ⊢
  exact ⟨statuses, padded, same⟩

end WritableFileWriter
end RocksUtil
