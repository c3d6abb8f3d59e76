import RocksUtil.Env.FailingPages
import RocksUtil.File.Durability
import RocksUtil.File.Paged

/-!
# Appending to a file whose writes fail

In unbuffered mode `Append` puts its data into the buffer piece by piece, with a flush
behind each piece that fills it.  A flush that fails leaves what was accepted as it is,
but the pieces before it stay, and `filesize_` does not count them: an `Append` that fails
is one that has not happened only if no piece was taken, that is, if the buffer was full
to begin with and its first flush failed (`append_atomic_iff`).
-/

namespace RocksUtil
namespace WritableFileWriter

open WritableFile (FailsAsScheduled nextOutcome)

variable {ω : Type} {F : WritableFile ω} {contents : ω → Bytes}
  {schedule : ω → List Status} {left : List Status} {writer : WritableFileWriter ω}
  {data : Bytes}

/-- The logical contents: what the file holds in front of `next_write_offset_`, and the
buffer. -/
def logical (contents : ω → Bytes) (writer : WritableFileWriter ω) : Bytes :=
  (contents writer.writableFile).take writer.nextWriteOffset ++ writer.buf.bytes

theorem Paged.logical_eq
    {valid : ω → Prop}
    (paged : Paged F contents valid data writer) : logical contents writer = data := by
  obtain ⟨pages, rest, length, whole, held, -, -⟩ := paged.split
  rw [logical, held, ← length, List.take_left, whole]

/-! ## One write -/

/-- A write that fails leaves the writer as it was. -/
theorem Paged.writeUnbuffered_of_failed
    {valid : ω → Prop}
    (paged : Paged F contents valid data writer)
    (some : 0 < writer.buf.currentSize)
    (valid' : ω → Prop)
    (fails :
      let result := F.positionedAppend (writer.buf.padToAlignmentWith 0).bytes
        writer.nextWriteOffset writer.writableFile
      result.1.ok = false ∧ valid' result.2 ∧
        contents result.2 = contents writer.writableFile) :
    let result := writer.writeUnbuffered F
    result.1.ok = false ∧ Paged F contents valid' data result.2 ∧
      result.2.buf.bytes = writer.buf.bytes := by
  intro result
  obtain ⟨bytes, -, onePage, -, -, -⟩ := padded_spec writer.buf some
  have positive := writer.buf.alignment_pos
  have advance := truncateToPageBoundary_eq writer.buf.powerOfTwo writer.buf.currentSize
  have atMost := Nat.mod_le writer.buf.currentSize writer.buf.alignment
  obtain ⟨failed, isValid, same⟩ := fails
  have nonempty : 0 < (writer.buf.padToAlignmentWith 0).currentSize :=
    Nat.lt_of_lt_of_le positive onePage
  have kept : ((writer.buf.padToAlignmentWith 0).size
      (truncateToPageBoundary writer.buf.alignment writer.buf.currentSize +
        (writer.buf.currentSize -
          truncateToPageBoundary writer.buf.alignment writer.buf.currentSize))).bytes =
      writer.buf.bytes := by
    have all : truncateToPageBoundary writer.buf.alignment writer.buf.currentSize +
        (writer.buf.currentSize -
          truncateToPageBoundary writer.buf.alignment writer.buf.currentSize) =
        writer.buf.bytes.length := by
      change _ = writer.buf.currentSize
      omega
    change ((writer.buf.padToAlignmentWith 0).bytes.take _) = _
    rw [bytes, all, List.take_left]
  have isResult : result =
      ((F.positionedAppend (writer.buf.padToAlignmentWith 0).bytes writer.nextWriteOffset
          writer.writableFile).1,
        { writer with
          writableFile := (F.positionedAppend (writer.buf.padToAlignmentWith 0).bytes
            writer.nextWriteOffset writer.writableFile).2
          buf := (writer.buf.padToAlignmentWith 0).size
            (truncateToPageBoundary writer.buf.alignment writer.buf.currentSize +
              (writer.buf.currentSize -
                truncateToPageBoundary writer.buf.alignment writer.buf.currentSize))
          positive := writer.positive }) := by
    simp [result, WritableFileWriter.writeUnbuffered, nonempty, failed]
  obtain ⟨pages, rest, length, whole, held, short, none⟩ := paged.split
  rw [isResult]
  refine ⟨failed, ⟨paged.unbuffered, paged.alignment_eq, isValid, paged.atPage, pages,
    rest, length, ?_, same.trans held, short, fun empty => none (kept.symm.trans empty)⟩,
    kept⟩
  exact whole.trans (congrArg (pages ++ ·) kept.symm)

/-- A flush of a buffer that is not empty is one write, and accepts nothing. -/
theorem Paged.flush_scheduled
    (fails : F.FailsAsScheduled contents schedule)
    (paged : Paged F contents (schedule · = left) data writer)
    (some : 0 < writer.buf.currentSize) :
    let result := writer.flush F
    result.1.ok = (nextOutcome left).ok ∧
      Paged F contents (schedule · = left.tail) data result.2 ∧
      (result.1.ok = true → Padded F data (contents result.2.writableFile)) := by
  obtain ⟨inPages, nonempty, inFile, further⟩ := paged.covers some
  obtain ⟨outcome, passed, written⟩ := fails.positionedAppend _ _ _ paged.atPage inPages
    nonempty inFile further
  have isLeft := paged.isValid
  simp only [isLeft] at outcome passed written
  have isWritten : writer.writeOut F = writer.writeUnbuffered F := by
    simp [writeOut, some, paged.unbuffered]
  cases succeeds : (nextOutcome left).ok with
  | true =>
      rw [if_pos succeeds] at written
      obtain ⟨ok, paged', padded⟩ := paged.writeUnbuffered_of_ok some
        (schedule · = left.tail)
        ⟨(congrArg Status.ok outcome).trans succeeds, passed, written⟩
      rw [← isWritten] at ok paged' padded
      have silent {file : ω} {result : Status × ω}
          (silent : WritableFile.Silent contents (schedule · = schedule file) file result)
          (isTail : schedule file = left.tail) :
          WritableFile.Silent contents (schedule · = left.tail) file result :=
        ⟨silent.1, silent.2.1.trans isTail, silent.2.2⟩
      obtain ⟨flushed, kept, padded'⟩ := Paged.flush_of_written
        (fun file isTail => silent (fails.flush file) isTail)
        (fun offset nbytes file isTail => silent (fails.rangeSync offset nbytes file) isTail)
        ok paged' padded
      exact ⟨flushed, kept, fun _ => padded'⟩
  | false =>
      rw [if_neg (by rw [succeeds]; exact Bool.false_ne_true)] at written
      obtain ⟨failed, paged', -⟩ := paged.writeUnbuffered_of_failed some
        (schedule · = left.tail)
        ⟨(congrArg Status.ok outcome).trans succeeds, passed, written⟩
      rw [← isWritten] at failed paged'
      have isResult : writer.flush F = writer.writeOut F := by
        simp [WritableFileWriter.flush, failed]
      intro result
      change (writer.flush F).1.ok = _ ∧ Paged _ _ _ _ (writer.flush F).2 ∧
        ((writer.flush F).1.ok = true → _)
      rw [isResult, failed]
      exact ⟨rfl, paged', Bool.false_ne_true.elim⟩

/-! ## `Append` -/

/-- The capacity of a buffer behind `grow`. -/
def grownCapacity (alignment maxBufferSize capacity : Nat) : Nat :=
  if capacity < maxBufferSize then roundup (min (capacity * 2) maxBufferSize) alignment
  else capacity

theorem capacity_grow_eq (writer : WritableFileWriter ω) :
    writer.grow.buf.capacity =
      grownCapacity writer.buf.alignment writer.maxBufferSize writer.buf.capacity := by
  unfold grow grownCapacity
  simp only
  split
  · rfl
  · rfl

/-- The number of times that `count` bytes fill a buffer that is empty. -/
def timesFull (alignment maxBufferSize capacity count : Nat) : Nat :=
  if capacity < count ∧ 0 < capacity then
    1 + timesFull alignment maxBufferSize
      (grownCapacity alignment maxBufferSize capacity) (count - capacity)
  else 0
termination_by count

/-- The number of writes that `Append` needs for `count` bytes: one each time the buffer
is full and there is more. -/
def writesNeeded (writer : WritableFileWriter ω) (count : Nat) : Nat :=
  let room := writer.buf.capacity - writer.buf.currentSize
  if room < count then
    1 + timesFull writer.buf.alignment writer.maxBufferSize
      (grownCapacity writer.buf.alignment writer.maxBufferSize writer.buf.capacity)
      (count - room)
  else 0

/-- The writes that an `Append` of `count` bytes needs all succeed, or its first one fails
and the buffer was full before. -/
def AllOrNothing
    (schedule : ω → List Status)
    (writer : WritableFileWriter ω)
    (count : Nat) : Prop :=
  (∀ outcome ∈ (schedule writer.writableFile).take (writer.writesNeeded count),
      outcome.ok = true) ∨
    writer.buf.currentSize = writer.buf.capacity ∧
      (nextOutcome (schedule writer.writableFile)).ok = false

theorem writesNeeded_of_empty
    (writer : WritableFileWriter ω)
    (empty : writer.buf.bytes = [])
    (count : Nat) :
    writer.writesNeeded count =
      timesFull writer.buf.alignment writer.maxBufferSize writer.buf.capacity count := by
  have size : writer.buf.currentSize = 0 := congrArg List.length empty
  have positive := writer.positive
  unfold writesNeeded
  rw [timesFull, size, Nat.sub_zero]
  by_cases more : writer.buf.capacity < count
  · rw [if_pos more, if_pos ⟨more, positive⟩]
  · rw [if_neg more, if_neg (fun both => more both.1)]

/-- The first of several outcomes, which may be behind the end of the schedule. -/
theorem all_ok_take_succ (left : List Status) (count : Nat) :
    (∀ outcome ∈ left.take (1 + count), outcome.ok = true) ↔
      (nextOutcome left).ok = true ∧ ∀ outcome ∈ left.tail.take count, outcome.ok = true := by
  rw [Nat.add_comm]
  cases left with
  | nil => simp [nextOutcome]
  | cons first rest => simp [nextOutcome]

theorem maxBufferSize_grow (writer : WritableFileWriter ω) :
    writer.grow.maxBufferSize = writer.maxBufferSize := by
  unfold grow
  simp only
  split <;> rfl

/-- The buffer takes as much as there is room for. -/
theorem append_of_more
    {src : Bytes}
    (more : 0 < (src.drop (writer.buf.append src).1).length) :
    (writer.buf.append src).1 = writer.buf.capacity - writer.buf.currentSize ∧
      writer.buf.capacity - writer.buf.currentSize < src.length := by
  rw [List.length_drop] at more
  simp only [AlignedBuffer.append] at more ⊢
  omega

/-- What fits into the buffer needs no write. -/
theorem writesNeeded_of_room
    {count : Nat}
    (fits : count ≤ writer.buf.capacity - writer.buf.currentSize) :
    writer.writesNeeded count = 0 :=
  if_neg (Nat.not_lt.mpr fits)

/-- What does not fit into the buffer needs a write. -/
theorem writesNeeded_pos
    {count : Nat}
    (more : writer.buf.capacity - writer.buf.currentSize < count) :
    ∃ others, writer.writesNeeded count = 1 + others :=
  ⟨_, if_pos more⟩

/-- What is left needs one write less. -/
theorem writesNeeded_of_more
    {src : Bytes}
    (more : 0 < (src.drop (writer.buf.append src).1).length)
    {next : WritableFileWriter ω}
    (empty : next.buf.bytes = [])
    (alignment : next.buf.alignment = writer.buf.alignment)
    (maxBufferSize : next.maxBufferSize = writer.maxBufferSize)
    (capacity : next.buf.capacity =
      grownCapacity writer.buf.alignment writer.maxBufferSize writer.buf.capacity) :
    writer.writesNeeded src.length =
      1 + next.writesNeeded (src.drop (writer.buf.append src).1).length := by
  obtain ⟨taken, room⟩ := append_of_more more
  rw [writesNeeded_of_empty next empty, alignment, maxBufferSize, capacity, List.length_drop,
    taken]
  exact if_pos room

/-- The loop of `Append` takes all of its data if the writes it needs succeed.  Otherwise
it fails behind some of it, and behind none only if it started with a full buffer. -/
theorem Paged.appendLoop_scheduled
    (fails : F.FailsAsScheduled contents schedule)
    {s : Status}
    (succeeds : s.ok = true)
    (paged : Paged F contents (schedule · = left) data writer)
    (src : Bytes) :
    let result := writer.appendLoop F s src
    let whole := ∀ outcome ∈ left.take (writer.writesNeeded src.length), outcome.ok = true
    result.2.filesize = writer.filesize ∧
      (whole → result.1.ok = true ∧
        Paged F contents (fun _ => True) (data ++ src) result.2) ∧
      (¬whole → result.1.ok = false ∧ ∃ count ≤ src.length,
        Paged F contents (fun _ => True) (data ++ src.take count) result.2 ∧
          (count = 0 ↔ writer.buf.currentSize = writer.buf.capacity ∧
            (nextOutcome left).ok = false)) := by
  fun_induction WritableFileWriter.appendLoop F s writer src generalizing data left with
  | case1 s writer src some more flushes inductionHypothesis =>
      have full := full_fill more
      have nonempty : 0 < (writer.fill src).buf.currentSize :=
        full ▸ (writer.fill src).positive
      obtain ⟨first, kept, -⟩ := (paged.fill src).flush_scheduled fails nonempty
      rw [flushes] at first
      have empty := bytes_flush (.inr full) flushes
      have grown := kept.grow empty
      obtain ⟨size, onSuccess, onFailure⟩ := inductionHypothesis flushes grown
      obtain ⟨taken, room⟩ := append_of_more more
      have needed := writesNeeded_of_more more (bytes_grow empty)
        (grown.alignment_eq.trans paged.alignment_eq.symm)
        ((maxBufferSize_grow _).trans (SameSettings.flush F _).maxBufferSize)
        ((capacity_grow_eq _).trans (by
          rw [kept.alignment_eq, paged.alignment_eq, capacity_flush,
            (SameSettings.flush F _).maxBufferSize]
          rfl))
      rw [List.append_assoc, List.take_append_drop] at onSuccess
      rw [filesize_grow, filesize_flush] at size
      rw [needed, all_ok_take_succ]
      refine ⟨size, fun whole => onSuccess whole.2, fun broken => ?_⟩
      obtain ⟨failed, count, inData, paged', none⟩ :=
        onFailure (fun others => broken ⟨first.symm, others⟩)
      have notFull : ((writer.fill src).flush F).2.grow.buf.currentSize ≠
          ((writer.fill src).flush F).2.grow.buf.capacity := by
        have positive := ((writer.fill src).flush F).2.grow.positive
        rw [AlignedBuffer.currentSize, bytes_grow empty, List.length_nil]
        omega
      have some : count ≠ 0 := fun zero => notFull (none.mp zero).1
      rw [List.append_assoc, ← List.take_add] at paged'
      rw [List.length_drop] at inData
      refine ⟨failed, _, by omega, paged', ?_⟩
      constructor
      · omega
      · intro nothing
        rw [← first] at nothing
        exact Bool.noConfusion nothing.2
  | case2 s writer src some more failed =>
      have full := full_fill more
      have nonempty : 0 < (writer.fill src).buf.currentSize :=
        full ▸ (writer.fill src).positive
      obtain ⟨first, kept, -⟩ := (paged.fill src).flush_scheduled fails nonempty
      obtain ⟨taken, room⟩ := append_of_more more
      have inCapacity := writer.buf.inCapacity
      change writer.buf.currentSize ≤ _ at inCapacity
      rw [Bool.not_eq_true] at failed
      have first' := first.symm.trans failed
      obtain ⟨others, needed⟩ := writesNeeded_pos room
      rw [needed, all_ok_take_succ]
      refine ⟨filesize_flush F _, fun whole => ?_, fun _ => ⟨failed, _, ?_,
        kept.of_file trivial rfl, ?_⟩⟩
      · exact Bool.noConfusion (whole.1.symm.trans first')
      · omega
      · rw [taken]
        constructor
        · exact fun nothing => ⟨by omega, first'⟩
        · exact fun both => by omega
  | case3 s writer src some all =>
      have taken := paged.fill src
      have whole : (writer.buf.append src).1 = src.length := by
        have atMost : (writer.buf.append src).1 ≤ src.length := Nat.min_le_left _ _
        rw [List.length_drop] at all
        omega
      have needed : writer.writesNeeded src.length = 0 := by
        apply writesNeeded_of_room
        simp only [AlignedBuffer.append] at whole
        omega
      rw [whole, List.take_length] at taken
      rw [needed, List.take_zero]
      exact ⟨rfl, fun _ => ⟨succeeds, taken.of_file trivial rfl⟩, fun broken =>
        absurd (List.forall_mem_nil _) broken⟩
  | case4 s writer src none =>
      have empty : src = [] :=
        List.eq_nil_of_length_eq_zero (Nat.eq_zero_of_not_pos none)
      have needed : writer.writesNeeded src.length = 0 := by
        rw [empty]
        exact writesNeeded_of_room (Nat.zero_le _)
      rw [needed, List.take_zero, empty, List.append_nil]
      exact ⟨rfl, fun _ => ⟨succeeds, paged.of_file trivial rfl⟩, fun broken =>
        absurd (List.forall_mem_nil _) broken⟩

theorem Paged.append_scheduled
    (fails : F.FailsAsScheduled contents schedule)
    {valid : ω → Prop}
    (paged : Paged F contents valid data writer)
    (more : Bytes) :
    let result := append F more writer
    let whole := ∀ outcome ∈
      (schedule writer.writableFile).take (writer.writesNeeded more.length),
        outcome.ok = true
    (whole → result.1.ok = true ∧ result.2.filesize = writer.filesize + more.length ∧
        Paged F contents (fun _ => True) (data ++ more) result.2) ∧
      (¬whole → result.1.ok = false ∧ result.2.filesize = writer.filesize ∧
        ∃ count ≤ more.length,
          Paged F contents (fun _ => True) (data ++ more.take count) result.2 ∧
            (count = 0 ↔ writer.buf.currentSize = writer.buf.capacity ∧
              (nextOutcome (schedule writer.writableFile)).ok = false)) := by
  obtain ⟨sameSchedule, same⟩ :=
    fails.prepareWrite writer.filesize more.length writer.writableFile
  have ready : Paged F contents (schedule · = schedule writer.writableFile) data
      (writer.prepare F more.length) := paged.prepare sameSchedule same
  obtain ⟨size, onSuccess, onFailure⟩ :=
    ready.appendLoop_scheduled fails Status.ok_OK more
  have isResult := append_of_unbuffered F paged.unbuffered more
  intro result whole
  refine ⟨fun isWhole => ?_, fun broken => ?_⟩
  · obtain ⟨succeeds, taken⟩ := onSuccess isWhole
    rw [if_pos succeeds] at isResult
    change (append F more writer).1.ok = true ∧ (append F more writer).2.filesize = _ ∧
      Paged _ _ _ _ (append F more writer).2
    rw [isResult]
    exact ⟨succeeds, congrArg (· + more.length) size, taken.unbuffered, taken.alignment_eq,
      trivial, taken.atPage, taken.split⟩
  · obtain ⟨failed, absorbed⟩ := onFailure broken
    rw [if_neg (by rw [failed]; exact Bool.false_ne_true)] at isResult
    change (append F more writer).1.ok = false ∧ (append F more writer).2.filesize = _ ∧
      ∃ count ≤ more.length, Paged _ _ _ _ (append F more writer).2 ∧ _
    rw [isResult]
    exact ⟨failed, size, absorbed⟩

/-- An `Append` that fails has not happened if and only if all or nothing is taken. -/
theorem Paged.append_failed_iff
    (fails : F.FailsAsScheduled contents schedule)
    {valid : ω → Prop}
    (paged : Paged F contents valid data writer)
    (more : Bytes) :
    let result := append F more writer
    (result.1.ok = false →
        logical contents result.2 = logical contents writer ∧
          (writer.nextWriteOffset + writer.buf.currentSize = writer.filesize →
            result.2.nextWriteOffset + result.2.buf.currentSize = result.2.filesize)) ↔
      writer.AllOrNothing schedule more.length := by
  intro result
  obtain ⟨onSuccess, onFailure⟩ := paged.append_scheduled fails more
  by_cases whole : ∀ outcome ∈
      (schedule writer.writableFile).take (writer.writesNeeded more.length),
        outcome.ok = true
  · refine iff_of_true (fun failed => ?_) (.inl whole)
    exact nomatch (onSuccess whole).1.symm.trans failed
  · obtain ⟨failed, size, count, inData, paged', none⟩ := onFailure whole
    change result.1.ok = false at failed
    change Paged F contents _ _ result.2 at paged'
    change result.2.filesize = _ at size
    rw [paged'.logical_eq, paged.logical_eq, AllOrNothing, or_iff_right whole, ← none,
      paged'.length_eq, paged.length_eq, size]
    constructor
    · intro atomic
      have length := congrArg List.length (atomic failed).1
      rw [List.length_append, List.length_take_of_le inData] at length
      omega
    · rintro rfl _
      rw [List.take_zero, List.append_nil]
      exact ⟨rfl, id⟩

/-! ## Requests -/

/-- The request is no `Append`, or it takes all or nothing. -/
def RequestAllOrNothing
    (schedule : ω → List Status)
    (writer : WritableFileWriter ω) : Request → Prop
  | .call (.append data) => writer.AllOrNothing schedule data.length
  | _ => True

/-- Each `Append` takes all or nothing. -/
def RunAllOrNothing
    (F : WritableFile ω)
    (schedule : ω → List Status)
    (writer : WritableFileWriter ω) : List Request → Prop
  | [] => True
  | next :: requests =>
      writer.RequestAllOrNothing schedule next ∧
        (writer.request F next).2.RunAllOrNothing F schedule requests

theorem Paged.flush_kept
    (fails : F.FailsAsScheduled contents schedule)
    {valid : ω → Prop}
    (paged : Paged F contents valid data writer) :
    let result := writer.flush F
    Paged F contents (fun _ => True) data result.2 ∧
      (result.1.ok = true → Padded F data (contents result.2.writableFile)) := by
  by_cases some : 0 < writer.buf.currentSize
  · have scheduled : Paged F contents (schedule · = schedule writer.writableFile) data
        writer := paged.of_file rfl rfl
    obtain ⟨-, kept, padded⟩ := scheduled.flush_scheduled fails some
    exact ⟨kept.of_file trivial rfl, padded⟩
  · have isWritten : writer.writeOut F = (.OK, writer) := by
      simp [writeOut, some]
    have plain : Paged F contents (fun _ => True) data writer := paged.of_file trivial rfl
    have padded := paged.padded_of_empty
      (List.eq_nil_of_length_eq_zero (Nat.eq_zero_of_not_pos some))
    obtain ⟨-, kept, padded'⟩ := @Paged.flush_of_written ω F contents (fun _ => True) writer
      data (fun file _ => ⟨(fails.flush file).1, trivial, (fails.flush file).2.2⟩)
      (fun offset nbytes file _ => ⟨(fails.rangeSync offset nbytes file).1, trivial,
        (fails.rangeSync offset nbytes file).2.2⟩)
      (by rw [isWritten]; rfl) (by rw [isWritten]; exact plain)
      (by rw [isWritten]; exact padded)
    exact ⟨kept, fun _ => padded'⟩

/-- No request but `Append` accepts anything or counts it. -/
theorem Paged.request_kept
    (fails : F.FailsAsScheduled contents schedule)
    {valid : ω → Prop}
    (paged : Paged F contents valid data writer)
    {next : Request}
    (noAppend : ∀ more, next ≠ .call (.append more)) :
    let result := writer.request F next
    Paged F contents (fun _ => True) data result.2 ∧
      result.2.filesize = writer.filesize ∧ Request.added (next, result.1) = [] := by
  have synced {writer : WritableFileWriter ω} {valid : ω → Prop}
      (paged : Paged F contents valid data writer)
      {file : ω}
      (isFile : file = writer.writableFile ∨ file = (F.sync writer.writableFile).2 ∨
        file = (F.fsync writer.writableFile).2) :
      Paged F contents (fun _ => True) data { writer with writableFile := file } := by
    apply paged.of_file trivial
    rcases isFile with rfl | rfl | rfl
    · rfl
    · exact (fails.sync _).2
    · exact (fails.fsync _).2
  cases next with
  | call next =>
      cases next with
      | append more => exact absurd rfl (noAppend more)
      | flush => exact ⟨(paged.flush_kept fails).1, filesize_flush F writer, rfl⟩
      | sync useFsync =>
          obtain ⟨file, pending, isResult, isFile⟩ := sync_cases F useFsync writer
          have paged' := synced (paged.flush_kept fails).1 isFile
          change Paged _ _ _ _ (writer.sync F useFsync).2 ∧
            (writer.sync F useFsync).2.filesize = _ ∧ _
          rw [isResult]
          exact ⟨⟨paged'.unbuffered, paged'.alignment_eq, trivial, paged'.atPage,
            paged'.split⟩, filesize_flush F writer, rfl⟩
  | syncWithoutFlush useFsync =>
      change Paged _ _ _ _ (writer.syncWithoutFlush F useFsync).2 ∧
        (writer.syncWithoutFlush F useFsync).2.filesize = _ ∧ _
      unfold WritableFileWriter.syncWithoutFlush
      split
      · exact ⟨paged.of_file trivial rfl, rfl, rfl⟩
      · obtain ⟨file, isResult, isFile⟩ := syncInternal_cases F useFsync writer
        rw [isResult]
        exact ⟨synced paged (.inr isFile), rfl, rfl⟩

/-- A request accepts some data, and counts it if it takes all or nothing. -/
theorem Paged.request_scheduled
    (fails : F.FailsAsScheduled contents schedule)
    {valid : ω → Prop}
    (paged : Paged F contents valid data writer)
    (next : Request) :
    let result := writer.request F next
    ∃ data', Paged F contents (fun _ => True) data' result.2 ∧
      (writer.RequestAllOrNothing schedule next → writer.filesize = data.length →
        data' = data ++ Request.added (next, result.1) ∧
          result.2.filesize = data'.length) := by
  intro result
  by_cases isAppend : ∃ more, next = .call (.append more)
  · obtain ⟨more, rfl⟩ := isAppend
    have added : Request.added (.call (.append more), result.1) =
        if result.1.ok then more else [] := rfl
    obtain ⟨onSuccess, onFailure⟩ := paged.append_scheduled fails more
    by_cases whole : ∀ outcome ∈
        (schedule writer.writableFile).take (writer.writesNeeded more.length),
          outcome.ok = true
    · obtain ⟨succeeds, size, taken⟩ := onSuccess whole
      refine ⟨_, taken, fun _ counted => ⟨?_, ?_⟩⟩
      · rw [added, if_pos (show result.1.ok = true from succeeds)]
      · rw [List.length_append, ← counted]
        exact size
    · obtain ⟨failed, size, count, -, paged', none⟩ := onFailure whole
      refine ⟨_, paged', fun allOrNothing counted => ?_⟩
      have nothing := none.mpr (allOrNothing.resolve_left whole)
      rw [nothing, List.take_zero, List.append_nil, added,
        if_neg (by rw [show result.1.ok = false from failed]; exact Bool.false_ne_true),
        List.append_nil]
      exact ⟨rfl, size.trans counted⟩
  · obtain ⟨kept, size, added⟩ :=
      paged.request_kept fails (fun more isMore => isAppend ⟨more, isMore⟩)
    refine ⟨data, kept, fun _ counted => ⟨?_, size.trans counted⟩⟩
    rw [added, List.append_nil]

theorem Paged.serve_scheduled
    (fails : F.FailsAsScheduled contents schedule)
    (requests : List Request)
    {valid : ω → Prop}
    {data : Bytes}
    {writer : WritableFileWriter ω}
    (paged : Paged F contents valid data writer) :
    let ran := writer.serve F requests
    ∃ data', Paged F contents (fun _ => True) data' ran.2 ∧
      (writer.RunAllOrNothing F schedule requests → writer.filesize = data.length →
        data' = data ++ granted ran.1 ∧ ran.2.filesize = data'.length) := by
  induction requests generalizing data writer valid with
  | nil =>
      refine ⟨data, paged.of_file trivial rfl, fun _ counted => ⟨?_, counted⟩⟩
      exact (List.append_nil data).symm
  | cons next requests inductionHypothesis =>
      obtain ⟨middle, first, one⟩ := paged.request_scheduled fails next
      obtain ⟨data', last, others⟩ := inductionHypothesis first
      refine ⟨data', last, fun allOrNothing counted => ?_⟩
      obtain ⟨isMiddle, counted'⟩ := one allOrNothing.1 counted
      obtain ⟨isData, counted''⟩ := others allOrNothing.2 counted'
      refine ⟨?_, counted''⟩
      rw [isData, isMiddle, List.append_assoc]
      rfl

/-- A `Close` that returns OK leaves what was accepted, if all of it was counted. -/
theorem Paged.close_counted
    (fails : F.FailsAsScheduled contents schedule)
    {valid : ω → Prop}
    (paged : Paged F contents valid data writer)
    (counted : writer.filesize = data.length)
    (succeeds : (writer.close F).1.ok = true) :
    contents (writer.close F).2 = data := by
  obtain ⟨kept, padded⟩ := paged.flush_kept fails
  have flushed := ok_close succeeds
  obtain ⟨zeros, -, isPadded⟩ := padded flushed
  have truncated : (F.truncate (writer.flush F).2.filesize
      (writer.flush F).2.writableFile).1.ok = true := by
    by_contra failed
    rw [Bool.not_eq_true] at failed
    simp [close, flushed, failed] at succeeds
  have cut := fails.truncate _ _ truncated
  rw [isPadded, filesize_flush, counted, List.take_left, ← counted,
    ← filesize_flush F writer] at cut
  exact (fails.close _).trans cut

/-- A writer in unbuffered mode over a new file whose writes may fail, behind any requests.
An `Append` that fails leaves the logical contents as they are, and their size equal to
`filesize_` if it was, if and only if it takes all or nothing.  If each `Append` so far did
so, the logical contents are the data of those that have returned OK, `filesize_` is their
size, and a `Close` that returns OK leaves them in the file. -/
theorem append_atomic_iff
    (fails : F.FailsAsScheduled contents schedule)
    (unbuffered : F.useOSBuffer = false)
    {file : ω}
    (fresh : contents file = [])
    (maxBufferSize bytesPerSync : Nat)
    (requests : List Request)
    (more : Bytes) :
    let start := new F file maxBufferSize bytesPerSync
    let ran := start.serve F requests
    let result := append F more ran.2
    let closed := ran.2.close F
    ((result.1.ok = false →
        logical contents result.2 = logical contents ran.2 ∧
          (ran.2.nextWriteOffset + ran.2.buf.currentSize = ran.2.filesize →
            result.2.nextWriteOffset + result.2.buf.currentSize = result.2.filesize)) ↔
      ran.2.AllOrNothing schedule more.length) ∧
    (start.RunAllOrNothing F schedule requests →
      logical contents ran.2 = granted ran.1 ∧
        ran.2.nextWriteOffset + ran.2.buf.currentSize = ran.2.filesize ∧
        ran.2.filesize = (granted ran.1).length ∧
        (closed.1.ok = true → contents closed.2 = granted ran.1)) := by
  intro start ran result closed
  have new : PagedFor F contents (fun _ => True) [] start :=
    .new F unbuffered trivial fresh maxBufferSize bytesPerSync
  obtain ⟨data, paged, counts⟩ := new.paged.serve_scheduled fails requests
  refine ⟨paged.append_failed_iff fails more, fun allOrNothing => ?_⟩
  obtain ⟨isData, counted⟩ := counts allOrNothing new.filesize_eq
  rw [List.nil_append] at isData
  rw [isData] at paged counted
  exact ⟨paged.logical_eq, paged.length_eq.trans counted.symm, counted,
    paged.close_counted fails counted⟩

/-- Three bytes, and a fourth that cannot be written yet. -/
theorem append_atomic_iff_three :
    ∃ ran, ran = (new (FaultyFile.Traits.pagedFile ⟨true, 4096, 12, rfl⟩) ⟨[], []⟩ 65536
        0).serve (FaultyFile.Traits.pagedFile ⟨true, 4096, 12, rfl⟩)
          [.call (.append [1, 2, 3])] ∧
      logical FaultyFile.contents ran.2 = granted ran.1 ∧
      ran.2.nextWriteOffset + ran.2.buf.currentSize = ran.2.filesize := by
  obtain ⟨-, holds⟩ := append_atomic_iff
    (FaultyFile.Traits.failsAsScheduled ⟨true, 4096, 12, rfl⟩) rfl
    (rfl : FaultyFile.contents ⟨[], []⟩ = []) 65536 0 [.call (.append [1, 2, 3])] [4]
  have allOrNothing : (new (FaultyFile.Traits.pagedFile ⟨true, 4096, 12, rfl⟩) ⟨[], []⟩
      65536 0).RunAllOrNothing (FaultyFile.Traits.pagedFile ⟨true, 4096, 12, rfl⟩)
        FaultyFile.outcomes [.call (.append [1, 2, 3])] := by
    refine ⟨.inl fun outcome member => ?_, trivial⟩
    exact absurd (List.mem_of_mem_take member) List.not_mem_nil
  obtain ⟨same, sizes, -, -⟩ := holds allOrNothing
  exact ⟨_, rfl, same, sizes⟩

/-- The first flush fails, behind the 65536 bytes that have filled the buffer. -/
theorem append_not_atomic :
    ∃ result, result = append (FaultyFile.Traits.pagedFile ⟨true, 4096, 12, rfl⟩)
        (List.replicate 65537 1)
        (new (FaultyFile.Traits.pagedFile ⟨true, 4096, 12, rfl⟩) ⟨[], [.IOError ""]⟩
          65536 0) ∧
      result.1.ok = false ∧
      logical FaultyFile.contents result.2 ≠ logical FaultyFile.contents
        (new (FaultyFile.Traits.pagedFile ⟨true, 4096, 12, rfl⟩) ⟨[], [.IOError ""]⟩
          65536 0) ∧
      result.2.nextWriteOffset + result.2.buf.currentSize ≠ result.2.filesize := by
  have start : PagedFor (FaultyFile.Traits.pagedFile ⟨true, 4096, 12, rfl⟩)
      FaultyFile.contents (fun _ => True) [] (new (FaultyFile.Traits.pagedFile
        ⟨true, 4096, 12, rfl⟩) ⟨[], [.IOError ""]⟩ 65536 0) :=
    .new _ rfl trivial rfl 65536 0
  obtain ⟨-, onFailure⟩ := start.paged.append_scheduled
    (FaultyFile.Traits.failsAsScheduled ⟨true, 4096, 12, rfl⟩) (List.replicate 65537 1)
  obtain ⟨others, needed⟩ := @writesNeeded_pos FaultyFile (new
    (FaultyFile.Traits.pagedFile ⟨true, 4096, 12, rfl⟩) ⟨[], [.IOError ""]⟩ 65536 0) 65537
    (by decide)
  rw [List.length_replicate, needed, all_ok_take_succ] at onFailure
  obtain ⟨failed, size, count, inData, paged, none⟩ :=
    onFailure (fun whole => nomatch whole.1)
  have some : count ≠ 0 := by
    intro zero
    have full := (none.mp zero).1
    revert full
    decide
  have length : (([] : Bytes) ++ (List.replicate 65537 1).take count).length = count := by
    rw [List.nil_append, List.length_take_of_le]
    rwa [List.length_replicate]
  refine ⟨_, rfl, failed, ?_, ?_⟩
  · rw [paged.logical_eq, start.paged.logical_eq]
    intro same
    rw [same] at length
    exact some length.symm
  · rw [paged.length_eq, length, size]
    exact some

end WritableFileWriter
end RocksUtil
