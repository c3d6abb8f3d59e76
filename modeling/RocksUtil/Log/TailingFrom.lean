import RocksUtil.Log.Seeking
import RocksUtil.Log.Tailing

/-!
# Following a growing log from an initial offset

A reader with an initial offset decides on every call, by the offset of the record it
returned last, whether to skip to the block of its initial offset.  Once it has
returned a record it never skips again, and follows the log as a reader without an
initial offset does.  A call that returns `false` before that leaves the decision
open: the next call skips once more, relative to where the file stands by then, and
resets the offset of the buffer.
-/

namespace RocksUtil
namespace Log

namespace Reader

/-! ## What a call leaves alone -/

section Frame

theorem readPhysicalRecord_frame (reader : Reader GrowingFile) (dropSize : Nat) :
    let next := (reader.readPhysicalRecord GrowingFile.sequentialFile dropSize).reader
    next.lastRecordOffset = reader.lastRecordOffset ∧
      next.initialOffset = reader.initialOffset ∧
      reader.file.pos ≤ next.file.pos := by
  have refilled (reader : Reader GrowingFile) :
      reader.file.pos ≤ reader.refill.file.pos := Nat.le_add_right _ _
  have taken (reader : Reader GrowingFile) (size type length : Nat) :
      (reader.takeRecord size type length dropSize).reader.lastRecordOffset =
          reader.lastRecordOffset ∧
        (reader.takeRecord size type length dropSize).reader.initialOffset =
          reader.initialOffset ∧
        reader.file.pos ≤
          (reader.takeRecord size type length dropSize).reader.file.pos := by
    unfold takeRecord
    dsimp only
    split_ifs <;> exact ⟨rfl, rfl, Nat.le_refl _⟩
  have noted (reader : Reader GrowingFile) :
      reader.noteRecycled.lastRecordOffset = reader.lastRecordOffset ∧
        reader.noteRecycled.initialOffset = reader.initialOffset ∧
        reader.noteRecycled.file = reader.file := by
    obtain ⟨recycled, same⟩ := noteRecycled_eq reader
    rw [same]
    exact ⟨rfl, rfl, rfl⟩
  fun_induction readPhysicalRecord GrowingFile.sequentialFile reader dropSize with
  | case1 reader short error dropped next more =>
      obtain ⟨-, rfl⟩ := of_readMore_stop more
      exact ⟨rfl, rfl, Nat.le_refl _⟩
  | case2 reader short next more inductionHypothesis =>
      obtain ⟨-, rfl⟩ := of_readMore_more more
      obtain ⟨last, initial, pos⟩ := inductionHypothesis
      exact ⟨last, initial, Nat.le_trans (refilled reader) pos⟩
  | case3 =>
      rename_i reader _ _ _ _ _ _ _ _ more
      obtain ⟨-, rfl⟩ := of_readMore_stop more
      obtain ⟨last, initial, file⟩ := noted reader
      exact ⟨last, initial, Nat.le_of_eq (congrArg GrowingFile.pos file).symm⟩
  | case4 =>
      rename_i reader _ _ _ _ _ next more inductionHypothesis
      obtain ⟨-, rfl⟩ := of_readMore_more more
      obtain ⟨last, initial, pos⟩ := inductionHypothesis
      obtain ⟨sameLast, sameInitial, file⟩ := noted reader
      have further := refilled reader.noteRecycled
      rw [file] at further
      exact ⟨last.trans sameLast, initial.trans sameInitial,
        Nat.le_trans further pos⟩
  | case5 =>
      rename_i reader _ _ _ _ _ _
      obtain ⟨last, initial, file⟩ := noted reader
      exact ⟨last, initial, Nat.le_of_eq (congrArg GrowingFile.pos file).symm⟩
  | case6 =>
      rename_i reader _ _ _ _ _ _ _
      obtain ⟨last, initial, file⟩ := noted reader
      obtain ⟨takenLast, takenInitial, takenPos⟩ := taken reader.noteRecycled
        kRecyclableHeaderSize (headerType reader.buffer) (headerLength reader.buffer)
      rw [file] at takenPos
      exact ⟨takenLast.trans last, takenInitial.trans initial, takenPos⟩
  | case7 =>
      rename_i reader _ _ _ _
      exact taken reader _ _ _

/-- A step that returns no record leaves the offset of the last one alone. -/
def KeepsLast (last : UInt64) : Assembly GrowingFile ⊕ ReadResult GrowingFile → Prop
  | .inl next => next.reader.lastRecordOffset = last
  | .inr result => result.found = false → result.reader.lastRecordOffset = last

theorem keepsLast_ite
    {last : UInt64}
    {condition : Prop}
    [Decidable condition]
    {yes no : Assembly GrowingFile ⊕ ReadResult GrowingFile}
    (ifYes : KeepsLast last yes)
    (ifNo : KeepsLast last no) :
    KeepsLast last (if condition then yes else no) := by
  split
  · exact ifYes
  · exact ifNo

theorem lastRecordOffset_report
    (assembly : Assembly GrowingFile)
    (bytes : Nat)
    (reason : String) :
    (assembly.report bytes reason).reader.lastRecordOffset =
      assembly.reader.lastRecordOffset := by
  obtain ⟨reporter, reported⟩ := reportDrop_eq assembly.reader bytes
    (.Corruption reason)
  have same := congrArg Reader.lastRecordOffset reported
  exact same

theorem lastRecordOffset_reportIf
    (assembly : Assembly GrowingFile)
    (condition : Bool)
    (bytes : Nat)
    (reason : String) :
    (assembly.reportIf condition bytes reason).reader.lastRecordOffset =
      assembly.reader.lastRecordOffset := by
  unfold Assembly.reportIf
  split
  · exact lastRecordOffset_report assembly bytes reason
  · rfl

theorem lastRecordOffset_interrupt (assembly : Assembly GrowingFile) :
    assembly.interrupt.reader.lastRecordOffset = assembly.reader.lastRecordOffset := by
  unfold Assembly.interrupt
  split
  · exact lastRecordOffset_report assembly _ _
  · rfl

theorem keepsLast_handle
    (mode : WALRecoveryMode)
    (assembly : Assembly GrowingFile)
    (offset : UInt64)
    (physical : PhysicalRead GrowingFile) :
    KeepsLast physical.reader.lastRecordOffset
      (handle mode assembly offset physical) := by
  unfold handle
  generalize taken : ({ assembly with reader := physical.reader } :
    Assembly GrowingFile) = started
  have readerEq : physical.reader = started.reader := by rw [← taken]
  rw [readerEq]
  have reports (bytes : Nat) (reason : String) :=
    lastRecordOffset_report started bytes reason
  have finishes : KeepsLast started.reader.lastRecordOffset
      (.inr (started.finish mode)) :=
    fun _ => lastRecordOffset_reportIf started _ _ _
  have interrupts := lastRecordOffset_interrupt started
  dsimp only
  refine keepsLast_ite nofun ?_
  refine keepsLast_ite (lastRecordOffset_reportIf started _ _ _) ?_
  refine keepsLast_ite (keepsLast_ite (reports _ _) rfl) ?_
  refine keepsLast_ite (keepsLast_ite (reports _ _) nofun) ?_
  refine keepsLast_ite ?_ ?_
  · intro _
    exact (lastRecordOffset_reportIf _ _ _ _).trans
      (lastRecordOffset_reportIf started _ _ _)
  refine keepsLast_ite finishes ?_
  refine keepsLast_ite (keepsLast_ite finishes interrupts) ?_
  refine keepsLast_ite interrupts ?_
  refine keepsLast_ite (keepsLast_ite (fun _ => rfl) ?_) (reports _ _)
  exact (lastRecordOffset_interrupt _).trans (reports _ _)

variable {mode : WALRecoveryMode}

/-- A call moves the file forward, and keeps the offset of the last record unless it
returns another one. -/
theorem Returns.frame
    {assembly : Assembly GrowingFile}
    {result : ReadResult GrowingFile}
    (returns : Returns GrowingFile.sequentialFile mode assembly result) :
    assembly.reader.file.pos ≤ result.reader.file.pos ∧
      result.reader.initialOffset = assembly.reader.initialOffset ∧
      (result.found = false →
        result.reader.lastRecordOffset = assembly.reader.lastRecordOffset) := by
  have position (assembly : Assembly GrowingFile) :
      assembly.reader.file.pos ≤
          (stepReader (readRecordStep GrowingFile.sequentialFile mode
            assembly)).file.pos ∧
        (stepReader (readRecordStep GrowingFile.sequentialFile mode
          assembly)).initialOffset = assembly.reader.initialOffset := by
    obtain ⟨reporter, last, alike⟩ := alike_handle mode assembly
      assembly.reader.bufferOffset
      (assembly.reader.readPhysicalRecord GrowingFile.sequentialFile 0)
    obtain ⟨-, initial, pos⟩ := readPhysicalRecord_frame assembly.reader 0
    rw [readRecordStep, alike]
    exact ⟨pos, initial⟩
  have keeps (assembly : Assembly GrowingFile) :
      KeepsLast assembly.reader.lastRecordOffset
        (readRecordStep GrowingFile.sequentialFile mode assembly) := by
    rw [← (readPhysicalRecord_frame assembly.reader 0).1]
    exact keepsLast_handle mode assembly _ _
  induction returns with
  | @done assembly result step =>
      have further := position assembly
      have kept := keeps assembly
      rw [step] at further kept
      exact ⟨further.1, further.2, kept⟩
  | @next assembly following result step _ inductionHypothesis =>
      have further := position assembly
      have kept := keeps assembly
      rw [step] at further kept
      obtain ⟨later, initial, keptLater⟩ := inductionHypothesis
      exact ⟨Nat.le_trans further.1 later, initial.trans further.2,
        fun failed => (keptLater failed).trans kept⟩

/-- A call that begins with a read moves the file over what it reads. -/
theorem Returns.pos_refill
    {assembly : Assembly GrowingFile}
    {result : ReadResult GrowingFile}
    (returns : Returns GrowingFile.sequentialFile mode assembly result)
    (live : assembly.reader.eof = false)
    (noError : assembly.reader.readError = false)
    (short : assembly.reader.buffer.length < kHeaderSize) :
    assembly.reader.refill.file.pos ≤ result.reader.file.pos := by
  obtain ⟨reporter, last, alike⟩ := alike_handle mode assembly
    assembly.reader.bufferOffset
    (assembly.reader.readPhysicalRecord GrowingFile.sequentialFile 0)
  have first : assembly.reader.refill.file.pos ≤
      (stepReader (readRecordStep GrowingFile.sequentialFile mode
        assembly)).file.pos := by
    rw [readRecordStep, alike,
      readPhysicalRecord_refill assembly.reader 0 live noError short]
    exact (readPhysicalRecord_frame assembly.reader.refill 0).2.2
  cases returns with
  | done step =>
      rw [step] at first
      exact first
  | next step returns =>
      rw [step] at first
      exact Nat.le_trans first returns.frame.1

theorem unmarkEOF_frame (reader : Reader GrowingFile) :
    let next := reader.unmarkEOF GrowingFile.sequentialFile
    next.lastRecordOffset = reader.lastRecordOffset ∧
      next.initialOffset = reader.initialOffset ∧
      reader.file.pos ≤ next.file.pos := by
  cases failed : reader.readError with
  | true =>
      rw [unmarkEOF, if_pos failed]
      exact ⟨rfl, rfl, Nat.le_refl _⟩
  | false =>
      by_cases atBoundary : reader.eofOffset = 0
      · rw [unmarkEOF_of_boundary failed atBoundary]
        exact ⟨rfl, rfl, Nat.le_refl _⟩
      · rw [unmarkEOF_inBlock failed atBoundary]
        exact ⟨rfl, rfl, Nat.le_add_right _ _⟩

theorem unmarkEOF_unfiltered
    {reader : Reader GrowingFile}
    (noError : reader.readError = false)
    (reporter : Option (List Report)) :
    (reader.unfiltered reporter).unmarkEOF GrowingFile.sequentialFile =
      (reader.unmarkEOF GrowingFile.sequentialFile).unfiltered reporter := by
  have noError' : (reader.unfiltered reporter).readError = false := noError
  by_cases atBoundary : reader.eofOffset = 0
  · have atBoundary' : (reader.unfiltered reporter).eofOffset = 0 := atBoundary
    rw [unmarkEOF_of_boundary noError atBoundary,
      unmarkEOF_of_boundary noError' atBoundary']
    rfl
  · have inside : (reader.unfiltered reporter).eofOffset ≠ 0 := atBoundary
    rw [unmarkEOF_inBlock noError atBoundary, unmarkEOF_inBlock noError' inside]
    rfl

/-! ## Counting while the file grows -/

section Growing

variable {reader : Reader GrowingFile} {length : Nat}

theorem Counts.schedule
    (counts : Counts reader length)
    (atRest : reader.file.arrivals = [])
    (arrivals : List Bytes) :
    Counts { reader with file := reader.file.schedule arrivals }
      (length + arrivals.flatten.length) := by
  have total : total { reader with file := reader.file.schedule arrivals } =
      reader.total + arrivals.flatten.length := by
    unfold Reader.total
    rw [atRest]
    rfl
  have bound := counts.total_le
  refine ⟨counts.inFile, by omega, ?_⟩
  rw [total, Nat.add_sub_add_right]
  exact counts.offset_eq

theorem total_settle (inFile : reader.file.pos ≤ reader.file.contents.length) :
    total { reader with file := reader.file.settle } = reader.total := by
  unfold Reader.total GrowingFile.settle
  rw [GrowingFile.unread_schedule, GrowingFile.unread_append _ inFile,
    List.length_append]
  change reader.buffer.length + _ + 0 = _
  omega

/-- A file that has grown by bytes which were counted before. -/
theorem Counts.of_appended
    (counts : Counts reader length)
    {file : GrowingFile}
    {more : Bytes}
    (contents : file.contents = reader.file.contents ++ more)
    (pos : file.pos = reader.file.pos)
    (total : ({ reader with file := file } : Reader GrowingFile).total = reader.total) :
    Counts { reader with file := file } length := by
  have inFile := counts.inFile
  refine ⟨?_, ?_, ?_⟩
  · dsimp only
    rw [contents, pos, List.length_append]
    omega
  · rw [total]
    exact counts.total_le
  · rw [total]
    exact counts.offset_eq

theorem Counts.settle (counts : Counts reader length) :
    Counts { reader with file := reader.file.settle } length := by
  have contents : reader.file.settle.contents =
      reader.file.contents ++ reader.file.arrivals.flatten := rfl
  exact counts.of_appended contents rfl (total_settle counts.inFile)

theorem Counts.unmarkEOF
    (counts : Counts reader length)
    {offset : Nat}
    {rest : Bytes}
    (positioned : reader.Positioned offset rest) :
    Counts (reader.unmarkEOF GrowingFile.sequentialFile) length ∧
      (reader.unmarkEOF GrowingFile.sequentialFile).total = reader.total := by
  obtain ⟨offset', positioned', -, unmarks⟩ := positioned.unmarkEOF
  have total : (reader.unmarkEOF GrowingFile.sequentialFile).total = reader.total := by
    obtain ⟨arrived, dropped, counted⟩ := unmarks.arrived
    have split := congrArg (fun chunks => chunks.flatten.length)
      (List.take_append_drop arrived reader.file.arrivals)
    simp only [List.flatten_append, List.length_append] at split
    unfold Reader.total
    rw [dropped]
    omega
  have offset : (reader.unmarkEOF GrowingFile.sequentialFile).bufferOffset =
      reader.bufferOffset := by
    by_cases atBoundary : reader.eofOffset = 0
    · rw [unmarkEOF_of_boundary positioned.noError atBoundary]
      rfl
    · rw [unmarkEOF_inBlock positioned.noError atBoundary]
      unfold bufferOffset
      dsimp only
      rw [List.length_append, UInt64.ofNat_add]
      grind
  refine ⟨⟨positioned'.inFile, ?_, ?_⟩, total⟩
  · rw [total]
    exact counts.total_le
  · rw [total, offset]
    exact counts.offset_eq

end Growing

end Frame

/-! ## To the first record -/

/-- The reader stands at file position `position` in front of physical records it
passes over, and of the records `kept` behind them; the file always ends behind one of
either. -/
structure Leading
    (format : Format)
    (reader : Reader GrowingFile)
    (length position offset : Nat)
    (lead : List Piece)
    (kept : List Bytes) : Prop where
  positioned : reader.Positioned offset
    (format.place offset (lead.map Piece.fragment) ++
      format.logBytes (format.advance offset (lead.map Piece.fragment)) kept)
  accepts : reader.Accepts format
  counts : Counts reader length
  here : position + reader.total = length
  whole : reader.total = (format.place offset (lead.map Piece.fragment)).length +
    (format.logBytes (format.advance offset (lead.map Piece.fragment)) kept).length
  located : format.Located position offset lead
  inBlock : Format.InBlock position offset
  fits : format.Fits offset (lead.map Piece.fragment)
  passed : ∀ piece ∈ lead, Format.PassedOver reader.initialOffset.toNat piece
  notSkipped : (blockStart reader.initialOffset).toNat ≤ position
  late : kept ≠ [] → reader.initialOffset.toNat ≤
    position + (format.place offset (lead.map Piece.fragment)).length +
      format.gap (format.advance offset (lead.map Piece.fragment))
  fileEnds : ∀ chunks, format.Boundary offset lead kept
    (reader.buffer.length + reader.file.unread.length +
      (reader.file.arrivals.take chunks).flatten.length)
  bufferEnds : reader.eof = true →
    format.Boundary offset lead kept reader.buffer.length

section Leading

variable {mode : WALRecoveryMode} {format : Format}
  {length position offset : Nat} {lead : List Piece} {kept : List Bytes}

/-- What is in reach ends at a boundary. -/
theorem Leading.boundary
    {reader : Reader GrowingFile}
    (leading : Leading format reader length position offset lead kept) :
    format.Boundary offset lead kept reader.reach := by
  unfold reach
  cases ended : reader.eof with
  | true => simpa using leading.bufferEnds ended
  | false => simpa using leading.fileEnds 0

/-- A boundary in front of a physical record is not inside it. -/
theorem boundary_cons
    {piece : Piece}
    {count : Nat}
    (boundary : format.Boundary offset (piece :: lead) kept count) :
    count = 0 ∨ ∃ more, count = span format offset piece.fragment + more ∧
      format.Boundary (format.endOffset offset piece.fragment.payload.length) lead kept
        more := by
  unfold span
  rcases boundary with ⟨passed, rfl⟩ | ⟨returned, rfl⟩
  · cases passed with
    | zero => exact .inl rfl
    | succ passed =>
        right
        rw [List.map_cons, List.take_succ_cons, Format.length_place_cons]
        exact ⟨_, rfl, .inl ⟨passed, rfl⟩⟩
  · right
    rw [List.map_cons, Format.length_place_cons, Nat.add_assoc]
    exact ⟨_, rfl, .inr ⟨returned, rfl⟩⟩

/-- Moving over the first of the physical records that are passed over. -/
theorem Leading.next
    {assembly next : Assembly GrowingFile}
    {piece : Piece}
    (leading : Leading format assembly.reader length position offset (piece :: lead)
      kept)
    (passes : Passes mode assembly next length
      (format.endOffset offset piece.fragment.payload.length)
      (span format offset piece.fragment)
      (format.place (format.endOffset offset piece.fragment.payload.length)
          (lead.map Piece.fragment) ++
        format.logBytes (format.advance
          (format.endOffset offset piece.fragment.payload.length)
          (lead.map Piece.fragment)) kept)) :
    Leading format next.reader length (position + span format offset piece.fragment)
      (format.endOffset offset piece.fragment.payload.length) lead kept := by
  have encoded := format.length_encode piece.fragment
  have bounds := format.header_bounds
  have totals := passes.consumes.total_eq
  have sameOffset := passes.consumes.settings.1
  have here := leading.here
  have whole := leading.whole
  have placed := format.length_place_cons offset piece.fragment
    (lead.map Piece.fragment)
  have late := leading.late
  have notSkipped := leading.notSkipped
  obtain ⟨-, located⟩ := leading.located
  have located' : format.Located (position + span format offset piece.fragment)
      (format.endOffset offset piece.fragment.payload.length) lead := by
    rw [span, encoded, ← Nat.add_assoc]
    exact located
  have inBlock := (leading.inBlock.next leading.fits.endOffset_le).1
  rw [Nat.add_assoc, ← encoded] at inBlock
  change Format.InBlock (position + span format offset piece.fragment) _ at inBlock
  have positive : 0 < span format offset piece.fragment := by
    unfold span
    omega
  rw [List.map_cons] at whole late
  change _ = span format offset piece.fragment + _ at placed
  change _ = _ + (format.logBytes (format.advance
    (format.endOffset offset piece.fragment.payload.length)
    (lead.map Piece.fragment)) kept).length at whole
  refine ⟨passes.positioned, passes.consumes.accepts leading.accepts, passes.counts,
    by omega, by omega, located', inBlock, leading.fits.2.2, ?_, ?_, ?_, ?_, ?_⟩
  · rw [sameOffset]
    exact fun other isOther => leading.passed other (List.mem_cons_of_mem _ isOther)
  · rw [sameOffset]
    omega
  · intro some
    have bound := late some
    change _ ≤ _ + format.gap (format.advance
      (format.endOffset offset piece.fragment.payload.length)
      (lead.map Piece.fragment)) at bound
    rw [sameOffset]
    omega
  · intro chunks
    obtain ⟨arrived, dropped, counted⟩ := passes.consumes.arrived
    have ends := leading.fileEnds (arrived + chunks)
    rw [List.take_add, List.flatten_append, List.length_append, ← dropped] at ends
    rcases boundary_cons ends with nothing | ⟨more, split, boundary⟩
    · omega
    · have same : next.reader.buffer.length + next.reader.file.unread.length +
          (next.reader.file.arrivals.take chunks).flatten.length = more := by
        omega
      rw [same]
      exact boundary
  · intro endedAfter
    cases ended : assembly.reader.eof with
    | true =>
        obtain ⟨-, -, counted⟩ := passes.consumes.ended ended
        rcases boundary_cons (leading.bufferEnds ended) with
          nothing | ⟨more, split, boundary⟩
        · omega
        · have same : next.reader.buffer.length = more := by omega
          rw [same]
          exact boundary
    | false =>
        obtain ⟨arrived, -, counted⟩ := passes.consumes.arrived
        rw [passes.consumes.reached ended endedAfter, List.length_nil] at counted
        rcases boundary_cons (leading.fileEnds arrived) with
          nothing | ⟨more, split, boundary⟩
        · omega
        · have same : next.reader.buffer.length = more := by omega
          rw [same]
          exact boundary

theorem Counts.hasten
    {reader : Reader GrowingFile}
    (counts : Counts reader length) :
    Counts { reader with file := reader.file.hasten } length := by
  have contents : reader.file.hasten.contents =
      reader.file.contents ++ reader.file.nextArrival := rfl
  exact counts.of_appended contents rfl (total_hasten counts.inFile)

theorem Leading.hasten
    {reader : Reader GrowingFile}
    (leading : Leading format reader length position offset lead kept)
    (live : reader.eof = false) :
    Leading format { reader with file := reader.file.hasten } length position offset
      lead kept := by
  have inFile := leading.counts.inFile
  have total := total_hasten inFile
  refine ⟨leading.positioned.hasten, leading.accepts, leading.counts.hasten, ?_, ?_,
    leading.located, leading.inBlock, leading.fits, leading.passed, leading.notSkipped,
    leading.late, fileEnds_hasten inFile leading.fileEnds, ?_⟩
  · rw [total]
    exact leading.here
  · rw [total]
    exact leading.whole
  · intro ended
    rw [show reader.eof = true from ended] at live
    cases live

/-- Where nothing is passed over any more, the file ends behind a record. -/
theorem boundary_nil
    {count : Nat}
    (boundary : format.Boundary offset [] kept count) :
    ∃ returned, count = (format.logBytes offset (kept.take returned)).length := by
  rcases boundary with ⟨passed, rfl⟩ | ⟨returned, rfl⟩
  · refine ⟨0, ?_⟩
    rw [List.map_nil, List.take_nil]
    rfl
  · exact ⟨returned, Nat.zero_add _⟩

/-- In front of the first record that is kept, a reader without the initial offset
follows the log. -/
theorem Leading.aligned
    {assembly next : Assembly GrowingFile}
    {offset' count : Nat}
    (leading : Leading format assembly.reader length position offset [] kept)
    (passes : Passes mode assembly next length offset' count
      (format.logBytes offset' kept))
    (some : kept ≠ [])
    (sizes : ∀ others, others ≠ [] →
      count + (format.logBytes offset' others).length =
        (format.logBytes offset others).length) :
    (next.reader.unfiltered none).Aligned format offset' kept := by
  have totals := passes.consumes.total_eq
  have whole : assembly.reader.total = 0 + (format.logBytes offset kept).length :=
    leading.whole
  have size := sizes kept some
  -- A file end behind the reader is one of those it had before.
  have ends {finish : Nat}
      (boundary : format.Boundary offset [] kept (finish + count)) :
      ∃ returned, finish = (format.logBytes offset' (kept.take returned)).length := by
    obtain ⟨returned, split⟩ := boundary_nil boundary
    by_cases none : kept.take returned = []
    · rw [none] at split
      change finish + count = 0 at split
      refine ⟨0, ?_⟩
      rw [List.take_zero]
      change finish = 0
      omega
    · have part := sizes _ none
      exact ⟨returned, by omega⟩
  refine ⟨passes.positioned.unfiltered none, passes.consumes.accepts leading.accepts,
    rfl, ?_, ?_, ?_⟩
  · change next.reader.total = _
    omega
  · intro chunks
    obtain ⟨arrived, dropped, counted⟩ := passes.consumes.arrived
    have boundary := leading.fileEnds (arrived + chunks)
    rw [List.take_add, List.flatten_append, List.length_append, ← dropped,
      ← Nat.add_assoc, ← counted, Nat.add_right_comm] at boundary
    exact ends boundary
  · intro endedAfter
    change next.reader.eof = true at endedAfter
    cases ended : assembly.reader.eof with
    | true =>
        obtain ⟨-, -, counted⟩ := passes.consumes.ended ended
        have boundary := leading.bufferEnds ended
        rw [← counted] at boundary
        exact ends boundary
    | false =>
        obtain ⟨arrived, -, counted⟩ := passes.consumes.arrived
        rw [passes.consumes.reached ended endedAfter, List.length_nil,
          Nat.add_zero] at counted
        have boundary := leading.fileEnds arrived
        rw [← counted] at boundary
        exact ends boundary

/-- The reader behind a call that has returned the first of the records it keeps. -/
structure FirstRecord
    (format : Format)
    (reader : Reader GrowingFile)
    (initial : UInt64)
    (length offset : Nat)
    (todo : List Bytes) : Prop where
  aligned : (reader.unfiltered none).Aligned format offset todo
  ahead : Ahead reader length
  sameOffset : reader.initialOffset = initial
  settled : initial ≤ reader.lastRecordOffset
  position : offset % kBlockSize = (length - reader.total) % kBlockSize

/-- In front of a record that is kept and in reach. -/
theorem Leading.returns_record
    {reader : Reader GrowingFile}
    {record : Bytes}
    {todo : List Bytes}
    (leading : Leading format reader length position offset [] (record :: todo))
    (bounded : length < 2 ^ 64)
    (mode : WALRecoveryMode)
    (inReach : (format.place offset
      (format.fragments offset true record)).length ≤ reader.reach) :
    ∃ result offset',
      Returns GrowingFile.sequentialFile mode (startAssembly reader) result ∧
        result.found = true ∧
        result.record = record ∧
        FirstRecord format result.reader reader.initialOffset length offset' todo := by
  have gap := format.gap_lt_length_place_fragments offset true record
  have late : reader.initialOffset.toNat ≤ position + format.gap offset :=
    leading.late (by simp)
  obtain ⟨middle, offset', count, passes, sizes, behind, sameBlock, -⟩ :=
    @passes_to_record mode (startAssembly reader) format offset length position
      (record :: todo) bounded leading.counts rfl leading.positioned (by simp)
      (Nat.le_trans (Nat.le_of_lt gap) inReach) leading.inBlock leading.here
      leading.notSkipped late
  have started : middle = startAssembly middle.reader := passes.locals
  have aligned := @Leading.aligned mode format length position offset _
    (startAssembly reader) middle offset' count leading passes (by simp) sizes
  have reached := passes.consumes.reach_le
  have first := sizes [record] (by simp)
  rw [logBytes_cons_length, logBytes_cons_length] at first
  change reader.reach ≤ _ at reached
  change _ + (_ + 0) = _ + 0 at first
  have whole : middle.reader.reach = (middle.reader.unfiltered none).reach := rfl
  obtain ⟨last, returns, aligned', consumed, silent⟩ := aligned.returns_record mode
    (by omega)
  have sameOffset := passes.consumes.settings.1
  change middle.reader.initialOffset = reader.initialOffset at sameOffset
  have passed : middle.reader.initialOffset.toNat ≤ length - middle.reader.total := by
    rw [sameOffset]
    exact behind
  obtain ⟨own, said, ownReturns, isResult, ahead, ownOffset, settled⟩ :=
    @Returns.filtered mode length _ _ returns bounded (startAssembly middle.reader)
      none rfl ⟨passes.counts, passed⟩ nofun
  change own.reader.initialOffset = middle.reader.initialOffset at ownOffset
  have found : own.found = true := (congrArg ReadResult.found isResult).symm
  have isRecord : own.record = record := (congrArg ReadResult.record isResult).symm
  have isLast : last = own.reader.unfiltered said := congrArg ReadResult.reader isResult
  have isSaid : said = none := by
    rw [isLast] at silent
    exact silent
  rw [isSaid] at isLast
  rw [isLast] at aligned' consumed
  refine ⟨own, _, passes.steps.returns (started ▸ ownReturns), found, isRecord, aligned',
    ahead, ownOffset.trans sameOffset, ?_, ?_⟩
  · rw [← sameOffset, ← ownOffset]
    exact settled found
  · have totals := consumed.total_eq
    change own.reader.total + _ = middle.reader.total at totals
    have inside := aligned.positioned.offset_le
    have fits := format.fits_fragments offset' true record inside
    have atMost := passes.counts.total_le
    have sum : length - own.reader.total = (length - middle.reader.total) +
        (format.place offset' (format.fragments offset' true record)).length := by
      omega
    rw [fits.advance_mod, sum, Nat.add_mod, sameBlock, ← Nat.add_mod]

/-- The first call of a reader with an initial offset returns `false`, or the first of
the records it keeps. -/
def FirstCall
    (format : Format)
    (mode : WALRecoveryMode)
    (reader : Reader GrowingFile)
    (length : Nat)
    (kept : List Bytes) : Prop :=
  ∃ result,
    Returns GrowingFile.sequentialFile mode (startAssembly reader) result ∧
      (result.found = true →
        ∃ offset todo,
          kept = result.record :: todo ∧
            FirstRecord format result.reader reader.initialOffset length offset todo)

/-- A call that can reach nothing and does not see the file grow. -/
theorem Leading.call_of_nothing
    {reader : Reader GrowingFile}
    (leading : Leading format reader length position offset lead kept)
    (mode : WALRecoveryMode)
    (nothing : reader.reach = 0)
    (noArrival : reader.eof = true ∨ reader.file.nextArrival = []) :
    FirstCall format mode reader length kept := by
  obtain ⟨final, -, step, -⟩ := @readRecordStep_end mode (startAssembly reader) _ _
    leading.positioned nothing noArrival
  exact ⟨_, .done step, nofun⟩

/-- It is enough to look at readers that have their data at hand: a call that can reach
nothing begins with a read, so what arrives may as well be there. -/
theorem Leading.call_of_ready
    {reader : Reader GrowingFile}
    (leading : Leading format reader length position offset lead kept)
    (mode : WALRecoveryMode)
    (ready : ∀ reader, Leading format reader length position offset lead kept →
      (reader.reach = 0 → reader.eof = true ∨ reader.file.nextArrival = []) →
        FirstCall format mode reader length kept) :
    FirstCall format mode reader length kept := by
  by_cases atHand : reader.reach = 0 →
      reader.eof = true ∨ reader.file.nextArrival = []
  · exact ready reader leading atHand
  · simp only [not_forall, not_or, Bool.not_eq_true] at atHand
    obtain ⟨nothing, live, -⟩ := atHand
    have short : reader.buffer.length < kHeaderSize := by
      have header := kHeaderSize_eq
      simp only [reach, live, Bool.false_eq_true, if_false] at nothing
      omega
    obtain ⟨result, returns, first⟩ := ready _ (leading.hasten live)
      (fun _ => .inr rfl)
    exact ⟨result, @Returns.of_hasten mode (startAssembly reader) _ live
      leading.positioned.noError short returns, first⟩

theorem Leading.call
    {reader : Reader GrowingFile}
    (leading : Leading format reader length position offset lead kept)
    (bounded : length < 2 ^ 64)
    (mode : WALRecoveryMode) :
    FirstCall format mode reader length kept := by
  induction lead generalizing reader position offset with
  | nil =>
      refine leading.call_of_ready mode fun reader leading noArrival => ?_
      obtain ⟨returned, reached⟩ := boundary_nil leading.boundary
      cases split : kept.take returned with
      | nil =>
          rw [split] at reached
          exact leading.call_of_nothing mode reached (noArrival reached)
      | cons record others =>
          cases kept with
          | nil => simp at split
          | cons first todo =>
              cases returned with
              | zero => cases split
              | succ returned =>
                  rw [List.take_succ_cons, logBytes_cons_length] at reached
                  obtain ⟨result, offset', returns, found, isRecord, after⟩ :=
                    leading.returns_record bounded mode (by omega)
                  exact ⟨result, returns, fun _ =>
                    ⟨offset', todo, by rw [isRecord], after⟩⟩
  | cons piece lead inductionHypothesis =>
      refine leading.call_of_ready mode fun reader leading noArrival => ?_
      rcases boundary_cons leading.boundary with nothing | ⟨more, reached, -⟩
      · exact leading.call_of_nothing mode nothing (noArrival nothing)
      · have placed := leading.positioned
        rw [List.map_cons, Format.place_cons, List.append_assoc,
          List.append_assoc] at placed
        have before := leading.passed piece List.mem_cons_self
        obtain ⟨isNext, -⟩ := leading.located
        have here := leading.here
        obtain ⟨next, passes, -⟩ := @passes_fragment mode (startAssembly reader) format
          offset length piece.fragment _ bounded leading.counts rfl placed
          leading.fits.endOffset_le (Nat.le.intro reached.symm) leading.accepts (by
            intro begins
            have position := before begins
            change length - reader.total + _ < reader.initialOffset.toNat
            omega)
        have started : next = startAssembly next.reader := passes.locals
        have sameOffset := passes.consumes.settings.1
        change next.reader.initialOffset = reader.initialOffset at sameOffset
        obtain ⟨result, returns, first⟩ := inductionHypothesis
          (@Leading.next mode format length position offset lead kept
            (startAssembly reader) next piece leading passes)
        rw [sameOffset] at first
        exact ⟨result, passes.steps.returns (started ▸ returns), first⟩

end Leading

end Reader
namespace Tail

/-! ## The writer and a reader with an initial offset -/

/-- A new writer and a new reader with an initial offset on an empty file. -/
def newFrom
    (recycle : Bool)
    (logNumber : UInt64)
    (checksum : Bool)
    (reporter : Option (List Report))
    (initial : UInt64) : Tail where
  writer := Writer.new [] logNumber recycle
  reader := Reader.new (GrowingFile.atRest []) reporter checksum initial logNumber
  written := []
  returned := []

/-- The runs from `start` in which `ReadRecord` is called only in states that are
`Allowed`. -/
inductive Runs (Allowed : Tail → Prop) (start : Tail) : Tail → Prop
  | start : Runs Allowed start start
  | addRecord {tail : Tail} (runs : Runs Allowed start tail) (record : Bytes) :
      Runs Allowed start (tail.addRecord record)
  | readRecord {tail : Tail} (runs : Runs Allowed start tail)
      (allowed : Allowed tail)
      (batches : List (List Bytes)) (mode : WALRecoveryMode) (fuel : Nat)
      (result : Reader.ReadResult GrowingFile)
      (returned : (tail.during batches).reader.readRecord
        GrowingFile.sequentialFile mode fuel = some result) :
      Runs Allowed start ((tail.during batches).after result.reader
        (Reader.delivered result))
  | unmarkEOF {tail : Tail} (runs : Runs Allowed start tail)
      (batches : List (List Bytes)) :
      Runs Allowed start ((tail.during batches).after
        ((tail.during batches).reader.unmarkEOF GrowingFile.sequentialFile) [])

/-- `ReadRecord` does not skip, or it does so from the start of the file. -/
def SkipsOnce (tail : Tail) : Prop :=
  tail.reader.initialOffset ≤ tail.reader.lastRecordOffset ∨
    tail.reader.file.pos = 0

/-- The records that have been written and start at the initial offset or behind. -/
def expected (format : Format) (initial : UInt64) (tail : Tail) : List Bytes :=
  Format.recordsFrom (format.extents 0 kBlockSize tail.written) initial.toNat

/-- What the writer has done. -/
structure Wrote (format : Format) (tail : Tail) : Prop where
  format_eq : tail.writer.format = format
  offset_le : tail.writer.blockOffset ≤ kBlockSize
  offset_eq : tail.writer.blockOffset % kBlockSize =
    format.advance kBlockSize (format.fragmentsOf kBlockSize tail.written) % kBlockSize
  dest_eq : tail.writer.dest = format.logBytes kBlockSize tail.written

section Writer

variable {format : Format} {tail : Tail}

theorem Wrote.logBytes_eq (wrote : Wrote format tail) (records : List Bytes) :
    tail.writer.format.logBytes tail.writer.blockOffset records =
      format.logBytes
        (format.advance kBlockSize (format.fragmentsOf kBlockSize tail.written))
        records := by
  have fits := format.fits_fragmentsOf kBlockSize tail.written (Nat.le_refl _)
  rw [wrote.format_eq]
  exact format.logBytes_sameOffset wrote.offset_le fits.advance_le wrote.offset_eq
    records

theorem Wrote.during (wrote : Wrote format tail) (batches : List (List Bytes)) :
    Wrote format (tail.during batches) := by
  obtain ⟨dest, offset, sameFormat⟩ := Writer.addRecords_spec
    Destination.memory_succeeds tail.writer batches.flatten
  have fits := format.fits_fragmentsOf kBlockSize tail.written (Nat.le_refl _)
  rw [wrote.format_eq] at offset
  refine ⟨sameFormat.trans wrote.format_eq, ?_, ?_, ?_⟩
  · change (tail.writer.addRecords Destination.memory
      batches.flatten).blockOffset ≤ kBlockSize
    rw [offset]
    exact (format.fits_fragmentsOf _ _ wrote.offset_le).advance_le
  · change (tail.writer.addRecords Destination.memory
      batches.flatten).blockOffset % kBlockSize =
        format.advance kBlockSize
          (format.fragmentsOf kBlockSize (tail.written ++ batches.flatten)) % kBlockSize
    rw [offset, format.advance_fragmentsOf_sameOffset wrote.offset_le fits.advance_le
      wrote.offset_eq, Format.fragmentsOf_append, Format.advance_append]
  · change (tail.writer.addRecords Destination.memory batches.flatten).dest =
      format.logBytes kBlockSize (tail.written ++ batches.flatten)
    have written : (tail.writer.addRecords Destination.memory batches.flatten).dest =
        tail.writer.dest ++
          tail.writer.format.logBytes tail.writer.blockOffset batches.flatten := dest
    rw [written, wrote.logBytes_eq, wrote.dest_eq, ← Format.logBytes_append]

/-- What arrives is what the writer appends. -/
theorem Wrote.dest_during (wrote : Wrote format tail) (batches : List (List Bytes)) :
    (tail.during batches).writer.dest =
      tail.writer.dest ++ (chunks tail.writer batches).flatten := by
  have complete := chunks_eq tail.writer batches batches.length
  rw [List.take_length, ← length_chunks tail.writer, List.take_length] at complete
  have dest := (wrote.during batches).dest_eq
  change _ = format.logBytes kBlockSize (tail.written ++ batches.flatten) at dest
  rw [dest, complete, wrote.logBytes_eq, Format.logBytes_append, ← wrote.dest_eq]

theorem Wrote.after
    (wrote : Wrote format tail)
    (reader : Reader GrowingFile)
    (records : List Bytes) :
    Wrote format (tail.after reader records) :=
  ⟨wrote.format_eq, wrote.offset_le, wrote.offset_eq, wrote.dest_eq⟩

/-- Where the file ends at each read. -/
theorem Wrote.ends (wrote : Wrote format tail) (batches : List (List Bytes)) (count : Nat) :
    (tail.writer.dest ++ ((chunks tail.writer batches).take count).flatten).length =
      (format.logBytes kBlockSize ((tail.written ++ batches.flatten).take
        (tail.written.length + (batches.take count).flatten.length))).length := by
  have split : batches.flatten = (batches.take count).flatten ++
      (batches.drop count).flatten := by
    rw [← List.flatten_append, List.take_append_drop]
  rw [chunks_eq, wrote.logBytes_eq, List.take_length_add_append, split, List.take_left,
    Format.logBytes_append, wrote.dest_eq]

end Writer

/-! ## Behind the first record -/

/-- The same with a reader that has no initial offset, to which the records in front of
it count as returned. -/
def shadow (tail : Tail) (skipped : List Bytes) : Tail where
  writer := tail.writer
  reader := tail.reader.unfiltered none
  written := tail.written
  returned := skipped ++ tail.returned

/-- The reader has returned a record, and follows the log. -/
structure Running
    (format : Format)
    (initial : UInt64)
    (tail : Tail)
    (skipped : List Bytes)
    (offset : Nat)
    (todo : List Bytes) : Prop where
  invariant : Invariant format none (tail.shadow skipped) offset todo
  ahead : tail.reader.Ahead tail.writer.dest.length
  sameOffset : tail.reader.initialOffset = initial
  settled : initial ≤ tail.reader.lastRecordOffset
  expected_eq : tail.expected format initial = tail.returned ++ todo
  begun : tail.returned ≠ []

section Running

variable {format : Format} {initial : UInt64} {tail : Tail} {skipped : List Bytes}
  {offset : Nat} {todo : List Bytes}

/-- A call of the reader that keeps to the records keeps it running. -/
theorem Running.after
    (running : Running format initial tail skipped offset todo)
    (batches : List (List Bytes))
    {reader : Reader GrowingFile}
    {offset' : Nat}
    {records todo' : List Bytes}
    (aligned : (reader.unfiltered none).Aligned format offset' todo')
    (delivered : todo ++ batches.flatten = records ++ todo')
    (sameEnd :
      format.advance offset
          (format.fragmentsOf offset (todo ++ batches.flatten)) % kBlockSize =
        format.advance offset' (format.fragmentsOf offset' todo') % kBlockSize)
    (ahead : reader.Ahead (tail.during batches).writer.dest.length)
    (sameOffset : reader.initialOffset = initial)
    (settled : initial ≤ reader.lastRecordOffset) :
    Running format initial ((tail.during batches).after reader records) skipped
      offset' todo' := by
  have invariant := running.invariant.after batches aligned delivered sameEnd rfl
  have same : ((tail.shadow skipped).during batches).after (reader.unfiltered none)
      records = ((tail.during batches).after reader records).shadow skipped := by
    unfold Tail.after Tail.during shadow
    dsimp only
    rw [List.append_assoc]
    rfl
  rw [same] at invariant
  have kept : tail.expected format initial ≠ [] := by
    rw [running.expected_eq]
    exact List.append_ne_nil_of_left_ne_nil running.begun todo
  refine ⟨invariant, ⟨ahead.counts.settle, ?_⟩, sameOffset, settled, ?_, ?_⟩
  · have passed := ahead.passed
    have total := Reader.total_settle ahead.counts.inFile
    change reader.initialOffset.toNat ≤ _ -
      Reader.total { reader with file := reader.file.settle }
    rw [total]
    exact passed
  · change Format.recordsFrom
      (format.extents 0 kBlockSize (tail.written ++ batches.flatten)) initial.toNat =
        (tail.returned ++ records) ++ todo'
    rw [Format.recordsFrom_append _ _ _ _ _ _ kept, List.append_assoc, ← delivered,
      ← List.append_assoc, ← running.expected_eq]
    rfl
  · exact List.append_ne_nil_of_left_ne_nil running.begun records

theorem Running.ahead_during
    (running : Running format initial tail skipped offset todo)
    (wrote : Wrote format tail)
    (batches : List (List Bytes)) :
    (tail.during batches).reader.Ahead (tail.during batches).writer.dest.length := by
  have counts := running.ahead.counts.schedule running.invariant.atRest
    (chunks tail.writer batches)
  have dest := congrArg List.length (wrote.dest_during batches)
  rw [List.length_append] at dest
  rw [dest]
  refine ⟨counts, ?_⟩
  have passed := running.ahead.passed
  have total : (tail.during batches).reader.total = tail.reader.total +
      (chunks tail.writer batches).flatten.length := by
    have atRest : tail.reader.file.arrivals = [] := running.invariant.atRest
    unfold Reader.total
    rw [atRest]
    rfl
  rw [total, Nat.add_sub_add_right]
  exact passed

/-- Every step keeps the reader running. -/
theorem Running.addRecord
    (running : Running format initial tail skipped offset todo)
    (wrote : Wrote format tail)
    (record : Bytes) :
    Running format initial (tail.addRecord record) skipped offset (todo ++ [record]) := by
  have atRest : tail.reader.file.arrivals = [] := running.invariant.atRest
  rw [addRecord_eq record atRest]
  have aligned := running.invariant.during [[record]]
  exact running.after [[record]] aligned rfl rfl (running.ahead_during wrote [[record]])
    running.sameOffset running.settled

theorem Running.unmarkEOF
    (running : Running format initial tail skipped offset todo)
    (wrote : Wrote format tail)
    (batches : List (List Bytes)) :
    ∃ offset' todo',
      Running format initial ((tail.during batches).after
        ((tail.during batches).reader.unmarkEOF GrowingFile.sequentialFile) []) skipped
        offset' todo' := by
  have aligned := running.invariant.during batches
  have ahead := running.ahead_during wrote batches
  obtain ⟨offset', aligned', same, unmarks⟩ := aligned.unmarkEOF
  have commutes := @Reader.unmarkEOF_unfiltered (tail.during batches).reader
    aligned.positioned.noError none
  change Reader.Aligned format
    (((tail.during batches).reader.unfiltered none).unmarkEOF
      GrowingFile.sequentialFile) offset' _ at aligned'
  rw [commutes] at aligned'
  obtain ⟨counts, total⟩ := ahead.counts.unmarkEOF
    (Reader.Positioned.of_unfiltered aligned.positioned)
  obtain ⟨last, sameOffset, -⟩ := Reader.unmarkEOF_frame (tail.during batches).reader
  refine ⟨offset', todo ++ batches.flatten, running.after batches aligned' rfl
    (format.advance_fragmentsOf_sameOffset aligned.positioned.offset_le
      aligned'.positioned.offset_le same _) ⟨counts, ?_⟩
    (sameOffset.trans running.sameOffset) ?_⟩
  · rw [total, sameOffset]
    exact ahead.passed
  · rw [last]
    exact running.settled

/-- A call of `ReadRecord` does what it does without the initial offset. -/
theorem Running.call
    (running : Running format initial tail skipped offset todo)
    (wrote : Wrote format tail)
    (batches : List (List Bytes))
    (bounded : (tail.during batches).writer.dest.length < 2 ^ 64)
    (mode : WALRecoveryMode) :
    ∃ result offset' todo',
      Reader.Returns GrowingFile.sequentialFile mode
          (Reader.startAssembly (tail.during batches).reader) result ∧
        Running format initial ((tail.during batches).after result.reader
          (Reader.delivered result)) skipped offset' todo' := by
  have aligned := running.invariant.during batches
  have ahead := running.ahead_during wrote batches
  obtain ⟨whole, offset', todo', call⟩ := aligned.call mode
  obtain ⟨own, said, returns, isWhole, ahead', sameOffset, settled⟩ :=
    @Reader.Returns.filtered mode _ _ _ call.returns bounded
      (Reader.startAssembly (tail.during batches).reader) none rfl ahead nofun
  have silent := call.silent
  have isSaid : said = none := by
    rw [isWhole] at silent
    exact silent
  rw [isSaid] at isWhole
  have aligned' := call.aligned
  have delivered := call.todo_eq
  have sameEnd := call.sameEnd aligned.positioned.offset_le
  rw [isWhole] at aligned' delivered
  refine ⟨own, offset', todo', returns, running.after batches aligned' delivered sameEnd
    ahead' (sameOffset.trans running.sameOffset) ?_⟩
  cases found : own.found with
  | true =>
      have late := settled found
      rw [sameOffset] at late
      change tail.reader.initialOffset ≤ _ at late
      rw [← running.sameOffset]
      exact late
  | false =>
      rw [returns.frame.2.2 found]
      exact running.settled

/-- At rest, the reader returns everything that is left. -/
theorem Running.drains
    (running : Running format initial tail skipped offset todo)
    (bounded : tail.writer.dest.length < 2 ^ 64)
    (mode : WALRecoveryMode) :
    ∃ final enough, ∀ fuel, enough ≤ fuel →
      (tail.reader.unmarkEOF GrowingFile.sequentialFile).readRecords
        GrowingFile.sequentialFile mode fuel = some (todo, final) := by
  have aligned := running.invariant.aligned
  have atRest : tail.reader.file.arrivals = [] := running.invariant.atRest
  obtain ⟨offset', aligned', same, unmarks⟩ := aligned.unmarkEOF
  obtain ⟨records, last, left, drain⟩ := aligned'.drain mode
  have all : records = todo := by
    have size := congrArg List.length (aligned.eq_of_atRest atRest)
    rw [Format.logBytes_sameOffset _ aligned.positioned.offset_le
      aligned'.positioned.offset_le same, List.length_append] at size
    obtain ⟨arrived, -, counted⟩ := unmarks.arrived
    have covers := drain.covers unmarks.fresh todo (List.prefix_refl _) (by omega)
    have within := drain.todo_eq
    exact (covers.eq_of_length (Nat.le_antisymm covers.length_le
      (by rw [within, List.length_append]; omega))).symm
  have commutes := @Reader.unmarkEOF_unfiltered tail.reader aligned.positioned.noError
    none
  have reads := drain.reads
  rw [all] at reads
  change Reader.Reads _ _ (Reader.startAssembly
    ((tail.reader.unfiltered none).unmarkEOF GrowingFile.sequentialFile)) _ _ at reads
  rw [commutes] at reads
  obtain ⟨counts, total⟩ := running.ahead.counts.unmarkEOF
    (Reader.Positioned.of_unfiltered aligned.positioned)
  obtain ⟨lastOffset, sameOffset, -⟩ := Reader.unmarkEOF_frame tail.reader
  have passed : (tail.reader.unmarkEOF GrowingFile.sequentialFile).initialOffset.toNat ≤
      tail.writer.dest.length -
        (tail.reader.unmarkEOF GrowingFile.sequentialFile).total := by
    rw [total, sameOffset]
    exact running.ahead.passed
  have settled :
      (tail.reader.unmarkEOF GrowingFile.sequentialFile).initialOffset ≤
        (tail.reader.unmarkEOF GrowingFile.sequentialFile).lastRecordOffset := by
    rw [sameOffset, lastOffset, running.sameOffset]
    exact running.settled
  obtain ⟨final, ⟨enough, run⟩, -⟩ := @Reader.Reads.filtered mode _ _ _ _ reads bounded
    (Reader.startAssembly (tail.reader.unmarkEOF GrowingFile.sequentialFile)) none rfl
    ⟨counts, passed⟩ nofun
  refine ⟨final, enough + 1, fun fuel bound => ?_⟩
  obtain ⟨fuel, rfl⟩ : ∃ less, fuel = less + 1 := ⟨fuel - 1, by omega⟩
  rw [Reader.readRecords_settled fuel settled]
  exact run fuel (fuel + 1) (by omega) (by omega)

end Running

/-! ## In front of the first record -/

/-- The reader has read nothing of its file; it may have seen that the file was
empty. -/
def Untouched (fresh : Reader GrowingFile) (tail : Tail) : Prop :=
  tail.returned = [] ∧ ∃ ended,
    tail.reader = { fresh with
      file := GrowingFile.atRest tail.writer.dest
      eof := ended }

/-- The reader has read its file and returned no record, so that the next call would
skip again. -/
def Spent (tail : Tail) : Prop :=
  tail.returned = [] ∧
    tail.reader.lastRecordOffset < tail.reader.initialOffset ∧
    0 < tail.reader.file.pos

/-- The states of a run that does not skip twice. -/
def Tracked (format : Format) (fresh : Reader GrowingFile) (tail : Tail) : Prop :=
  Untouched fresh tail ∨
    (∃ skipped offset todo,
      Running format fresh.initialOffset tail skipped offset todo) ∨
    Spent tail

section First

variable {format : Format} {recycle : Bool} {logNumber initial : UInt64}
  {checksum : Bool} {reporter : Option (List Report)} {tail : Tail}

theorem take_max_one (chunks : List Bytes) (count : Nat) :
    (chunks.headD []).length + (([] :: chunks.tail).take count).flatten.length =
      ((chunks.take (max 1 count)).flatten).length := by
  cases count with
  | zero => cases chunks <;> simp
  | succ count =>
      have larger : max 1 (count + 1) = count + 1 := by omega
      rw [larger]
      cases chunks <;> simp

/-- The first call, when there is something to read in the block it skips to. -/
theorem leading_first
    (wrote : Wrote format tail)
    (batches : List (List Bytes))
    (accepts : format.recycle = true →
      format.logNumber.toUInt32.toUInt64 = logNumber)
    (some : (Reader.blockStart initial).toNat <
      (tail.writer.dest ++ (chunks tail.writer batches).headD []).length) :
    let reader : Reader GrowingFile := (Reader.new
      ((GrowingFile.atRest tail.writer.dest).schedule (chunks tail.writer batches))
      reporter checksum initial logNumber).skipped
    ∃ lead,
      Reader.Leading format { reader with file := reader.file.hasten }
        (tail.during batches).writer.dest.length (Reader.blockStart initial).toNat
        kBlockSize lead ((tail.during batches).expected format initial) := by
  intro reader
  have dest := (wrote.during batches).dest_eq
  have arrives := wrote.dest_during batches
  generalize isLog : (tail.during batches).writer.dest = log at *
  generalize isStart : (Reader.blockStart initial).toNat = start at *
  have written : (tail.during batches).written = tail.written ++ batches.flatten := rfl
  have split : (chunks tail.writer batches).headD [] ++
      (chunks tail.writer batches).tail.flatten =
        (chunks tail.writer batches).flatten := by
    cases chunks tail.writer batches <;> simp
  have sizes := congrArg List.length split
  have logSize := congrArg List.length arrives
  rw [List.length_append] at sizes logSize some
  obtain ⟨lead, located, passed, fits, placed, late, ends, -⟩ :=
    format.logBytes_from_block (tail.during batches).written
      (isStart ▸ Reader.blockStart_mod initial)
      (by rw [← dest]; omega)
      (fun position behind inBlock _ =>
        isStart ▸ Reader.blockStart_le behind inBlock)
  let hastened : Reader GrowingFile := { reader with file := reader.file.hasten }
  have contents : hastened.file.contents =
      tail.writer.dest ++ (chunks tail.writer batches).headD [] := rfl
  have pos : hastened.file.pos = start := by
    rw [← isStart]
    exact Nat.zero_add _
  have arrivals : hastened.file.arrivals = [] :: (chunks tail.writer batches).tail := rfl
  have unread : hastened.file.unread =
      (tail.writer.dest ++ (chunks tail.writer batches).headD []).drop start := by
    rw [GrowingFile.unread, contents, pos]
  have unreadSize := congrArg List.length unread
  rw [List.length_drop, List.length_append] at unreadSize
  have whole : (tail.writer.dest ++ (chunks tail.writer batches).headD []) ++
      (chunks tail.writer batches).tail.flatten = log := by
    rw [List.append_assoc, split, arrives]
  have ahead : hastened.file.unread ++ hastened.file.arrivals.flatten =
      log.drop start := by
    rw [unread, arrivals, List.flatten_cons, List.nil_append, ← whole]
    exact (List.drop_append_of_le_length (by rw [List.length_append]; omega)).symm
  have aheadSize := congrArg List.length ahead
  rw [List.length_append, List.length_drop] at aheadSize
  have total : hastened.total = log.length - start := by
    have counted : hastened.total =
        0 + hastened.file.unread.length + hastened.file.arrivals.flatten.length := rfl
    rw [counted]
    omega
  rw [← dest] at placed
  have placedSize := congrArg List.length placed
  rw [List.length_drop, List.length_append] at placedSize
  refine ⟨lead, ⟨⟨rfl, ?_, ?_, fun _ => ⟨rfl, rfl⟩, Bool.false_ne_true.elim⟩, ?_,
    ⟨?_, ?_, ?_⟩, ?_, ?_, located, ?_, fits, passed, Nat.le_of_eq isStart, late, ?_,
    Bool.false_ne_true.elim⟩⟩
  · rw [pos, contents, List.length_append]
    omega
  · have front : hastened.buffer ++
        (hastened.file.unread ++ hastened.file.arrivals.flatten) = log.drop start := ahead
    rw [front, placed]
    exact List.prefix_refl _
  · exact accepts
  · rw [pos, contents, List.length_append]
    omega
  · change hastened.total ≤ log.length
    omega
  · have offset : hastened.bufferOffset = Reader.blockStart initial - UInt64.ofNat 0 :=
      rfl
    have front : log.length - hastened.total = start := by omega
    rw [offset, front, ← isStart, UInt64.ofNat_toNat]
    exact UInt64.sub_zero _
  · change start + hastened.total = log.length
    omega
  · rw [total, placedSize]
    rfl
  · refine ⟨by decide, Nat.le_refl _, ?_⟩
    rw [← isStart, Reader.blockStart_mod, Nat.mod_self]
  · intro count
    -- Before the next read the file has grown by as many batches, and at least one.
    have later : hastened.buffer.length + hastened.file.unread.length +
          (hastened.file.arrivals.take count).flatten.length + start =
        (tail.writer.dest ++
          ((chunks tail.writer batches).take (max 1 count)).flatten).length := by
      have buffer : hastened.buffer.length = 0 := rfl
      rw [buffer, unreadSize, arrivals, List.length_append]
      have arrived := take_max_one (chunks tail.writer batches) count
      omega
    have finish := ends
      (tail.written.length + (batches.take (max 1 count)).flatten.length)
    rw [written, ← wrote.ends batches (max 1 count), ← later] at finish
    rcases finish with inFront | ⟨behind, boundary, same⟩
    · have nothing : hastened.buffer.length + hastened.file.unread.length +
          (hastened.file.arrivals.take count).flatten.length = 0 := by omega
      change format.Boundary _ _ _ (hastened.buffer.length + _ + _)
      rw [nothing]
      exact .inl ⟨0, rfl⟩
    · have isBehind : hastened.buffer.length + hastened.file.unread.length +
          (hastened.file.arrivals.take count).flatten.length = behind := by omega
      change format.Boundary _ _ _ (hastened.buffer.length + _ + _)
      rw [isBehind]
      exact boundary

/-- A call that has found nothing to read leaves the reader as it was, or behind the
start of its file. -/
theorem tracked_of_nothing
    (positive : 0 < initial)
    (none : tail.returned = [])
    (batches : List (List Bytes))
    {file : GrowingFile}
    (contents : file.contents ++ file.arrivals.flatten =
      (tail.during batches).writer.dest)
    (pos : file.pos = (Reader.blockStart initial).toNat)
    {final : Reader GrowingFile}
    (isFinal : final =
      { Reader.new file reporter checksum initial logNumber with
        eof := true
        endOfBufferOffset := Reader.blockStart initial }) :
    Tracked format
      (Reader.new (GrowingFile.atRest []) reporter checksum initial logNumber)
      ((tail.during batches).after final []) := by
  subst isFinal
  have returned : tail.returned ++ [] = [] := by rw [none, List.append_nil]
  by_cases atStart : Reader.blockStart initial = 0
  · left
    refine ⟨returned, true, ?_⟩
    have settled : file.settle =
        GrowingFile.atRest (tail.during batches).writer.dest := by
      rw [← contents]
      rw [atStart] at pos
      change (⟨_, file.pos, []⟩ : GrowingFile) = _
      rw [pos]
      rfl
    unfold after
    dsimp only [Reader.new]
    rw [settled, atStart]
  · right
    right
    refine ⟨returned, positive, ?_⟩
    change 0 < file.pos
    rw [pos]
    exact Nat.pos_of_ne_zero fun zero =>
      atStart (UInt64.toNat_inj.mp (zero.trans UInt64.toNat_zero.symm))

/-- Behind the first record the reader is running. -/
theorem running_of_first
    (wrote : Wrote format tail)
    (none : tail.returned = [])
    (batches : List (List Bytes))
    {result : Reader.ReadResult GrowingFile}
    {offset : Nat}
    {todo : List Bytes}
    (kept : (tail.during batches).expected format initial = result.record :: todo)
    (first : Reader.FirstRecord format result.reader initial
      (tail.during batches).writer.dest.length offset todo) :
    ∃ skipped, Running format initial
      ((tail.during batches).after result.reader [result.record]) skipped offset
        todo := by
  have wrote' := wrote.during batches
  obtain ⟨skipped, split, -⟩ := format.split_recordsFrom 0 0 kBlockSize
    (tail.during batches).written initial.toNat
  change _ = skipped ++ (tail.during batches).expected format initial at split
  rw [kept] at split
  have total := Reader.total_settle first.ahead.counts.inFile
  have passed := first.ahead.passed
  refine ⟨skipped, ⟨first.aligned.settle, rfl, ?_, wrote'.format_eq, wrote'.offset_le,
    ?_, rfl⟩, ⟨first.ahead.counts.settle, ?_⟩, first.sameOffset, first.settled, ?_,
    List.append_ne_nil_of_right_ne_nil _ (by simp)⟩
  · change (tail.during batches).written =
      skipped ++ (tail.returned ++ [result.record]) ++ todo
    rw [split, none]
    simp
  · have inside := first.aligned.positioned.offset_le
    have fits := format.fits_fragmentsOf offset todo inside
    have whole : result.reader.total = (format.logBytes offset todo).length :=
      first.aligned.whole
    have atMost := first.ahead.counts.total_le
    have atEnd := Reader.inBlock_log format (tail.during batches).written
    rw [← Format.logBytes_kBlockSize, ← wrote'.dest_eq] at atEnd
    change (tail.during batches).writer.blockOffset % kBlockSize = _
    rw [wrote'.offset_eq, ← atEnd.same, fits.advance_mod, Nat.add_mod,
      first.position, ← Nat.add_mod]
    change _ = (_ + (format.logBytes offset todo).length) % _
    congr 1
    omega
  · change result.reader.initialOffset.toNat ≤ _ -
      Reader.total { result.reader with file := result.reader.file.settle }
    rw [total]
    exact passed
  · change (tail.during batches).expected format initial =
      (tail.returned ++ [result.record]) ++ todo
    rw [kept, none]
    rfl

theorem readRecordStep_ended
    (mode : WALRecoveryMode)
    {reader : Reader GrowingFile}
    (buffer : reader.buffer = [])
    (ended : reader.eof = true) :
    Reader.readRecordStep GrowingFile.sequentialFile mode
        (Reader.startAssembly reader) = .inr ⟨false, [], reader⟩ := by
  have seven := kHeaderSize_eq
  have same : { reader with buffer := [] } = reader := by rw [← buffer]
  have physical := @Reader.readPhysicalRecord_short GrowingFile
    GrowingFile.sequentialFile reader 0 ended
    (by rw [buffer, List.length_nil]; omega)
  rw [if_pos buffer, same] at physical
  obtain ⟨said, finished, quiet, -⟩ := Reader.finish_eq (Reader.startAssembly reader) mode
  have isSaid : said = reader.reporter := quiet (.inr rfl)
  rw [isSaid] at finished
  rw [Reader.readRecordStep, Reader.Assembly.reader_startAssembly, physical,
    Reader.handle_eof]
  exact congrArg Sum.inr finished

/-- The first call of the reader. -/
theorem Untouched.call
    (positive : 0 < initial)
    (wrote : Wrote format tail)
    (untouched : Untouched
      (Reader.new (GrowingFile.atRest []) reporter checksum initial logNumber) tail)
    (accepts : format.recycle = true →
      format.logNumber.toUInt32.toUInt64 = logNumber)
    (batches : List (List Bytes))
    (bounded : (tail.during batches).writer.dest.length < 2 ^ 64)
    (mode : WALRecoveryMode) :
    ∃ result,
      Reader.Returns GrowingFile.sequentialFile mode
          (Reader.startAssembly (tail.during batches).reader.skipped) result ∧
        Tracked format
          (Reader.new (GrowingFile.atRest []) reporter checksum initial logNumber)
          ((tail.during batches).after result.reader (Reader.delivered result)) := by
  obtain ⟨none, ended, isReader⟩ := untouched
  have seven := kHeaderSize_eq
  have arrives := wrote.dest_during batches
  let reader : Reader GrowingFile := Reader.new
    ((GrowingFile.atRest tail.writer.dest).schedule (chunks tail.writer batches))
    reporter checksum initial logNumber
  have during : (tail.during batches).reader = { reader with eof := ended } := by
    unfold Tail.during
    dsimp only
    rw [isReader]
    rfl
  rw [during]
  cases ended with
  | true =>
      have step := readRecordStep_ended mode
        (rfl : ({ reader with eof := true } : Reader GrowingFile).skipped.buffer = [])
        rfl
      have tracked := @tracked_of_nothing format logNumber initial checksum reporter tail
        positive none batches reader.skipped.file arrives.symm (Nat.zero_add _)
        { reader with eof := true }.skipped rfl
      exact ⟨_, .done step, tracked⟩
  | false =>
      have pos : reader.skipped.file.pos = (Reader.blockStart initial).toNat :=
        Nat.zero_add _
      have unread : reader.skipped.file.arrive.unread =
          (tail.writer.dest ++ (chunks tail.writer batches).headD []).drop
            (Reader.blockStart initial).toNat := by
        rw [← pos]
        rfl
      by_cases some : (Reader.blockStart initial).toNat <
          (tail.writer.dest ++ (chunks tail.writer batches).headD []).length
      · obtain ⟨lead, leading⟩ := @leading_first format logNumber initial checksum
          reporter tail wrote batches accepts some
        obtain ⟨result, returns, first⟩ := leading.call bounded mode
        have own := @Reader.Returns.of_hasten mode
          (Reader.startAssembly reader.skipped) result rfl rfl
          (by change 0 < kHeaderSize; omega) returns
        refine ⟨result, own, ?_⟩
        cases found : result.found with
        | true =>
            obtain ⟨offset, todo, kept, record⟩ := first found
            obtain ⟨skipped, running⟩ := running_of_first wrote none batches kept record
            have isDelivered : Reader.delivered result = [result.record] := by
              simp [Reader.delivered, found]
            rw [isDelivered]
            exact .inr (.inl ⟨skipped, offset, todo, running⟩)
        | false =>
            have isDelivered : Reader.delivered result = [] := by
              simp [Reader.delivered, found]
            obtain ⟨-, sameInitial, sameLast⟩ := own.frame
            have further := own.pos_refill rfl rfl (by change 0 < kHeaderSize; omega)
            have refilled : reader.skipped.refill.file.pos = reader.skipped.file.pos +
                (reader.skipped.file.arrive.unread.take kBlockSize).length := rfl
            rw [isDelivered]
            refine .inr (.inr ⟨?_, ?_, ?_⟩)
            · change tail.returned ++ [] = []
              rw [none, List.append_nil]
            · change result.reader.lastRecordOffset < result.reader.initialOffset
              rw [sameInitial, sameLast found]
              exact positive
            · change reader.skipped.refill.file.pos ≤ _ at further
              change 0 < result.reader.file.pos
              have block := kBlockSize_eq
              rw [refilled, unread, List.length_take, List.length_drop] at further
              omega
      · have nothing : reader.skipped.file.arrive.unread = [] := by
          rw [unread]
          exact List.drop_of_length_le (Nat.le_of_not_lt some)
        have step := @Reader.readRecordStep_nothing mode
          (Reader.startAssembly reader.skipped) rfl rfl rfl rfl nothing
        have data : reader.skipped.file.arrive.unread.take kBlockSize = [] := by
          rw [nothing, List.take_nil]
        have refilled : reader.skipped.refill =
            { Reader.new reader.skipped.refill.file reporter checksum initial logNumber with
              eof := true
              endOfBufferOffset := Reader.blockStart initial } := by
          have counted : Reader.blockStart initial + UInt64.ofNat 0 =
              Reader.blockStart initial := UInt64.add_zero _
          unfold Reader.refill
          dsimp only
          rw [data]
          exact congrArg (fun offset => ({ Reader.new _ reporter checksum initial
            logNumber with
              eof := true
              endOfBufferOffset := offset } : Reader GrowingFile)) counted
        have refilledPos : reader.skipped.refill.file.pos =
            (Reader.blockStart initial).toNat := by
          change reader.skipped.file.pos +
            (reader.skipped.file.arrive.unread.take kBlockSize).length = _
          rw [data, pos]
          rfl
        have contents : reader.skipped.refill.file.contents ++
            reader.skipped.refill.file.arrivals.flatten =
              (tail.during batches).writer.dest := by
          change (tail.writer.dest ++ (chunks tail.writer batches).headD []) ++
            (chunks tail.writer batches).tail.flatten = _
          rw [arrives, List.append_assoc]
          cases chunks tail.writer batches <;> simp
        exact ⟨_, .done step, tracked_of_nothing positive none batches contents
          refilledPos refilled⟩

end First

/-! ## Runs -/

section Runs

variable {format : Format} {recycle : Bool} {logNumber initial : UInt64}
  {checksum : Bool} {reporter : Option (List Report)} {tail : Tail}

theorem Wrote.addRecord (wrote : Wrote format tail) (record : Bytes) :
    Wrote format (tail.addRecord record) := by
  have wrote' := wrote.during [[record]]
  exact ⟨wrote'.format_eq, wrote'.offset_le, wrote'.offset_eq, wrote'.dest_eq⟩

theorem Runs.wrote
    {Allowed : Tail → Prop}
    (runs : Runs Allowed (newFrom recycle logNumber checksum reporter initial) tail) :
    Wrote ⟨recycle, logNumber⟩ tail := by
  induction runs with
  | start =>
      exact ⟨rfl, Nat.zero_le _, (Nat.mod_self kBlockSize).symm ▸ rfl, rfl⟩
  | addRecord runs record inductionHypothesis =>
      exact inductionHypothesis.addRecord record
  | readRecord runs allowed batches mode fuel result returned inductionHypothesis =>
      exact (inductionHypothesis.during batches).after _ _
  | unmarkEOF runs batches inductionHypothesis =>
      exact (inductionHypothesis.during batches).after _ _

/-- The file grows under a reader that has read nothing. -/
theorem Untouched.during
    {fresh : Reader GrowingFile}
    (wrote : Wrote format tail)
    (untouched : Untouched fresh tail)
    (batches : List (List Bytes))
    (ended : Bool) :
    Untouched fresh ((tail.during batches).after
      { (tail.during batches).reader with eof := ended } []) := by
  obtain ⟨none, before, isReader⟩ := untouched
  have settled : (tail.during batches).reader.file.settle =
      GrowingFile.atRest (tail.during batches).writer.dest := by
    rw [wrote.dest_during]
    unfold Tail.during
    dsimp only
    rw [isReader]
    rfl
  refine ⟨?_, ended, ?_⟩
  · change tail.returned ++ [] = []
    rw [none, List.append_nil]
  · unfold after
    dsimp only
    rw [settled]
    unfold Tail.during
    dsimp only
    rw [isReader]

theorem Tracked.addRecord
    {fresh : Reader GrowingFile}
    (wrote : Wrote format tail)
    (tracked : Tracked format fresh tail)
    (record : Bytes) : Tracked format fresh (tail.addRecord record) := by
  rcases tracked with untouched | ⟨skipped, offset, todo, running⟩ | spent
  · obtain ⟨none, ended, isReader⟩ := id untouched
    have atRest : tail.reader.file.arrivals = [] := by rw [isReader]; rfl
    have grown := Untouched.during wrote untouched [[record]] ended
    left
    rw [addRecord_eq record atRest]
    have same : { (tail.during [[record]]).reader with eof := ended } =
        (tail.during [[record]]).reader := by
      unfold Tail.during
      dsimp only
      rw [isReader]
    rw [same] at grown
    exact grown
  · exact .inr (.inl ⟨skipped, offset, _, running.addRecord wrote record⟩)
  · exact .inr (.inr spent)

theorem Tracked.unmarkEOF
    (wrote : Wrote format tail)
    (tracked : Tracked format
      (Reader.new (GrowingFile.atRest []) reporter checksum initial logNumber) tail)
    (batches : List (List Bytes)) :
    Tracked format
      (Reader.new (GrowingFile.atRest []) reporter checksum initial logNumber)
      ((tail.during batches).after
        ((tail.during batches).reader.unmarkEOF GrowingFile.sequentialFile) []) := by
  rcases tracked with untouched | ⟨skipped, offset, todo, running⟩ | spent
  · have grown := Untouched.during wrote untouched batches false
    obtain ⟨none, ended, isReader⟩ := untouched
    have unmarked : (tail.during batches).reader.unmarkEOF GrowingFile.sequentialFile =
        { (tail.during batches).reader with eof := false } := by
      unfold Tail.during
      dsimp only
      rw [isReader]
      exact Reader.unmarkEOF_of_boundary rfl rfl
    rw [unmarked]
    exact .inl grown
  · obtain ⟨offset', todo', running'⟩ := running.unmarkEOF wrote batches
    exact .inr (.inl ⟨skipped, offset', todo', running'⟩)
  · obtain ⟨none, before, moved⟩ := spent
    obtain ⟨last, sameInitial, further⟩ :=
      Reader.unmarkEOF_frame (tail.during batches).reader
    refine .inr (.inr ⟨?_, ?_, Nat.lt_of_lt_of_le moved further⟩)
    · change tail.returned ++ [] = []
      rw [none, List.append_nil]
    · change ((tail.during batches).reader.unmarkEOF _).lastRecordOffset <
        ((tail.during batches).reader.unmarkEOF _).initialOffset
      rw [last, sameInitial]
      exact before

/-- What a call of the reader returns, whether it skips or not. -/
theorem Tracked.call
    (positive : 0 < initial)
    (wrote : Wrote format tail)
    (tracked : Tracked format
      (Reader.new (GrowingFile.atRest []) reporter checksum initial logNumber) tail)
    (once : tail.SkipsOnce)
    (accepts : format.recycle = true →
      format.logNumber.toUInt32.toUInt64 = logNumber)
    (batches : List (List Bytes))
    (bounded : (tail.during batches).writer.dest.length < 2 ^ 64)
    (mode : WALRecoveryMode) :
    ∃ assembly result,
      (∀ fuel, (tail.during batches).reader.readRecord GrowingFile.sequentialFile mode
          fuel =
        Reader.readRecordLoop GrowingFile.sequentialFile mode fuel assembly) ∧
        Reader.Returns GrowingFile.sequentialFile mode assembly result ∧
        Tracked format
          (Reader.new (GrowingFile.atRest []) reporter checksum initial logNumber)
          ((tail.during batches).after result.reader (Reader.delivered result)) := by
  rcases tracked with untouched | ⟨skipped, offset, todo, running⟩ | spent
  · obtain ⟨result, returns, next⟩ := Untouched.call positive wrote untouched accepts
      batches bounded mode
    obtain ⟨none, ended, isReader⟩ := untouched
    have before : (tail.during batches).reader.lastRecordOffset <
        (tail.during batches).reader.initialOffset := by
      unfold Tail.during
      dsimp only
      rw [isReader]
      exact positive
    refine ⟨_, result, fun fuel => ?_, returns, next⟩
    rw [Reader.readRecord, if_pos before, Reader.skipToInitialBlock_eq]
    rfl
  · obtain ⟨result, offset', todo', returns, next⟩ := running.call wrote batches
      bounded mode
    have settled : ¬(tail.during batches).reader.lastRecordOffset <
        (tail.during batches).reader.initialOffset := by
      rw [UInt64.not_lt]
      change tail.reader.initialOffset ≤ tail.reader.lastRecordOffset
      rw [running.sameOffset]
      exact running.settled
    refine ⟨_, result, fun fuel => ?_, returns,
      .inr (.inl ⟨skipped, offset', todo', next⟩)⟩
    rw [Reader.readRecord, if_neg settled]
  · obtain ⟨-, before, moved⟩ := spent
    rcases once with settled | atStart
    · exact absurd before (UInt64.not_lt.mpr settled)
    · omega

theorem Runs.tracked
    (positive : 0 < initial)
    (small : recycle = true → logNumber.toNat < 2 ^ 32)
    (runs : Runs SkipsOnce (newFrom recycle logNumber checksum reporter initial) tail)
    (bounded : tail.writer.dest.length < 2 ^ 64) :
    Tracked ⟨recycle, logNumber⟩
      (Reader.new (GrowingFile.atRest []) reporter checksum initial logNumber)
      tail := by
  have before {tail : Tail}
      (runs : Runs SkipsOnce (newFrom recycle logNumber checksum reporter initial) tail)
      (batches : List (List Bytes))
      (bounded : (tail.during batches).writer.dest.length < 2 ^ 64) :
      tail.writer.dest.length < 2 ^ 64 := by
    rw [runs.wrote.dest_during, List.length_append] at bounded
    omega
  induction runs with
  | start => exact .inl ⟨rfl, false, rfl⟩
  | addRecord runs record inductionHypothesis =>
      exact (inductionHypothesis (before runs [[record]] bounded)).addRecord runs.wrote
        record
  | readRecord runs allowed batches mode fuel result returned inductionHypothesis =>
      obtain ⟨assembly, own, loops, returns, next⟩ :=
        (inductionHypothesis (before runs batches bounded)).call positive runs.wrote
          allowed (fun recycles => Reader.toUInt32_toUInt64_of_lt (small recycles))
          batches bounded mode
      rw [loops] at returned
      obtain ⟨enough, run⟩ := returns.readRecordLoop
      have longer := Reader.readRecordLoop_mono returned enough
      rw [run (fuel + enough) (by omega)] at longer
      rw [← Option.some.inj longer]
      exact next
  | unmarkEOF runs batches inductionHypothesis =>
      exact (inductionHypothesis (before runs batches bounded)).unmarkEOF runs.wrote
        batches

/-- What `UnmarkEOF` and `ReadRecord` until `false` return, if the reader skips at most
once. -/
theorem Tracked.drains
    (wrote : Wrote format tail)
    (tracked : Tracked format
      (Reader.new (GrowingFile.atRest []) reporter checksum initial logNumber) tail)
    (once : tail.SkipsOnce)
    (accepts : format.recycle = true →
      format.logNumber.toUInt32.toUInt64 = logNumber)
    (bounded : tail.writer.dest.length < 2 ^ 64)
    (mode : WALRecoveryMode) :
    ∃ records final enough,
      (∀ fuel, enough ≤ fuel →
        (tail.reader.unmarkEOF GrowingFile.sequentialFile).readRecords
          GrowingFile.sequentialFile mode fuel = some (records, final)) ∧
        tail.returned ++ records = tail.expected format initial := by
  rcases tracked with ⟨none, ended, isReader⟩ | ⟨skipped, offset, todo, running⟩ | spent
  · have dest := wrote.dest_eq
    have unmarked : tail.reader.unmarkEOF GrowingFile.sequentialFile =
        Reader.new (GrowingFile.atRest tail.writer.dest) reporter checksum initial
          logNumber := by
      rw [isReader]
      exact Reader.unmarkEOF_of_boundary rfl rfl
    rw [dest] at unmarked bounded
    obtain ⟨final, -, ⟨enough, run⟩, -⟩ := Reader.readRecords_logBytes_from mode reporter
      checksum initial logNumber format tail.written bounded accepts
    rw [unmarked, none]
    exact ⟨_, final, enough, run, rfl⟩
  · obtain ⟨final, enough, run⟩ := running.drains bounded mode
    exact ⟨todo, final, enough, run, running.expected_eq.symm⟩
  · obtain ⟨-, before, moved⟩ := spent
    rcases once with settled | atStart
    · exact absurd before (UInt64.not_lt.mpr settled)
    · omega

/-- A reader with an initial offset on a log that grows, in a run in which `ReadRecord`
skips only from the start of the file: what has been returned are the first of the
records that start at the initial offset or behind it, in order.  A further call returns,
and the calls up to the next `false` after `UnmarkEOF` return all the others. -/
theorem follows_from_offset
    (positive : 0 < initial)
    (small : recycle = true → logNumber.toNat < 2 ^ 32)
    (runs : Runs SkipsOnce (newFrom recycle logNumber checksum reporter initial) tail)
    (bounded : tail.writer.dest.length < 2 ^ 64) :
    let format : Format := ⟨recycle, logNumber⟩
    let expected := Format.recordsFrom (format.extents 0 0 tail.written) initial.toNat
    tail.returned <+: expected ∧
      (tail.SkipsOnce → ∀ mode,
        (∀ batches, (tail.during batches).writer.dest.length < 2 ^ 64 →
          ∃ result enough, ∀ fuel, enough ≤ fuel →
            (tail.during batches).reader.readRecord GrowingFile.sequentialFile mode
              fuel = some result) ∧
        ∃ records final enough,
          (∀ fuel, enough ≤ fuel →
            (tail.reader.unmarkEOF GrowingFile.sequentialFile).readRecords
              GrowingFile.sequentialFile mode fuel = some (records, final)) ∧
            tail.returned ++ records = expected) := by
  intro format expected
  have accepts (recycles : format.recycle = true) :
      format.logNumber.toUInt32.toUInt64 = logNumber :=
    Reader.toUInt32_toUInt64_of_lt (small recycles)
  have wrote := runs.wrote
  have tracked := runs.tracked positive small bounded
  have same : expected = tail.expected format initial := by
    unfold Tail.expected
    rw [Format.extents_kBlockSize]
  rw [same]
  constructor
  · rcases tracked with ⟨none, -⟩ | ⟨skipped, offset, todo, running⟩ | ⟨none, -⟩
    · rw [none]
      exact List.nil_prefix
    · exact ⟨todo, running.expected_eq.symm⟩
    · rw [none]
      exact List.nil_prefix
  · intro once mode
    refine ⟨fun batches bounded => ?_, Tracked.drains wrote tracked once accepts bounded mode⟩
    obtain ⟨assembly, result, loops, returns, -⟩ := Tracked.call positive wrote tracked
      once accepts batches bounded mode
    obtain ⟨enough, run⟩ := returns.readRecordLoop
    exact ⟨result, enough, fun fuel bound => by rw [loops, run fuel bound]⟩

end Runs

/-- One record in front of the initial offset and one behind it. -/
theorem follows_from_offset_five :
    ∃ tail,
      Runs SkipsOnce (newFrom true 7 true none 5) tail ∧
        tail.returned = [[4]] ∧
        ∃ records final enough,
          (∀ fuel, enough ≤ fuel →
            (tail.reader.unmarkEOF GrowingFile.sequentialFile).readRecords
              GrowingFile.sequentialFile .absoluteConsistency fuel =
                some (records, final)) ∧
            tail.returned ++ records =
              Format.recordsFrom (Format.extents ⟨true, 7⟩ 0 0 tail.written) 5 := by
  let mode : WALRecoveryMode := .tolerateCorruptedTailRecords
  let before := ((newFrom true 7 true none 5).addRecord [1, 2, 3]).addRecord [4]
  let first := ((before.during []).reader.readRecord GrowingFile.sequentialFile mode
    3).get (by decide +kernel)
  let tail := (before.during []).after first.reader (Reader.delivered first)
  have runs : Runs SkipsOnce (newFrom true 7 true none 5) tail :=
    .readRecord (.addRecord (.addRecord .start [1, 2, 3]) [4]) (.inr rfl) [] mode 3 first
      (Option.some_get _).symm
  have settled : tail.SkipsOnce := .inl (by decide +kernel)
  exact ⟨tail, runs, by decide +kernel,
    ((follows_from_offset (by decide) (by decide) runs (by decide +kernel)).2 settled
      .absoluteConsistency).2⟩

/-- A call that returns `false` in front of the initial offset is followed by one that
skips again and takes the next record for one behind the initial offset. -/
theorem skips_again :
    ∃ tail,
      Runs (fun _ => True) (newFrom false 7 true none 10) tail ∧
        tail.written = [[1], [2]] ∧
        tail.returned = [[2]] ∧
        ¬tail.returned <+:
          Format.recordsFrom (Format.extents ⟨false, 7⟩ 0 0 tail.written) 10 := by
  let mode : WALRecoveryMode := .tolerateCorruptedTailRecords
  let call (tail : Tail) : Option (Reader.ReadResult GrowingFile) :=
    (tail.during []).reader.readRecord GrowingFile.sequentialFile mode 3
  let behind (tail : Tail) (result : Reader.ReadResult GrowingFile) : Tail :=
    (tail.during []).after result.reader (Reader.delivered result)
  let before := (newFrom false 7 true none 10).addRecord [1]
  let first := (call before).get (by decide +kernel)
  let grown := (behind before first).addRecord [2]
  let again := (grown.during []).after
    ((grown.during []).reader.unmarkEOF GrowingFile.sequentialFile) []
  let second := (call again).get (by decide +kernel)
  let tail := behind again second
  have returned : tail.returned = [[2]] := by decide +kernel
  have expected :
      Format.recordsFrom (Format.extents ⟨false, 7⟩ 0 0 tail.written) 10 = [] := by
    decide +kernel
  refine ⟨tail, ?_, rfl, returned, ?_⟩
  · refine .readRecord (.unmarkEOF (.addRecord (.readRecord (.addRecord .start [1])
      trivial [] mode 3 first ?_) [2]) []) trivial [] mode 3 second ?_
    · exact (Option.some_get _).symm
    · exact (Option.some_get _).symm
  · rw [returned, expected]
    decide

end Tail

end Log
end RocksUtil
