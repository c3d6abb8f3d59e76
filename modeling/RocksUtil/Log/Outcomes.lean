import RocksUtil.Log.Pieces
import RocksUtil.Log.Recovery

/-!
# What a damaged header leads to

The ways `ReadPhysicalRecord` and `ReadRecord` go on at a header that need not be
one the writer wrote: a record of type zero, a header that is cut off, a record of
another log, one that is too long or has another checksum.  Where the rest of the
block is dropped, the reader finds the next block as the writer left it.
-/

namespace RocksUtil
namespace Log

open Coding

namespace Reader

/-! ## Going on behind a block -/

section GoingOn

variable {mode : WALRecoveryMode} {assembly : Assembly GrowingFile}
  {format : Format} {offset position : Nat}

/-- A fragment without a beginning is reported. -/
theorem handle_orphan
    (mode : WALRecoveryMode)
    (assembly : Assembly GrowingFile)
    (offset : UInt64)
    (format : Format)
    {fragment : Fragment}
    (dropSize : Nat)
    (reader : Reader GrowingFile)
    (continued : fragment.start = false)
    (between : assembly.pending = none) :
    ∃ reason,
      handle mode assembly offset
          ⟨(format.type fragment).code, fragment.payload, dropSize, reader⟩ =
        .inl (Assembly.report { assembly with reader := reader }
          fragment.payload.length reason) := by
  have notIn : assembly.inFragmentedRecord = false := by
    rw [← assembly.isSome_pending, between]
    rfl
  obtain ⟨start, finish, payload⟩ := fragment
  obtain ⟨recycle, logNumber⟩ := format
  cases continued
  cases finish with
  | true =>
      refine ⟨"missing start of fragmented record(2)", ?_⟩
      cases recycle <;>
        simp [handle, Format.type, Writer.fragmentType, RecordType.code, notIn]
  | false =>
      refine ⟨"missing start of fragmented record(1)", ?_⟩
      cases recycle <;>
        simp [handle, Format.type, Writer.fragmentType, RecordType.code, notIn]

/-- What `ReadRecord` reads next is what a reader `there` reads. -/
structure Sees (assembly : Assembly GrowingFile) (there : Reader GrowingFile) :
    Prop where
  same : assembly.reader.readPhysicalRecord GrowingFile.sequentialFile 0 =
    there.readPhysicalRecord GrowingFile.sequentialFile 0
  silent : there.reporter = assembly.reader.reporter

theorem Sees.refl (assembly : Assembly GrowingFile) :
    Sees assembly assembly.reader := ⟨rfl, rfl⟩

section Intact

variable {there : Reader GrowingFile} {fragment : Fragment}
  {fragments : List Fragment}

theorem Sees.reads_end
    (sees : Sees assembly there)
    (mode : WALRecoveryMode)
    (standing : Standing format there offset [])
    (between : assembly.pending = none) :
    ∃ final,
      Reads GrowingFile.sequentialFile mode assembly [] final ∧
        final.reporter = assembly.reader.reporter := by
  have noArrival : there.file.nextArrival = [] := by
    rw [GrowingFile.nextArrival, standing.atRest]
    rfl
  obtain ⟨next, -, physical, -, -, -, -, -, silent⟩ := readPhysicalRecord_end 0
    standing.positioned standing.whole (.inr noArrival)
  obtain ⟨reporter, finished, quiet, -⟩ :=
    finish_eq { assembly with reader := next } mode
  have step : readRecordStep GrowingFile.sequentialFile mode assembly =
      .inr ⟨false, [], { next with reporter := reporter }⟩ := by
    rw [readRecordStep, sees.same, physical, handle_eof, finished]
  refine ⟨_, .stop step rfl, ?_⟩
  exact (quiet (.inr between)).trans (silent.trans sees.silent)

/-- The next fragment of an intact log. -/
theorem Sees.delivers
    (sees : Sees assembly there)
    (legacy : format.recycle = false)
    (standing : Standing format there offset
      (format.place offset (fragment :: fragments)))
    (fits : format.Fits offset (fragment :: fragments)) :
    ∃ next,
      assembly.reader.readPhysicalRecord GrowingFile.sequentialFile 0 =
          ⟨(format.type fragment).code, fragment.payload, 0, next⟩ ∧
        Standing format next (format.endOffset offset fragment.payload.length)
          (format.place (format.endOffset offset fragment.payload.length)
            fragments) ∧
        next.reporter = assembly.reader.reporter := by
  have narrow : format.gap offset < kHeaderSize := by
    have short := format.gap_lt_header offset
    simpa [Format.header, headerSize, legacy] using short
  have whole := standing.whole
  rw [Format.place_cons] at standing whole
  simp only [List.length_append, List.length_replicate] at whole
  obtain ⟨next, physical, moved, consumed, silent⟩ := deliver 0 standing.positioned
    fits.endOffset_le (by unfold span; omega) narrow standing.accepts
    standing.fromStart
  refine ⟨next, sees.same.trans physical, ?_, silent.trans sees.silent⟩
  refine standing.move consumed moved ?_
  simp only [span, List.length_append, List.length_replicate]
  omega

/-- The rest of an intact log is read to its end, without a report where every
record is complete. -/
theorem Standing.reads_rest
    (mode : WALRecoveryMode)
    (standing : Standing format assembly.reader offset
      (format.place offset fragments))
    (fits : format.Fits offset fragments)
    (joined : assembly.pending.isSome → format.gap offset = 0) :
    ∃ final,
      Reads GrowingFile.sequentialFile mode assembly
          (assemble assembly.pending fragments) final ∧
        (Chained assembly.pending.isSome fragments →
          pendingAfter assembly.pending fragments = none →
          final.reporter = assembly.reader.reporter) := by
  have positioned := standing.positioned
  rw [← List.append_nil (format.place offset fragments)] at positioned
  obtain ⟨next, steps, moved, consumed, pending, -, quiet⟩ := steps_fragments mode
    positioned fits standing.whole.ge standing.accepts standing.fromStart joined
  have atEnd : Standing format next.reader (format.advance offset fragments) [] :=
    standing.move consumed moved (by simp)
  obtain ⟨final, reads, quiet', -⟩ := atEnd.reads_end mode
  have all := steps.reads reads
  rw [List.append_nil] at all
  refine ⟨final, all, ?_⟩
  intro chained complete
  rw [quiet' (.inr (pending.trans complete))]
  exact quiet chained

/-- Reading starts between two records, or between two fragments of one. -/
theorem Sees.reads_intact
    (sees : Sees assembly there)
    (mode : WALRecoveryMode)
    (legacy : format.recycle = false)
    (standing : Standing format there offset (format.place offset fragments))
    (fits : format.Fits offset fragments)
    (between : assembly.pending = none) :
    ∃ records final,
      Reads GrowingFile.sequentialFile mode assembly records final ∧
        (Chained false fragments → pendingAfter none fragments = none →
          final.reporter = assembly.reader.reporter) := by
  cases fragments with
  | nil =>
      obtain ⟨final, reads, silent⟩ := sees.reads_end mode standing between
      exact ⟨[], final, reads, fun _ _ => silent⟩
  | cons fragment fragments =>
      obtain ⟨taken, physical, standing', silent⟩ := sees.delivers legacy standing
        fits
      obtain ⟨next, reporter, recordOffset, steps, reader, pending, quiet⟩ :=
        Steps.fragment mode assembly physical standing'.fromStart
      rw [between] at steps pending quiet
      have after := standing'.of_reports reporter recordOffset
      rw [← reader] at after
      obtain ⟨final, reads, quiet'⟩ := after.reads_rest mode fits.2.2 (by
        intro partly
        have continues : fragment.finish = false := by
          cases finish : fragment.finish with
          | false => rfl
          | true =>
              rw [pending, pendingNext_of_finish _ finish] at partly
              cases partly
        rw [fits.2.1 continues, Format.gap_kBlockSize])
      refine ⟨_, final, steps.reads reads, ?_⟩
      rintro ⟨begins, chained⟩ complete
      have begun : fragment.start = !(none : Option Bytes).isSome := begins
      rw [← isSome_pendingNext begun, ← pending] at chained
      rw [quiet' chained (by rw [pending]; exact complete), reader]
      exact (quiet begun).trans silent

/-- A log that starts in the middle of a record is reported. -/
theorem Sees.reads_orphan
    (sees : Sees assembly there)
    (mode : WALRecoveryMode)
    (legacy : format.recycle = false)
    (standing : Standing format there offset
      (format.place offset (fragment :: fragments)))
    (fits : format.Fits offset (fragment :: fragments))
    (between : assembly.pending = none)
    (continued : fragment.start = false)
    (heard : assembly.reader.reporter.isSome) :
    ∃ records final,
      Reads GrowingFile.sequentialFile mode assembly records final ∧
        assembly.reader.reports.length < final.reports.length := by
  obtain ⟨taken, physical, standing', silent⟩ := sees.delivers legacy standing fits
  obtain ⟨reason, handled⟩ := handle_orphan mode assembly
    assembly.reader.bufferOffset format 0 taken continued between
  obtain ⟨reporter, reported⟩ := reportDrop_eq taken fragment.payload.length
    (.Corruption reason)
  let next := Assembly.report { assembly with reader := taken }
    fragment.payload.length reason
  have reader : next.reader = { taken with reporter := reporter } := reported
  have step : readRecordStep GrowingFile.sequentialFile mode assembly =
      .inl next := by
    rw [readRecordStep, physical, handled]
  have said := reports_reportDrop standing'.fromStart
    (by rw [silent]; exact heard) fragment.payload.length (.Corruption reason)
  change next.reader.reports = _ at said
  have after := standing'.of_reports reporter taken.lastRecordOffset
  change Standing format { taken with reporter := reporter } _ _ at after
  rw [← reader] at after
  have pending : next.pending = none := between
  obtain ⟨final, reads, -⟩ := after.reads_rest mode fits.2.2 (by simp [pending])
  refine ⟨_, final, .next step reads, ?_⟩
  have more := reads.reported.reports.length_le
  change next.reader.reports.length ≤ final.reports.length at more
  rw [said, List.length_append, List.length_singleton, Reader.reports, silent]
    at more
  exact more

end Intact

/-- Behind a dropped block the reader stands in front of the next one. -/
theorem Behind.next_block
    {reader : Reader GrowingFile}
    {fragment : Fragment}
    {fragments : List Fragment}
    (behind : Behind format reader offset
      (format.place offset (fragment :: fragments)))
    (positive : 0 < offset)
    (starts : format.startOffset offset = 0) :
    Standing format reader kBlockSize
      (format.place kBlockSize (fragment :: fragments)) := by
  have bounds := format.header_bounds
  have switches : kBlockSize - offset < format.header := by
    by_contra stays
    rw [Format.startOffset, if_neg stays] at starts
    omega
  have gap : format.gap offset = kBlockSize - offset := by
    simp [Format.gap, switches]
  have endEq : format.endOffset kBlockSize fragment.payload.length =
      format.endOffset offset fragment.payload.length := by
    simp [Format.endOffset, starts]
  rw [Behind, Format.place_cons, ← gap, List.drop_left' (by simp)] at behind
  have atEnd : min kBlockSize (offset + (List.replicate (format.gap offset)
      (0 : UInt8) ++ (format.encode fragment ++ format.place
        (format.endOffset offset fragment.payload.length) fragments)).length) =
        kBlockSize := by
    simp only [List.length_append, List.length_replicate]
    omega
  rw [atEnd] at behind
  rw [Format.place_cons, Format.gap_kBlockSize, endEq]
  exact behind

/-- The pieces behind a dropped block: some of its own are lost, the others start
at the next block. -/
theorem Behind.split
    {reader : Reader GrowingFile}
    {pieces : List Piece}
    (behind : Behind format reader offset
      (format.place offset (pieces.map Piece.fragment)))
    (located : format.Located position offset pieces)
    (fits : format.Fits offset (pieces.map Piece.fragment))
    (inBlock : Format.InBlock position offset)
    (begun : 0 < position) :
    let nextBlock := ((position - 1) / kBlockSize + 1) * kBlockSize
    ∃ hidden visible from',
      pieces = hidden ++ visible ∧
        Standing format reader from'
          (format.place from' (visible.map Piece.fragment)) ∧
        format.Fits from' (visible.map Piece.fragment) ∧
        (∀ piece ∈ hidden, piece.position < nextBlock) ∧
        (∀ piece rest, visible = piece :: rest → piece.position = nextBlock) := by
  intro nextBlock
  induction pieces generalizing position offset with
  | nil =>
      rw [List.map_nil, Format.place_nil, Behind, List.drop_nil] at behind
      exact ⟨[], [], _, rfl, behind, Nat.min_le_left _ _, by simp, by simp⟩
  | cons piece pieces inductionHypothesis =>
      have block := kBlockSize_eq
      have bounds := format.header_bounds
      obtain ⟨isNext, located⟩ := located
      by_cases starts : format.startOffset offset = 0
      · -- The piece starts the next block.
        have standing := behind.next_block inBlock.positive starts
        have endEq : format.endOffset kBlockSize piece.fragment.payload.length =
            format.endOffset offset piece.fragment.payload.length := by
          simp [Format.endOffset, starts]
        have fits' : format.Fits kBlockSize
            ((piece :: pieces).map Piece.fragment) := by
          refine ⟨Nat.le_refl _, ?_, ?_⟩
          · rw [endEq]
            exact fits.2.1
          · rw [endEq]
            exact fits.2.2
        refine ⟨[], piece :: pieces, kBlockSize, rfl, standing, fits', by simp, ?_⟩
        intro first rest isFirst
        rw [List.cons.injEq] at isFirst
        rw [← isFirst.1, isNext]
        obtain ⟨positive, inside, same⟩ := inBlock
        have switches : kBlockSize - offset < format.header := by
          by_contra stays
          rw [Format.startOffset, if_neg stays] at starts
          omega
        simp only [nextBlock, Format.gap, if_pos switches]
        rw [block] at same inside ⊢
        omega
      · -- The piece lies in the dropped block.
        have stays : ¬kBlockSize - offset < format.header := by
          intro switches
          simp [Format.startOffset, switches] at starts
        have gap : format.gap offset = 0 := by simp [Format.gap, stays]
        have start : format.startOffset offset = offset := by
          simp [Format.startOffset, stays]
        have ends := fits.endOffset_le
        obtain ⟨inBlock', here⟩ := inBlock.next ends
        have sameBlock := (@Format.InBlock.block_eq_iff format _ _ inBlock begun).mpr
          (by omega)
        rw [List.map_cons, Format.place_cons, gap, List.replicate_zero,
          List.nil_append] at behind
        have endEq : offset + (format.encode piece.fragment).length =
            format.endOffset offset piece.fragment.payload.length := by
          rw [format.length_encode, Format.endOffset, start]
        have passed := behind.pass (endEq.trans_le ends)
        rw [endEq] at passed
        have rest := inductionHypothesis passed located fits.2.2 inBlock' (by omega)
        rw [← here, sameBlock] at rest
        obtain ⟨hidden, visible, from', split, standing, fits', lost, first⟩ := rest
        refine ⟨piece :: hidden, visible, from', by rw [split]; rfl, standing, fits',
          ?_, first⟩
        intro other isOther
        rcases List.mem_cons.mp isOther with rfl | isHidden
        · rw [isNext]
          simp only [nextBlock, ← sameBlock]
          have bound := Nat.lt_div_mul_add (a := position + format.gap offset)
            (b := kBlockSize) (by decide)
          rw [Nat.add_mul, Nat.one_mul]
          exact bound
        · exact lost other isHidden

/-- Reading goes on behind a dropped block; whether anything is reported there
depends on whether the next block starts with the beginning of a record. -/
theorem Behind.reads
    {there : Reader GrowingFile}
    (sees : Sees assembly there)
    (mode : WALRecoveryMode)
    (legacy : format.recycle = false)
    {pieces : List Piece}
    {prior : Option Bytes}
    (behind : Behind format there offset
      (format.place offset (pieces.map Piece.fragment)))
    (located : format.Located position offset pieces)
    (fits : format.Fits offset (pieces.map Piece.fragment))
    (inBlock : Format.InBlock position offset)
    (begun : 0 < position)
    (between : assembly.pending = none)
    (chained : Chained prior.isSome (pieces.map Piece.fragment))
    (complete : pendingAfter prior (pieces.map Piece.fragment) = none)
    (heard : assembly.reader.reporter.isSome) :
    let nextBlock := ((position - 1) / kBlockSize + 1) * kBlockSize
    ∃ records final,
      Reads GrowingFile.sequentialFile mode assembly records final ∧
        ((∀ piece ∈ pieces, piece.position = nextBlock →
            piece.fragment.start = true) →
          final.reporter = assembly.reader.reporter) ∧
        ((∃ piece ∈ pieces, piece.position = nextBlock ∧
            piece.fragment.start = false) →
          assembly.reader.reports.length < final.reports.length) := by
  intro nextBlock
  obtain ⟨hidden, visible, from', split, standing, fits', lost, first⟩ :=
    behind.split located fits inBlock begun
  rw [split, List.map_append] at chained complete
  obtain ⟨-, chained⟩ := (chained_append prior _ _).mp chained
  rw [pendingAfter_append] at complete
  cases visible with
  | nil =>
      obtain ⟨records, final, reads, quiet⟩ := sees.reads_intact mode legacy
        standing fits' between
      refine ⟨records, final, reads, fun _ => quiet trivial rfl, ?_⟩
      rintro ⟨piece, isPiece, there, -⟩
      rw [split, List.append_nil] at isPiece
      exact absurd there (Nat.ne_of_lt (lost piece isPiece))
  | cons next rest =>
      have there := first next rest rfl
      have isNext : next ∈ pieces := by
        rw [split]
        exact List.mem_append_right _ List.mem_cons_self
      cases start : next.fragment.start with
      | true =>
          have none' : pendingAfter prior (hidden.map Piece.fragment) = none := by
            have begins := chained.1
            rw [start] at begins
            exact Option.isSome_eq_false_iff.mp (by simpa using begins.symm) |>
              Option.isNone_iff_eq_none.mp
          rw [none'] at chained complete
          obtain ⟨records, final, reads, quiet⟩ := sees.reads_intact mode legacy
            standing fits' between
          refine ⟨records, final, reads, fun _ => quiet chained complete, ?_⟩
          rintro ⟨piece, isPiece, atNext, continued⟩
          rw [split, List.append_cons] at located
          rw [split] at isPiece
          rcases List.mem_append.mp isPiece with isHidden | isVisible
          · exact absurd atNext (Nat.ne_of_lt (lost piece isHidden))
          · rcases List.mem_cons.mp isVisible with rfl | isLater
            · rw [start] at continued
              cases continued
            · have later := located.position_lt_of_append next (by simp) piece isLater
              omega
      | false =>
          obtain ⟨records, final, reads, more⟩ := sees.reads_orphan mode legacy
            standing fits' between start heard
          refine ⟨records, final, reads, ?_, fun _ => more⟩
          intro begins
          rw [begins next isNext there] at start
          cases start

end GoingOn

/-- Nothing is returned or reported from `assembly` on. -/
def PassesOver (mode : WALRecoveryMode) (assembly : Assembly GrowingFile) : Prop :=
  ∃ final,
    Reads GrowingFile.sequentialFile mode assembly [] final ∧
      final.reporter = assembly.reader.reporter

/-! ## Reading one physical record -/

section Outcomes

variable {mode : WALRecoveryMode} {assembly : Assembly GrowingFile}
  {there : Reader GrowingFile} {format : Format} {start : Nat} {body : Bytes}

theorem Standing.body_eq (facing : Standing format there start body) :
    body = there.buffer ++ body.drop there.buffer.length := by
  have buffer := facing.positioned.buffer_eq
  conv_lhs => rw [← List.take_append_drop there.buffer.length body]
  rw [← buffer]

/-- The header in the buffer is the one in front of the reader. -/
theorem Standing.header_eq
    (facing : Standing format there start body)
    (enough : kHeaderSize ≤ there.buffer.length) :
    headerType there.buffer = headerType body ∧
      headerLength there.buffer = headerLength body := by
  rw [facing.body_eq]
  rw [headerType_append _ enough, headerLength_append _ enough]
  exact ⟨rfl, rfl⟩

/-- An empty record of type zero takes the rest of the block with it; it is
reported only inside a record. -/
theorem Sees.step_zero
    (sees : Sees assembly there)
    (facing : Standing format there start body)
    (mode : WALRecoveryMode)
    (enough : kHeaderSize ≤ there.buffer.length)
    (type : headerType body = RecordType.zero.code)
    (length : headerLength body = 0) :
    ∃ next,
      readRecordStep GrowingFile.sequentialFile mode assembly = .inl next ∧
        Behind format next.reader start body ∧
        next.pending = none ∧
        (assembly.pending = none →
          next.reader.reporter = assembly.reader.reporter) ∧
        (assembly.pending.isSome → assembly.reader.reporter.isSome →
          assembly.reader.reports.length < next.reader.reports.length) := by
  obtain ⟨typeEq, lengthEq⟩ := facing.header_eq enough
  have physical : there.readPhysicalRecord GrowingFile.sequentialFile 0 =
      ⟨kBadRecord, [], 0, { there with buffer := [] }⟩ := by
    rw [readPhysicalRecord_of_legacy enough (by rw [typeEq, type]; rfl), typeEq,
      lengthEq, type, length, takeRecord]
    dsimp only
    rw [if_neg (by omega), if_pos ⟨rfl, rfl⟩]
  let dropped : Assembly GrowingFile :=
    { assembly with reader := { there with buffer := [] } }
  obtain ⟨reporter, reader, pending, quiet, more⟩ := interrupt_eq dropped
  refine ⟨dropped.interrupt, ?_, ?_, pending, ?_, ?_⟩
  · rw [readRecordStep, sees.same, physical]
    simp [handle, RecordType.code, kBadRecord, kBadHeader, kEof, kOldRecord,
      kMaxRecordType, dropped]
  · rw [reader]
    exact (facing.clear there.recycled).of_reports reporter there.lastRecordOffset
  · intro between
    rw [reader]
    exact (quiet between).trans sees.silent
  · intro partly heard
    have said := more partly facing.fromStart
    change ReportsMore there.reporter reporter at said
    rw [sees.silent] at said
    have final : ReportsMore assembly.reader.reporter
        dropped.interrupt.reader.reporter := by
      rw [reader]
      exact said
    exact final.length_lt heard

/-- A header or a record that the end of the file cuts off ends the reading; it is
reported in `kAbsoluteConsistency` only. -/
theorem Sees.step_badHeader
    (sees : Sees assembly there)
    (mode : WALRecoveryMode)
    {dropSize : Nat}
    {next : Reader GrowingFile}
    (physical : there.readPhysicalRecord GrowingFile.sequentialFile 0 =
      ⟨kBadHeader, [], dropSize, next⟩)
    (fromStart : next.initialOffset = 0)
    (silent : next.reporter = there.reporter) :
    ∃ final,
      readRecordStep GrowingFile.sequentialFile mode assembly =
          .inr ⟨false, [], final⟩ ∧
        (mode ≠ .absoluteConsistency →
          final.reporter = assembly.reader.reporter) ∧
        (mode = .absoluteConsistency → assembly.reader.reporter.isSome →
          assembly.reader.reports.length < final.reports.length) := by
  obtain ⟨reporter, handled, quiet, more⟩ := handle_badHeader mode assembly
    assembly.reader.bufferOffset dropSize next
  refine ⟨{ next with reporter := reporter }, ?_, ?_, ?_⟩
  · rw [readRecordStep, sees.same, physical, handled]
  · intro tolerant
    exact (quiet tolerant).trans (silent.trans sees.silent)
  · intro strict heard
    have said := more strict fromStart
    rw [silent, sees.silent] at said
    exact ReportsMore.length_lt
      (show ReportsMore assembly.reader.reporter
        (Reader.reporter { next with reporter := reporter }) from said) heard

/-- A record of another log ends the reading; it is reported in
`kAbsoluteConsistency` and inside a record only. -/
theorem Sees.step_old
    (sees : Sees assembly there)
    (stops : mode ≠ .skipAnyCorruptedRecords)
    {dropSize : Nat}
    {next : Reader GrowingFile}
    (physical : there.readPhysicalRecord GrowingFile.sequentialFile 0 =
      ⟨kOldRecord, [], dropSize, next⟩)
    (fromStart : next.initialOffset = 0)
    (silent : next.reporter = there.reporter) :
    ∃ final,
      readRecordStep GrowingFile.sequentialFile mode assembly =
          .inr ⟨false, [], final⟩ ∧
        (assembly.pending = none →
          final.reporter = assembly.reader.reporter) ∧
        (mode = .absoluteConsistency → assembly.pending.isSome →
          assembly.reader.reporter.isSome →
          assembly.reader.reports.length < final.reports.length) := by
  obtain ⟨reporter, finished, quiet, more⟩ :=
    finish_eq { assembly with reader := next } mode
  have handled : handle mode assembly assembly.reader.bufferOffset
      ⟨kOldRecord, [], dropSize, next⟩ =
        .inr ⟨false, [], { next with reporter := reporter }⟩ := by
    rw [← finished]
    simp [handle, RecordType.code, kOldRecord, kBadHeader, kEof, kMaxRecordType,
      stops]
  refine ⟨{ next with reporter := reporter }, ?_, ?_, ?_⟩
  · rw [readRecordStep, sees.same, physical, handled]
  · intro between
    exact (quiet (.inr between)).trans (silent.trans sees.silent)
  · intro strict partly heard
    have said := more strict partly fromStart
    change ReportsMore next.reporter reporter at said
    rw [silent, sees.silent] at said
    exact ReportsMore.length_lt
      (show ReportsMore assembly.reader.reporter
        (Reader.reporter { next with reporter := reporter }) from said) heard

/-- A record that is dropped for its length or its checksum is reported. -/
theorem Sees.step_drop
    (sees : Sees assembly there)
    (facing : Standing format there start body)
    (goesOn : mode ≠ .tolerateCorruptedTailRecords)
    {code dropSize : Nat}
    (isDrop : code = kBadRecordLen ∨ code = kBadRecordChecksum)
    {recycled : Bool}
    (physical : there.readPhysicalRecord GrowingFile.sequentialFile 0 =
      ⟨code, [], dropSize, { there with buffer := [], recycled := recycled }⟩)
    (heard : assembly.reader.reporter.isSome) :
    ∃ next,
      readRecordStep GrowingFile.sequentialFile mode assembly = .inl next ∧
        Behind format next.reader start body ∧
        next.pending = none ∧
        assembly.reader.reports.length < next.reader.reports.length := by
  obtain ⟨next, reporter, handled, reader, pending, said⟩ := handle_drop goesOn
    assembly assembly.reader.bufferOffset isDrop dropSize
    (show Reader.initialOffset { there with buffer := [], recycled := recycled } = 0
      from facing.fromStart)
  refine ⟨next, ?_, ?_, pending, ?_⟩
  · rw [readRecordStep, sees.same, physical, handled]
  · rw [reader]
    exact (facing.clear recycled).of_reports reporter there.lastRecordOffset
  · obtain ⟨more, reports⟩ := said (by
      change there.reporter.isSome
      rw [sees.silent]
      exact heard)
    have sizes := congrArg List.length reports
    rw [List.length_append, List.length_cons] at sizes
    change _ = (there.reporter.getD []).length + _ at sizes
    rw [sees.silent] at sizes
    rw [reader, Reader.reports, Reader.reports]
    dsimp only
    omega

/-- Where the reader is not at the end of the file, too few bytes for a header are
dropped in silence with the rest of the block. -/
theorem Sees.of_short
    (sees : Sees assembly there)
    (facing : Standing format there start body)
    (short : there.buffer.length < kHeaderSize)
    (live : there.eof = false) :
    ∃ next, Sees assembly next ∧ Behind format next start body := by
  have noError := facing.positioned.noError
  let next : Reader GrowingFile :=
    { there with buffer := [], recycled := there.recycled }
  have skipped : next.readPhysicalRecord GrowingFile.sequentialFile 0 =
      next.refill.readPhysicalRecord GrowingFile.sequentialFile 0 :=
    readPhysicalRecord_refill next 0 live noError (by simp [next, kHeaderSize_eq])
  refine ⟨next, ⟨?_, sees.silent⟩, facing.clear there.recycled⟩
  rw [sees.same, skipped, readPhysicalRecord_refill there 0 live noError short]
  rfl

/-- Where the reader is not at the end of the file, an incomplete header of the
recyclable format is dropped in silence with the rest of the block. -/
theorem Sees.of_incomplete
    (sees : Sees assembly there)
    (facing : Standing format there start body)
    (enough : kHeaderSize ≤ there.buffer.length)
    (recyclable : isRecyclableType (headerType there.buffer) = true)
    (short : there.buffer.length < kRecyclableHeaderSize)
    (live : there.eof = false) :
    ∃ next, Sees assembly next ∧ Behind format next start body := by
  have header := kHeaderSize_eq
  obtain ⟨recycled, noted⟩ := noteRecycled_eq there
  let next : Reader GrowingFile := { there with buffer := [], recycled := recycled }
  have more : there.noteRecycled.readMore GrowingFile.sequentialFile 0 =
      .more next.refill := by
    rw [noted]
    exact readMore_refill { there with recycled := recycled } 0 live
      facing.positioned.noError
  have skipped : next.readPhysicalRecord GrowingFile.sequentialFile 0 =
      next.refill.readPhysicalRecord GrowingFile.sequentialFile 0 :=
    readPhysicalRecord_refill next 0 live facing.positioned.noError
      (by simp [next, header])
  refine ⟨next, ⟨?_, sees.silent⟩, facing.clear recycled⟩
  rw [sees.same, skipped]
  exact readPhysicalRecord_of_recyclable_more enough recyclable short more

theorem Standing.incomplete_eof
    (facing : Standing format there start body)
    (enough : kHeaderSize ≤ there.buffer.length)
    (recyclable : isRecyclableType (headerType there.buffer) = true)
    (short : there.buffer.length < kRecyclableHeaderSize)
    (ended : there.eof = true) :
    ∃ next,
      there.readPhysicalRecord GrowingFile.sequentialFile 0 =
          ⟨kBadHeader, [], there.buffer.length, next⟩ ∧
        next.initialOffset = 0 ∧
        next.reporter = there.reporter := by
  have header := kHeaderSize_eq
  obtain ⟨recycled, noted⟩ := noteRecycled_eq there
  have stop : there.noteRecycled.readMore GrowingFile.sequentialFile 0 =
      .stop kBadHeader there.buffer.length
        { there with buffer := [], recycled := recycled } := by
    rw [noted]
    have stops := @readMore_of_eof GrowingFile GrowingFile.sequentialFile
      { there with recycled := recycled } 0 ended
    rw [if_pos (by dsimp only; omega)] at stops
    exact stops
  exact ⟨_, readPhysicalRecord_of_recyclable_stop enough recyclable short stop,
    facing.fromStart, rfl⟩

/-- A log that counts as recycled stays so. -/
theorem noteRecycled_keeps (reader : Reader GrowingFile) :
    ∃ recycled,
      reader.noteRecycled = { reader with recycled := recycled } ∧
        (reader.recycled = true → recycled = true) := by
  unfold noteRecycled
  split
  · exact ⟨true, rfl, fun _ => rfl⟩
  · exact ⟨reader.recycled, rfl, id⟩

/-- What becomes of a complete header of the recyclable format. -/
theorem Standing.complete_header
    (facing : Standing format there start body)
    (enough : kRecyclableHeaderSize ≤ there.buffer.length)
    (recyclable : isRecyclableType (headerType there.buffer) = true) :
    ∃ recycled,
      (there.recycled = true → recycled = true) ∧
      there.readPhysicalRecord GrowingFile.sequentialFile 0 =
        if (decodeFixed32 (body.drop 7)).toUInt64 ≠ there.logNumber then
          ⟨kOldRecord, [], 0, { there with recycled := recycled }⟩
        else
          { there with recycled := recycled }.takeRecord kRecyclableHeaderSize
            (headerType there.buffer) (headerLength there.buffer) 0 := by
  rw [kRecyclableHeaderSize_eq] at enough
  obtain ⟨recycled, noted, kept⟩ := noteRecycled_keeps there
  have number : decodeFixed32 (there.buffer.drop 7) =
      decodeFixed32 (body.drop 7) := by
    conv_rhs => rw [facing.body_eq]
    rw [List.drop_append_of_le_length (by omega),
      decodeFixed32_append _ (by rw [List.length_drop]; omega)]
  exact ⟨recycled, kept, by
    rw [readPhysicalRecord_of_recyclable enough recyclable, noted, number]⟩

/-- A record of the recyclable format that does not fit in the block, or in the
file. -/
theorem takeRecord_overlong
    (reader : Reader GrowingFile)
    {headerSize type length : Nat}
    (overlong : reader.buffer.length < headerSize + length)
    (nonempty : reader.buffer.length ≠ 0) :
    reader.takeRecord headerSize type length 0 =
      ⟨if reader.eof then kBadHeader else kBadRecordLen, [], reader.buffer.length,
        { reader with buffer := [] }⟩ := by
  rw [takeRecord]
  dsimp only
  rw [if_pos overlong]
  cases reader.eof <;> simp [nonempty]

theorem takeRecord_mismatch
    (reader : Reader GrowingFile)
    {headerSize type length : Nat}
    (fits : headerSize + length ≤ reader.buffer.length)
    (notZero : ¬(type = RecordType.zero.code ∧ length = 0))
    (checked : reader.checksum = true)
    (mismatch : crcMatches reader.buffer headerSize length = false) :
    reader.takeRecord headerSize type length 0 =
      ⟨kBadRecordChecksum, [], reader.buffer.length,
        { reader with buffer := [] }⟩ := by
  rw [takeRecord]
  dsimp only
  rw [if_neg (by omega), if_neg notZero, if_pos (by simp [checked, mismatch])]

end Outcomes

/-! ## Reading a log with something behind it -/

section Logs

variable (format : Format) (records : List Bytes)

theorem inBlock_log :
    Format.InBlock (format.logBytes 0 records).length
      (format.advance kBlockSize (format.fragmentsOf kBlockSize records)) := by
  have start : Format.InBlock 0 kBlockSize :=
    ⟨by decide, Nat.le_refl _, by rw [Nat.mod_self, Nat.zero_mod]⟩
  have advanced := start.advance
    (format.fits_fragmentsOf kBlockSize records (Nat.le_refl _))
  rw [Nat.zero_add] at advanced
  rw [← Format.logBytes_kBlockSize]
  exact advanced

/-- A reader that starts at the beginning of the file gets to the end of the log in
it without a report. -/
theorem steps_log
    (mode : WALRecoveryMode)
    (body : Bytes)
    (reporter : Option (List Report))
    (checksum : Bool)
    (logNumber : UInt64)
    (accepts : format.recycle = true →
      format.logNumber.toUInt32.toUInt64 = logNumber) :
    let reader := Reader.new
      (GrowingFile.atRest (format.logBytes 0 records ++ body)) reporter checksum 0
      logNumber
    ∃ next,
      Steps GrowingFile.sequentialFile mode (startAssembly reader) records next ∧
        next.reader.Positioned
          (format.advance kBlockSize (format.fragmentsOf kBlockSize records)) body ∧
        Consumes reader next.reader (format.logBytes 0 records).length ∧
        next.reader.reach = body.length ∧
        next.reader.file.arrivals = [] ∧
        next.pending = none ∧
        next.reader.reporter = reporter := by
  intro reader
  have fits := format.fits_fragmentsOf kBlockSize records (Nat.le_refl _)
  obtain ⟨assembled, complete, chained⟩ :=
    format.assemble_fragmentsOf kBlockSize records
  have placed : format.logBytes 0 records =
      format.place kBlockSize (format.fragmentsOf kBlockSize records) := by
    rw [← Format.logBytes_kBlockSize]
    rfl
  have reached : reader.reach = (format.logBytes 0 records).length + body.length := by
    have whole := reach_new (format.logBytes 0 records ++ body) reporter checksum
      logNumber
    rw [List.length_append] at whole
    exact whole
  have positioned : reader.Positioned kBlockSize
      (format.place kBlockSize (format.fragmentsOf kBlockSize records) ++ body) := by
    rw [← placed]
    exact positioned_new List.prefix_rfl reporter checksum logNumber
  obtain ⟨next, steps, moved, consumed, pending, -, quiet⟩ :=
    @steps_fragments mode (startAssembly reader) format kBlockSize
      (format.fragmentsOf kBlockSize records) _ positioned fits
      (by rw [← placed]; exact Nat.le.intro reached.symm) accepts rfl nofun
  rw [Assembly.pending_startAssembly, assembled] at steps
  rw [Assembly.pending_startAssembly, complete] at pending
  obtain ⟨reachedNext, atRest⟩ := consumed.reach_eq rfl
  rw [← placed] at consumed reachedNext
  refine ⟨next, steps, moved, consumed, ?_, atRest, pending, quiet chained⟩
  change next.reader.reach + _ = reader.reach at reachedNext
  omega

end Logs

end Reader

end Log
end RocksUtil
