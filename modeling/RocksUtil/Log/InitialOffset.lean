import RocksUtil.Log.Outcomes
import RocksUtil.Log.Writing

/-!
# Reading from an initial offset

A reader with an initial offset skips to the block of that offset and passes over
the physical records that start in front of it.  Everything else it does is what a
reader without an initial offset does, which is how the results on such readers
apply to it.
-/

namespace RocksUtil
namespace Log

open Coding

namespace Reader

/-! ## Offsets in the file -/

/-- What is ahead of the reader ends `length` bytes behind the start of the file, and
the reader has counted the bytes in front. -/
structure Counts (reader : Reader GrowingFile) (length : Nat) : Prop where
  inFile : reader.file.pos ≤ reader.file.contents.length
  total_le : reader.total ≤ length
  offset_eq : reader.bufferOffset = UInt64.ofNat (length - reader.total)

section Counting

variable {reader : Reader GrowingFile} {length : Nat}

theorem total_refill (inFile : reader.file.pos ≤ reader.file.contents.length) :
    reader.refill.total + reader.buffer.length = reader.total := by
  obtain ⟨split, -⟩ := refill_split inFile
  have lengths := congrArg List.length split
  have arrived := congrArg List.length reader.file.nextArrival_append_flatten
  have arrivals : reader.refill.file.arrivals = reader.file.arrive.arrivals := rfl
  simp only [List.length_append] at lengths arrived
  unfold total
  rw [arrivals]
  omega

theorem inFile_refill (inFile : reader.file.pos ≤ reader.file.contents.length) :
    reader.refill.file.pos ≤ reader.refill.file.contents.length := by
  have taken : (reader.file.arrive.unread.take kBlockSize).length ≤
      reader.file.contents.length + reader.file.nextArrival.length -
        reader.file.pos := by
    rw [List.length_take, GrowingFile.unread, List.length_drop]
    simp only [GrowingFile.arrive, List.length_append]
    omega
  have contents : reader.refill.file.contents.length =
      reader.file.contents.length + reader.file.nextArrival.length := by
    rw [← List.length_append]
    rfl
  have pos : reader.refill.file.pos = reader.file.pos +
      (reader.file.arrive.unread.take kBlockSize).length := rfl
  omega

/-- Fetching the next block. -/
theorem Counts.refill (counts : Counts reader length) :
    Counts reader.refill length := by
  have total := total_refill counts.inFile
  have bound := counts.total_le
  refine ⟨inFile_refill counts.inFile, by omega, ?_⟩
  have behind : length - reader.refill.total =
      (length - reader.total) + reader.buffer.length := by
    omega
  have offset : reader.refill.bufferOffset = reader.endOfBufferOffset := by
    have counted : reader.refill.bufferOffset = reader.endOfBufferOffset +
        UInt64.ofNat reader.refill.buffer.length -
          UInt64.ofNat reader.refill.buffer.length := rfl
    rw [counted]
    grind
  have before := counts.offset_eq
  rw [bufferOffset] at before
  rw [offset, behind, UInt64.ofNat_add, ← before]
  grind

/-- Taking bytes out of the buffer. -/
theorem Counts.take
    (counts : Counts reader length)
    {count : Nat}
    (inBuffer : count ≤ reader.buffer.length)
    (recycled : Bool) :
    Counts { reader with buffer := reader.buffer.drop count, recycled := recycled }
      length := by
  have bound := counts.total_le
  have total : total { reader with
      buffer := reader.buffer.drop count, recycled := recycled } + count =
        reader.total := by
    unfold Reader.total
    simp only [List.length_drop]
    omega
  refine ⟨counts.inFile, by omega, ?_⟩
  have behind : length - Reader.total { reader with
      buffer := reader.buffer.drop count, recycled := recycled } =
        (length - reader.total) + count := by
    omega
  have before := counts.offset_eq
  rw [bufferOffset] at before
  have split : UInt64.ofNat reader.buffer.length =
      UInt64.ofNat (reader.buffer.length - count) + UInt64.ofNat count := by
    rw [← UInt64.ofNat_add, Nat.sub_add_cancel inBuffer]
  rw [behind, UInt64.ofNat_add, ← before, split, bufferOffset]
  simp only [List.length_drop]
  grind

theorem Counts.clear (counts : Counts reader length) (recycled : Bool) :
    Counts { reader with buffer := [], recycled := recycled } length := by
  have cleared := counts.take (Nat.le_refl _) recycled
  rw [List.drop_length] at cleared
  exact cleared

theorem Counts.noteRecycled (counts : Counts reader length) :
    Counts reader.noteRecycled length := by
  obtain ⟨recycled, noted⟩ := noteRecycled_eq reader
  rw [noted]
  exact ⟨counts.inFile, counts.total_le, counts.offset_eq⟩

end Counting

/-! ## Physical records in front of the initial offset -/

/-- The reader without its initial offset, and with another reporter. -/
def unfiltered (reporter : Option (List Report)) (reader : Reader GrowingFile) :
    Reader GrowingFile :=
  { reader with initialOffset := 0, reporter := reporter }

section Filter

variable (reporter : Option (List Report)) {reader : Reader GrowingFile}
  {length : Nat}

theorem readMore_unfiltered_more
    {next : Reader GrowingFile}
    {dropSize : Nat}
    (more : reader.readMore GrowingFile.sequentialFile dropSize = .more next) :
    (reader.unfiltered reporter).readMore GrowingFile.sequentialFile dropSize =
      .more (next.unfiltered reporter) := by
  by_cases live : reader.eof = false ∧ reader.readError = false
  · rw [readMore_refill reader dropSize live.1 live.2] at more
    rw [readMore_refill (reader.unfiltered reporter) dropSize live.1 live.2]
    cases more
    rfl
  · rw [readMore, if_neg (by simpa using live)] at more
    split at more <;> cases more

theorem readMore_unfiltered_stop
    {next : Reader GrowingFile}
    {dropSize error dropped : Nat}
    (stop : reader.readMore GrowingFile.sequentialFile dropSize =
      .stop error dropped next) :
    (reader.unfiltered reporter).readMore GrowingFile.sequentialFile dropSize =
      .stop error dropped (next.unfiltered reporter) := by
  by_cases live : reader.eof = false ∧ reader.readError = false
  · rw [readMore_refill reader dropSize live.1 live.2] at stop
    cases stop
  · have dead : ¬((!reader.eof && !reader.readError) = true) := by
      simpa using live
    have dead' : ¬((!(reader.unfiltered reporter).eof &&
        !(reader.unfiltered reporter).readError) = true) := dead
    have buffer : (reader.unfiltered reporter).buffer = reader.buffer := rfl
    rw [readMore, if_neg dead] at stop
    rw [readMore, if_neg dead', buffer]
    split at stop
    · rw [if_pos ‹_›]
      cases stop
      rfl
    · rw [if_neg ‹_›]
      cases stop
      rfl

theorem total_noteRecycled (reader : Reader GrowingFile) :
    reader.noteRecycled.total = reader.total := by
  unfold noteRecycled
  split <;> rfl

theorem initialOffset_noteRecycled (reader : Reader GrowingFile) :
    reader.noteRecycled.initialOffset = reader.initialOffset := by
  unfold noteRecycled
  split <;> rfl

theorem noteRecycled_unfiltered (reader : Reader GrowingFile) :
    (reader.unfiltered reporter).noteRecycled =
      reader.noteRecycled.unfiltered reporter := by
  unfold noteRecycled
  have same : (reader.unfiltered reporter).bufferOffset = reader.bufferOffset := rfl
  rw [same]
  split <;> rfl

/-- The offset a complete record is filtered by is that of its header. -/
theorem bufferOffset_taken
    (reader : Reader GrowingFile)
    {size recordLength : Nat}
    (fits : size + recordLength ≤ reader.buffer.length) :
    bufferOffset { reader with buffer := reader.buffer.drop (size + recordLength) } -
        UInt64.ofNat size - UInt64.ofNat recordLength =
      reader.bufferOffset := by
  have split : UInt64.ofNat reader.buffer.length =
      UInt64.ofNat (reader.buffer.length - (size + recordLength)) +
        UInt64.ofNat size + UInt64.ofNat recordLength := by
    rw [← UInt64.ofNat_add, ← UInt64.ofNat_add]
    congr 1
    omega
  rw [bufferOffset, bufferOffset, split]
  simp only [List.length_drop]
  grind

/-- How a physical read depends on the initial offset: it is what a read without
one is, but for a complete record that starts in front of the initial offset. -/
def FilteredRead
    (reporter : Option (List Report))
    (reader : Reader GrowingFile)
    (length : Nat)
    (physical whole : PhysicalRead GrowingFile) : Prop :=
  ∃ next,
    whole.reader = next.unfiltered reporter ∧
      next.initialOffset = reader.initialOffset ∧
      next.reporter = reader.reporter ∧
      Counts next length ∧
      next.total ≤ reader.total ∧
      (physical = ⟨whole.code, whole.fragment, whole.dropSize, next⟩ ∧
          (whole.code ≤ kMaxRecordType →
            ∃ start,
              reader.initialOffset.toNat ≤ start ∧
                start + (headerSize (isRecyclableType whole.code) +
                  whole.fragment.length) = length - next.total) ∨
        physical = ⟨kBadRecord, [], whole.dropSize, next⟩ ∧
          ∃ start,
            length - reader.total ≤ start ∧
              start < reader.initialOffset.toNat)

theorem FilteredRead.of_own
    {code dropSize : Nat}
    {next : Reader GrowingFile}
    (own : kMaxRecordType < code)
    (sameOffset : next.initialOffset = reader.initialOffset)
    (silent : next.reporter = reader.reporter)
    (counts : Counts next length)
    (ahead : next.total ≤ reader.total) :
    FilteredRead reporter reader length ⟨code, [], dropSize, next⟩
      ⟨code, [], dropSize, next.unfiltered reporter⟩ := by
  refine ⟨next, rfl, sameOffset, silent, counts, ahead, .inl ⟨rfl, ?_⟩⟩
  intro isType
  dsimp only at isType
  omega

theorem total_clear (reader : Reader GrowingFile) (recycled : Bool) :
    Reader.total { reader with buffer := [], recycled := recycled } ≤
      reader.total := by
  unfold total
  simp only [List.length_nil]
  omega

/-- Behind a parsed header. -/
theorem FilteredRead.takeRecord
    (bounded : length < 2 ^ 64)
    (counts : Counts reader length)
    {recyclable : Bool}
    {type : Nat}
    (isRecyclable : isRecyclableType type = recyclable)
    (recordLength dropSize : Nat) :
    FilteredRead reporter reader length
      (reader.takeRecord (headerSize recyclable) type recordLength dropSize)
      ((reader.unfiltered reporter).takeRecord (headerSize recyclable) type
        recordLength dropSize) := by
  have cleared := counts.clear reader.recycled
  have less := total_clear reader reader.recycled
  have buffer : (reader.unfiltered reporter).buffer = reader.buffer := rfl
  have eof : (reader.unfiltered reporter).eof = reader.eof := rfl
  have checksum : (reader.unfiltered reporter).checksum = reader.checksum := rfl
  have offset : reader.bufferOffset.toNat = length - reader.total := by
    have bound : length - reader.total < 2 ^ 64 := by omega
    rw [counts.offset_eq, UInt64.toNat_ofNat', Nat.mod_eq_of_lt bound]
  rw [Reader.takeRecord, Reader.takeRecord]
  dsimp only
  rw [buffer, eof, checksum]
  have total (fits : headerSize recyclable + recordLength ≤ reader.buffer.length) :
      Reader.total { reader with
        buffer := reader.buffer.drop (headerSize recyclable + recordLength) } +
          (headerSize recyclable + recordLength) = reader.total := by
    unfold Reader.total
    simp only [List.length_drop]
    omega
  split_ifs with overlong live nonempty zero mismatch filtered filtered'
  · exact .of_own reporter (by decide) rfl rfl cleared less
  · exact .of_own reporter (by decide) rfl rfl cleared less
  · exact .of_own reporter (by decide) rfl rfl cleared less
  · exact .of_own reporter (by decide) rfl rfl cleared less
  · exact .of_own reporter (by decide) rfl rfl cleared less
  · exact absurd filtered' UInt64.not_lt_zero
  · -- The record starts in front of the initial offset.
    have fits := Nat.le_of_not_lt overlong
    have counted := total fits
    rw [bufferOffset_taken reader fits, UInt64.lt_iff_toNat_lt, offset] at filtered
    exact ⟨{ reader with
        buffer := reader.buffer.drop (headerSize recyclable + recordLength) },
      rfl, rfl, rfl, counts.take fits reader.recycled, by omega,
      .inr ⟨rfl, length - reader.total, Nat.le_refl _, filtered⟩⟩
  · rename_i filtered'
    exact absurd filtered' UInt64.not_lt_zero
  · have fits := Nat.le_of_not_lt overlong
    have counted := total fits
    have bound := counts.total_le
    rw [bufferOffset_taken reader fits, UInt64.lt_iff_toNat_lt, offset,
      Nat.not_lt] at filtered
    refine ⟨{ reader with
        buffer := reader.buffer.drop (headerSize recyclable + recordLength) },
      rfl, rfl, rfl, counts.take fits reader.recycled, by omega,
      .inl ⟨rfl, fun _ => ⟨length - reader.total, filtered, ?_⟩⟩⟩
    dsimp only
    rw [isRecyclable, List.length_take, List.length_drop]
    omega

/-- A reader that was further on. -/
theorem FilteredRead.of_later
    {later : Reader GrowingFile}
    {physical whole : PhysicalRead GrowingFile}
    (filtered : FilteredRead reporter later length physical whole)
    (sameOffset : later.initialOffset = reader.initialOffset)
    (silent : later.reporter = reader.reporter)
    (ahead : later.total ≤ reader.total) :
    FilteredRead reporter reader length physical whole := by
  obtain ⟨next, isNext, offset, quiet, counts, further, outcome⟩ := filtered
  refine ⟨next, isNext, offset.trans sameOffset, quiet.trans silent, counts,
    further.trans ahead, ?_⟩
  rw [sameOffset] at outcome
  rcases outcome with whole | ⟨bad, start, behind, before⟩
  · exact .inl whole
  · exact .inr ⟨bad, start, by omega, before⟩

/-- A physical read with an initial offset and one without. -/
theorem readPhysicalRecord_filtered
    (bounded : length < 2 ^ 64)
    (counts : Counts reader length)
    (dropSize : Nat) :
    FilteredRead reporter reader length
      (reader.readPhysicalRecord GrowingFile.sequentialFile dropSize)
      ((reader.unfiltered reporter).readPhysicalRecord GrowingFile.sequentialFile
        dropSize) := by
  have seven := kHeaderSize_eq
  fun_induction readPhysicalRecord GrowingFile.sequentialFile reader dropSize with
  | case1 reader short error dropped next more =>
      obtain ⟨own, isNext⟩ := of_readMore_stop more
      have physical := @readPhysicalRecord_of_stop _ _ (reader.unfiltered reporter) _
        _ _ _ short (readMore_unfiltered_stop reporter more)
      rw [physical, isNext]
      exact .of_own reporter own rfl rfl (counts.clear reader.recycled)
        (total_clear reader reader.recycled)
  | case2 reader short next more inductionHypothesis =>
      obtain ⟨live, isNext⟩ := of_readMore_more more
      have physical := @readPhysicalRecord_of_more _ _ (reader.unfiltered reporter) _
        _ short (readMore_unfiltered_more reporter more)
      have refilled := counts.refill
      have total := total_refill counts.inFile
      rw [← isNext] at refilled total
      rw [physical]
      refine (inductionHypothesis refilled).of_later reporter ?_ ?_ (by omega)
      · rw [isNext]
        rfl
      · rw [isNext]
        rfl
  | case3 =>
      rename_i reader notShort _ recyclable _ cut _ _ _ more
      obtain ⟨own, isNext⟩ := of_readMore_stop more
      have stop := readMore_unfiltered_stop reporter more
      rw [← noteRecycled_unfiltered] at stop
      rw [buffer_noteRecycled] at cut
      have physical := @readPhysicalRecord_of_recyclable_stop _ _
        (reader.unfiltered reporter) _ _ _ _ (Nat.le_of_not_lt notShort) recyclable cut
        stop
      rw [physical, isNext]
      refine .of_own reporter own ?_ ?_ (counts.noteRecycled.clear _)
        ((total_clear _ _).trans (total_noteRecycled reader).le)
      · exact initialOffset_noteRecycled reader
      · exact reporter_noteRecycled reader
  | case4 =>
      rename_i reader notShort _ recyclable _ cut next more inductionHypothesis
      obtain ⟨live, isNext⟩ := of_readMore_more more
      have more' := readMore_unfiltered_more reporter more
      rw [← noteRecycled_unfiltered] at more'
      rw [buffer_noteRecycled] at cut
      have physical := @readPhysicalRecord_of_recyclable_more _ _
        (reader.unfiltered reporter) _ _ (Nat.le_of_not_lt notShort) recyclable cut
        more'
      have refilled := counts.noteRecycled.refill
      have total := total_refill counts.noteRecycled.inFile
      rw [total_noteRecycled] at total
      rw [← isNext] at refilled total
      rw [physical]
      refine (inductionHypothesis refilled).of_later reporter ?_ ?_ (by omega)
      · rw [isNext]
        exact initialOffset_noteRecycled reader
      · rw [isNext]
        exact reporter_noteRecycled reader
  | case5 =>
      rename_i reader notShort _ recyclable _ whole otherLog
      rw [buffer_noteRecycled] at whole otherLog
      have physical := @readPhysicalRecord_of_recyclable _ GrowingFile.sequentialFile
        (reader.unfiltered reporter) dropSize (Nat.le_of_not_lt whole) recyclable
      rw [noteRecycled_unfiltered] at physical
      rw [physical.trans (if_pos otherLog)]
      exact .of_own reporter (by decide) (initialOffset_noteRecycled reader)
        (reporter_noteRecycled reader) counts.noteRecycled
        (total_noteRecycled reader).le
  | case6 =>
      rename_i reader notShort _ _ recyclable _ whole sameLog
      rw [buffer_noteRecycled] at whole sameLog
      have physical := @readPhysicalRecord_of_recyclable _ GrowingFile.sequentialFile
        (reader.unfiltered reporter) dropSize (Nat.le_of_not_lt whole) recyclable
      rw [noteRecycled_unfiltered] at physical
      rw [physical.trans (if_neg sameLog)]
      refine (FilteredRead.takeRecord reporter bounded counts.noteRecycled recyclable _
        dropSize).of_later reporter (initialOffset_noteRecycled reader)
        (reporter_noteRecycled reader) (total_noteRecycled reader).le
  | case7 =>
      rename_i reader notShort _ _ legacy
      have physical := @readPhysicalRecord_of_legacy _ GrowingFile.sequentialFile
        (reader.unfiltered reporter) dropSize (Nat.le_of_not_lt notShort)
        (Bool.eq_false_iff.mpr legacy)
      rw [physical]
      exact FilteredRead.takeRecord reporter bounded counts
        (Bool.eq_false_iff.mpr legacy) _ dropSize

/-- Behind the initial offset nothing is filtered. -/
theorem readPhysicalRecord_ahead
    (bounded : length < 2 ^ 64)
    (counts : Counts reader length)
    (ahead : reader.initialOffset.toNat ≤ length - reader.total) :
    ∃ code fragment dropSize next,
      (reader.unfiltered reporter).readPhysicalRecord GrowingFile.sequentialFile 0 =
          ⟨code, fragment, dropSize, next.unfiltered reporter⟩ ∧
        reader.readPhysicalRecord GrowingFile.sequentialFile 0 =
          ⟨code, fragment, dropSize, next⟩ ∧
        next.initialOffset = reader.initialOffset ∧
        Counts next length ∧
        next.total ≤ reader.total ∧
        next.reporter = reader.reporter := by
  obtain ⟨next, isNext, offset, silent, counts', further, outcome⟩ :=
    readPhysicalRecord_filtered reporter bounded counts 0
  rcases outcome with ⟨same, -⟩ | ⟨-, start, behind, before⟩
  · exact ⟨_, _, _, next, by rw [← isNext], same, offset, counts', further, silent⟩
  · omega

end Filter

/-! ## The loop with and without an initial offset -/

/-- The local variables of `ReadRecord` in a reader without the initial offset. -/
def Assembly.unfiltered
    (reporter : Option (List Report))
    (assembly : Assembly GrowingFile) : Assembly GrowingFile :=
  { assembly with reader := assembly.reader.unfiltered reporter }

/-- A step of the loop and the same step without the initial offset.  The offset of
a record that was begun or returned is not in front of it. -/
def StepShadows (initial : UInt64) :
    Assembly GrowingFile ⊕ ReadResult GrowingFile →
      Assembly GrowingFile ⊕ ReadResult GrowingFile → Prop
  | .inl next, .inl whole =>
      (∃ reporter, whole = next.unfiltered reporter) ∧
        (next.inFragmentedRecord = true → initial ≤ next.prospectiveRecordOffset)
  | .inr result, .inr whole =>
      (∃ reporter, whole =
        ⟨result.found, result.record, result.reader.unfiltered reporter⟩) ∧
        (result.found = true → initial ≤ result.reader.lastRecordOffset)
  | _, _ => False

section Shadows

variable {initial : UInt64}

theorem stepShadows_ite
    {condition : Prop}
    [Decidable condition]
    {yes no wholeYes wholeNo : Assembly GrowingFile ⊕ ReadResult GrowingFile}
    (ifYes : condition → StepShadows initial yes wholeYes)
    (ifNo : ¬condition → StepShadows initial no wholeNo) :
    StepShadows initial (if condition then yes else no)
      (if condition then wholeYes else wholeNo) := by
  split
  · exact ifYes ‹_›
  · exact ifNo ‹_›

theorem report_unfiltered
    (reporter : Option (List Report))
    (assembly : Assembly GrowingFile)
    (bytes : Nat)
    (reason : String) :
    ∃ reporter',
      (assembly.unfiltered reporter).report bytes reason =
        (assembly.report bytes reason).unfiltered reporter' := by
  obtain ⟨said, reported⟩ := reportDrop_eq assembly.reader bytes (.Corruption reason)
  obtain ⟨said', reported'⟩ := reportDrop_eq (assembly.reader.unfiltered reporter)
    bytes (.Corruption reason)
  refine ⟨said', ?_⟩
  unfold Assembly.report Assembly.unfiltered reportCorruption
  dsimp only
  rw [reported, reported']
  rfl

theorem reportIf_unfiltered
    (reporter : Option (List Report))
    (assembly : Assembly GrowingFile)
    (condition : Bool)
    (bytes : Nat)
    (reason : String) :
    ∃ reporter',
      (assembly.unfiltered reporter).reportIf condition bytes reason =
        (assembly.reportIf condition bytes reason).unfiltered reporter' := by
  unfold Assembly.reportIf
  split
  · exact report_unfiltered reporter assembly bytes reason
  · exact ⟨reporter, rfl⟩

theorem interrupt_unfiltered
    (reporter : Option (List Report))
    (assembly : Assembly GrowingFile) :
    ∃ reporter',
      (assembly.unfiltered reporter).interrupt =
        assembly.interrupt.unfiltered reporter' := by
  unfold Assembly.interrupt
  have same : (assembly.unfiltered reporter).inFragmentedRecord =
      assembly.inFragmentedRecord := rfl
  rw [same]
  split
  · obtain ⟨reporter', reported⟩ := report_unfiltered reporter assembly
      assembly.scratch.length "error in middle of record"
    refine ⟨reporter', ?_⟩
    have scratch : (assembly.unfiltered reporter).scratch = assembly.scratch := rfl
    rw [scratch, reported]
    rfl
  · exact ⟨reporter, rfl⟩

theorem finish_shadows
    (mode : WALRecoveryMode)
    (reporter : Option (List Report))
    (assembly : Assembly GrowingFile) :
    StepShadows initial (.inr (assembly.finish mode))
      (.inr ((assembly.unfiltered reporter).finish mode)) := by
  obtain ⟨reporter', reported⟩ := reportIf_unfiltered reporter assembly
    (assembly.inFragmentedRecord && decide (mode = .absoluteConsistency))
    assembly.scratch.length "error reading trailing data"
  refine ⟨⟨reporter', ?_⟩, nofun⟩
  have finished : (assembly.unfiltered reporter).finish mode =
      ⟨false, [], ((assembly.unfiltered reporter).reportIf
        (assembly.inFragmentedRecord && decide (mode = .absoluteConsistency))
        assembly.scratch.length "error reading trailing data").reader⟩ := rfl
  rw [finished, reported]
  rfl

theorem interrupt_shadows
    (reporter : Option (List Report))
    (assembly : Assembly GrowingFile)
    (begun : assembly.inFragmentedRecord = true →
      initial ≤ assembly.prospectiveRecordOffset) :
    StepShadows initial (.inl assembly.interrupt)
      (.inl (assembly.unfiltered reporter).interrupt) := by
  refine ⟨interrupt_unfiltered reporter assembly, ?_⟩
  unfold Assembly.interrupt
  split
  · exact nofun
  · exact begun

theorem report_shadows
    (reporter : Option (List Report))
    (assembly : Assembly GrowingFile)
    (bytes : Nat)
    (reason : String)
    (begun : assembly.inFragmentedRecord = true →
      initial ≤ assembly.prospectiveRecordOffset) :
    StepShadows initial (.inl (assembly.report bytes reason))
      (.inl ((assembly.unfiltered reporter).report bytes reason)) :=
  ⟨report_unfiltered reporter assembly bytes reason, begun⟩

/-- What the `switch` of `ReadRecord` does on a physical record behind the initial
offset does not depend on it. -/
theorem handle_shadows
    (mode : WALRecoveryMode)
    (assembly : Assembly GrowingFile)
    (begun : assembly.inFragmentedRecord = true →
      initial ≤ assembly.prospectiveRecordOffset)
    {offset : UInt64}
    (late : initial ≤ offset)
    (reporter said : Option (List Report))
    (code : Nat)
    (fragment : Bytes)
    (dropSize : Nat)
    (next : Reader GrowingFile) :
    StepShadows initial
      (handle mode assembly offset ⟨code, fragment, dropSize, next⟩)
      (handle mode (assembly.unfiltered said) offset
        ⟨code, fragment, dropSize, next.unfiltered reporter⟩) := by
  obtain ⟨reader, inFragment, scratch, prospective⟩ := assembly
  let current : Assembly GrowingFile := ⟨next, inFragment, scratch, prospective⟩
  have sameRecycled : (next.unfiltered reporter).recycled = next.recycled := rfl
  unfold handle Assembly.unfiltered
  dsimp only
  rw [sameRecycled]
  apply stepShadows_ite
  · intro _
    obtain ⟨reporter', reported⟩ := reportIf_unfiltered reporter current
      (inFragment && !scratch.isEmpty) scratch.length "partial record without end(1)"
    exact ⟨⟨reporter', congrArg (fun assembly =>
      Assembly.complete assembly fragment offset) reported⟩, fun _ => late⟩
  intro _
  apply stepShadows_ite
  · intro _
    obtain ⟨reporter', reported⟩ := reportIf_unfiltered reporter current
      (inFragment && !scratch.isEmpty) scratch.length "partial record without end(2)"
    exact ⟨⟨reporter', congrArg (fun assembly => ({ assembly with
      inFragmentedRecord := true
      scratch := fragment
      prospectiveRecordOffset := offset } : Assembly GrowingFile)) reported⟩,
      fun _ => late⟩
  intro _
  apply stepShadows_ite
  · intro _
    apply stepShadows_ite
    · intro _
      exact report_shadows reporter current _ _ begun
    · intro _
      exact ⟨⟨reporter, rfl⟩, begun⟩
  intro _
  apply stepShadows_ite
  · intro _
    apply stepShadows_ite
    · intro _
      exact report_shadows reporter current _ _ begun
    · intro inside
      exact ⟨⟨reporter, rfl⟩, fun _ => begun (by simpa using inside)⟩
  intro _
  apply stepShadows_ite
  · intro _
    obtain ⟨reporter', reported⟩ := reportIf_unfiltered reporter current
      (decide (mode = .absoluteConsistency)) dropSize "truncated header"
    have finished := @finish_shadows initial mode reporter'
      (current.reportIf (decide (mode = .absoluteConsistency)) dropSize
        "truncated header")
    rw [← reported] at finished
    exact finished
  intro _
  apply stepShadows_ite
  · intro _
    exact finish_shadows mode reporter current
  intro _
  apply stepShadows_ite
  · intro _
    apply stepShadows_ite
    · intro _
      exact finish_shadows mode reporter current
    · intro _
      exact interrupt_shadows reporter current begun
  intro _
  apply stepShadows_ite
  · intro _
    exact interrupt_shadows reporter current begun
  intro _
  apply stepShadows_ite
  · intro _
    apply stepShadows_ite
    · intro _
      exact ⟨⟨reporter, rfl⟩, nofun⟩
    · intro _
      let reason := if code = kBadRecordLen then "bad record length"
        else "checksum mismatch"
      obtain ⟨reporter', reported⟩ := report_unfiltered reporter current dropSize
        reason
      have interrupted := interrupt_shadows reporter'
        (current.report dropSize reason) begun
      rw [← reported] at interrupted
      exact interrupted
  · intro _
    obtain ⟨reporter', reported⟩ := report_unfiltered reporter current
      (fragment.length + if inFragment then scratch.length else 0)
      ("unknown record type " ++ toString code)
    exact ⟨⟨reporter', congrArg Assembly.dropPartial reported⟩, nofun⟩

end Shadows

/-! ## Reports with and without an initial offset -/

/-- The second reader is the first one without its initial offset.  Since the first one
had received `heard` reports and the second one `said`, it has received at least as many
more. -/
def NoLouder (heard said : Nat) (own whole : Reader GrowingFile) : Prop :=
  ∃ calls, whole = own.unfiltered (some calls) ∧
    own.reports.length + said ≤ calls.length + heard

theorem parallel_noLouder (heard said : Nat) : Parallel (NoLouder heard said) where
  recycled := by
    rintro own whole ⟨calls, rfl, -⟩
    rfl
  reports := by
    rintro own whole bytes reason ⟨calls, rfl, fewer⟩
    obtain ⟨reporter, reported⟩ := reportDrop_eq own bytes (.Corruption reason)
    have one := length_reports_reportDrop own bytes (.Corruption reason)
    refine ⟨calls ++ [⟨bytes, .Corruption reason⟩], ?_, ?_⟩
    · rw [reportCorruption, reportCorruption, reported, reportDrop,
        show (own.unfiltered (some calls)).reporter = some calls from rfl]
      dsimp only
      rw [if_pos]
      · rfl
      · exact UInt64.zero_le
    · rw [List.length_append, List.length_singleton, reportCorruption]
      omega
  offsets := by
    rintro own whole offset ⟨calls, rfl, fewer⟩
    exact ⟨calls, rfl, fewer⟩

/-! ## Calls of a reader that has passed its initial offset -/

/-- The reader stands at or behind its initial offset. -/
structure Ahead (reader : Reader GrowingFile) (length : Nat) : Prop where
  counts : Counts reader length
  passed : reader.initialOffset.toNat ≤ length - reader.total

section Simulation

variable {mode : WALRecoveryMode} {length : Nat}

theorem Ahead.of_alike
    {before after : Reader GrowingFile}
    (ahead : Ahead before length)
    (alike : Alike before after) :
    Ahead after length ∧ after.initialOffset = before.initialOffset := by
  obtain ⟨reporter, recordOffset, rfl⟩ := alike
  obtain ⟨⟨inFile, bound, offset⟩, passed⟩ := ahead
  exact ⟨⟨⟨inFile, bound, offset⟩, passed⟩, rfl⟩

theorem Ahead.late
    {reader : Reader GrowingFile}
    (bounded : length < 2 ^ 64)
    (ahead : Ahead reader length) :
    reader.initialOffset ≤ reader.bufferOffset := by
  have bound : length - reader.total < 2 ^ 64 := by omega
  rw [UInt64.le_iff_toNat_le, ahead.counts.offset_eq, UInt64.toNat_ofNat',
    Nat.mod_eq_of_lt bound]
  exact ahead.passed

/-- One iteration of the loop. -/
theorem Ahead.step
    {assembly : Assembly GrowingFile}
    (bounded : length < 2 ^ 64)
    (ahead : Ahead assembly.reader length)
    (begun : assembly.inFragmentedRecord = true →
      assembly.reader.initialOffset ≤ assembly.prospectiveRecordOffset)
    (reporter : Option (List Report)) :
    let step := readRecordStep GrowingFile.sequentialFile mode assembly
    StepShadows assembly.reader.initialOffset step
        (readRecordStep GrowingFile.sequentialFile mode
          (assembly.unfiltered reporter)) ∧
      Ahead (stepReader step) length ∧
      (stepReader step).initialOffset = assembly.reader.initialOffset := by
  intro step
  obtain ⟨code, fragment, dropSize, next, whole, physical, sameOffset, counts,
    further, -⟩ := readPhysicalRecord_ahead reporter bounded ahead.counts ahead.passed
  have passed := ahead.passed
  have ahead' : Ahead next length := ⟨counts, by rw [sameOffset]; omega⟩
  have alike := alike_handle mode assembly assembly.reader.bufferOffset
    ⟨code, fragment, dropSize, next⟩
  obtain ⟨aheadStep, offsetStep⟩ := ahead'.of_alike alike
  have isStep : step = handle mode assembly assembly.reader.bufferOffset
      ⟨code, fragment, dropSize, next⟩ := by
    rw [← physical]
    rfl
  have isWhole : readRecordStep GrowingFile.sequentialFile mode
      (assembly.unfiltered reporter) =
        handle mode (assembly.unfiltered reporter) assembly.reader.bufferOffset
          ⟨code, fragment, dropSize, next.unfiltered reporter⟩ := by
    rw [← whole]
    rfl
  rw [isStep, isWhole]
  exact ⟨handle_shadows mode assembly begun (ahead.late bounded) reporter reporter
    code fragment dropSize next, aheadStep, offsetStep.trans sameOffset⟩

/-- One iteration of the loop does not report more than without the initial offset. -/
theorem Ahead.noLouder
    {assembly : Assembly GrowingFile}
    (bounded : length < 2 ^ 64)
    (ahead : Ahead assembly.reader length)
    (calls : List Report) :
    ∃ calls',
      (stepReader (readRecordStep GrowingFile.sequentialFile mode
          (assembly.unfiltered (some calls)))).reporter = some calls' ∧
        (stepReader (readRecordStep GrowingFile.sequentialFile mode
            assembly)).reports.length + calls.length ≤
          calls'.length + assembly.reader.reports.length := by
  obtain ⟨code, fragment, dropSize, next, whole, physical, -, -, -, silent⟩ :=
    readPhysicalRecord_ahead (some calls) bounded ahead.counts ahead.passed
  have isWhole : readRecordStep GrowingFile.sequentialFile mode
      (assembly.unfiltered (some calls)) =
        handle mode assembly assembly.reader.bufferOffset
          ⟨code, fragment, dropSize, next.unfiltered (some calls)⟩ := by
    rw [← whole]
    rfl
  have started : NoLouder assembly.reader.reports.length calls.length next
      (next.unfiltered (some calls)) := by
    refine ⟨calls, rfl, ?_⟩
    rw [reports, reports, silent]
    omega
  obtain ⟨calls', isStep, fewer⟩ := (handle_related (parallel_noLouder _ _) mode assembly
    assembly.reader.bufferOffset code fragment dropSize started).readers
  refine ⟨calls', ?_, ?_⟩
  · rw [isWhole, isStep]
    rfl
  · rw [readRecordStep, physical]
    exact fewer

/-- Behind a record that is not in front of the initial offset, the next call does
not skip again. -/
theorem readRecords_settled
    (calls : Nat)
    {reader : Reader GrowingFile}
    (settled : reader.initialOffset ≤ reader.lastRecordOffset) :
    readRecords GrowingFile.sequentialFile mode (calls + 1) reader =
      resume GrowingFile.sequentialFile mode calls (calls + 1)
        (startAssembly reader) := by
  have notBefore : ¬reader.lastRecordOffset < reader.initialOffset :=
    UInt64.not_lt.mpr settled
  simp only [readRecords, resume, readRecord, if_neg notBefore]

section Transfer

variable {assembly : Assembly GrowingFile} {reporter : Option (List Report)}
  (bounded : length < 2 ^ 64)
  (ahead : Ahead assembly.reader length)
  (begun : assembly.inFragmentedRecord = true →
    assembly.reader.initialOffset ≤ assembly.prospectiveRecordOffset)
include bounded ahead begun

theorem Ahead.goes_on
    {next : Assembly GrowingFile}
    (step : readRecordStep GrowingFile.sequentialFile mode
      (assembly.unfiltered reporter) = .inl next) :
    ∃ own said,
      readRecordStep GrowingFile.sequentialFile mode assembly = .inl own ∧
        next = own.unfiltered said ∧
        Ahead own.reader length ∧
        own.reader.initialOffset = assembly.reader.initialOffset ∧
        (own.inFragmentedRecord = true →
          own.reader.initialOffset ≤ own.prospectiveRecordOffset) := by
  obtain ⟨shadows, ahead', sameOffset⟩ :=
    @Ahead.step mode _ _ bounded ahead begun reporter
  rw [step] at shadows
  cases isOwn : readRecordStep GrowingFile.sequentialFile mode assembly with
  | inl own =>
      rw [isOwn] at shadows ahead' sameOffset
      obtain ⟨⟨said, isNext⟩, begun'⟩ := shadows
      have same : own.reader.initialOffset = assembly.reader.initialOffset :=
        sameOffset
      refine ⟨own, said, rfl, isNext, ahead', same, ?_⟩
      rw [same]
      exact begun'
  | inr result =>
      rw [isOwn] at shadows
      exact shadows.elim

theorem Ahead.returns
    {result : ReadResult GrowingFile}
    (step : readRecordStep GrowingFile.sequentialFile mode
      (assembly.unfiltered reporter) = .inr result) :
    ∃ own said,
      readRecordStep GrowingFile.sequentialFile mode assembly = .inr own ∧
        result = ⟨own.found, own.record, own.reader.unfiltered said⟩ ∧
        Ahead own.reader length ∧
        own.reader.initialOffset = assembly.reader.initialOffset ∧
        (own.found = true →
          own.reader.initialOffset ≤ own.reader.lastRecordOffset) := by
  obtain ⟨shadows, ahead', sameOffset⟩ :=
    @Ahead.step mode _ _ bounded ahead begun reporter
  rw [step] at shadows
  cases isOwn : readRecordStep GrowingFile.sequentialFile mode assembly with
  | inl next =>
      rw [isOwn] at shadows
      exact shadows.elim
  | inr own =>
      rw [isOwn] at shadows ahead' sameOffset
      obtain ⟨⟨said, isResult⟩, settled⟩ := shadows
      have same : own.reader.initialOffset = assembly.reader.initialOffset :=
        sameOffset
      refine ⟨own, said, rfl, isResult, ahead', same, ?_⟩
      rw [same]
      exact settled

end Transfer

/-- A reader that has passed its initial offset reads what one without an initial
offset reads, and does not report more. -/
theorem Reads.filtered
    {whole : Assembly GrowingFile}
    {records : List Bytes}
    {last : Reader GrowingFile}
    (reads : Reads GrowingFile.sequentialFile mode whole records last)
    (bounded : length < 2 ^ 64)
    {assembly : Assembly GrowingFile}
    {reporter : Option (List Report)}
    (isWhole : whole = assembly.unfiltered reporter)
    (ahead : Ahead assembly.reader length)
    (begun : assembly.inFragmentedRecord = true →
      assembly.reader.initialOffset ≤ assembly.prospectiveRecordOffset) :
    ∃ final,
      (∃ enough, ∀ calls fuel, enough ≤ calls → enough ≤ fuel →
        Reader.resume GrowingFile.sequentialFile mode calls fuel assembly =
          some (records, final)) ∧
      Reported assembly.reader.reporter final.reporter ∧
      ∀ calls, reporter = some calls →
        final.reports.length + calls.length ≤
          last.reports.length + assembly.reader.reports.length := by
  induction reads generalizing assembly reporter with
  | stop step failed =>
      rw [isWhole] at step
      obtain ⟨own, said, isOwn, rfl, -⟩ := ahead.returns bounded begun step
      have failed' : own.found = false := failed
      refine ⟨own.reader, ⟨1, fun calls fuel _ bound => ?_⟩,
        readRecordStep_reported isOwn, ?_⟩
      · obtain ⟨fuel, rfl⟩ : ∃ less, fuel = less + 1 := ⟨fuel - 1, by omega⟩
        simp [Reader.resume, Reader.readRecordLoop, isOwn, failed']
      · rintro calls rfl
        obtain ⟨calls', heard, fewer⟩ := @Ahead.noLouder mode _ _ bounded ahead calls
        rw [step] at heard
        rw [isOwn] at fewer
        have isSaid : said = some calls' := heard
        rw [isSaid]
        exact fewer
  | record step found _ _ inductionHypothesis =>
      rw [isWhole] at step
      obtain ⟨own, said, isOwn, rfl, ahead', -, settled⟩ :=
        ahead.returns bounded begun step
      have found' : own.found = true := found
      obtain ⟨final, ⟨enough, run⟩, reported, quiet⟩ := @inductionHypothesis
        (startAssembly own.reader) said rfl ahead' Bool.false_ne_true.elim
      refine ⟨final, ⟨enough + 1, fun calls fuel callsBound bound => ?_⟩,
        (readRecordStep_reported isOwn).trans reported, ?_⟩
      · obtain ⟨fuel, rfl⟩ : ∃ less, fuel = less + 1 := ⟨fuel - 1, by omega⟩
        obtain ⟨calls, rfl⟩ : ∃ less, calls = less + 1 := ⟨calls - 1, by omega⟩
        have rest := run calls (calls + 1) (by omega) (by omega)
        rw [← readRecords_settled calls (settled found')] at rest
        simp [Reader.resume, Reader.readRecordLoop, isOwn, found', rest]
      · rintro calls rfl
        obtain ⟨calls', heard, fewer⟩ := @Ahead.noLouder mode _ _ bounded ahead calls
        rw [step] at heard
        rw [isOwn] at fewer
        have later := quiet calls' heard
        change own.reader.reports.length + _ ≤ _ at fewer
        rw [Assembly.reader_startAssembly] at later
        omega
  | next step _ inductionHypothesis =>
      rw [isWhole] at step
      obtain ⟨own, said, isOwn, isNext, ahead', -, begun'⟩ :=
        ahead.goes_on bounded begun step
      obtain ⟨final, ⟨enough, run⟩, reported, quiet⟩ :=
        inductionHypothesis isNext ahead' begun'
      refine ⟨final, ⟨enough + 1, fun calls fuel callsBound bound => ?_⟩,
        (readRecordStep_reported isOwn).trans reported, ?_⟩
      · obtain ⟨fuel, rfl⟩ : ∃ less, fuel = less + 1 := ⟨fuel - 1, by omega⟩
        have rest := run calls fuel (by omega) (by omega)
        simpa [Reader.resume, Reader.readRecordLoop, isOwn] using rest
      · rintro calls rfl
        obtain ⟨calls', heard, fewer⟩ := @Ahead.noLouder mode _ _ bounded ahead calls
        rw [step, isNext] at heard
        rw [isOwn] at fewer
        have later := quiet calls' heard
        change own.reader.reports.length + _ ≤ _ at fewer
        omega

/-- The same for one call. -/
theorem Returns.filtered
    {whole : Assembly GrowingFile}
    {result : ReadResult GrowingFile}
    (returns : Returns GrowingFile.sequentialFile mode whole result)
    (bounded : length < 2 ^ 64)
    {assembly : Assembly GrowingFile}
    {reporter : Option (List Report)}
    (isWhole : whole = assembly.unfiltered reporter)
    (ahead : Ahead assembly.reader length)
    (begun : assembly.inFragmentedRecord = true →
      assembly.reader.initialOffset ≤ assembly.prospectiveRecordOffset) :
    ∃ own said,
      Returns GrowingFile.sequentialFile mode assembly own ∧
        result = ⟨own.found, own.record, own.reader.unfiltered said⟩ ∧
        Ahead own.reader length ∧
        own.reader.initialOffset = assembly.reader.initialOffset ∧
        (own.found = true →
          own.reader.initialOffset ≤ own.reader.lastRecordOffset) := by
  induction returns generalizing assembly reporter with
  | done step =>
      rw [isWhole] at step
      obtain ⟨own, said, isOwn, rest⟩ := ahead.returns bounded begun step
      exact ⟨own, said, .done isOwn, rest⟩
  | next step _ inductionHypothesis =>
      rw [isWhole] at step
      obtain ⟨next, said, isOwn, isNext, ahead', sameOffset, begun'⟩ :=
        ahead.goes_on bounded begun step
      obtain ⟨own, said', returns, isResult, ahead'', offset, settled⟩ :=
        inductionHypothesis isNext ahead' begun'
      exact ⟨own, said', .next isOwn returns, isResult, ahead'',
        offset.trans sameOffset, settled⟩

end Simulation

end Reader
end Log
end RocksUtil
