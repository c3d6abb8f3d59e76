import RocksUtil.Log.Assembling

/-!
# Salvaging a damaged log

In `kSkipAnyCorruptedRecords` the loop of `ReadRecord` goes on behind whatever it
cannot use, over arbitrary bytes.  Every physical record it passes over takes
bytes out of the buffer, except one: a recyclable record of another log is left
where it is, so that the loop meets it again and again.  `ReadRecord` returns
exactly when its loop does not get to such a record
(`readRecord_salvage_iff`).
-/

namespace RocksUtil
namespace Log
namespace Reader

open Coding

/-- The buffer does not hold a complete header. -/
def needsMore (buffer : Bytes) : Bool :=
  decide (buffer.length < kHeaderSize) ||
    (isRecyclableType (headerType buffer) &&
      decide (buffer.length < kRecyclableHeaderSize))

/-- The bytes in which `ReadPhysicalRecord` looks for the next header: the
buffer, or the next block when the buffer does not hold one. -/
def front (reader : Reader GrowingFile) : Bytes :=
  if needsMore reader.buffer && (!reader.eof && !reader.readError) then
    reader.file.unread.take kBlockSize
  else reader.buffer

/-- The next header is that of a recyclable record of another log. -/
def facesOtherLog (reader : Reader GrowingFile) : Bool :=
  !needsMore reader.front && isRecyclableType (headerType reader.front) &&
    decide ((decodeFixed32 (reader.front.drop 7)).toUInt64 ≠ reader.logNumber)

/-- Bytes were taken from the file, or out of the buffer. -/
def Takes (before after : Reader GrowingFile) : Prop :=
  after.file.unread.length < before.file.unread.length ∨
    after.file.unread = before.file.unread ∧
      after.buffer.length < before.buffer.length

/-- Bytes of the buffer and the file that are still to be read. -/
def remaining (reader : Reader GrowingFile) : Nat :=
  reader.buffer.length + reader.file.unread.length

section Physical

variable {reader : Reader GrowingFile} {d : Nat}

theorem needsMore_eq_false
    {buffer : Bytes}
    (complete : needsMore buffer = false) :
    kHeaderSize ≤ buffer.length ∧
      (isRecyclableType (headerType buffer) = true →
        kRecyclableHeaderSize ≤ buffer.length) := by
  simp only [needsMore, Bool.or_eq_false_iff, Bool.and_eq_false_iff,
    decide_eq_false_iff_not, Nat.not_lt] at complete
  refine ⟨complete.1, fun recyclable => ?_⟩
  rcases complete.2 with legacy | enough
  · rw [recyclable] at legacy
    cases legacy
  · exact enough

/-- Behind its header, a record is always taken out of the buffer. -/
theorem takeRecord_takes
    (reader : Reader GrowingFile)
    {headerSize : Nat}
    (type length : Nat)
    (positive : 0 < headerSize)
    (nonempty : 0 < reader.buffer.length) :
    (reader.takeRecord headerSize type length d).reader.file =
        reader.file ∧
      (reader.takeRecord headerSize type length d).reader.buffer.length <
        reader.buffer.length := by
  unfold takeRecord
  dsimp only
  split
  · split
    · exact ⟨rfl, nonempty⟩
    · split
      · exact ⟨rfl, nonempty⟩
      · exact ⟨rfl, nonempty⟩
  · split
    · exact ⟨rfl, nonempty⟩
    · split
      · exact ⟨rfl, nonempty⟩
      · have shorter : (reader.buffer.drop (headerSize + length)).length <
            reader.buffer.length := by
          rw [List.length_drop]
          omega
        split
        · exact ⟨rfl, shorter⟩
        · exact ⟨rfl, shorter⟩

/-- A complete header in the buffer. -/
theorem readPhysicalRecord_complete_header
    (complete : needsMore reader.buffer = false) :
    let result :=
      reader.readPhysicalRecord GrowingFile.sequentialFile d
    if isRecyclableType (headerType reader.buffer) ∧
        (decodeFixed32 (reader.buffer.drop 7)).toUInt64 ≠ reader.logNumber then
      ∃ recycled, result =
        ⟨kOldRecord, [], d, { reader with recycled := recycled }⟩
    else
      result.reader.file = reader.file ∧
        result.reader.buffer.length < reader.buffer.length := by
  have header := kHeaderSize_eq
  have recyclableHeader := kRecyclableHeaderSize_eq
  obtain ⟨enough, enoughRecyclable⟩ := needsMore_eq_false complete
  obtain ⟨recycled, noted⟩ := noteRecycled_eq reader
  cases recyclable : isRecyclableType (headerType reader.buffer) with
  | false =>
      rw [if_neg (by simp)]
      rw [readPhysicalRecord_of_legacy enough recyclable]
      exact takeRecord_takes reader _ _ (by omega) (by omega)
  | true =>
      rw [readPhysicalRecord_of_recyclable (enoughRecyclable recyclable)
        recyclable, noted]
      by_cases other : (decodeFixed32 (reader.buffer.drop 7)).toUInt64 ≠
          reader.logNumber
      · rw [if_pos ⟨rfl, other⟩]
        exact ⟨recycled, by rw [if_pos other]⟩
      · rw [if_neg (by tauto), if_neg other]
        exact takeRecord_takes { reader with recycled := recycled } _ _ (by omega)
          (by dsimp only; omega)

/-- Without a complete header, and with nothing left to fetch, the call ends. -/
theorem readPhysicalRecord_nothing_left
    (incomplete : needsMore reader.buffer = true)
    (noMore : (!reader.eof && !reader.readError) = false) :
    (reader.readPhysicalRecord GrowingFile.sequentialFile d).code = kEof ∨
      (reader.readPhysicalRecord GrowingFile.sequentialFile d).code =
        kBadHeader := by
  have stop (reader : Reader GrowingFile)
      (noMore : (!reader.eof && !reader.readError) = false) :
      ∃ error dropped next,
        reader.readMore GrowingFile.sequentialFile d =
            .stop error dropped next ∧
          (error = kEof ∨ error = kBadHeader) := by
    unfold readMore
    rw [if_neg (by simp [noMore])]
    split
    · exact ⟨_, _, _, rfl, .inr rfl⟩
    · exact ⟨_, _, _, rfl, .inl rfl⟩
  by_cases short : reader.buffer.length < kHeaderSize
  · obtain ⟨error, dropped, next, stopped, isEnd⟩ := stop reader noMore
    rw [readPhysicalRecord_of_stop short stopped]
    exact isEnd
  · simp only [needsMore, decide_eq_false short, Bool.false_or,
      Bool.and_eq_true, decide_eq_true_eq] at incomplete
    obtain ⟨recycled, noted⟩ := noteRecycled_eq reader
    obtain ⟨error, dropped, next, stopped, isEnd⟩ :=
      stop reader.noteRecycled (by rw [noted]; exact noMore)
    rw [readPhysicalRecord_of_recyclable_stop (Nat.not_lt.mp short) incomplete.1
      incomplete.2 stopped]
    exact isEnd

/-- Without a complete header the next block is fetched. -/
theorem readPhysicalRecord_fetch
    (incomplete : needsMore reader.buffer = true)
    (live : (!reader.eof && !reader.readError) = true)
    (atRest : reader.file.arrivals = []) :
    ∃ next : Reader GrowingFile,
      reader.readPhysicalRecord GrowingFile.sequentialFile d =
          next.readPhysicalRecord GrowingFile.sequentialFile d ∧
        next.buffer = reader.file.unread.take kBlockSize ∧
        next.file.unread = reader.file.unread.drop kBlockSize ∧
        next.file.arrivals = [] ∧
        next.logNumber = reader.logNumber ∧
        next.readError = false ∧
        (next.eof = true ∨ next.buffer.length = kBlockSize) := by
  simp only [Bool.and_eq_true, Bool.not_eq_true'] at live
  have fetched (recycled : Bool) :
      let next := ({ reader with recycled := recycled } :
        Reader GrowingFile).refill
      next.buffer = reader.file.unread.take kBlockSize ∧
        next.file.unread = reader.file.unread.drop kBlockSize ∧
        next.file.arrivals = [] ∧
        next.logNumber = reader.logNumber ∧
        next.readError = false ∧
        (next.eof = true ∨ next.buffer.length = kBlockSize) := by
    simp only [refill, GrowingFile.arrive_of_atRest atRest]
    refine ⟨trivial, ?_, atRest, trivial, live.2, ?_⟩
    · simp only [GrowingFile.unread, List.length_take, List.length_drop]
      rw [← List.drop_drop]
      rcases Nat.le_total kBlockSize
        (reader.file.contents.length - reader.file.pos) with full | partly
      · rw [Nat.min_eq_left full]
      · rw [Nat.min_eq_right partly, List.drop_of_length_le,
          List.drop_of_length_le]
        · simpa using partly
        · simp
    · simp only [decide_eq_true_eq, List.length_take]
      omega
  by_cases short : reader.buffer.length < kHeaderSize
  · refine ⟨reader.refill, ?_, fetched reader.recycled⟩
    exact readPhysicalRecord_refill reader d live.1 live.2 short
  · simp only [needsMore, decide_eq_false short, Bool.false_or,
      Bool.and_eq_true, decide_eq_true_eq] at incomplete
    obtain ⟨recycled, noted⟩ := noteRecycled_eq reader
    refine ⟨{ reader with recycled := recycled }.refill, ?_, fetched recycled⟩
    apply readPhysicalRecord_of_recyclable_more (Nat.not_lt.mp short)
      incomplete.1 incomplete.2
    rw [noted]
    exact readMore_refill _ d live.1 live.2

theorem needsMore_of_block
    {buffer : Bytes}
    (full : buffer.length = kBlockSize) : needsMore buffer = false := by
  have block := kBlockSize_eq
  have header := kHeaderSize_eq
  have recyclable := kRecyclableHeaderSize_eq
  simp only [needsMore, Bool.or_eq_false_iff, Bool.and_eq_false_iff,
    decide_eq_false_iff_not]
  exact ⟨by omega, .inr (by omega)⟩

/-- A reader that holds the header of another log's record keeps it. -/
theorem facesOtherLog_of_complete
    (complete : needsMore reader.buffer = false) :
    reader.facesOtherLog = (isRecyclableType (headerType reader.buffer) &&
      decide ((decodeFixed32 (reader.buffer.drop 7)).toUInt64 ≠
        reader.logNumber)) := by
  simp [facesOtherLog, front, complete]

/-- What `ReadPhysicalRecord` does with arbitrary bytes: it stays in front of a
record of another log, it meets the end of the file, or it takes bytes. -/
def SalvageOutcome
    (reader : Reader GrowingFile)
    (result : PhysicalRead GrowingFile) : Prop :=
  if reader.facesOtherLog then
    result.code = kOldRecord ∧ result.reader.facesOtherLog = true ∧
      result.reader.file.arrivals = []
  else
    result.code = kEof ∨ result.code = kBadHeader ∨
      Takes reader result.reader ∧ result.reader.remaining < reader.remaining ∧
        result.reader.file.arrivals = []

theorem salvageOutcome_of_complete
    (dropSize : Nat)
    (atRest : reader.file.arrivals = [])
    (complete : needsMore reader.buffer = false) :
    SalvageOutcome reader
      (reader.readPhysicalRecord GrowingFile.sequentialFile dropSize) := by
  have physical := readPhysicalRecord_complete_header (d := dropSize) complete
  have faces := facesOtherLog_of_complete complete
  generalize reader.readPhysicalRecord GrowingFile.sequentialFile dropSize =
    result at physical ⊢
  unfold SalvageOutcome
  by_cases other : isRecyclableType (headerType reader.buffer) ∧
      (decodeFixed32 (reader.buffer.drop 7)).toUInt64 ≠ reader.logNumber
  · obtain ⟨recycled, resultEq⟩ := (if_pos other).mp physical
    have isOther : reader.facesOtherLog = true := by simp [faces, other]
    rw [if_pos isOther, resultEq]
    exact ⟨rfl, isOther, atRest⟩
  · obtain ⟨sameFile, shorter⟩ := (if_neg other).mp physical
    have notOther : ¬reader.facesOtherLog = true := by
      rw [faces]
      simpa using other
    rw [if_neg notOther]
    refine .inr (.inr ⟨.inr ⟨by rw [sameFile], shorter⟩, ?_, ?_⟩)
    · unfold remaining
      rw [sameFile]
      omega
    · rw [sameFile]
      exact atRest

theorem salvageOutcome
    (dropSize : Nat)
    (atRest : reader.file.arrivals = []) :
    SalvageOutcome reader
      (reader.readPhysicalRecord GrowingFile.sequentialFile dropSize) := by
  cases incomplete : needsMore reader.buffer with
  | false => exact salvageOutcome_of_complete dropSize atRest incomplete
  | true =>
      cases live : !reader.eof && !reader.readError with
      | false =>
          have notOther : reader.facesOtherLog = false := by
            simp [facesOtherLog, front, incomplete, live]
          unfold SalvageOutcome
          rw [notOther]
          rcases readPhysicalRecord_nothing_left incomplete live with isEof | bad
          · exact .inl isEof
          · exact .inr (.inl bad)
      | true =>
          obtain ⟨next, same, buffer, unread, nextAtRest, number, noError, size⟩ :=
            readPhysicalRecord_fetch (d := dropSize) incomplete live atRest
          have frontEq : reader.front = next.buffer := by
            simp [front, incomplete, live, buffer]
          rw [same]
          cases incompleteNext : needsMore next.buffer with
          | true =>
              -- Only the last block of the file can be that short.
              have noMore : (!next.eof && !next.readError) = false := by
                rcases size with isEof | full
                · simp [isEof]
                · rw [needsMore_of_block full] at incompleteNext
                  cases incompleteNext
              have notOther : reader.facesOtherLog = false := by
                simp [facesOtherLog, frontEq, incompleteNext]
              unfold SalvageOutcome
              rw [notOther]
              rcases readPhysicalRecord_nothing_left incompleteNext noMore with
                isEof | bad
              · exact .inl isEof
              · exact .inr (.inl bad)
          | false =>
              have outcome := salvageOutcome_of_complete dropSize nextAtRest
                incompleteNext
              have faces : next.facesOtherLog = reader.facesOtherLog := by
                rw [facesOtherLog_of_complete incompleteNext]
                simp [facesOtherLog, frontEq, incompleteNext, number]
              have sizes : next.remaining = reader.file.unread.length := by
                have split := congrArg List.length
                  (List.take_append_drop kBlockSize reader.file.unread)
                rw [List.length_append] at split
                unfold remaining
                rw [buffer, unread]
                exact split
              have fetched : next.file.unread.length <
                  reader.file.unread.length := by
                have header := kHeaderSize_eq
                have enough := (needsMore_eq_false incompleteNext).1
                unfold remaining at sizes
                omega
              unfold SalvageOutcome at outcome ⊢
              rw [faces] at outcome
              cases other : reader.facesOtherLog with
              | true =>
                  rw [other] at outcome
                  exact outcome
              | false =>
                  rw [other] at outcome
                  rcases outcome with isEof | bad | ⟨takes, fewer, stillAtRest⟩
                  · exact .inl isEof
                  · exact .inr (.inl bad)
                  · refine .inr (.inr ⟨.inl ?_, ?_, stillAtRest⟩)
                    · rcases takes with fewerUnread | ⟨sameUnread, -⟩
                      · omega
                      · rw [sameUnread]
                        exact fetched
                    · have whole : reader.remaining =
                          reader.buffer.length + reader.file.unread.length := rfl
                      omega

end Physical

/-! ## The loop of `ReadRecord` -/

section Loop

variable {φ : Type}

theorem reader_report (assembly : Assembly φ) (bytes : Nat) (reason : String) :
    ∃ reporter, (assembly.report bytes reason).reader =
      { assembly.reader with reporter := reporter } :=
  reportDrop_eq assembly.reader bytes (.Corruption reason)

theorem reader_interrupt (assembly : Assembly φ) :
    ∃ reporter, assembly.interrupt.reader =
      { assembly.reader with reporter := reporter } := by
  unfold Assembly.interrupt
  split
  · exact reader_report assembly _ _
  · exact ⟨_, rfl⟩

/-- At the end of the file the call returns. -/
theorem handle_of_end
    (mode : WALRecoveryMode)
    (assembly next : Assembly φ)
    (offset : UInt64)
    {physical : PhysicalRead φ}
    (ends : physical.code = kEof ∨ physical.code = kBadHeader) :
    handle mode assembly offset physical ≠ .inl next := by
  rcases ends with isEof | bad
  · simp [handle, isEof, kEof, kBadHeader, kMaxRecordType, RecordType.code]
  · simp [handle, bad, kBadHeader, kMaxRecordType, RecordType.code]

/-- If the loop goes on, it does so with this reader, but for the reporter. -/
def GoesOnWith (reader : Reader φ) (result : Assembly φ ⊕ ReadResult φ) : Prop :=
  ∀ next, result = .inl next →
    ∃ reporter, next.reader = { reader with reporter := reporter }

theorem goesOnWith_inl
    {reader : Reader φ}
    {next : Assembly φ}
    (same : ∃ reporter, next.reader = { reader with reporter := reporter }) :
    GoesOnWith reader (.inl next) := by
  intro other isNext
  cases isNext
  exact same

theorem goesOnWith_inr (reader : Reader φ) (result : ReadResult φ) :
    GoesOnWith reader (.inr result) := nofun

theorem goesOnWith_ite
    {reader : Reader φ}
    {condition : Prop}
    [Decidable condition]
    {yes no : Assembly φ ⊕ ReadResult φ}
    (ifYes : GoesOnWith reader yes)
    (ifNo : GoesOnWith reader no) :
    GoesOnWith reader (if condition then yes else no) := by
  split
  · exact ifYes
  · exact ifNo

/-- The `switch` of `ReadRecord` touches nothing of the reader but the
reporter. -/
theorem goesOnWith_handle
    (mode : WALRecoveryMode)
    (assembly : Assembly φ)
    (offset : UInt64)
    (physical : PhysicalRead φ) :
    GoesOnWith physical.reader (handle mode assembly offset physical) := by
  unfold handle
  generalize taken : ({ assembly with reader := physical.reader } : Assembly φ) =
    started
  have readerEq : started.reader = physical.reader := by rw [← taken]
  have reports (bytes : Nat) (reason : String) := reader_report started bytes reason
  have interrupts := reader_interrupt started
  rw [readerEq] at interrupts
  simp only [readerEq] at reports
  dsimp only
  refine goesOnWith_ite (goesOnWith_inr _ _) ?_
  refine goesOnWith_ite (goesOnWith_inl ?_) ?_
  · obtain ⟨reporter, same, -⟩ := reportIf_eq started
      (started.inFragmentedRecord && !started.scratch.isEmpty)
      started.scratch.length "partial record without end(2)"
    exact ⟨reporter, by rw [same, readerEq]⟩
  refine goesOnWith_ite (goesOnWith_ite (goesOnWith_inl (reports _ _))
    (goesOnWith_inl ⟨_, readerEq⟩)) ?_
  refine goesOnWith_ite (goesOnWith_ite (goesOnWith_inl (reports _ _))
    (goesOnWith_inr _ _)) ?_
  refine goesOnWith_ite (goesOnWith_inr _ _) ?_
  refine goesOnWith_ite (goesOnWith_inr _ _) ?_
  refine goesOnWith_ite (goesOnWith_ite (goesOnWith_inr _ _)
    (goesOnWith_inl interrupts)) ?_
  refine goesOnWith_ite (goesOnWith_inl interrupts) ?_
  refine goesOnWith_ite (goesOnWith_ite (goesOnWith_inr _ _)
    (goesOnWith_inl ?_)) (goesOnWith_inl (reports _ _))
  obtain ⟨reporter, reported⟩ := reports physical.dropSize
    (if physical.code = kBadRecordLen then "bad record length"
      else "checksum mismatch")
  obtain ⟨reporter', interrupted⟩ := reader_interrupt (started.report
    physical.dropSize (if physical.code = kBadRecordLen then "bad record length"
      else "checksum mismatch"))
  exact ⟨reporter', by rw [interrupted, reported]⟩

theorem handle_oldRecord
    (assembly : Assembly φ)
    (offset : UInt64)
    {physical : PhysicalRead φ}
    (old : physical.code = kOldRecord) :
    ∃ next,
      handle .skipAnyCorruptedRecords assembly offset physical = .inl next := by
  refine ⟨{ assembly with reader := physical.reader }.interrupt, ?_⟩
  simp [handle, old, kOldRecord, kEof, kBadHeader, kMaxRecordType,
    RecordType.code]

end Loop

section Salvage

variable {assembly next : Assembly GrowingFile}

/-- The loop cannot leave a record of another log. -/
theorem step_of_facesOtherLog
    (atRest : assembly.reader.file.arrivals = [])
    (faces : assembly.reader.facesOtherLog = true) :
    ∃ next,
      readRecordStep GrowingFile.sequentialFile .skipAnyCorruptedRecords
          assembly = .inl next ∧
        next.reader.file.arrivals = [] ∧
        next.reader.facesOtherLog = true := by
  have outcome := salvageOutcome 0 atRest
  unfold SalvageOutcome at outcome
  rw [if_pos faces] at outcome
  obtain ⟨old, still, stillAtRest⟩ := outcome
  obtain ⟨next, handled⟩ :=
    handle_oldRecord assembly assembly.reader.bufferOffset old
  obtain ⟨reporter, same⟩ := goesOnWith_handle _ _ _ _ next handled
  refine ⟨next, handled, ?_, ?_⟩
  · rw [same]
    exact stillAtRest
  · rw [same]
    exact still

theorem readRecordLoop_of_facesOtherLog
    (atRest : assembly.reader.file.arrivals = [])
    (faces : assembly.reader.facesOtherLog = true)
    (fuel : Nat) :
    readRecordLoop GrowingFile.sequentialFile .skipAnyCorruptedRecords fuel
      assembly = none := by
  induction fuel generalizing assembly with
  | zero => rfl
  | succ fuel inductionHypothesis =>
      obtain ⟨next, step, stillAtRest, still⟩ := step_of_facesOtherLog atRest faces
      rw [readRecordLoop, step]
      exact inductionHypothesis stillAtRest still

/-- In front of anything else, the loop takes bytes or returns. -/
theorem step_takes
    (atRest : assembly.reader.file.arrivals = [])
    (faces : assembly.reader.facesOtherLog = false)
    (step : readRecordStep GrowingFile.sequentialFile .skipAnyCorruptedRecords
      assembly = .inl next) :
    Takes assembly.reader next.reader ∧
      next.reader.remaining < assembly.reader.remaining ∧
      next.reader.file.arrivals = [] := by
  have outcome := salvageOutcome 0 atRest
  unfold SalvageOutcome at outcome
  rw [if_neg (by simp [faces])] at outcome
  obtain ⟨reporter, same⟩ := goesOnWith_handle _ _ _ _ next step
  rcases outcome with isEof | bad | takes
  · exact absurd step (handle_of_end _ _ _ _ (.inl isEof))
  · exact absurd step (handle_of_end _ _ _ _ (.inr bad))
  · rw [same]
    exact takes

/-- Along the loop the file stays at rest. -/
theorem step_atRest
    (atRest : assembly.reader.file.arrivals = [])
    (step : readRecordStep GrowingFile.sequentialFile .skipAnyCorruptedRecords
      assembly = .inl next) : next.reader.file.arrivals = [] := by
  cases faces : assembly.reader.facesOtherLog with
  | false => exact (step_takes atRest faces step).2.2
  | true =>
      obtain ⟨other, step', atRest', -⟩ := step_of_facesOtherLog atRest faces
      rw [step] at step'
      cases step'
      exact atRest'

theorem Steps.atRest
    (steps : Steps GrowingFile.sequentialFile .skipAnyCorruptedRecords assembly []
      next)
    (atRest : assembly.reader.file.arrivals = []) :
    next.reader.file.arrivals = [] := by
  generalize none : ([] : List Bytes) = records at steps
  induction steps with
  | refl => exact atRest
  | record => cases none
  | next step _ inductionHypothesis =>
      exact inductionHypothesis (step_atRest atRest step) none

/-- As long as the loop does not get to a record of another log, it returns. -/
theorem readRecordLoop_returns
    (atRest : assembly.reader.file.arrivals = [])
    (clear : ∀ reached,
      Steps GrowingFile.sequentialFile .skipAnyCorruptedRecords assembly []
        reached → reached.reader.facesOtherLog = false) :
    ∃ fuel result,
      readRecordLoop GrowingFile.sequentialFile .skipAnyCorruptedRecords fuel
        assembly = some result := by
  generalize size : assembly.reader.remaining = count
  induction count using Nat.strong_induction_on generalizing assembly with
  | _ count inductionHypothesis =>
      cases step : readRecordStep GrowingFile.sequentialFile
          .skipAnyCorruptedRecords assembly with
      | inr result => exact ⟨1, result, by simp [readRecordLoop, step]⟩
      | inl next =>
          obtain ⟨-, fewer, stillAtRest⟩ :=
            step_takes atRest (clear assembly (.refl _)) step
          obtain ⟨fuel, result, run⟩ := inductionHypothesis _ (size ▸ fewer)
            stillAtRest (fun reached steps => clear reached (.next step steps)) rfl
          exact ⟨fuel + 1, result, by simp [readRecordLoop, step, run]⟩

/-- A loop that gets to a record of another log never returns. -/
theorem readRecordLoop_of_steps
    (steps : Steps GrowingFile.sequentialFile .skipAnyCorruptedRecords assembly []
      next)
    (atRest : assembly.reader.file.arrivals = [])
    (faces : next.reader.facesOtherLog = true)
    (fuel : Nat) :
    readRecordLoop GrowingFile.sequentialFile .skipAnyCorruptedRecords fuel
      assembly = none := by
  generalize none : ([] : List Bytes) = records at steps
  induction steps generalizing fuel with
  | refl => exact readRecordLoop_of_facesOtherLog atRest faces fuel
  | record => cases none
  | next step steps inductionHypothesis =>
      cases fuel with
      | zero => rfl
      | succ fuel =>
          rw [readRecordLoop, step]
          exact inductionHypothesis (step_atRest atRest step) faces fuel none

/-- The state in which a call of `ReadRecord` enters its loop. -/
def loopStart (reader : Reader GrowingFile) : Assembly GrowingFile :=
  startAssembly
    (if reader.lastRecordOffset < reader.initialOffset then
      (reader.skipToInitialBlock GrowingFile.sequentialFile).2
    else reader)

theorem skipToInitialBlock_atRest
    (reader : Reader GrowingFile)
    (atRest : reader.file.arrivals = []) :
    (reader.skipToInitialBlock GrowingFile.sequentialFile).1 = true ∧
      (reader.skipToInitialBlock
        GrowingFile.sequentialFile).2.file.arrivals = [] := by
  unfold skipToInitialBlock
  dsimp only
  generalize (if UInt64.ofNat kBlockSize - 6 <
      reader.initialOffset % UInt64.ofNat kBlockSize then
    reader.initialOffset - reader.initialOffset % UInt64.ofNat kBlockSize +
      UInt64.ofNat kBlockSize
    else reader.initialOffset - reader.initialOffset %
      UInt64.ofNat kBlockSize) = location
  by_cases skips : 0 < location
  · simp [skips, GrowingFile.sequentialFile, GrowingFile.skip, atRest]
  · simp [skips, atRest]

theorem readRecord_eq_loopStart
    (reader : Reader GrowingFile)
    (atRest : reader.file.arrivals = [])
    (mode : WALRecoveryMode)
    (fuel : Nat) :
    reader.readRecord GrowingFile.sequentialFile mode fuel =
      readRecordLoop GrowingFile.sequentialFile mode fuel reader.loopStart := by
  unfold readRecord loopStart
  split
  · simp [(skipToInitialBlock_atRest reader atRest).1]
  · rfl

theorem loopStart_atRest
    (reader : Reader GrowingFile)
    (atRest : reader.file.arrivals = []) :
    reader.loopStart.reader.file.arrivals = [] := by
  unfold loopStart
  rw [Assembly.reader_startAssembly]
  split
  · exact (skipToInitialBlock_atRest reader atRest).2
  · exact atRest

/-- Over any bytes, from any state of the reader, `ReadRecord` in
`kSkipAnyCorruptedRecords` returns, taking bytes at every step, exactly when its
loop does not come to stand in front of a recyclable record of another log. -/
theorem readRecord_salvage_iff
    (reader : Reader GrowingFile)
    (atRest : reader.file.arrivals = []) :
    ((∃ fuel result,
        reader.readRecord GrowingFile.sequentialFile .skipAnyCorruptedRecords
          fuel = some result) ∧
      ∀ assembly next,
        Steps GrowingFile.sequentialFile .skipAnyCorruptedRecords
          reader.loopStart [] assembly →
        readRecordStep GrowingFile.sequentialFile .skipAnyCorruptedRecords
          assembly = .inl next →
        Takes assembly.reader next.reader) ↔
      ∀ assembly,
        Steps GrowingFile.sequentialFile .skipAnyCorruptedRecords
          reader.loopStart [] assembly →
        assembly.reader.facesOtherLog = false := by
  have started := loopStart_atRest reader atRest
  constructor
  · rintro ⟨⟨fuel, result, returned⟩, -⟩ assembly steps
    cases faces : assembly.reader.facesOtherLog with
    | false => rfl
    | true =>
        rw [readRecord_eq_loopStart reader atRest,
          readRecordLoop_of_steps steps started faces] at returned
        cases returned
  · intro clear
    refine ⟨?_, fun assembly next steps step => ?_⟩
    · obtain ⟨fuel, result, returned⟩ := readRecordLoop_returns started clear
      exact ⟨fuel, result, by
        rw [readRecord_eq_loopStart reader atRest, returned]⟩
    · exact (step_takes (steps.atRest started) (clear assembly steps) step).1

/-- A log file that starts with a record of the log it was used for before. -/
def recycledFile : Bytes := [0, 0, 0, 0, 0, 0, 5, 1, 0, 0, 0]

theorem readRecord_salvage_hangs :
    ¬∃ fuel result,
      (Reader.new (GrowingFile.atRest recycledFile) none true 0 7).readRecord
        GrowingFile.sequentialFile .skipAnyCorruptedRecords fuel = some result := by
  rintro ⟨fuel, result, returned⟩
  rw [readRecord_eq_loopStart _ rfl,
    readRecordLoop_of_facesOtherLog rfl (by decide +kernel) fuel] at returned
  cases returned

theorem readRecord_salvage_iff_recycledFile :
    ¬((∃ fuel result,
        (Reader.new (GrowingFile.atRest recycledFile) none true 0 7).readRecord
          GrowingFile.sequentialFile .skipAnyCorruptedRecords fuel =
            some result) ∧
      ∀ assembly next,
        Steps GrowingFile.sequentialFile .skipAnyCorruptedRecords
          (Reader.new (GrowingFile.atRest recycledFile) none true 0 7).loopStart
          [] assembly →
        readRecordStep GrowingFile.sequentialFile .skipAnyCorruptedRecords
          assembly = .inl next →
        Takes assembly.reader next.reader) := by
  rw [readRecord_salvage_iff
    (Reader.new (GrowingFile.atRest recycledFile) none true 0 7) rfl]
  intro clear
  have faces := clear _ (.refl _)
  exact absurd faces (by decide +kernel)

end Salvage

end Reader
end Log
end RocksUtil
