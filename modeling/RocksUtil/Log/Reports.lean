import RocksUtil.Log.Recovery

/-!
# What the reader reports

A reader never takes a report back: whatever it does, the calls its reporter has
received stay, and only further ones are added (`Reads.reported`).
-/

namespace RocksUtil
namespace Log

/-- From `before` to `after` the reporter may have received further calls. -/
structure Reported (before after : Option (List Report)) : Prop where
  isSome : after.isSome = before.isSome
  reports : before.getD [] <+: after.getD []

namespace Reported

theorem refl (reporter : Option (List Report)) : Reported reporter reporter :=
  ⟨rfl, List.prefix_rfl⟩

theorem trans
    {first second third : Option (List Report)}
    (left : Reported first second)
    (right : Reported second third) : Reported first third :=
  ⟨right.isSome.trans left.isSome, left.reports.trans right.reports⟩

/-- Without more reports the reporter is the same. -/
theorem eq_of_length_le
    {before after : Option (List Report)}
    (reported : Reported before after)
    (notMore : (after.getD []).length ≤ (before.getD []).length) : after = before := by
  have same := reported.reports.eq_of_length_le notMore
  have isSome := reported.isSome
  cases before <;> cases after <;> simp_all

end Reported

namespace Reader

variable {φ : Type}

/-- The calls of `Reporter::Corruption` so far. -/
def reports (reader : Reader φ) : List Report := reader.reporter.getD []

/-- One call adds one report at most. -/
theorem length_reports_reportDrop (reader : Reader φ) (bytes : Nat) (reason : Status) :
    (reader.reportDrop bytes reason).reports.length ≤ reader.reports.length + 1 := by
  unfold reportDrop
  split
  · exact Nat.le_succ _
  · rename_i calls reporter
    split
    · simp [reports, reporter]
    · exact Nat.le_succ _

/-- Reading from the start of the file, every drop is added to the reports. -/
theorem reports_reportDrop
    {reader : Reader φ}
    (fromStart : reader.initialOffset = 0)
    (heard : reader.reporter.isSome)
    (bytes : Nat)
    (reason : Status) :
    (reader.reportDrop bytes reason).reports =
      reader.reports ++ [⟨bytes, reason⟩] := by
  obtain ⟨calls, reporter⟩ := Option.isSome_iff_exists.mp heard
  rw [reports, reportDrop_of_fromStart fromStart bytes reason reporter, reports,
    reporter]
  rfl

theorem reportDrop_reported (reader : Reader φ) (bytes : Nat) (reason : Status) :
    Reported reader.reporter (reader.reportDrop bytes reason).reporter := by
  unfold reportDrop
  split
  · exact .refl _
  · rename_i calls reporter
    split
    · exact ⟨by rw [reporter]; rfl, by simp [reporter]⟩
    · exact .refl _

/-! ## Reading a physical record -/

/-- The reader `ReadMore` leaves. -/
def MoreResult.reader : MoreResult φ → Reader φ
  | .more next => next
  | .stop _ _ next => next

theorem readMore_reported
    (F : SequentialFile φ)
    (reader : Reader φ)
    (dropSize : Nat) :
    Reported reader.reporter (reader.readMore F dropSize).reader.reporter := by
  unfold readMore
  split
  · dsimp only
    split
    · exact reportDrop_reported { reader with
        file := (F.read kBlockSize reader.file).2
        buffer := []
        endOfBufferOffset := reader.endOfBufferOffset +
          UInt64.ofNat (F.read kBlockSize reader.file).1.2.length } _ _
    · split <;> exact .refl _
  · split <;> exact .refl _

theorem reporter_noteRecycled (reader : Reader φ) :
    reader.noteRecycled.reporter = reader.reporter := by
  unfold noteRecycled
  split <;> rfl

theorem reporter_takeRecord
    (reader : Reader φ)
    (headerSize type length dropSize : Nat) :
    (reader.takeRecord headerSize type length dropSize).reader.reporter =
      reader.reporter := by
  unfold takeRecord
  dsimp only
  split_ifs <;> rfl

theorem readPhysicalRecord_reported
    (F : SequentialFile φ)
    (reader : Reader φ)
    (dropSize : Nat) :
    Reported reader.reporter
      (reader.readPhysicalRecord F dropSize).reader.reporter := by
  fun_induction readPhysicalRecord F reader dropSize with
  | case1 reader short error dropped next more =>
      have step := readMore_reported F reader dropSize
      rw [more] at step
      exact step
  | case2 reader short next more inductionHypothesis =>
      have step := readMore_reported F reader dropSize
      rw [more] at step
      exact step.trans inductionHypothesis
  | case3 reader _ _ _ _ _ error dropped next more =>
      have step := readMore_reported F reader.noteRecycled dropSize
      rw [reporter_noteRecycled, more] at step
      exact step
  | case4 reader _ _ _ _ _ next more inductionHypothesis =>
      have step := readMore_reported F reader.noteRecycled dropSize
      rw [reporter_noteRecycled, more] at step
      exact step.trans inductionHypothesis
  | case5 reader =>
      rw [reporter_noteRecycled]
      exact .refl _
  | case6 reader =>
      rw [reporter_takeRecord, reporter_noteRecycled]
      exact .refl _
  | case7 reader =>
      rw [reporter_takeRecord]
      exact .refl _

/-! ## Assembling records -/

theorem report_reported (assembly : Assembly φ) (bytes : Nat) (reason : String) :
    Reported assembly.reader.reporter
      (assembly.report bytes reason).reader.reporter :=
  reportDrop_reported assembly.reader bytes (.Corruption reason)

theorem reportIf_reported
    (assembly : Assembly φ)
    (condition : Bool)
    (bytes : Nat)
    (reason : String) :
    Reported assembly.reader.reporter
      (assembly.reportIf condition bytes reason).reader.reporter := by
  unfold Assembly.reportIf
  split
  · exact report_reported assembly bytes reason
  · exact .refl _

theorem interrupt_reported (assembly : Assembly φ) :
    Reported assembly.reader.reporter assembly.interrupt.reader.reporter := by
  unfold Assembly.interrupt
  split
  · exact report_reported assembly _ _
  · exact .refl _

theorem finish_reported (assembly : Assembly φ) (mode : WALRecoveryMode) :
    Reported assembly.reader.reporter
      (assembly.finish mode).reader.reporter :=
  reportIf_reported assembly _ _ _

/-- The reader behind a step of the loop of `ReadRecord`. -/
def stepReader : Assembly φ ⊕ ReadResult φ → Reader φ :=
  Sum.elim Assembly.reader ReadResult.reader

theorem stepReader_ite
    {before : Option (List Report)}
    {condition : Prop}
    [Decidable condition]
    {yes no : Assembly φ ⊕ ReadResult φ}
    (ifYes : Reported before (stepReader yes).reporter)
    (ifNo : Reported before (stepReader no).reporter) :
    Reported before (stepReader (if condition then yes else no)).reporter := by
  split
  · exact ifYes
  · exact ifNo

theorem handle_reported
    (mode : WALRecoveryMode)
    (assembly : Assembly φ)
    (offset : UInt64)
    (physical : PhysicalRead φ) :
    Reported physical.reader.reporter
      (stepReader (handle mode assembly offset physical)).reporter := by
  unfold handle
  generalize taken : ({ assembly with reader := physical.reader } : Assembly φ) =
    started
  have readerEq : physical.reader = started.reader := by rw [← taken]
  rw [readerEq]
  have reports (bytes : Nat) (reason : String) :=
    report_reported started bytes reason
  have reportsIf (condition : Bool) (bytes : Nat) (reason : String) :=
    reportIf_reported started condition bytes reason
  have finishes := finish_reported started mode
  have interrupts := interrupt_reported started
  dsimp only
  refine stepReader_ite (reportsIf _ _ _) ?_
  refine stepReader_ite (reportsIf _ _ _) ?_
  refine stepReader_ite (stepReader_ite (reports _ _) (.refl _)) ?_
  refine stepReader_ite (stepReader_ite (reports _ _) (.refl _)) ?_
  refine stepReader_ite ((reportsIf _ _ _).trans (finish_reported _ _)) ?_
  refine stepReader_ite finishes ?_
  refine stepReader_ite (stepReader_ite finishes interrupts) ?_
  refine stepReader_ite interrupts ?_
  refine stepReader_ite (stepReader_ite (.refl _) ?_) (reports _ _)
  exact (reports _ _).trans (interrupt_reported _)

theorem readRecordStep_reported
    {F : SequentialFile φ}
    {mode : WALRecoveryMode}
    {assembly : Assembly φ}
    {result : Assembly φ ⊕ ReadResult φ}
    (step : readRecordStep F mode assembly = result) :
    Reported assembly.reader.reporter (stepReader result).reporter := by
  rw [← step]
  exact (readPhysicalRecord_reported F assembly.reader 0).trans
    (handle_reported mode assembly _ _)

/-- The second reader differs from the first in what was reported and in the offset
of the last record only. -/
def Alike (before after : Reader φ) : Prop :=
  ∃ reporter recordOffset,
    after = { before with reporter := reporter, lastRecordOffset := recordOffset }

theorem Alike.refl (reader : Reader φ) : Alike reader reader :=
  ⟨reader.reporter, reader.lastRecordOffset, rfl⟩

theorem Alike.trans
    {first second third : Reader φ}
    (left : Alike first second)
    (right : Alike second third) : Alike first third := by
  obtain ⟨_, _, rfl⟩ := left
  obtain ⟨reporter, recordOffset, rfl⟩ := right
  exact ⟨reporter, recordOffset, rfl⟩

theorem alike_report (assembly : Assembly φ) (bytes : Nat) (reason : String) :
    Alike assembly.reader (assembly.report bytes reason).reader := by
  obtain ⟨reporter, reported⟩ := reportDrop_eq assembly.reader bytes
    (.Corruption reason)
  exact ⟨reporter, assembly.reader.lastRecordOffset, reported⟩

theorem alike_reportIf
    (assembly : Assembly φ)
    (condition : Bool)
    (bytes : Nat)
    (reason : String) :
    Alike assembly.reader (assembly.reportIf condition bytes reason).reader := by
  unfold Assembly.reportIf
  split
  · exact alike_report assembly bytes reason
  · exact .refl _

theorem alike_interrupt (assembly : Assembly φ) :
    Alike assembly.reader assembly.interrupt.reader := by
  unfold Assembly.interrupt
  split
  · exact alike_report assembly _ _
  · exact .refl _

theorem alike_finish (assembly : Assembly φ) (mode : WALRecoveryMode) :
    Alike assembly.reader (assembly.finish mode).reader :=
  alike_reportIf assembly _ _ _

theorem alike_complete
    {reader : Reader φ}
    {assembly : Assembly φ}
    (alike : Alike reader assembly.reader)
    (record : Bytes)
    (offset : UInt64) :
    Alike reader (assembly.complete record offset).reader := by
  obtain ⟨reporter, recordOffset, same⟩ := alike
  refine ⟨reporter, offset, ?_⟩
  rw [Assembly.complete, same]

theorem alike_ite
    {before : Reader φ}
    {condition : Prop}
    [Decidable condition]
    {yes no : Assembly φ ⊕ ReadResult φ}
    (ifYes : Alike before (stepReader yes))
    (ifNo : Alike before (stepReader no)) :
    Alike before (stepReader (if condition then yes else no)) := by
  split
  · exact ifYes
  · exact ifNo

/-- Whatever `ReadRecord` does about a physical record, it leaves the input
alone. -/
theorem alike_handle
    (mode : WALRecoveryMode)
    (assembly : Assembly φ)
    (offset : UInt64)
    (physical : PhysicalRead φ) :
    Alike physical.reader (stepReader (handle mode assembly offset physical)) := by
  unfold handle
  generalize taken : ({ assembly with reader := physical.reader } : Assembly φ) =
    started
  have readerEq : physical.reader = started.reader := by rw [← taken]
  rw [readerEq]
  have reports (bytes : Nat) (reason : String) := alike_report started bytes reason
  have reportsIf (condition : Bool) (bytes : Nat) (reason : String) :=
    alike_reportIf started condition bytes reason
  have finishes := alike_finish started mode
  have interrupts := alike_interrupt started
  dsimp only
  refine alike_ite (alike_complete (reportsIf _ _ _) _ _) ?_
  refine alike_ite (reportsIf _ _ _) ?_
  refine alike_ite (alike_ite (reports _ _) (.refl _)) ?_
  refine alike_ite (alike_ite (reports _ _) (alike_complete (.refl _) _ _)) ?_
  refine alike_ite ((reportsIf _ _ _).trans (alike_finish _ _)) ?_
  refine alike_ite finishes ?_
  refine alike_ite (alike_ite finishes interrupts) ?_
  refine alike_ite interrupts ?_
  refine alike_ite (alike_ite (.refl _) ?_) (reports _ _)
  exact (reports _ _).trans (alike_interrupt _)

/-! ## Two readers in step -/

section Related

variable {R : Reader φ → Reader φ → Prop}

/-- Two readers that the `switch` of `ReadRecord` cannot tell apart stay related whatever
it does about a physical record. -/
structure Parallel (R : Reader φ → Reader φ → Prop) : Prop where
  recycled : ∀ {own whole}, R own whole → whole.recycled = own.recycled
  reports : ∀ {own whole} bytes reason, R own whole →
    R (own.reportCorruption bytes reason) (whole.reportCorruption bytes reason)
  offsets : ∀ {own whole} (offset : UInt64), R own whole →
    R { own with lastRecordOffset := offset } { whole with lastRecordOffset := offset }

/-- The loop of `ReadRecord` over either of two readers. -/
structure Assembly.Related
    (R : Reader φ → Reader φ → Prop)
    (own whole : Assembly φ) : Prop where
  readers : R own.reader whole.reader
  locals : whole = { own with reader := whole.reader }

/-- A step of the loop over either of two readers. -/
def StepRelated (R : Reader φ → Reader φ → Prop) :
    Assembly φ ⊕ ReadResult φ → Assembly φ ⊕ ReadResult φ → Prop
  | .inl own, .inl whole => Assembly.Related R own whole
  | .inr own, .inr whole =>
      R own.reader whole.reader ∧ whole = { own with reader := whole.reader }
  | _, _ => False

theorem stepRelated_ite
    {condition : Prop}
    [Decidable condition]
    {yes no wholeYes wholeNo : Assembly φ ⊕ ReadResult φ}
    (ifYes : StepRelated R yes wholeYes)
    (ifNo : StepRelated R no wholeNo) :
    StepRelated R (if condition then yes else no)
      (if condition then wholeYes else wholeNo) := by
  split
  · exact ifYes
  · exact ifNo

theorem StepRelated.readers
    {own whole : Assembly φ ⊕ ReadResult φ}
    (related : StepRelated R own whole) : R (stepReader own) (stepReader whole) := by
  cases own with
  | inl own =>
      cases whole with
      | inl whole => exact Assembly.Related.readers related
      | inr whole => exact related.elim
  | inr own =>
      cases whole with
      | inl whole => exact related.elim
      | inr whole => exact related.1

variable (parallel : Parallel R) {own whole : Assembly φ}
include parallel

theorem Assembly.Related.report
    (related : Assembly.Related R own whole)
    (bytes : Nat)
    (reason : String) :
    Assembly.Related R (own.report bytes reason) (whole.report bytes reason) := by
  obtain ⟨readers, locals⟩ := related
  refine ⟨parallel.reports bytes reason readers, ?_⟩
  rw [locals]
  rfl

theorem Assembly.Related.reportIf
    (related : Assembly.Related R own whole)
    (condition : Bool)
    (bytes : Nat)
    (reason : String) :
    Assembly.Related R (own.reportIf condition bytes reason)
      (whole.reportIf condition bytes reason) := by
  unfold Assembly.reportIf
  split
  · exact related.report parallel bytes reason
  · exact related

theorem Assembly.Related.interrupt (related : Assembly.Related R own whole) :
    Assembly.Related R own.interrupt whole.interrupt := by
  obtain ⟨readers, locals⟩ := related
  have said := Assembly.Related.report parallel ⟨readers, locals⟩ own.scratch.length
    "error in middle of record"
  have sameInFragment : whole.inFragmentedRecord = own.inFragmentedRecord := by
    rw [locals]
  have sameScratch : whole.scratch = own.scratch := by rw [locals]
  unfold Assembly.interrupt
  rw [sameInFragment, sameScratch]
  split
  · refine ⟨said.readers, ?_⟩
    rw [said.locals]
    rfl
  · exact ⟨readers, locals⟩

theorem Assembly.Related.finish
    (related : Assembly.Related R own whole)
    (mode : WALRecoveryMode) :
    StepRelated R (.inr (own.finish mode)) (.inr (whole.finish mode)) := by
  have sameInFragment : whole.inFragmentedRecord = own.inFragmentedRecord := by
    rw [related.locals]
  have sameScratch : whole.scratch = own.scratch := by rw [related.locals]
  have said := related.reportIf parallel
    (own.inFragmentedRecord && decide (mode = .absoluteConsistency)) own.scratch.length
    "error reading trailing data"
  unfold Assembly.finish
  rw [sameInFragment, sameScratch]
  exact ⟨said.readers, rfl⟩

theorem Assembly.Related.complete
    (related : Assembly.Related R own whole)
    (record : Bytes)
    (offset : UInt64) :
    StepRelated R (.inr (own.complete record offset))
      (.inr (whole.complete record offset)) :=
  ⟨parallel.offsets offset related.readers, rfl⟩

/-- Whatever `ReadRecord` does about a physical record, it does with either reader. -/
theorem handle_related
    (mode : WALRecoveryMode)
    (assembly : Assembly φ)
    (offset : UInt64)
    (code : Nat)
    (fragment : Bytes)
    (dropSize : Nat)
    {next next' : Reader φ}
    (related : R next next') :
    StepRelated R (handle mode assembly offset ⟨code, fragment, dropSize, next⟩)
      (handle mode assembly offset ⟨code, fragment, dropSize, next'⟩) := by
  have started : Assembly.Related R { assembly with reader := next }
      { assembly with reader := next' } := ⟨related, rfl⟩
  have reports (bytes : Nat) (reason : String) := started.report parallel bytes reason
  have reportsIf (condition : Bool) (bytes : Nat) (reason : String) :=
    started.reportIf parallel condition bytes reason
  have finishes := started.finish parallel mode
  have interrupts : StepRelated R (.inl (Assembly.interrupt _))
      (.inl (Assembly.interrupt _)) := started.interrupt parallel
  unfold handle
  dsimp only
  rw [parallel.recycled related]
  apply stepRelated_ite
  · exact (reportsIf _ _ _).complete parallel _ _
  apply stepRelated_ite
  · exact ⟨(reportsIf _ _ _).readers, rfl⟩
  apply stepRelated_ite
  · exact stepRelated_ite (reports _ _) ⟨related, rfl⟩
  apply stepRelated_ite
  · exact stepRelated_ite (reports _ _) (started.complete parallel _ _)
  apply stepRelated_ite
  · exact (reportsIf _ _ _).finish parallel mode
  apply stepRelated_ite finishes
  apply stepRelated_ite (stepRelated_ite finishes interrupts)
  apply stepRelated_ite interrupts
  apply stepRelated_ite
  · exact stepRelated_ite ⟨related, rfl⟩ ((reports _ _).interrupt parallel)
  · exact ⟨(reports _ _).readers, rfl⟩

end Related

/-- What reports and offsets of records leave as it is, the `switch` of `ReadRecord`
does. -/
theorem keeps_handle
    {Keeps : Reader φ → Prop}
    (reports : ∀ {reader : Reader φ} bytes reason, Keeps reader →
      Keeps (reader.reportCorruption bytes reason))
    (offsets : ∀ {reader : Reader φ} (offset : UInt64), Keeps reader →
      Keeps { reader with lastRecordOffset := offset })
    (mode : WALRecoveryMode)
    (assembly : Assembly φ)
    (offset : UInt64)
    {physical : PhysicalRead φ}
    (keeps : Keeps physical.reader) :
    Keeps (stepReader (handle mode assembly offset physical)) := by
  have parallel : Parallel fun own whole : Reader φ => Keeps own ∧ whole = own := by
    refine ⟨?_, ?_, ?_⟩
    · rintro own _ ⟨-, rfl⟩
      rfl
    · rintro own _ bytes reason ⟨kept, rfl⟩
      exact ⟨reports bytes reason kept, rfl⟩
    · rintro own _ offset ⟨kept, rfl⟩
      exact ⟨offsets offset kept, rfl⟩
  exact (handle_related parallel mode assembly offset physical.code physical.fragment
    physical.dropSize ⟨keeps, rfl⟩).readers.1

/-- Interrupting forgets the record under assembly, and reports it if there is
one. -/
theorem interrupt_eq (assembly : Assembly φ) :
    ∃ reporter,
      assembly.interrupt.reader =
          { assembly.reader with reporter := reporter } ∧
        assembly.interrupt.pending = none ∧
        (assembly.pending = none → reporter = assembly.reader.reporter) ∧
        (assembly.pending.isSome → assembly.reader.initialOffset = 0 →
          ReportsMore assembly.reader.reporter reporter) := by
  unfold Assembly.interrupt
  cases inFragment : assembly.inFragmentedRecord with
  | false =>
      refine ⟨assembly.reader.reporter, rfl, ?_, fun _ => rfl, ?_⟩
      · simp [Assembly.pending, inFragment]
      · rw [assembly.isSome_pending, inFragment]
        exact Bool.false_ne_true.elim
  | true =>
      obtain ⟨reporter, reported⟩ := reportDrop_eq assembly.reader
        assembly.scratch.length (.Corruption "error in middle of record")
      refine ⟨reporter, reported, rfl, ?_, ?_⟩
      · intro between
        simp [Assembly.pending, inFragment] at between
      · intro _ fromStart calls before
        have said := reportDrop_of_fromStart fromStart assembly.scratch.length
          (.Corruption "error in middle of record") before
        rw [reported] at said
        exact ⟨_, [], said⟩

theorem ReportsMore.length_lt
    {before after : Reader φ}
    (more : ReportsMore before.reporter after.reporter)
    (heard : before.reporter.isSome) :
    before.reports.length < after.reports.length := by
  obtain ⟨calls, reporter⟩ := Option.isSome_iff_exists.mp heard
  obtain ⟨call, rest, said⟩ := more calls reporter
  rw [reports, reports, reporter, said]
  simp

section Runs

variable {F : SequentialFile φ} {mode : WALRecoveryMode}

theorem Steps.reported
    {assembly final : Assembly φ}
    {records : List Bytes}
    (steps : Steps F mode assembly records final) :
    Reported assembly.reader.reporter final.reader.reporter := by
  induction steps with
  | refl => exact .refl _
  | record step _ _ _ inductionHypothesis =>
      exact (readRecordStep_reported step).trans inductionHypothesis
  | next step _ inductionHypothesis =>
      exact (readRecordStep_reported step).trans inductionHypothesis

theorem Reads.reported
    {assembly : Assembly φ}
    {records : List Bytes}
    {final : Reader φ}
    (reads : Reads F mode assembly records final) :
    Reported assembly.reader.reporter final.reporter := by
  induction reads with
  | stop step _ => exact readRecordStep_reported step
  | record step _ _ _ inductionHypothesis =>
      exact (readRecordStep_reported step).trans inductionHypothesis
  | next step _ inductionHypothesis =>
      exact (readRecordStep_reported step).trans inductionHypothesis

end Runs

/-- What taking bytes out of the buffer, fetching the next block, reports and offsets of
records leave as it is, calls of `ReadRecord` do. -/
theorem Reads.keeps
    {Keeps : Reader GrowingFile → Prop}
    (takes : ∀ reader count recycled, Keeps reader → count ≤ reader.buffer.length →
      Keeps { reader with buffer := reader.buffer.drop count, recycled := recycled })
    (refills : ∀ reader, Keeps reader → Keeps reader.refill)
    (reports : ∀ {reader : Reader GrowingFile} bytes reason, Keeps reader →
      Keeps (reader.reportCorruption bytes reason))
    (offsets : ∀ {reader : Reader GrowingFile} (offset : UInt64), Keeps reader →
      Keeps { reader with lastRecordOffset := offset })
    {mode : WALRecoveryMode}
    {assembly : Assembly GrowingFile}
    {records : List Bytes}
    {final : Reader GrowingFile}
    (reads : Reads GrowingFile.sequentialFile mode assembly records final)
    (keeps : Keeps assembly.reader) : Keeps final := by
  have step (assembly : Assembly GrowingFile) (keeps : Keeps assembly.reader) :
      Keeps (stepReader (readRecordStep GrowingFile.sequentialFile mode assembly)) :=
    keeps_handle reports offsets mode assembly _
      (keeps_readPhysicalRecord takes refills keeps 0)
  induction reads with
  | stop stops _ =>
      have kept := step _ keeps
      rw [stops] at kept
      exact kept
  | record returns _ _ _ inductionHypothesis =>
      have kept := step _ keeps
      rw [returns] at kept
      exact inductionHypothesis kept
  | next goesOn _ inductionHypothesis =>
      have kept := step _ keeps
      rw [goesOn] at kept
      exact inductionHypothesis kept

end Reader
end Log
end RocksUtil
