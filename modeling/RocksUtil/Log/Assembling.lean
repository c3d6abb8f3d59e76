import RocksUtil.Log.Streams

/-!
# Assembling records

`ReadRecord` refines the abstract `assemble`: called until it returns `false`,
a reader in front of fragments that it can reach returns exactly the records
these fragments stand for (`reads_fragments`), and reports nothing when each
record is complete before the next one begins.
-/

namespace RocksUtil
namespace Log
namespace Reader

section Runs

variable {φ : Type} (F : SequentialFile φ) (mode : WALRecoveryMode)

/-- The loop of `ReadRecord` returns `result`, given enough fuel. -/
inductive Returns : Assembly φ → ReadResult φ → Prop
  | done {assembly : Assembly φ} {result : ReadResult φ}
      (step : readRecordStep F mode assembly = .inr result) :
      Returns assembly result
  | next {assembly following : Assembly φ} {result : ReadResult φ}
      (step : readRecordStep F mode assembly = .inl following)
      (returns : Returns following result) : Returns assembly result

/-- From `assembly` on, `ReadRecord` calls return `records` and get to the state
`final` of their loop. -/
inductive Steps : Assembly φ → List Bytes → Assembly φ → Prop
  | refl (assembly : Assembly φ) : Steps assembly [] assembly
  | record {assembly final : Assembly φ} {result : ReadResult φ}
      {records : List Bytes}
      (step : readRecordStep F mode assembly = .inr result)
      (found : result.found = true)
      (fromStart : result.reader.initialOffset = 0)
      (steps : Steps (startAssembly result.reader) records final) :
      Steps assembly (result.record :: records) final
  | next {assembly following final : Assembly φ} {records : List Bytes}
      (step : readRecordStep F mode assembly = .inl following)
      (steps : Steps following records final) : Steps assembly records final

/-- From `assembly` on, `ReadRecord` calls return `records` and then `false`,
leaving the reader `final`. -/
inductive Reads : Assembly φ → List Bytes → Reader φ → Prop
  | stop {assembly : Assembly φ} {result : ReadResult φ}
      (step : readRecordStep F mode assembly = .inr result)
      (failed : result.found = false) : Reads assembly [] result.reader
  | record {assembly : Assembly φ} {result : ReadResult φ}
      {records : List Bytes} {final : Reader φ}
      (step : readRecordStep F mode assembly = .inr result)
      (found : result.found = true)
      (fromStart : result.reader.initialOffset = 0)
      (reads : Reads (startAssembly result.reader) records final) :
      Reads assembly (result.record :: records) final
  | next {assembly following : Assembly φ}
      {records : List Bytes} {final : Reader φ}
      (step : readRecordStep F mode assembly = .inl following)
      (reads : Reads following records final) : Reads assembly records final

end Runs

section Fuel

variable {φ : Type} {F : SequentialFile φ} {mode : WALRecoveryMode}

theorem Steps.trans
    {first second third : Assembly φ}
    {left right : List Bytes}
    (steps : Steps F mode first left second)
    (more : Steps F mode second right third) :
    Steps F mode first (left ++ right) third := by
  induction steps with
  | refl => exact more
  | record step found fromStart _ inductionHypothesis =>
      exact .record step found fromStart (inductionHypothesis more)
  | next step _ inductionHypothesis =>
      exact .next step (inductionHypothesis more)

theorem Steps.reads
    {assembly following : Assembly φ}
    {left right : List Bytes}
    {final : Reader φ}
    (steps : Steps F mode assembly left following)
    (reads : Reads F mode following right final) :
    Reads F mode assembly (left ++ right) final := by
  induction steps with
  | refl => exact reads
  | record step found fromStart _ inductionHypothesis =>
      exact .record step found fromStart (inductionHypothesis reads)
  | next step _ inductionHypothesis =>
      exact .next step (inductionHypothesis reads)

/-- Steps that return no record belong to one call. -/
theorem Steps.returns
    {assembly following : Assembly φ}
    {result : ReadResult φ}
    (steps : Steps F mode assembly [] following)
    (returns : Returns F mode following result) :
    Returns F mode assembly result := by
  generalize none : ([] : List Bytes) = records at steps
  induction steps with
  | refl => exact returns
  | record => cases none
  | next step _ inductionHypothesis =>
      exact .next step (inductionHypothesis returns none)

/-- From `Returns` to the fuelled loop. -/
theorem Returns.readRecordLoop
    {assembly : Assembly φ}
    {result : ReadResult φ}
    (returns : Returns F mode assembly result) :
    ∃ enough, ∀ fuel, enough ≤ fuel →
      Reader.readRecordLoop F mode fuel assembly = some result := by
  induction returns with
  | done step =>
      refine ⟨1, fun fuel enough => ?_⟩
      obtain ⟨fuel, rfl⟩ : ∃ less, fuel = less + 1 := ⟨fuel - 1, by omega⟩
      simp [Reader.readRecordLoop, step]
  | next step _ inductionHypothesis =>
      obtain ⟨enough, run⟩ := inductionHypothesis
      refine ⟨enough + 1, fun fuel bound => ?_⟩
      obtain ⟨fuel, rfl⟩ : ∃ less, fuel = less + 1 := ⟨fuel - 1, by omega⟩
      simp [Reader.readRecordLoop, step, run fuel (by omega)]

theorem readRecordLoop_mono
    {fuel : Nat}
    {assembly : Assembly φ}
    {result : ReadResult φ}
    (returned : Reader.readRecordLoop F mode fuel assembly = some result)
    (more : Nat) :
    Reader.readRecordLoop F mode (fuel + more) assembly = some result := by
  induction fuel generalizing assembly with
  | zero => cases returned
  | succ fuel inductionHypothesis =>
      rw [Nat.add_right_comm, Reader.readRecordLoop]
      rw [Reader.readRecordLoop] at returned
      cases step : readRecordStep F mode assembly with
      | inl next =>
          rw [step] at returned
          exact inductionHypothesis returned
      | inr finished =>
          rw [step] at returned
          exact returned

/-- `ReadRecord` from the start of a file runs its loop. -/
theorem readRecord_eq_loop
    (F : SequentialFile φ)
    (mode : WALRecoveryMode)
    (fuel : Nat)
    {reader : Reader φ}
    (fromStart : reader.initialOffset = 0) :
    readRecord F mode fuel reader =
      Reader.readRecordLoop F mode fuel (startAssembly reader) := by
  have notBefore : ¬reader.lastRecordOffset < reader.initialOffset := by
    rw [fromStart]
    exact UInt64.not_lt_zero
  rw [readRecord, if_neg notBefore]

theorem readRecord_mono
    {fuel : Nat}
    {reader : Reader φ}
    {result : ReadResult φ}
    (returned : readRecord F mode fuel reader = some result)
    (more : Nat) : readRecord F mode (fuel + more) reader = some result := by
  unfold readRecord at returned ⊢
  dsimp only at returned ⊢
  split
  · rename_i before
    rw [if_pos before] at returned
    split
    · rename_i ended
      rw [if_pos ended] at returned
      exact returned
    · rename_i found
      rw [if_neg found] at returned
      exact readRecordLoop_mono returned more
  · rename_i behind
    rw [if_neg behind] at returned
    exact readRecordLoop_mono returned more

/-- What `ReadRecord` returns does not depend on the fuel. -/
theorem Returns.eq_of_readRecord
    {reader : Reader φ}
    {result result' : ReadResult φ}
    {fuel : Nat}
    (returns : Returns F mode (startAssembly reader) result)
    (fromStart : reader.initialOffset = 0)
    (returned : readRecord F mode fuel reader = some result') :
    result' = result := by
  obtain ⟨enough, run⟩ := returns.readRecordLoop
  rw [readRecord_eq_loop F mode fuel fromStart] at returned
  have longer := readRecordLoop_mono returned enough
  rw [run (fuel + enough) (by omega)] at longer
  exact (Option.some.inj longer).symm

/-- What is left of `readRecords` once the loop of `ReadRecord` runs. -/
def resume
    (F : SequentialFile φ)
    (mode : WALRecoveryMode)
    (calls fuel : Nat)
    (assembly : Assembly φ) : Option (List Bytes × Reader φ) := do
  let result ← Reader.readRecordLoop F mode fuel assembly
  if result.found then
    let (records, final) ← readRecords F mode calls result.reader
    some (result.record :: records, final)
  else some ([], result.reader)

theorem readRecords_succ
    (calls : Nat)
    {reader : Reader φ}
    (fromStart : reader.initialOffset = 0) :
    readRecords F mode (calls + 1) reader =
      resume F mode calls (calls + 1) (startAssembly reader) := by
  simp only [readRecords, resume, readRecord_eq_loop F mode _ fromStart]

theorem Reads.resume
    {assembly : Assembly φ}
    {records : List Bytes}
    {final : Reader φ}
    (reads : Reads F mode assembly records final) :
    ∃ enough, ∀ calls fuel, enough ≤ calls → enough ≤ fuel →
      Reader.resume F mode calls fuel assembly = some (records, final) := by
  induction reads with
  | stop step failed =>
      refine ⟨1, fun calls fuel _ bound => ?_⟩
      obtain ⟨fuel, rfl⟩ : ∃ less, fuel = less + 1 := ⟨fuel - 1, by omega⟩
      simp [Reader.resume, Reader.readRecordLoop, step, failed]
  | record step found fromStart _ inductionHypothesis =>
      obtain ⟨enough, run⟩ := inductionHypothesis
      refine ⟨enough + 1, fun calls fuel callsBound bound => ?_⟩
      obtain ⟨fuel, rfl⟩ : ∃ less, fuel = less + 1 := ⟨fuel - 1, by omega⟩
      obtain ⟨calls, rfl⟩ : ∃ less, calls = less + 1 := ⟨calls - 1, by omega⟩
      have rest := run calls (calls + 1) (by omega) (by omega)
      rw [← readRecords_succ calls fromStart] at rest
      simp [Reader.resume, Reader.readRecordLoop, step, found, rest]
  | next step _ inductionHypothesis =>
      obtain ⟨enough, run⟩ := inductionHypothesis
      refine ⟨enough + 1, fun calls fuel callsBound bound => ?_⟩
      obtain ⟨fuel, rfl⟩ : ∃ less, fuel = less + 1 := ⟨fuel - 1, by omega⟩
      have rest := run calls fuel (by omega) (by omega)
      simpa [Reader.resume, Reader.readRecordLoop, step] using rest

/-- From `Reads` to the fuelled sequence of calls. -/
theorem Reads.readRecords
    {reader final : Reader φ}
    {records : List Bytes}
    (reads : Reads F mode (startAssembly reader) records final)
    (fromStart : reader.initialOffset = 0) :
    ∃ enough, ∀ fuel, enough ≤ fuel →
      Reader.readRecords F mode fuel reader = some (records, final) := by
  obtain ⟨enough, run⟩ := reads.resume
  refine ⟨enough + 1, fun fuel bound => ?_⟩
  obtain ⟨fuel, rfl⟩ : ∃ less, fuel = less + 1 := ⟨fuel - 1, by omega⟩
  rw [readRecords_succ fuel fromStart]
  exact run fuel (fuel + 1) (by omega) (by omega)

/-- Neither does what repeated calls return. -/
theorem readRecords_mono
    {fuel : Nat}
    {reader : Reader φ}
    {result : List Bytes × Reader φ}
    (returned : Reader.readRecords F mode fuel reader = some result)
    (more : Nat) :
    Reader.readRecords F mode (fuel + more) reader = some result := by
  induction fuel generalizing reader result with
  | zero => cases returned
  | succ fuel inductionHypothesis =>
      rw [Reader.readRecords] at returned
      rw [Nat.add_right_comm, Reader.readRecords]
      cases call : readRecord F mode (fuel + 1) reader with
      | none =>
          rw [call] at returned
          cases returned
      | some first =>
          have longer := readRecord_mono call more
          rw [Nat.add_right_comm] at longer
          rw [call] at returned
          rw [longer]
          simp only [Option.bind_eq_bind, Option.bind_some] at returned ⊢
          split
          · rename_i found
            rw [if_pos found] at returned
            cases rest : Reader.readRecords F mode fuel first.reader with
            | none =>
                rw [rest] at returned
                cases returned
            | some others =>
                rw [rest] at returned
                rw [inductionHypothesis rest]
                exact returned
          · rename_i stopped
            rw [if_neg stopped] at returned
            exact returned

/-- Repeated calls that return at all return what they do with enough fuel. -/
theorem readRecords_eq
    {fuel : Nat}
    {reader : Reader φ}
    {result expected : List Bytes × Reader φ}
    (returned : Reader.readRecords F mode fuel reader = some result)
    (run : ∃ enough, ∀ fuel, enough ≤ fuel →
      Reader.readRecords F mode fuel reader = some expected) : result = expected := by
  obtain ⟨enough, run⟩ := run
  have longer := readRecords_mono returned enough
  rw [run _ (Nat.le_add_left _ _)] at longer
  exact (Option.some.inj longer).symm

end Fuel

/-! ## Fragments -/

namespace Assembly

/-- What the loop of `ReadRecord` has seen of an incomplete record. -/
def pending {φ : Type} (assembly : Assembly φ) : Option Bytes :=
  if assembly.inFragmentedRecord then some assembly.scratch else none

@[simp] theorem reader_startAssembly {φ : Type} (reader : Reader φ) :
    (startAssembly reader).reader = reader := rfl

@[simp] theorem pending_startAssembly {φ : Type} (reader : Reader φ) :
    (startAssembly reader).pending = none := rfl

theorem isSome_pending {φ : Type} (assembly : Assembly φ) :
    assembly.pending.isSome = assembly.inFragmentedRecord := by
  unfold pending
  cases assembly.inFragmentedRecord <;> rfl

end Assembly

section Reports

variable {φ : Type}

/-- A report changes nothing but the reporter. -/
theorem reportDrop_eq (reader : Reader φ) (bytes : Nat) (reason : Status) :
    ∃ reporter, reader.reportDrop bytes reason =
      { reader with reporter := reporter } := by
  unfold reportDrop
  split
  · exact ⟨reader.reporter, rfl⟩
  · split
    · exact ⟨_, rfl⟩
    · exact ⟨reader.reporter, rfl⟩

/-- Reading from the start of the file, every drop is reported. -/
theorem reportDrop_of_fromStart
    {reader : Reader φ}
    (fromStart : reader.initialOffset = 0)
    (bytes : Nat)
    (reason : Status)
    {calls : List Report}
    (reporter : reader.reporter = some calls) :
    (reader.reportDrop bytes reason).reporter =
      some (calls ++ [⟨bytes, reason⟩]) := by
  simp [reportDrop, reporter, fromStart]

theorem reportIf_eq
    (assembly : Assembly φ)
    (condition : Bool)
    (bytes : Nat)
    (reason : String) :
    ∃ reporter,
      assembly.reportIf condition bytes reason =
          { assembly with reader :=
            { assembly.reader with reporter := reporter } } ∧
        (condition = false → reporter = assembly.reader.reporter) := by
  cases condition with
  | false => exact ⟨_, rfl, fun _ => rfl⟩
  | true =>
      obtain ⟨reporter, result⟩ :=
        reportDrop_eq assembly.reader bytes (.Corruption reason)
      exact ⟨reporter, congrArg (fun reader => { assembly with reader := reader })
        result, nofun⟩

end Reports

section Fragments

variable {φ : Type} {F : SequentialFile φ} {mode : WALRecoveryMode}

/-- Where the record of a fragment read at `offset` begins, as far as the loop of
`ReadRecord` knows. -/
def Assembly.begunAt
    (assembly : Assembly φ)
    (offset : UInt64)
    (fragment : Fragment) : UInt64 :=
  if fragment.start then offset else assembly.prospectiveRecordOffset

/-- What the `switch` of `ReadRecord` does on a fragment written by the writer. -/
theorem handle_fragment
    (mode : WALRecoveryMode)
    (assembly : Assembly φ)
    (offset : UInt64)
    (format : Format)
    (fragment : Fragment)
    (dropSize : Nat)
    (reader : Reader φ) :
    ∃ reporter,
      (fragment.start = !assembly.pending.isSome → reporter = reader.reporter) ∧
      match completed assembly.pending fragment with
      | some record =>
          handle mode assembly offset
              ⟨(format.type fragment).code, fragment.payload, dropSize, reader⟩ =
            .inr ⟨true, record, { reader with
              reporter := reporter
              lastRecordOffset := assembly.begunAt offset fragment }⟩
      | none => ∃ following,
          handle mode assembly offset
              ⟨(format.type fragment).code, fragment.payload, dropSize, reader⟩ =
            .inl following ∧
          following.reader = { reader with reporter := reporter } ∧
          following.pending = pendingNext assembly.pending fragment ∧
          following.prospectiveRecordOffset = assembly.begunAt offset fragment := by
  obtain ⟨start, finish, payload⟩ := fragment
  obtain ⟨recycle, logNumber⟩ := format
  cases start with
  | true =>
      cases finish with
      | true =>
          obtain ⟨reporter, reported, silent⟩ :=
            reportIf_eq { assembly with reader := reader }
              (assembly.inFragmentedRecord && !assembly.scratch.isEmpty)
              assembly.scratch.length "partial record without end(1)"
          refine ⟨reporter, ?_, ?_⟩
          · intro chained
            apply silent
            rw [Assembly.isSome_pending] at chained
            simp_all
          · cases recycle <;>
              simp [handle, Format.type, Writer.fragmentType, RecordType.code,
                completed, reported, Assembly.complete, Assembly.begunAt]
      | false =>
          obtain ⟨reporter, reported, silent⟩ :=
            reportIf_eq { assembly with reader := reader }
              (assembly.inFragmentedRecord && !assembly.scratch.isEmpty)
              assembly.scratch.length "partial record without end(2)"
          refine ⟨reporter, ?_, ⟨{ reader with reporter := reporter }, true,
            payload, offset⟩, ?_, rfl, rfl, rfl⟩
          · intro chained
            apply silent
            rw [Assembly.isSome_pending] at chained
            simp_all
          · cases recycle <;>
              simp [handle, Format.type, Writer.fragmentType, RecordType.code,
                reported]
  | false =>
      cases inFragment : assembly.inFragmentedRecord with
      | false =>
          have none : assembly.pending = none := by
            simp [Assembly.pending, inFragment]
          obtain ⟨reporter, reported⟩ := reportDrop_eq reader payload.length
            (.Corruption (if finish then
              "missing start of fragmented record(2)"
              else "missing start of fragmented record(1)"))
          refine ⟨reporter, by simp [none], ?_⟩
          rw [none]
          cases finish <;>
          · refine ⟨⟨{ reader with reporter := reporter }, false,
              assembly.scratch, assembly.prospectiveRecordOffset⟩, ?_, rfl, rfl, rfl⟩
            rw [← reported]
            cases recycle <;>
              simp [handle, Format.type, Writer.fragmentType, RecordType.code,
                inFragment, Assembly.report, reportCorruption]
      | true =>
          have some : assembly.pending = some assembly.scratch := by
            simp [Assembly.pending, inFragment]
          refine ⟨reader.reporter, fun _ => rfl, ?_⟩
          rw [some]
          cases finish with
          | true =>
              cases recycle <;>
                simp [handle, Format.type, Writer.fragmentType, RecordType.code,
                  completed, inFragment, Assembly.complete, Assembly.begunAt]
          | false =>
              refine ⟨⟨reader, true, assembly.scratch ++ payload,
                assembly.prospectiveRecordOffset⟩, ?_, rfl, rfl, rfl⟩
              cases recycle <;>
                simp [handle, Format.type, Writer.fragmentType, RecordType.code,
                  inFragment]

/-- The loop of `ReadRecord` takes a fragment as the layout does. -/
theorem Steps.fragment
    (mode : WALRecoveryMode)
    (assembly : Assembly φ)
    {format : Format}
    {fragment : Fragment}
    {dropSize : Nat}
    {reader : Reader φ}
    (physical : assembly.reader.readPhysicalRecord F 0 =
      ⟨(format.type fragment).code, fragment.payload, dropSize, reader⟩)
    (fromStart : reader.initialOffset = 0) :
    ∃ next reporter recordOffset,
      Steps F mode assembly (completed assembly.pending fragment).toList next ∧
        next.reader = { reader with
          reporter := reporter, lastRecordOffset := recordOffset } ∧
        next.pending = pendingNext assembly.pending fragment ∧
        (fragment.start = !assembly.pending.isSome →
          reporter = reader.reporter) := by
  obtain ⟨reporter, silent, result⟩ := handle_fragment mode assembly
    assembly.reader.bufferOffset format fragment dropSize reader
  have step : readRecordStep F mode assembly = handle mode assembly
      assembly.reader.bufferOffset
      ⟨(format.type fragment).code, fragment.payload, dropSize, reader⟩ := by
    rw [readRecordStep, physical]
  cases whole : completed assembly.pending fragment with
  | none =>
      rw [whole] at result
      obtain ⟨following, handled, reader', pending, -⟩ := result
      exact ⟨following, reporter, reader.lastRecordOffset,
        .next (step.trans handled) (.refl _), reader', pending, silent⟩
  | some record =>
      rw [whole] at result
      have ends : pendingNext assembly.pending fragment = none := by
        apply pendingNext_of_finish
        by_contra continues
        simp [completed, continues] at whole
      exact ⟨startAssembly _, reporter, _,
        .record (step.trans result) rfl fromStart (.refl _), rfl, ends.symm,
        silent⟩

end Fragments

/-! ## Records in a growing file -/

section Delivery

variable (mode : WALRecoveryMode) {assembly : Assembly GrowingFile}
  {format : Format} {offset : Nat} {fragment : Fragment}
  {fragments : List Fragment} {body : Bytes}

theorem Positioned.of_reports
    {reader : Reader GrowingFile}
    {rest : Bytes}
    (positioned : reader.Positioned offset rest)
    (reporter : Option (List Report))
    (recordOffset : UInt64) :
    Positioned { reader with
      reporter := reporter, lastRecordOffset := recordOffset } offset rest :=
  ⟨positioned.noError, positioned.inFile, positioned.consistent,
    positioned.live, positioned.ended⟩

theorem Consumes.of_reports
    {before after : Reader GrowingFile}
    {count : Nat}
    (consumes : Consumes before after count)
    (reporter : Option (List Report))
    (recordOffset : UInt64) :
    Consumes before { after with
      reporter := reporter, lastRecordOffset := recordOffset } count :=
  ⟨consumes.settings, consumes.ended, consumes.reached, consumes.arrived⟩

/-- An invalid record between two logical records is passed over. -/
theorem readRecordStep_badRecord
    {next : Reader GrowingFile}
    {dropSize : Nat}
    (physical :
      assembly.reader.readPhysicalRecord GrowingFile.sequentialFile 0 =
        ⟨kBadRecord, [], dropSize, next⟩)
    (between : assembly.pending = none) :
    readRecordStep GrowingFile.sequentialFile mode assembly =
      .inl { assembly with reader := next } := by
  have notIn : assembly.inFragmentedRecord = false := by
    rw [← assembly.isSome_pending, between]
    rfl
  rw [readRecordStep, physical]
  simp [handle, RecordType.code, kBadRecord, kBadHeader, kEof, kOldRecord,
    kMaxRecordType, Assembly.interrupt, notIn]

/-- Between two logical records, a gap as long as a header is passed over. -/
theorem steps_over_gap
    (positioned : assembly.reader.Positioned offset
      (List.replicate (format.gap offset) 0 ++ body))
    (inReach : format.gap offset ≤ assembly.reader.reach)
    (wide : kHeaderSize ≤ format.gap offset)
    (joined : assembly.pending.isSome → format.gap offset = 0) :
    ∃ middle,
      Steps GrowingFile.sequentialFile mode assembly []
          { assembly with reader := middle } ∧
        middle.Positioned kBlockSize body ∧
        Consumes assembly.reader middle (format.gap offset) ∧
        middle.reporter = assembly.reader.reporter := by
  have header := kHeaderSize_eq
  have between : assembly.pending = none := by
    cases pending : assembly.pending with
    | none => rfl
    | some scratch =>
        have := joined (by simp [pending])
        omega
  obtain ⟨middle, physical, moved, consumed, silent⟩ :=
    skipGap 0 positioned inReach wide
  exact ⟨middle, .next (readRecordStep_badRecord mode physical between) (.refl _),
    moved, consumed, silent⟩

/-- The loop of `ReadRecord` gets to the bytes behind a gap: what it reads next
is what a reader in front of them reads. -/
theorem steps_to_body
    (positioned : assembly.reader.Positioned offset
      (List.replicate (format.gap offset) 0 ++ body))
    (beyond : format.gap offset < assembly.reader.reach)
    (joined : assembly.pending.isSome → format.gap offset = 0) :
    ∃ middle there,
      Steps GrowingFile.sequentialFile mode assembly []
          { assembly with reader := middle } ∧
        middle.readPhysicalRecord GrowingFile.sequentialFile 0 =
          there.readPhysicalRecord GrowingFile.sequentialFile 0 ∧
        there.Positioned (format.startOffset offset) body ∧
        Consumes assembly.reader there (format.gap offset) ∧
        there.reporter = assembly.reader.reporter := by
  by_cases narrow : format.gap offset < kHeaderSize
  · obtain ⟨there, same, moved, consumed, silent, -⟩ :=
      approach 0 positioned narrow beyond
    exact ⟨assembly.reader, there, .refl _, same, moved, consumed, silent⟩
  · have header := kHeaderSize_eq
    obtain ⟨middle, steps, moved, consumed, silent⟩ :=
      steps_over_gap mode positioned (by omega) (by omega) joined
    obtain ⟨-, start⟩ :=
      format.startOffset_of_gap (by omega : 0 < format.gap offset)
    have reached := consumed.reach_le
    have moved' : middle.Positioned kBlockSize
        (List.replicate (format.gap kBlockSize) 0 ++ body) := by
      rw [Format.gap_kBlockSize]
      exact moved
    obtain ⟨there, same, moved'', consumed', silent', -⟩ :=
      approach 0 moved' (by rw [Format.gap_kBlockSize]; omega)
        (by rw [Format.gap_kBlockSize]; omega)
    rw [Format.gap_kBlockSize] at consumed'
    rw [Format.startOffset_kBlockSize, ← start] at moved''
    exact ⟨middle, there, steps, same, moved'', consumed.trans consumed',
      silent'.trans silent⟩

/-- The loop of `ReadRecord` gets to the next fragment, across the zeros in
front of it. -/
theorem steps_to_fragment
    (positioned : assembly.reader.Positioned offset
      (List.replicate (format.gap offset) 0 ++ (format.encode fragment ++ body)))
    (ends : format.endOffset offset fragment.payload.length ≤ kBlockSize)
    (inReach : span format offset fragment ≤ assembly.reader.reach)
    (accepts : assembly.reader.Accepts format)
    (fromStart : assembly.reader.initialOffset = 0)
    (joined : assembly.pending.isSome → format.gap offset = 0) :
    ∃ middle next,
      Steps GrowingFile.sequentialFile mode assembly []
          { assembly with reader := middle } ∧
        middle.readPhysicalRecord GrowingFile.sequentialFile 0 =
          ⟨(format.type fragment).code, fragment.payload, 0, next⟩ ∧
        next.Positioned (format.endOffset offset fragment.payload.length) body ∧
        Consumes assembly.reader next (span format offset fragment) ∧
        next.reporter = assembly.reader.reporter := by
  have length := format.length_encode fragment
  have bounds := format.header_bounds
  unfold span at inReach ⊢
  rw [Format.endOffset, ← length] at ends ⊢
  obtain ⟨middle, there, steps, same, moved, consumed, silent⟩ :=
    steps_to_body mode positioned (by omega) joined
  have reached := consumed.reach_le
  obtain ⟨next, result, moved', consumed', silent'⟩ := deliver_inBlock 0 moved ends
    (by omega) (consumed.accepts accepts) (consumed.settings.1.trans fromStart)
  exact ⟨middle, next, steps, same.trans result, moved', consumed.trans consumed',
    silent'.trans silent⟩

/-- The loop of `ReadRecord` assembles the fragments it can reach. -/
theorem steps_fragments
    (positioned : assembly.reader.Positioned offset
      (format.place offset fragments ++ body))
    (fits : format.Fits offset fragments)
    (inReach : (format.place offset fragments).length ≤ assembly.reader.reach)
    (accepts : assembly.reader.Accepts format)
    (fromStart : assembly.reader.initialOffset = 0)
    (joined : assembly.pending.isSome → format.gap offset = 0) :
    ∃ next,
      Steps GrowingFile.sequentialFile mode assembly
          (assemble assembly.pending fragments) next ∧
        next.reader.Positioned (format.advance offset fragments) body ∧
        Consumes assembly.reader next.reader
          (format.place offset fragments).length ∧
        next.pending = pendingAfter assembly.pending fragments ∧
        (next.pending.isSome →
          format.gap (format.advance offset fragments) = 0) ∧
        (Chained assembly.pending.isSome fragments →
          next.reader.reporter = assembly.reader.reporter) := by
  induction fragments generalizing assembly offset with
  | nil =>
      exact ⟨assembly, .refl _, positioned, .refl _, rfl, joined, fun _ => rfl⟩
  | cons fragment fragments inductionHypothesis =>
      have placed : (format.place offset (fragment :: fragments)).length =
          span format offset fragment + (format.place
            (format.endOffset offset fragment.payload.length)
            fragments).length := by
        rw [Format.place_cons]
        simp only [span, List.length_append, List.length_replicate]
        omega
      rw [Format.place_cons, List.append_assoc, List.append_assoc] at positioned
      obtain ⟨middle, next, stepsTo, physical, moved, consumed, silent⟩ :=
        steps_to_fragment mode positioned fits.endOffset_le (by omega) accepts
          fromStart joined
      have fromStart' := consumed.settings.1.trans fromStart
      obtain ⟨after, reporter, recordOffset, steps, reader, pending, quiet⟩ :=
        Steps.fragment mode { assembly with reader := middle } physical
          fromStart'
      have moved' := moved.of_reports reporter recordOffset
      have consumed' := consumed.of_reports reporter recordOffset
      rw [← reader] at moved' consumed'
      have reached := consumed'.reach_le
      change after.pending = pendingNext assembly.pending fragment at pending
      obtain ⟨final, rest, positioned', consumed'', pending', joined', quiet'⟩ :=
        inductionHypothesis moved' fits.2.2 (by omega)
          (consumed'.accepts accepts) (consumed'.settings.1.trans fromStart)
          (by
            intro isSome
            rw [pending] at isSome
            have continues : fragment.finish = false := by
              cases finish : fragment.finish with
              | false => rfl
              | true => simp [pendingNext_of_finish _ finish] at isSome
            rw [fits.2.1 continues, Format.gap_kBlockSize])
      rw [pending] at rest pending' quiet'
      refine ⟨final, (stepsTo.trans steps).trans rest, positioned', ?_, pending',
        joined', ?_⟩
      · rw [placed]
        exact consumed'.trans consumed''
      · intro chained
        obtain ⟨begins, chained⟩ := chained
        rw [← isSome_pendingNext begins] at chained
        rw [quiet' chained, reader]
        exact (quiet begins).trans silent

end Delivery

/-- One call of `ReadRecord` returns the next record, when it is in reach. -/
theorem returns_record
    (mode : WALRecoveryMode)
    {reader : Reader GrowingFile}
    {format : Format}
    {offset : Nat}
    {record : Bytes}
    {records : List Bytes}
    (positioned :
      reader.Positioned offset (format.logBytes offset (record :: records)))
    (inReach : (format.place offset
      (format.fragments offset true record)).length ≤ reader.reach)
    (accepts : reader.Accepts format)
    (fromStart : reader.initialOffset = 0) :
    let pieces := format.fragments offset true record
    let offset' := format.advance offset pieces
    ∃ next,
      Returns GrowingFile.sequentialFile mode (startAssembly reader)
          ⟨true, record, next⟩ ∧
        next.Positioned offset' (format.logBytes offset' records) ∧
        Consumes reader next (format.place offset pieces).length ∧
        next.reporter = reader.reporter := by
  intro pieces offset'
  have fits := format.fits_fragmentsOf offset (record :: records)
    positioned.offset_le
  obtain ⟨init, last, split, open', -⟩ :=
    format.fragments_eq_append_last offset true record
  obtain ⟨assembled, -⟩ := format.assemble_record offset record
  have chained := format.chained_fragments offset true record
  have placed : (format.place offset pieces).length =
      (format.place offset init).length +
        span format (format.advance offset init) last := by
    simp only [pieces, split, Format.place_append, List.length_append,
      Format.place_cons, List.length_replicate, span, Format.place_nil,
      List.length_nil, Nat.add_zero]
  have offsetEq : offset' = format.endOffset (format.advance offset init)
      last.payload.length := by
    simp [offset', pieces, split, Format.advance_append, Format.advance]
  have rest : format.fragmentsOf offset (record :: records) =
      init ++ (last :: format.fragmentsOf offset' records) := by
    simp only [Format.fragmentsOf]
    rw [show format.advance offset (format.fragments offset true record) =
      offset' from rfl, split, List.append_assoc, List.singleton_append]
  rw [Format.logBytes, rest, Format.place_append, Format.place_cons,
    ← offsetEq] at positioned
  rw [rest] at fits
  obtain ⟨fitsInit, fitsLast⟩ := (format.fits_append _ _ _).mp fits
  rw [split] at assembled chained
  rw [assemble_append, assemble_of_open none init open'] at assembled
  obtain ⟨chainedInit, chainedLast⟩ := (chained_append none init [last]).mp chained
  change (format.place offset pieces).length ≤ _ at inReach
  -- All but the last fragment leave the call inside its loop.
  obtain ⟨first, steps, moved, consumed, pending, joined, quiet⟩ :=
    @steps_fragments mode (startAssembly reader) format offset init _ positioned
      fitsInit (Nat.le_trans (by omega) inReach) accepts fromStart Bool.false_ne_true.elim
  rw [Assembly.pending_startAssembly] at steps pending quiet
  rw [assemble_of_open none init open'] at steps
  rw [Assembly.reader_startAssembly] at consumed quiet
  have reached := consumed.reach_le
  obtain ⟨middle, second, stepsTo, physical, moved', consumed', silent⟩ :=
    steps_to_fragment mode moved fitsLast.endOffset_le
      (by omega) (consumed.accepts accepts)
      (consumed.settings.1.trans fromStart) joined
  -- The last one completes the record.
  have completes : completed first.pending last = some record := by
    rw [pending]
    cases whole : completed (pendingAfter none init) last with
    | none => simp [assemble, whole] at assembled
    | some other => simpa [assemble, whole] using assembled
  obtain ⟨reporter, quietLast, result⟩ := handle_fragment mode
    { first with reader := middle } middle.bufferOffset format last 0 second
  change _ = !first.pending.isSome → _ at quietLast
  rw [show ({ first with reader := middle } : Assembly GrowingFile).pending =
    first.pending from rfl, completes] at result
  generalize Assembly.begunAt _ _ _ = recordOffset at result
  have step : readRecordStep GrowingFile.sequentialFile mode
      { first with reader := middle } = .inr ⟨true, record, { second with
        reporter := reporter, lastRecordOffset := recordOffset }⟩ := by
    rw [readRecordStep, physical, result]
  refine ⟨_, (steps.trans stepsTo).returns (.done step), ?_, ?_, ?_⟩
  · rw [← offsetEq] at moved'
    exact moved'.of_reports reporter recordOffset
  · rw [placed]
    exact (consumed.trans consumed').of_reports reporter recordOffset
  · have same : reporter = second.reporter := by
      apply quietLast
      rw [pending]
      exact chainedLast.1
    exact same.trans (silent.trans (quiet chainedInit))

/-! ## The end of the file -/

/-- The reporter, if there is one, received further calls. -/
def ReportsMore (before after : Option (List Report)) : Prop :=
  ∀ calls, before = some calls →
    ∃ call more, after = some (calls ++ call :: more)

section End

variable {φ : Type} {F : SequentialFile φ} {mode : WALRecoveryMode}

/-- At the end of the log `ReadRecord` returns `false`; a pending record is
reported in `kAbsoluteConsistency` only. -/
theorem finish_eq (assembly : Assembly φ) (mode : WALRecoveryMode) :
    ∃ reporter,
      assembly.finish mode =
          ⟨false, [], { assembly.reader with reporter := reporter }⟩ ∧
        (mode ≠ .absoluteConsistency ∨ assembly.pending = none →
          reporter = assembly.reader.reporter) ∧
        (mode = .absoluteConsistency → assembly.pending.isSome →
          assembly.reader.initialOffset = 0 →
          ReportsMore assembly.reader.reporter reporter) := by
  obtain ⟨reporter, reported, silent⟩ := reportIf_eq assembly
    (assembly.inFragmentedRecord && decide (mode = .absoluteConsistency))
    assembly.scratch.length "error reading trailing data"
  refine ⟨reporter, ?_, ?_, ?_⟩
  · rw [Assembly.finish, reported]
  · intro quiet
    apply silent
    rw [← assembly.isSome_pending]
    rcases quiet with tolerant | between
    · simp [tolerant]
    · simp [between]
  · intro strict partly fromStart calls before
    rw [assembly.isSome_pending] at partly
    have same := congrArg (fun assembly => assembly.reader.reporter) reported
    rw [partly, decide_eq_true strict] at same
    simp only [Bool.and_self, Assembly.reportIf, if_true, Assembly.report,
      reportCorruption, reportDrop_of_fromStart fromStart _ _ before] at same
    exact ⟨_, [], same.symm⟩

theorem handle_eof
    (mode : WALRecoveryMode)
    (assembly : Assembly φ)
    (offset : UInt64)
    (dropSize : Nat)
    (reader : Reader φ) :
    handle mode assembly offset ⟨kEof, [], dropSize, reader⟩ =
      .inr ({ assembly with reader := reader }.finish mode) := by
  simp [handle, RecordType.code, kEof, kBadHeader, kMaxRecordType]

/-- A reader that can reach nothing meets the end of the file. -/
theorem readPhysicalRecord_end
    {reader : Reader GrowingFile}
    {offset : Nat}
    {rest : Bytes}
    (dropSize : Nat)
    (positioned : reader.Positioned offset rest)
    (nothing : reader.reach = 0)
    (noArrival : reader.eof = true ∨ reader.file.nextArrival = []) :
    ∃ next offset',
      reader.readPhysicalRecord GrowingFile.sequentialFile dropSize =
          ⟨kEof, [], dropSize, next⟩ ∧
        next.Positioned offset' rest ∧
        (offset' = offset ∨ offset = kBlockSize ∧ offset' = 0) ∧
        next.eof = true ∧
        next.reach = 0 ∧
        Consumes reader next 0 ∧
        next.reporter = reader.reporter := by
  have header := kHeaderSize_eq
  cases ended : reader.eof with
  | true =>
      have empty : reader.buffer = [] := by
        simpa [reach, ended] using nothing
      have same : { reader with buffer := [] } = reader := by
        cases reader
        cases empty
        rfl
      refine ⟨reader, offset, ?_, positioned, .inl rfl, ended, nothing, .refl _,
        rfl⟩
      rw [readPhysicalRecord_short dropSize ended (by simp [empty, header]),
        if_pos empty, same]
  | false =>
      have empty : reader.buffer = [] ∧ reader.file.unread = [] := by
        simpa [reach, ended] using nothing
      have arrival : reader.file.nextArrival = [] := by
        rcases noArrival with noMore | arrival
        · rw [ended] at noMore
          cases noMore
        · exact arrival
      have full := (positioned.live ended).1
      obtain ⟨moved, consumed⟩ := positioned.refill ended
      have split := (refill_split positioned.inFile).1
      rw [empty.2, arrival, List.append_nil, List.append_eq_nil_iff] at split
      have refilledEof : reader.refill.eof = true := by
        have short : reader.refill.buffer.length < kBlockSize := by
          rw [split.1]
          decide
        simpa [Reader.refill] using short
      have same : { reader.refill with buffer := [] } = reader.refill := by
        rw [← split.1]
      rw [empty.1, List.length_nil, List.drop_zero] at moved
      rw [empty.1, List.length_nil] at consumed full
      refine ⟨reader.refill, 0, ?_, moved, .inr ⟨by omega, rfl⟩, refilledEof,
        by simp [reach, refilledEof, split.1], consumed, rfl⟩
      rw [readPhysicalRecord_refill reader dropSize ended positioned.noError
          (by simp [empty.1, header]),
        readPhysicalRecord_short dropSize refilledEof
          (by simp [split.1, header]),
        if_pos split.1, same]

/-- A reader that can reach nothing makes `ReadRecord` return `false`. -/
theorem readRecordStep_end
    (mode : WALRecoveryMode)
    {assembly : Assembly GrowingFile}
    {offset : Nat}
    {rest : Bytes}
    (positioned : assembly.reader.Positioned offset rest)
    (nothing : assembly.reader.reach = 0)
    (noArrival : assembly.reader.eof = true ∨
      assembly.reader.file.nextArrival = []) :
    ∃ final offset',
      readRecordStep GrowingFile.sequentialFile mode assembly =
          .inr ⟨false, [], final⟩ ∧
        final.Positioned offset' rest ∧
        (offset' = offset ∨ offset = kBlockSize ∧ offset' = 0) ∧
        final.eof = true ∧
        final.reach = 0 ∧
        Consumes assembly.reader final 0 ∧
        (mode ≠ .absoluteConsistency ∨ assembly.pending = none →
          final.reporter = assembly.reader.reporter) ∧
        (mode = .absoluteConsistency → assembly.pending.isSome →
          assembly.reader.initialOffset = 0 →
          ReportsMore assembly.reader.reporter final.reporter) := by
  obtain ⟨next, offset', physical, moved, near, ended, empty, consumed,
    silent⟩ := readPhysicalRecord_end 0 positioned nothing noArrival
  obtain ⟨reporter, result, quiet, reports⟩ :=
    finish_eq { assembly with reader := next } mode
  refine ⟨{ next with reporter := reporter }, offset', ?_,
    moved.of_reports reporter next.lastRecordOffset, near, ended, empty,
    consumed.of_reports reporter next.lastRecordOffset, ?_, ?_⟩
  · rw [readRecordStep, physical, handle_eof, result]
  · exact fun cases => (quiet cases).trans silent
  · intro strict partly fromStart
    have more := reports strict partly (consumed.settings.1.trans fromStart)
    rw [silent] at more
    exact more

end End

end Reader
end Log
end RocksUtil
