import RocksUtil.Log.Boundaries

/-!
# Following a log that grows

A writer and a reader on the same file.  The writer adds records; the reader
calls `ReadRecord` and `UnmarkEOF` at any time, and while it does, the writer may
complete further `AddRecord` calls before each `Read` of the file.

As long as every `Read` sees the file behind a complete record, nothing is lost,
repeated or reported (`follows_writer`).  When a `Read` ends between two
fragments of a record, that record is lost (`loses_fragmented_record`): what
`ReadRecord` has assembled of it is forgotten when the call returns.
-/

namespace RocksUtil
namespace Log

/-- A writer, a reader of the same file, and what has gone through so far. -/
structure Tail where
  /-- The writer; its destination is the file. -/
  writer : Writer Bytes
  /-- The reader. -/
  reader : Reader GrowingFile
  /-- The records of the `AddRecord` calls so far. -/
  written : List Bytes
  /-- The records `ReadRecord` has returned so far. -/
  returned : List Bytes

namespace Tail

/-- A new writer and a new reader on an empty file. -/
def new
    (recycle : Bool)
    (logNumber : UInt64)
    (checksum : Bool)
    (reporter : Option (List Report)) : Tail where
  writer := Writer.new [] logNumber recycle
  reader := Reader.new (GrowingFile.atRest []) reporter checksum 0 logNumber
  written := []
  returned := []

/-- The bytes a batch of `AddRecord` calls appends. -/
def appended (writer : Writer Bytes) (batch : List Bytes) : Bytes :=
  (writer.addRecords Destination.memory batch).dest.drop writer.dest.length

/-- What batches of `AddRecord` calls append, batch by batch. -/
def chunks : Writer Bytes → List (List Bytes) → List Bytes
  | _, [] => []
  | writer, batch :: batches =>
      appended writer batch ::
        chunks (writer.addRecords Destination.memory batch) batches

/-- `AddRecord`. -/
def addRecord (tail : Tail) (record : Bytes) : Tail where
  writer := (tail.writer.addRecord Destination.memory record).2
  reader := { tail.reader with
    file := tail.reader.file.append (appended tail.writer [record]) }
  written := tail.written ++ [record]
  returned := tail.returned

/-- The writer completes these batches of `AddRecord` calls while the reader is
at work: the first before the next `Read`, the second before the one after it,
and so on. -/
def during (tail : Tail) (batches : List (List Bytes)) : Tail where
  writer := tail.writer.addRecords Destination.memory batches.flatten
  reader := { tail.reader with
    file := tail.reader.file.schedule (chunks tail.writer batches) }
  written := tail.written ++ batches.flatten
  returned := tail.returned

/-- The reader's call is over, and so are the calls of the writer. -/
def after (tail : Tail) (reader : Reader GrowingFile) (records : List Bytes) :
    Tail where
  writer := tail.writer
  reader := { reader with file := reader.file.settle }
  written := tail.written
  returned := tail.returned ++ records

/-- The steps of the two, in any order. -/
inductive Step : Tail → Tail → Prop
  | addRecord (tail : Tail) (record : Bytes) : Step tail (tail.addRecord record)
  | readRecord (tail : Tail) (batches : List (List Bytes))
      (mode : WALRecoveryMode) (fuel : Nat)
      (result : Reader.ReadResult GrowingFile)
      (returned : (tail.during batches).reader.readRecord
        GrowingFile.sequentialFile mode fuel = some result) :
      Step tail ((tail.during batches).after result.reader
        (Reader.delivered result))
  | unmarkEOF (tail : Tail) (batches : List (List Bytes)) :
      Step tail ((tail.during batches).after
        ((tail.during batches).reader.unmarkEOF GrowingFile.sequentialFile) [])

/-- The states reached from a new writer and a new reader. -/
inductive Reachable
    (recycle : Bool)
    (logNumber : UInt64)
    (checksum : Bool)
    (reporter : Option (List Report)) : Tail → Prop
  | new : Reachable recycle logNumber checksum reporter
      (Tail.new recycle logNumber checksum reporter)
  | step {tail next : Tail}
      (reachable : Reachable recycle logNumber checksum reporter tail)
      (step : Step tail next) :
      Reachable recycle logNumber checksum reporter next

/-- Between the calls of the reader, its file is at rest and holds what is still
to be returned. -/
structure Invariant
    (format : Format)
    (reporter : Option (List Report))
    (tail : Tail)
    (offset : Nat)
    (todo : List Bytes) : Prop where
  aligned : tail.reader.Aligned format offset todo
  atRest : tail.reader.file.arrivals = []
  written : tail.written = tail.returned ++ todo
  format_eq : tail.writer.format = format
  offset_le : tail.writer.blockOffset ≤ kBlockSize
  sameEnd : tail.writer.blockOffset % kBlockSize =
    format.advance offset (format.fragmentsOf offset todo) % kBlockSize
  silent : tail.reader.reporter = reporter

theorem appended_eq (writer : Writer Bytes) (batch : List Bytes) :
    appended writer batch = writer.format.logBytes writer.blockOffset batch := by
  obtain ⟨written, -, -⟩ :=
    Writer.addRecords_spec Destination.memory_succeeds writer batch
  simp only [id_eq] at written
  rw [appended, written, List.drop_left]

/-- Batches written one after another are the layout of their records. -/
theorem chunks_eq (writer : Writer Bytes) (batches : List (List Bytes)) :
    ∀ count, ((chunks writer batches).take count).flatten =
      writer.format.logBytes writer.blockOffset (batches.take count).flatten := by
  induction batches generalizing writer with
  | nil => simp [chunks, Format.logBytes, Format.fragmentsOf]
  | cons batch batches inductionHypothesis =>
      intro count
      cases count with
      | zero => simp [Format.logBytes, Format.fragmentsOf]
      | succ count =>
          obtain ⟨-, offset, sameFormat⟩ :=
            Writer.addRecords_spec Destination.memory_succeeds writer batch
          have rest := inductionHypothesis
            (writer.addRecords Destination.memory batch) count
          rw [offset, sameFormat] at rest
          rw [chunks, List.take_succ_cons, List.flatten_cons, rest, appended_eq,
            List.take_succ_cons, List.flatten_cons, Format.logBytes_append]

theorem length_chunks (writer : Writer Bytes) (batches : List (List Bytes)) :
    (chunks writer batches).length = batches.length := by
  induction batches generalizing writer with
  | nil => rfl
  | cons batch batches inductionHypothesis =>
      rw [chunks, List.length_cons, List.length_cons, inductionHypothesis]

section Steps

variable {format : Format} {reporter : Option (List Report)} {tail : Tail}
  {offset : Nat} {todo : List Bytes}

/-- While the writer is at work, the reader stands in front of what it had not
returned yet and what is being written. -/
theorem Invariant.during
    (invariant : Invariant format reporter tail offset todo)
    (batches : List (List Bytes)) :
    (tail.during batches).reader.Aligned format offset
      (todo ++ batches.flatten) := by
  have fits := format.fits_fragmentsOf offset todo
    invariant.aligned.positioned.offset_le
  have same (records : List Bytes) :
      tail.writer.format.logBytes tail.writer.blockOffset records =
        format.logBytes (format.advance offset (format.fragmentsOf offset todo))
          records := by
    rw [invariant.format_eq]
    exact format.logBytes_sameOffset invariant.offset_le fits.advance_le
      invariant.sameEnd records
  have batchwise := chunks_eq tail.writer batches
  refine invariant.aligned.schedule invariant.atRest
    (fun chunks => (batchwise chunks).trans (same _)) ?_
  have complete := batchwise batches.length
  rw [List.take_length, ← length_chunks tail.writer, List.take_length] at complete
  exact complete.trans (same _)

/-- A call of the reader that keeps to the records keeps the invariant. -/
theorem Invariant.after
    (invariant : Invariant format reporter tail offset todo)
    (batches : List (List Bytes))
    {reader : Reader GrowingFile}
    {offset' : Nat}
    {records todo' : List Bytes}
    (aligned : reader.Aligned format offset' todo')
    (delivered : todo ++ batches.flatten = records ++ todo')
    (sameEnd :
      format.advance offset
          (format.fragmentsOf offset (todo ++ batches.flatten)) % kBlockSize =
        format.advance offset' (format.fragmentsOf offset' todo') % kBlockSize)
    (silent : reader.reporter = (tail.during batches).reader.reporter) :
    Invariant format reporter ((tail.during batches).after reader records) offset'
      todo' := by
  obtain ⟨-, offsetEq, sameFormat⟩ := Writer.addRecords_spec
    Destination.memory_succeeds tail.writer batches.flatten
  have fits := format.fits_fragmentsOf offset todo
    invariant.aligned.positioned.offset_le
  rw [invariant.format_eq] at offsetEq
  refine ⟨aligned.settle, rfl, ?_, sameFormat.trans invariant.format_eq, ?_, ?_,
    silent.trans invariant.silent⟩
  · change tail.written ++ batches.flatten = (tail.returned ++ records) ++ todo'
    rw [invariant.written, List.append_assoc, delivered, List.append_assoc]
  · change (tail.writer.addRecords Destination.memory
      batches.flatten).blockOffset ≤ kBlockSize
    rw [offsetEq]
    exact (format.fits_fragmentsOf _ _ invariant.offset_le).advance_le
  · change (tail.writer.addRecords Destination.memory
      batches.flatten).blockOffset % kBlockSize = _
    rw [offsetEq, format.advance_fragmentsOf_sameOffset invariant.offset_le fits.advance_le
        invariant.sameEnd, ← sameEnd, Format.fragmentsOf_append,
      Format.advance_append]

theorem addRecord_eq
    (record : Bytes)
    (atRest : tail.reader.file.arrivals = []) :
    tail.addRecord record =
      (tail.during [[record]]).after (tail.during [[record]]).reader [] := by
  have settled : tail.reader.file.append (appended tail.writer [record]) =
      (tail.reader.file.schedule (chunks tail.writer [[record]])).settle := by
    simp only [GrowingFile.settle, GrowingFile.append, GrowingFile.schedule, chunks,
      List.flatten_cons, List.flatten_nil, List.append_nil, atRest]
  simp only [addRecord, settled, after, Tail.during, List.flatten_cons,
    List.flatten_nil, List.append_nil]
  rfl

/-- Every step of the writer or the reader keeps the invariant. -/
theorem Invariant.step
    {next : Tail}
    (invariant : Invariant format reporter tail offset todo)
    (step : Step tail next) :
    ∃ offset' todo', Invariant format reporter next offset' todo' := by
  cases step with
  | addRecord record =>
      rw [addRecord_eq record invariant.atRest]
      exact ⟨_, _, invariant.after [[record]] (invariant.during [[record]]) rfl rfl
        rfl⟩
  | readRecord batches mode fuel result returned =>
      have aligned := invariant.during batches
      obtain ⟨result', offset', todo', call⟩ := aligned.call mode
      have same := call.returns.eq_of_readRecord aligned.fromStart returned
      rw [same]
      exact ⟨_, _, invariant.after batches call.aligned call.todo_eq
        (call.sameEnd aligned.positioned.offset_le) call.silent⟩
  | unmarkEOF batches =>
      have aligned := invariant.during batches
      obtain ⟨offset', aligned', same, unmarks⟩ := aligned.unmarkEOF
      exact ⟨_, _, invariant.after batches aligned' rfl
        (format.advance_fragmentsOf_sameOffset aligned.positioned.offset_le
          aligned'.positioned.offset_le same _) unmarks.silent⟩

end Steps

theorem invariant_new
    (recycle : Bool)
    (logNumber : UInt64)
    (small : recycle = true → logNumber.toNat < 2 ^ 32)
    (checksum : Bool)
    (reporter : Option (List Report)) :
    Invariant ⟨recycle, logNumber⟩ reporter
      (Tail.new recycle logNumber checksum reporter) kBlockSize [] where
  aligned := {
    positioned := Reader.positioned_new (List.prefix_refl []) reporter checksum
      logNumber
    accepts := Reader.accepts_new small reporter checksum
    fromStart := rfl
    whole := rfl
    fileEnds := fun chunks => ⟨0, by
      simp [Tail.new, Reader.new, GrowingFile.unread, Format.logBytes,
        Format.fragmentsOf]⟩
    bufferEnds := nofun }
  atRest := rfl
  written := rfl
  format_eq := rfl
  offset_le := Nat.zero_le _
  sameEnd := by simp [Tail.new, Writer.new, Format.fragmentsOf, Format.advance]
  silent := rfl

/-- The invariant holds along every run. -/
theorem Reachable.invariant
    {recycle : Bool}
    {logNumber : UInt64}
    {checksum : Bool}
    {reporter : Option (List Report)}
    {tail : Tail}
    (reachable : Reachable recycle logNumber checksum reporter tail)
    (small : recycle = true → logNumber.toNat < 2 ^ 32) :
    ∃ offset todo,
      Invariant ⟨recycle, logNumber⟩ reporter tail offset todo := by
  induction reachable with
  | new => exact ⟨_, _, invariant_new recycle logNumber small checksum reporter⟩
  | step _ step inductionHypothesis =>
      obtain ⟨offset, todo, invariant⟩ := inductionHypothesis
      exact invariant.step step

/-- A reader that follows a log, looking at the file only between `AddRecord`
calls, returns what has been written: in order, each record once, and without
reports.  Every call returns, and draining the log after `UnmarkEOF` returns
everything that had been written before. -/
theorem follows_writer
    {recycle : Bool}
    {logNumber : UInt64}
    (small : recycle = true → logNumber.toNat < 2 ^ 32)
    {checksum : Bool}
    {reporter : Option (List Report)}
    {tail : Tail}
    (reachable : Reachable recycle logNumber checksum reporter tail) :
    tail.returned <+: tail.written ∧
      tail.reader.reporter = reporter ∧
      ∀ (mode : WALRecoveryMode) (batches : List (List Bytes)),
        (∃ result enough, ∀ fuel, enough ≤ fuel →
          (tail.during batches).reader.readRecord GrowingFile.sequentialFile mode
            fuel = some result) ∧
        ∃ records final,
          (∃ enough, ∀ fuel, enough ≤ fuel →
            ((tail.during batches).reader.unmarkEOF
              GrowingFile.sequentialFile).readRecords GrowingFile.sequentialFile
                mode fuel = some (records, final)) ∧
            tail.written <+: tail.returned ++ records ∧
            tail.returned ++ records <+: tail.written ++ batches.flatten ∧
            final.reporter = reporter := by
  obtain ⟨offset, todo, invariant⟩ := reachable.invariant small
  refine ⟨⟨todo, invariant.written.symm⟩, invariant.silent, fun mode batches => ?_⟩
  have aligned := invariant.during batches
  constructor
  · obtain ⟨result, offset', todo', call⟩ := aligned.call mode
    obtain ⟨enough, run⟩ := call.returns.readRecordLoop
    refine ⟨result, enough, fun fuel bound => ?_⟩
    rw [Reader.readRecord_eq_loop _ _ _ aligned.fromStart]
    exact run fuel bound
  · obtain ⟨offset', aligned', same, unmarks⟩ := aligned.unmarkEOF
    obtain ⟨records, final, left, drain⟩ := aligned'.drain mode
    obtain ⟨arrived, -, counted⟩ := unmarks.arrived
    have before := congrArg List.length
      (invariant.aligned.eq_of_atRest invariant.atRest)
    rw [Format.logBytes_sameOffset _ aligned.positioned.offset_le
      aligned'.positioned.offset_le same, List.length_append] at before
    change _ = tail.reader.buffer.length + tail.reader.file.unread.length + _
      at counted
    have covers := drain.covers unmarks.fresh todo (List.prefix_append _ _)
      (by omega)
    refine ⟨records, final, drain.reads.readRecords aligned'.fromStart, ?_, ?_,
      (drain.silent.trans unmarks.silent).trans invariant.silent⟩
    · rw [invariant.written]
      exact (List.prefix_append_right_inj _).mpr covers
    · rw [invariant.written, List.append_assoc, drain.todo_eq]
      exact (List.prefix_append_right_inj _).mpr (List.prefix_append _ _)

theorem follows_writer_two :
    let tail := ((Tail.new true 7 true (some [])).addRecord [1]).addRecord [2, 3]
    ∃ final enough, ∀ fuel, enough ≤ fuel →
      ((tail.during []).reader.unmarkEOF GrowingFile.sequentialFile).readRecords
        GrowingFile.sequentialFile .absoluteConsistency fuel =
          some ([[1], [2, 3]], final) := by
  intro tail
  have reachable : Reachable true 7 true (some []) tail :=
    .step (.step .new (.addRecord _ [1])) (.addRecord _ [2, 3])
  obtain ⟨-, -, calls⟩ := follows_writer (fun _ => by decide) reachable
  obtain ⟨-, records, final, ⟨enough, run⟩, covers, within, -⟩ :=
    calls .absoluteConsistency []
  have all : records = [[1], [2, 3]] := by
    have written : tail.written = [[1], [2, 3]] := rfl
    have returned : tail.returned = [] := rfl
    simp only [written, returned, List.nil_append, List.flatten_nil,
      List.append_nil] at covers within
    exact (covers.eq_of_length
      (Nat.le_antisymm covers.length_le within.length_le)).symm
  rw [all] at run
  exact ⟨final, enough, run⟩

end Tail

/-! ## The end of the file between two fragments -/

namespace Reader

section Fragments

variable {reader : Reader GrowingFile} {format : Format} {offset : Nat}
  {fragments following : List Fragment}

/-- Repeated calls of `ReadRecord` have at most one outcome. -/
theorem readRecords_unique
    {φ : Type}
    {F : SequentialFile φ}
    {mode : WALRecoveryMode}
    {reader : Reader φ}
    {left right : List Bytes × Reader φ}
    (runLeft : ∃ enough, ∀ fuel, enough ≤ fuel →
      reader.readRecords F mode fuel = some left)
    (runRight : ∃ enough, ∀ fuel, enough ≤ fuel →
      reader.readRecords F mode fuel = some right) : left = right := by
  obtain ⟨enoughLeft, runLeft⟩ := runLeft
  obtain ⟨enoughRight, runRight⟩ := runRight
  have leftRun := runLeft (max enoughLeft enoughRight) (Nat.le_max_left _ _)
  have rightRun := runRight (max enoughLeft enoughRight) (Nat.le_max_right _ _)
  exact Option.some.inj (leftRun.symm.trans rightRun)

/-- The file of a reader grows. -/
def grow (reader : Reader GrowingFile) (data : Bytes) : Reader GrowingFile :=
  { reader with file := reader.file.append data }

theorem Positioned.grow
    {rest rest' data : Bytes}
    (positioned : reader.Positioned offset rest)
    (atRest : reader.file.arrivals = [])
    (consistent : reader.buffer ++ (reader.file.unread ++ data) <+: rest') :
    (reader.grow data).Positioned offset rest' := by
  refine ⟨positioned.noError, ?_, ?_, positioned.live, positioned.ended⟩
  · have inFile := positioned.inFile
    simp only [Reader.grow, GrowingFile.append, List.length_append]
    omega
  · change reader.buffer ++ ((reader.file.append data).unread ++
      reader.file.arrivals.flatten) <+: rest'
    rw [GrowingFile.unread_append _ positioned.inFile, atRest, List.flatten_nil,
      List.append_nil]
    exact consistent

/-- Reading until the file ends behind these fragments. -/
theorem reads_whole
    (mode : WALRecoveryMode)
    (positioned : reader.Positioned offset
      (format.place offset (fragments ++ following)))
    (fits : format.Fits offset fragments)
    (atRest : reader.file.arrivals = [])
    (inReach : reader.reach = (format.place offset fragments).length)
    (accepts : reader.Accepts format)
    (fromStart : reader.initialOffset = 0) :
    ∃ final offset',
      Reads GrowingFile.sequentialFile mode (startAssembly reader)
          (assemble none fragments) final ∧
        final.Positioned offset'
          (format.place (format.advance offset fragments) following) ∧
        format.advance offset fragments % kBlockSize = offset' % kBlockSize ∧
        final.eof = true ∧
        final.reach = 0 ∧
        Consumes reader final (format.place offset fragments).length := by
  rw [Format.place_append] at positioned
  obtain ⟨next, steps, moved, consumed, -, -, -⟩ :=
    @steps_fragments mode (startAssembly reader) format offset fragments _
      positioned fits inReach.ge accepts fromStart nofun
  rw [Assembly.reader_startAssembly] at consumed
  obtain ⟨reached, stillAtRest⟩ := consumed.reach_eq atRest
  obtain ⟨final, offset', step, ended, near, isEof, nothing, consumed', -, -⟩ :=
    readRecordStep_end mode moved (by omega)
      (.inr (by simp [GrowingFile.nextArrival, stillAtRest]))
  have reads := steps.reads (.stop step rfl)
  rw [List.append_nil] at reads
  refine ⟨final, offset', reads, ended, ?_, isEof, nothing,
    consumed.trans consumed'⟩
  rcases near with rfl | ⟨full, rfl⟩
  · rfl
  · simp [full]

/-- A reader that looks at the file again reads until the file ends behind these
fragments. -/
theorem reads_whole_unmarkEOF
    (mode : WALRecoveryMode)
    (positioned : reader.Positioned offset
      (format.place offset (fragments ++ following)))
    (fits : format.Fits offset fragments)
    (atRest : reader.file.arrivals = [])
    (inFile : reader.buffer.length + reader.file.unread.length =
      (format.place offset fragments).length)
    (accepts : reader.Accepts format)
    (fromStart : reader.initialOffset = 0) :
    ∃ final offset',
      (∃ enough, ∀ fuel, enough ≤ fuel →
        (reader.unmarkEOF GrowingFile.sequentialFile).readRecords
          GrowingFile.sequentialFile mode fuel =
            some (assemble none fragments, final)) ∧
        final.Positioned offset'
          (format.place (format.advance offset fragments) following) ∧
        format.advance offset fragments % kBlockSize = offset' % kBlockSize ∧
        final.buffer = [] ∧
        final.file.unread = [] ∧
        final.file.arrivals = [] ∧
        final.Accepts format ∧
        final.initialOffset = 0 := by
  obtain ⟨offset', positioned', same, unmarks⟩ := positioned.unmarkEOF
  obtain ⟨arrived, dropped, counted⟩ := unmarks.arrived
  have inside := fits.offset_le
  have inside' := positioned'.offset_le
  have fits' := fits.sameOffset inside' same
  rw [format.place_sameOffset inside inside' same] at positioned' inFile
  rw [atRest] at dropped counted
  simp only [List.drop_nil, List.take_nil, List.flatten_nil, List.length_nil]
    at dropped counted
  generalize reader.unmarkEOF GrowingFile.sequentialFile = next at *
  have inReach : next.reach = (format.place offset' fragments).length := by
    unfold reach
    split
    · rename_i ended
      have empty := unmarks.fresh ended
      rw [empty, List.length_nil] at counted
      omega
    · omega
  have accepts' : next.Accepts format := by
    intro recycle
    rw [unmarks.settings.2.1]
    exact accepts recycle
  obtain ⟨final, offset'', reads, ended, sameEnd, isEof, nothing, consumed⟩ :=
    reads_whole mode positioned' fits' dropped inReach accepts'
      (unmarks.settings.1.trans fromStart)
  have sameAdvance := format.advance_sameOffset inside inside' same fragments
  rw [← format.place_sameOffset fits.advance_le fits'.advance_le sameAdvance]
    at ended
  have fromStart' := unmarks.settings.1.trans fromStart
  refine ⟨final, offset'', reads.readRecords fromStart', ended,
    sameAdvance.trans sameEnd, ?_, consumed.fresh unmarks.fresh isEof,
    (consumed.reach_eq dropped).2, consumed.accepts accepts',
    consumed.settings.1.trans fromStart'⟩
  simpa [reach, isEof] using nothing

end Fragments

end Reader

namespace Tail

/-- The file ends between two fragments of a record when the reader looks at it.
After the rest of the record and the records behind it have been written, the
reader finds fragments without a beginning, and goes on with the next record. -/
theorem loses_fragmented_record
    {format : Format}
    {reporter : Option (List Report)}
    {tail : Tail}
    {offset : Nat}
    {todo : List Bytes}
    (invariant : Invariant format reporter tail offset todo)
    {record : Bytes}
    {init rest : List Fragment}
    (split : tail.writer.format.fragments tail.writer.blockOffset true record =
      init ++ rest)
    (begun : init ≠ [])
    (unfinished : rest ≠ [])
    (later : List Bytes)
    (mode : WALRecoveryMode) :
    let log := appended tail.writer (record :: later)
    let seen :=
      (tail.writer.format.place tail.writer.blockOffset init).length
    ∃ stopped final,
      (∃ enough, ∀ fuel, enough ≤ fuel →
        ((tail.reader.grow (log.take seen)).unmarkEOF
          GrowingFile.sequentialFile).readRecords GrowingFile.sequentialFile mode
            fuel = some (todo, stopped)) ∧
        ∃ enough, ∀ fuel, enough ≤ fuel →
          ((stopped.grow (log.drop seen)).unmarkEOF
            GrowingFile.sequentialFile).readRecords GrowingFile.sequentialFile mode
              fuel = some (later, final) := by
  intro log seen
  have aligned := invariant.aligned
  have inside := aligned.positioned.offset_le
  have fitsTodo := format.fits_fragmentsOf offset todo inside
  have placed := aligned.eq_of_atRest invariant.atRest
  rw [invariant.format_eq] at split
  -- From here on everything is at the block offset the reader sees.
  generalize frontEq :
    format.advance offset (format.fragmentsOf offset todo) = front at *
  have same : tail.writer.blockOffset % kBlockSize = front % kBlockSize := by
    rw [invariant.sameEnd, frontEq]
  have frontInside : front ≤ kBlockSize := frontEq ▸ fitsTodo.advance_le
  rw [format.fragments_sameOffset invariant.offset_le frontInside same] at split
  have seenEq : seen = (format.place front init).length := by
    simp only [seen, invariant.format_eq,
      format.place_sameOffset invariant.offset_le frontInside same]
  generalize others : format.fragmentsOf
    (format.advance front (init ++ rest)) later = following
  have pieces : format.fragmentsOf front (record :: later) =
      init ++ (rest ++ following) := by
    rw [Format.fragmentsOf, split, others, List.append_assoc]
  have logEq : log = format.place front (init ++ (rest ++ following)) := by
    simp only [log, appended_eq, invariant.format_eq]
    rw [format.logBytes_sameOffset invariant.offset_le frontInside same,
      Format.logBytes, pieces]
  have taken : log.take seen = format.place front init := by
    rw [logEq, seenEq, Format.place_append, List.take_left]
  have dropped : log.drop seen =
      format.place (format.advance front init) (rest ++ following) := by
    rw [logEq, seenEq, Format.place_append, List.drop_left]
  have fitsNew := format.fits_fragmentsOf front (record :: later) frontInside
  rw [pieces] at fitsNew
  -- The reader gets to the end of the file, where the record is pending.
  obtain ⟨fitsInit, fitsRest⟩ := (format.fits_append _ _ _).mp fitsNew
  have fits : format.Fits offset (format.fragmentsOf offset todo ++ init) := by
    rw [format.fits_append, frontEq]
    exact ⟨fitsTodo, fitsInit⟩
  have positioned : (tail.reader.grow (log.take seen)).Positioned offset
      (format.place offset ((format.fragmentsOf offset todo ++ init) ++
        (rest ++ following))) := by
    apply aligned.positioned.grow invariant.atRest
    rw [taken, ← List.append_assoc, placed, List.append_assoc,
      format.place_append, frontEq, format.place_append front]
    exact ⟨_, List.append_assoc _ _ _⟩
  have inFile : (tail.reader.grow (log.take seen)).buffer.length +
      (tail.reader.grow (log.take seen)).file.unread.length =
        (format.place offset
          (format.fragmentsOf offset todo ++ init)).length := by
    have size := congrArg List.length placed
    rw [List.length_append] at size
    change tail.reader.buffer.length +
      (tail.reader.file.append (log.take seen)).unread.length = _
    rw [GrowingFile.unread_append _ aligned.positioned.inFile,
      List.length_append, taken, format.place_append, frontEq,
      List.length_append, ← Nat.add_assoc, size]
    rfl
  obtain ⟨stopped, offset', reads, stoppedAt, near, noBuffer, noUnread, atRest,
    accepts, fromStart⟩ := Reader.reads_whole_unmarkEOF mode positioned fits
      invariant.atRest inFile aligned.accepts aligned.fromStart
  have cutEq : format.advance offset (format.fragmentsOf offset todo ++ init) =
      format.advance front init := by
    rw [format.advance_append, frontEq]
  rw [cutEq] at stoppedAt near
  have sameBytes := format.place_sameOffset fitsInit.advance_le
    stoppedAt.offset_le near (rest ++ following)
  -- Then it finds the other fragments of the record without the first ones.
  have positioned' : (stopped.grow (log.drop seen)).Positioned offset'
      (format.place offset' ((rest ++ following) ++ [])) := by
    apply stoppedAt.grow atRest
    rw [noBuffer, noUnread, dropped, sameBytes, List.append_nil]
    exact List.prefix_refl _
  have fits' : format.Fits offset' (rest ++ following) :=
    fitsRest.sameOffset stoppedAt.offset_le near
  have inFile' : (stopped.grow (log.drop seen)).buffer.length +
      (stopped.grow (log.drop seen)).file.unread.length =
        (format.place offset' (rest ++ following)).length := by
    change stopped.buffer.length +
      (stopped.file.append (log.drop seen)).unread.length = _
    rw [GrowingFile.unread_append _ stoppedAt.inFile, noBuffer, noUnread,
      dropped, sameBytes, List.nil_append, List.length_nil, Nat.zero_add]
  obtain ⟨final, -, reads', -⟩ := Reader.reads_whole_unmarkEOF mode positioned'
    fits' atRest inFile' accepts fromStart
  have open' := format.finish_of_split split unfinished
  have continued := assemble_of_continued rest (format.start_of_split split begun)
  have assembledTodo := format.assemble_fragmentsOf offset todo
  have assembledLater := format.assemble_fragmentsOf
    (format.advance front (init ++ rest)) later
  rw [others] at assembledLater
  rw [assemble_append, assembledTodo.1, assembledTodo.2.1,
    assemble_of_open none init open', List.append_nil] at reads
  rw [assemble_append, continued.1, continued.2, assembledLater.1] at reads'
  exact ⟨stopped, final, reads, reads'⟩

/-- Whenever a reader that follows a log meets the end of the file between two
fragments of a record, it does not return that record any more: once the rest
has been written and `UnmarkEOF` has been called, it returns the records behind
it only. -/
theorem readRecords_between_fragments
    {recycle : Bool}
    {logNumber : UInt64}
    (small : recycle = true → logNumber.toNat < 2 ^ 32)
    {checksum : Bool}
    {reporter : Option (List Report)}
    {tail : Tail}
    (reachable : Reachable recycle logNumber checksum reporter tail)
    {record : Bytes}
    {init rest : List Fragment}
    (split : tail.writer.format.fragments tail.writer.blockOffset true record =
      init ++ rest)
    (begun : init ≠ [])
    (unfinished : rest ≠ [])
    (later : List Bytes)
    (mode : WALRecoveryMode) :
    let log := appended tail.writer (record :: later)
    let seen :=
      (tail.writer.format.place tail.writer.blockOffset init).length
    ∃ before stopped,
      tail.returned ++ before = tail.written ∧
        (∃ enough, ∀ fuel, enough ≤ fuel →
          ((tail.reader.grow (log.take seen)).unmarkEOF
            GrowingFile.sequentialFile).readRecords GrowingFile.sequentialFile
              mode fuel = some (before, stopped)) ∧
        (∃ final enough, ∀ fuel, enough ≤ fuel →
          ((stopped.grow (log.drop seen)).unmarkEOF
            GrowingFile.sequentialFile).readRecords GrowingFile.sequentialFile
              mode fuel = some (later, final)) ∧
        ¬∃ final enough, ∀ fuel, enough ≤ fuel →
          ((stopped.grow (log.drop seen)).unmarkEOF
            GrowingFile.sequentialFile).readRecords GrowingFile.sequentialFile
              mode fuel = some (record :: later, final) := by
  intro log seen
  obtain ⟨offset, todo, invariant⟩ := reachable.invariant small
  obtain ⟨stopped, final, first, enough, second⟩ :=
    loses_fragmented_record invariant split begun unfinished later mode
  refine ⟨todo, stopped, invariant.written.symm, first, ⟨final, enough, second⟩, ?_⟩
  rintro ⟨final', wanted⟩
  have same := Reader.readRecords_unique ⟨enough, second⟩ wanted
  have sizes := congrArg List.length (congrArg Prod.fst same)
  simp at sizes

/-- A record of 40000 bytes is cut at the end of the first block. -/
theorem fragments_40000
    {record : Bytes}
    (length : record.length = 40000) :
    Format.fragments ⟨false, 7⟩ 0 true record =
      [⟨true, false, record.take 32761⟩] ++ [⟨false, true, record.drop 32761⟩] := by
  have header : (⟨false, 7⟩ : Format).header = 7 := rfl
  rw [Format.fragments, Format.fragments]
  simp only [Format.startOffset_zero, Format.endOffset, header, kBlockSize_eq,
    List.length_drop, length]
  norm_num [Format.startOffset, header, kBlockSize_eq]
  exact length.le

/-- The first fragment of such a record fills the first block. -/
theorem length_place_32761
    {first : Bytes}
    (length : first.length = 32761) :
    (Format.place ⟨false, 7⟩ 0 [⟨true, false, first⟩]).length = 32768 := by
  rw [Format.length_place_cons, Format.length_encode, Format.gap_zero,
    Format.place_nil, length]
  rfl

/-- Such a record is lost to a reader that sees its first block only. -/
theorem loses_record_40000
    {record : Bytes}
    (length : record.length = 40000) :
    let tail := Tail.new false 7 true (some [])
    let log := appended tail.writer [record]
    ∃ stopped,
      (∃ enough, ∀ fuel, enough ≤ fuel →
        ((tail.reader.grow (log.take 32768)).unmarkEOF
          GrowingFile.sequentialFile).readRecords GrowingFile.sequentialFile
            .tolerateCorruptedTailRecords fuel = some ([], stopped)) ∧
        ¬∃ final enough, ∀ fuel, enough ≤ fuel →
          ((stopped.grow (log.drop 32768)).unmarkEOF
            GrowingFile.sequentialFile).readRecords GrowingFile.sequentialFile
              .tolerateCorruptedTailRecords fuel = some ([record], final) := by
  intro tail log
  obtain ⟨stopped, final, first, second⟩ := loses_fragmented_record
    (invariant_new false 7 Bool.false_ne_true.elim true (some [])) (fragments_40000 length)
    (List.cons_ne_nil _ _) (List.cons_ne_nil _ _) []
    .tolerateCorruptedTailRecords
  change ∃ enough, ∀ fuel, enough ≤ fuel → ((tail.reader.grow (log.take
    (Format.place ⟨false, 7⟩ 0 _).length)).unmarkEOF _).readRecords _ _ fuel = _
    at first
  change ∃ enough, ∀ fuel, enough ≤ fuel → ((stopped.grow (log.drop
    (Format.place ⟨false, 7⟩ 0 _).length)).unmarkEOF _).readRecords _ _ fuel = _
    at second
  have firstBlock : (record.take 32761).length = 32761 := by
    rw [List.length_take, length]
    rfl
  rw [length_place_32761 firstBlock] at first second
  refine ⟨stopped, first, ?_⟩
  rintro ⟨final', wanted⟩
  have same := Reader.readRecords_unique second wanted
  have sizes := congrArg List.length (congrArg Prod.fst same)
  simp at sizes

theorem fragmented_record_lost :
    let record : Bytes := List.replicate 40000 1
    let tail := Tail.new false 7 true (some [])
    let log := appended tail.writer [record]
    ∃ stopped,
      (∃ enough, ∀ fuel, enough ≤ fuel →
        ((tail.reader.grow (log.take 32768)).unmarkEOF
          GrowingFile.sequentialFile).readRecords GrowingFile.sequentialFile
            .tolerateCorruptedTailRecords fuel = some ([], stopped)) ∧
        ¬∃ final enough, ∀ fuel, enough ≤ fuel →
          ((stopped.grow (log.drop 32768)).unmarkEOF
            GrowingFile.sequentialFile).readRecords GrowingFile.sequentialFile
              .tolerateCorruptedTailRecords fuel = some ([record], final) :=
  loses_record_40000 List.length_replicate

theorem readRecords_between_fragments_40000 :
    let tail := Tail.new false 7 true none
    let log := appended tail.writer [List.replicate 40000 1, [2]]
    let seen := (tail.writer.format.place tail.writer.blockOffset
      [⟨true, false, List.replicate 32761 1⟩]).length
    ∃ (before : List Bytes) (stopped : Reader GrowingFile),
      tail.returned ++ before = tail.written ∧
        ∃ final enough, ∀ fuel, enough ≤ fuel →
          ((stopped.grow (log.drop seen)).unmarkEOF
            GrowingFile.sequentialFile).readRecords GrowingFile.sequentialFile
              .tolerateCorruptedTailRecords fuel = some ([[2]], final) := by
  intro tail log seen
  have small : false = true → (7 : UInt64).toNat < 2 ^ 32 := Bool.false_ne_true.elim
  have reachable : Reachable false 7 true none tail := .new
  have split := fragments_40000
    (List.length_replicate : (List.replicate 40000 (1 : UInt8)).length = 40000)
  rw [List.take_replicate, Nat.min_eq_left (by decide)] at split
  obtain ⟨before, stopped, returned, -, second, -⟩ :=
    readRecords_between_fragments small reachable split
      (List.cons_ne_nil _ _) (List.cons_ne_nil _ _) [[2]]
      .tolerateCorruptedTailRecords
  exact ⟨before, stopped, returned, second⟩

end Tail
end Log
end RocksUtil
