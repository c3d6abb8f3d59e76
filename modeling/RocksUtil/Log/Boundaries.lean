import RocksUtil.Log.Recovery

/-!
# Records and the end of a growing file

A reader of a file that another thread appends to, as long as the file always
ends behind a complete record.  `Aligned` says where such a reader stands: in
front of complete records, with an end of file only between two of them.  Every
call of `ReadRecord` and of `UnmarkEOF` keeps it (`Aligned.call`,
`Aligned.unmarkEOF`).
-/

namespace RocksUtil
namespace Log

namespace Format

theorem logBytes_append
    (format : Format)
    (offset : Nat)
    (left right : List Bytes) :
    format.logBytes offset (left ++ right) =
      format.logBytes offset left ++
        format.logBytes (format.advance offset (format.fragmentsOf offset left))
          right := by
  rw [logBytes, fragmentsOf_append, place_append]
  rfl

/-- Block offsets that are the same up to a full block. -/
theorem sameOffset_cases
    {left right : Nat}
    (leftInside : left ≤ kBlockSize)
    (rightInside : right ≤ kBlockSize)
    (same : left % kBlockSize = right % kBlockSize) :
    left = right ∨ left = 0 ∧ right = kBlockSize ∨
      left = kBlockSize ∧ right = 0 := by
  rw [kBlockSize_eq] at leftInside rightInside same ⊢
  omega

theorem place_sameOffset
    (format : Format)
    {left right : Nat}
    (leftInside : left ≤ kBlockSize)
    (rightInside : right ≤ kBlockSize)
    (same : left % kBlockSize = right % kBlockSize)
    (fragments : List Fragment) :
    format.place left fragments = format.place right fragments := by
  rcases sameOffset_cases leftInside rightInside same with
    rfl | ⟨rfl, rfl⟩ | ⟨rfl, rfl⟩
  · rfl
  · exact (format.place_kBlockSize fragments).symm
  · exact format.place_kBlockSize fragments

theorem endOffset_sameOffset
    (format : Format)
    {left right : Nat}
    (leftInside : left ≤ kBlockSize)
    (rightInside : right ≤ kBlockSize)
    (same : left % kBlockSize = right % kBlockSize)
    (length : Nat) :
    format.endOffset left length = format.endOffset right length := by
  rcases sameOffset_cases leftInside rightInside same with
    rfl | ⟨rfl, rfl⟩ | ⟨rfl, rfl⟩
  · rfl
  · exact (format.endOffset_kBlockSize length).symm
  · exact format.endOffset_kBlockSize length

theorem Fits.sameOffset
    {format : Format}
    {left right : Nat}
    {fragments : List Fragment}
    (fits : format.Fits left fragments)
    (rightInside : right ≤ kBlockSize)
    (same : left % kBlockSize = right % kBlockSize) :
    format.Fits right fragments := by
  cases fragments with
  | nil => exact rightInside
  | cons fragment fragments =>
      have ends := format.endOffset_sameOffset fits.offset_le rightInside same
        fragment.payload.length
      obtain ⟨-, filled, rest⟩ := fits
      rw [ends] at filled rest
      exact ⟨rightInside, filled, rest⟩

/-- Block offsets that differ by a full block lead to the same one. -/
theorem advance_sameOffset
    (format : Format)
    {left right : Nat}
    (leftInside : left ≤ kBlockSize)
    (rightInside : right ≤ kBlockSize)
    (same : left % kBlockSize = right % kBlockSize)
    (fragments : List Fragment) :
    format.advance left fragments % kBlockSize =
      format.advance right fragments % kBlockSize := by
  cases fragments with
  | nil => exact same
  | cons fragment fragments =>
      rw [advance, advance,
        format.endOffset_sameOffset leftInside rightInside same]

theorem fragments_sameOffset
    (format : Format)
    {left right : Nat}
    (leftInside : left ≤ kBlockSize)
    (rightInside : right ≤ kBlockSize)
    (same : left % kBlockSize = right % kBlockSize)
    (start : Bool)
    (bytes : Bytes) :
    format.fragments left start bytes = format.fragments right start bytes := by
  rcases sameOffset_cases leftInside rightInside same with
    rfl | ⟨rfl, rfl⟩ | ⟨rfl, rfl⟩
  · rfl
  · exact (format.fragments_kBlockSize start bytes).symm
  · exact format.fragments_kBlockSize start bytes

theorem logBytes_sameOffset
    (format : Format)
    {left right : Nat}
    (leftInside : left ≤ kBlockSize)
    (rightInside : right ≤ kBlockSize)
    (same : left % kBlockSize = right % kBlockSize)
    (records : List Bytes) :
    format.logBytes left records = format.logBytes right records := by
  rcases sameOffset_cases leftInside rightInside same with
    rfl | ⟨rfl, rfl⟩ | ⟨rfl, rfl⟩
  · rfl
  · exact (format.logBytes_kBlockSize records).symm
  · exact format.logBytes_kBlockSize records

theorem advance_fragmentsOf_sameOffset
    (format : Format)
    {left right : Nat}
    (leftInside : left ≤ kBlockSize)
    (rightInside : right ≤ kBlockSize)
    (same : left % kBlockSize = right % kBlockSize)
    (records : List Bytes) :
    format.advance left (format.fragmentsOf left records) % kBlockSize =
      format.advance right (format.fragmentsOf right records) % kBlockSize := by
  have sameFragments : format.fragmentsOf left records =
      format.fragmentsOf right records := by
    rcases sameOffset_cases leftInside rightInside same with
      rfl | ⟨rfl, rfl⟩ | ⟨rfl, rfl⟩
    · rfl
    · exact (format.fragmentsOf_kBlockSize records).symm
    · exact format.fragmentsOf_kBlockSize records
  rw [sameFragments]
  exact format.advance_sameOffset leftInside rightInside same _

end Format

namespace Reader

section Calls

variable {φ : Type} {F : SequentialFile φ} {mode : WALRecoveryMode}

theorem Returns.reads_stop
    {assembly : Assembly φ}
    {result : ReadResult φ}
    (returns : Returns F mode assembly result)
    (failed : result.found = false) :
    Reads F mode assembly [] result.reader := by
  induction returns with
  | done step => exact .stop step failed
  | next step _ inductionHypothesis =>
      exact .next step (inductionHypothesis failed)

theorem Returns.reads_record
    {assembly : Assembly φ}
    {result : ReadResult φ}
    {records : List Bytes}
    {final : Reader φ}
    (returns : Returns F mode assembly result)
    (found : result.found = true)
    (fromStart : result.reader.initialOffset = 0)
    (reads : Reads F mode (startAssembly result.reader) records final) :
    Reads F mode assembly (result.record :: records) final := by
  induction returns with
  | done step => exact .record step found fromStart reads
  | next step _ inductionHypothesis =>
      exact .next step (inductionHypothesis found fromStart reads)

end Calls

/-! ## Standing at a record boundary -/

/-- The reader stands in front of the records `todo`, at block offset `offset`,
and the file always ends behind one of them. -/
structure Aligned
    (format : Format)
    (reader : Reader GrowingFile)
    (offset : Nat)
    (todo : List Bytes) : Prop where
  positioned : reader.Positioned offset (format.logBytes offset todo)
  accepts : reader.Accepts format
  fromStart : reader.initialOffset = 0
  whole : reader.total = (format.logBytes offset todo).length
  fileEnds : ∀ chunks, ∃ count,
    reader.buffer.length + reader.file.unread.length +
        (reader.file.arrivals.take chunks).flatten.length =
      (format.logBytes offset (todo.take count)).length
  bufferEnds : reader.eof = true → ∃ count,
    reader.buffer.length = (format.logBytes offset (todo.take count)).length

/-- The end of the file has been met only where the file still ends. -/
def Fresh (reader : Reader GrowingFile) : Prop :=
  reader.eof = true → reader.file.unread = []

theorem Consumes.fresh
    {before after : Reader GrowingFile}
    {count : Nat}
    (consumes : Consumes before after count)
    (fresh : before.Fresh) : after.Fresh := by
  intro endedAfter
  cases ended : before.eof with
  | true =>
      rw [(consumes.ended ended).2.1]
      exact fresh ended
  | false => exact consumes.reached ended endedAfter

section Aligned

variable {format : Format} {reader : Reader GrowingFile} {offset : Nat}
  {todo : List Bytes}

theorem logBytes_cons_length
    (format : Format)
    (offset : Nat)
    (record : Bytes)
    (records : List Bytes) :
    let pieces := format.fragments offset true record
    (format.logBytes offset (record :: records)).length =
      (format.place offset pieces).length +
        (format.logBytes (format.advance offset pieces) records).length := by
  rw [Format.logBytes, Format.fragmentsOf, Format.place_append,
    List.length_append]
  rfl

/-- Behind a complete record there are complete records. -/
theorem ends_behind_record
    {record : Bytes}
    {records : List Bytes}
    {left : Nat}
    (count : Nat)
    (ends : (format.place offset
        (format.fragments offset true record)).length + left =
      (format.logBytes offset ((record :: records).take count)).length) :
    ∃ count',
      left = (format.logBytes
        (format.advance offset (format.fragments offset true record))
        (records.take count')).length := by
  have positive := format.gap_lt_length_place_fragments offset true record
  cases count with
  | zero =>
      simp only [List.take_zero, Format.logBytes, Format.fragmentsOf,
        Format.place_nil, List.length_nil] at ends
      omega
  | succ count =>
      rw [List.take_succ_cons, logBytes_cons_length] at ends
      exact ⟨count, by omega⟩

/-- What is in reach ends behind a complete record. -/
theorem Aligned.boundary (aligned : Aligned format reader offset todo) :
    ∃ count, reader.reach = (format.logBytes offset (todo.take count)).length := by
  unfold reach
  cases ended : reader.eof with
  | true => simpa using aligned.bufferEnds ended
  | false => simpa using aligned.fileEnds 0

/-- Either the next record is in reach, or nothing is. -/
theorem Aligned.inReach_or_nothing (aligned : Aligned format reader offset todo) :
    (∃ record records, todo = record :: records ∧
      (format.place offset (format.fragments offset true record)).length ≤
        reader.reach) ∨ reader.reach = 0 := by
  obtain ⟨count, boundary⟩ := aligned.boundary
  cases todo with
  | nil => exact .inr (by simpa [Format.logBytes, Format.fragmentsOf] using boundary)
  | cons record records =>
      cases count with
      | zero =>
          exact .inr (by simpa [Format.logBytes, Format.fragmentsOf] using boundary)
      | succ count =>
          rw [List.take_succ_cons, logBytes_cons_length] at boundary
          exact .inl ⟨record, records, rfl, by omega⟩

/-- A call that returns the next record leaves the reader behind it. -/
theorem Aligned.returns_record
    (mode : WALRecoveryMode)
    {record : Bytes}
    (aligned : Aligned format reader offset (record :: todo))
    (inReach : (format.place offset
      (format.fragments offset true record)).length ≤ reader.reach) :
    ∃ next,
      Returns GrowingFile.sequentialFile mode (startAssembly reader)
          ⟨true, record, next⟩ ∧
        Aligned format next
          (format.advance offset (format.fragments offset true record)) todo ∧
        Consumes reader next (format.place offset
          (format.fragments offset true record)).length ∧
        next.reporter = reader.reporter := by
  obtain ⟨next, returns, positioned, consumed, silent⟩ := Reader.returns_record mode
    aligned.positioned inReach aligned.accepts aligned.fromStart
  refine ⟨next, returns, ⟨positioned, consumed.accepts aligned.accepts,
    consumed.settings.1.trans aligned.fromStart, ?_, ?_, ?_⟩, consumed, silent⟩
  · have total := consumed.total_eq
    have whole := aligned.whole
    rw [logBytes_cons_length] at whole
    omega
  · intro chunks
    obtain ⟨arrived, dropped, counted⟩ := consumed.arrived
    obtain ⟨count, ends⟩ := aligned.fileEnds (arrived + chunks)
    rw [List.take_add, List.flatten_append, List.length_append, ← dropped] at ends
    exact ends_behind_record count (by omega)
  · intro endedAfter
    cases ended : reader.eof with
    | true =>
        obtain ⟨-, -, counted⟩ := consumed.ended ended
        obtain ⟨count, ends⟩ := aligned.bufferEnds ended
        exact ends_behind_record count (by omega)
    | false =>
        obtain ⟨arrived, -, counted⟩ := consumed.arrived
        obtain ⟨count, ends⟩ := aligned.fileEnds arrived
        rw [consumed.reached ended endedAfter, List.length_nil] at counted
        exact ends_behind_record count (by omega)

/-- A call that can reach nothing meets the end of the file. -/
theorem Aligned.returns_end
    (mode : WALRecoveryMode)
    (aligned : Aligned format reader offset todo)
    (nothing : reader.reach = 0)
    (noArrival : reader.eof = true ∨ reader.file.nextArrival = []) :
    ∃ next offset',
      Returns GrowingFile.sequentialFile mode (startAssembly reader)
          ⟨false, [], next⟩ ∧
        Aligned format next offset' todo ∧
        offset % kBlockSize = offset' % kBlockSize ∧
        next.eof = true ∧
        next.reach = 0 ∧
        Consumes reader next 0 ∧
        next.reporter = reader.reporter := by
  obtain ⟨next, offset', step, positioned, near, ended, empty, consumed, quiet,
    -⟩ := @readRecordStep_end mode (startAssembly reader) offset _
      aligned.positioned nothing noArrival
  rw [Assembly.reader_startAssembly] at consumed
  have same : offset % kBlockSize = offset' % kBlockSize := by
    rcases near with rfl | ⟨rfl, rfl⟩
    · rfl
    · simp
  have sameLogBytes (records : List Bytes) :
      format.logBytes offset records = format.logBytes offset' records :=
    format.logBytes_sameOffset aligned.positioned.offset_le
      positioned.offset_le same records
  rw [sameLogBytes] at positioned
  refine ⟨next, offset', .done step, ⟨positioned, consumed.accepts aligned.accepts,
    consumed.settings.1.trans aligned.fromStart, ?_, ?_, ?_⟩, same, ended, empty,
    consumed, quiet (.inr rfl)⟩
  · rw [← sameLogBytes, ← aligned.whole]
    exact consumed.total_eq
  · intro chunks
    obtain ⟨arrived, dropped, counted⟩ := consumed.arrived
    obtain ⟨count, ends⟩ := aligned.fileEnds (arrived + chunks)
    rw [List.take_add, List.flatten_append, List.length_append, ← dropped] at ends
    refine ⟨count, ?_⟩
    rw [← sameLogBytes]
    omega
  · intro _
    refine ⟨0, ?_⟩
    simpa [reach, ended, Format.logBytes, Format.fragmentsOf] using empty

/-- Before a read it does not matter whether what arrives is there already. -/
theorem readPhysicalRecord_hasten
    (dropSize : Nat)
    (live : reader.eof = false)
    (noError : reader.readError = false)
    (short : reader.buffer.length < kHeaderSize) :
    { reader with file := reader.file.hasten }.readPhysicalRecord
        GrowingFile.sequentialFile dropSize =
      reader.readPhysicalRecord GrowingFile.sequentialFile dropSize := by
  have refilled :
      ({ reader with file := reader.file.hasten } : Reader GrowingFile).refill =
        reader.refill := by
    simp only [Reader.refill, GrowingFile.arrive_hasten]
    rfl
  rw [readPhysicalRecord_refill reader dropSize live noError short,
    readPhysicalRecord_refill { reader with file := reader.file.hasten } dropSize
      live noError short, refilled]

theorem Returns.of_hasten
    {mode : WALRecoveryMode}
    {assembly : Assembly GrowingFile}
    {result : ReadResult GrowingFile}
    (live : assembly.reader.eof = false)
    (noError : assembly.reader.readError = false)
    (short : assembly.reader.buffer.length < kHeaderSize)
    (returns : Returns GrowingFile.sequentialFile mode { assembly with
      reader := { assembly.reader with file := assembly.reader.file.hasten } } result) :
    Returns GrowingFile.sequentialFile mode assembly result := by
  have same : readRecordStep GrowingFile.sequentialFile mode { assembly with
        reader := { assembly.reader with file := assembly.reader.file.hasten } } =
      readRecordStep GrowingFile.sequentialFile mode assembly := by
    unfold readRecordStep
    dsimp only
    rw [readPhysicalRecord_hasten 0 live noError short]
    rfl
  cases returns with
  | done step => exact .done (same.symm.trans step)
  | next step returns => exact .next (same.symm.trans step) returns

section Hastening

theorem unread_hasten (inFile : reader.file.pos ≤ reader.file.contents.length) :
    reader.file.hasten.unread = reader.file.unread ++ reader.file.nextArrival := by
  simp [GrowingFile.hasten, GrowingFile.unread_append _ inFile]

theorem Positioned.hasten
    {rest : Bytes}
    (positioned : reader.Positioned offset rest) :
    Positioned { reader with file := reader.file.hasten } offset rest := by
  have unread := unread_hasten positioned.inFile
  have arrivals : reader.file.hasten.arrivals = [] :: reader.file.arrivals.tail :=
    rfl
  have all := reader.file.nextArrival_append_flatten
  refine ⟨positioned.noError, ?_, ?_, positioned.live, positioned.ended⟩
  · have contents : reader.file.hasten.contents =
        reader.file.contents ++ reader.file.nextArrival := rfl
    have pos : reader.file.hasten.pos = reader.file.pos := rfl
    have inFile := positioned.inFile
    dsimp only
    rw [contents, pos, List.length_append]
    omega
  · dsimp only
    rw [unread, arrivals, List.flatten_cons, List.nil_append, List.append_assoc]
    exact all ▸ positioned.consistent

theorem total_hasten (inFile : reader.file.pos ≤ reader.file.contents.length) :
    total { reader with file := reader.file.hasten } = reader.total := by
  have unread := unread_hasten inFile
  have arrivals : reader.file.hasten.arrivals = [] :: reader.file.arrivals.tail :=
    rfl
  have sizes := congrArg List.length reader.file.nextArrival_append_flatten
  rw [List.length_append] at sizes
  unfold total
  dsimp only
  rw [unread, arrivals, List.flatten_cons, List.nil_append, List.length_append]
  change _ + reader.file.arrivals.tail.flatten.length = _ at sizes
  omega

/-- Where the file ends at each read stays as it was. -/
theorem fileEnds_hasten
    (inFile : reader.file.pos ≤ reader.file.contents.length)
    {Ends : Nat → Prop}
    (ends : ∀ chunks, Ends (reader.buffer.length + reader.file.unread.length +
      (reader.file.arrivals.take chunks).flatten.length)) :
    ∀ chunks, Ends (reader.buffer.length + reader.file.hasten.unread.length +
      (reader.file.hasten.arrivals.take chunks).flatten.length) := by
  have arrivals : reader.file.hasten.arrivals = [] :: reader.file.arrivals.tail :=
    rfl
  intro chunks
  rw [unread_hasten inFile, arrivals, List.length_append, ← Nat.add_assoc]
  cases chunks with
  | zero =>
      have first := ends 1
      rw [reader.file.flatten_take_one] at first
      exact first
  | succ chunks =>
      have later := ends (1 + chunks)
      rw [List.take_add, List.flatten_append, List.length_append,
        reader.file.flatten_take_one, List.drop_one, ← Nat.add_assoc] at later
      rw [List.take_succ_cons, List.flatten_cons, List.nil_append]
      exact later

end Hastening

theorem Aligned.hasten
    (aligned : Aligned format reader offset todo)
    (live : reader.eof = false) :
    Aligned format { reader with file := reader.file.hasten } offset todo := by
  have inFile := aligned.positioned.inFile
  have ends := @fileEnds_hasten reader inFile
    (fun finish => ∃ count, finish =
      (format.logBytes offset (todo.take count)).length) aligned.fileEnds
  refine ⟨aligned.positioned.hasten, aligned.accepts, aligned.fromStart, ?_, ends, ?_⟩
  · rw [total_hasten inFile]
    exact aligned.whole
  · intro ended
    rw [show reader.eof = true from ended] at live
    cases live

/-- The records a call has returned. -/
def delivered {φ : Type} (result : ReadResult φ) : List Bytes :=
  if result.found then [result.record] else []

/-- What one call of `ReadRecord` does: it returns the next record, or it meets
the end of the file where the file ends behind a complete record. -/
structure Call
    (format : Format)
    (mode : WALRecoveryMode)
    (reader : Reader GrowingFile)
    (offset : Nat)
    (todo : List Bytes)
    (result : ReadResult GrowingFile)
    (offset' : Nat)
    (todo' : List Bytes) : Prop where
  returns :
    Returns GrowingFile.sequentialFile mode (startAssembly reader) result
  aligned : Aligned format result.reader offset' todo'
  todo_eq : todo = delivered result ++ todo'
  position : format.advance offset (format.fragmentsOf offset (delivered result)) %
    kBlockSize = offset' % kBlockSize
  ended : result.found = false →
    result.reader.eof = true ∧ result.reader.reach = 0
  fresh : reader.Fresh → result.reader.Fresh
  kept : reader.buffer.length + reader.file.unread.length ≤
    result.reader.buffer.length + result.reader.file.unread.length +
      (format.logBytes offset (delivered result)).length
  silent : result.reader.reporter = reader.reporter

/-- A call that has its data at hand, or finds that nothing arrives. -/
theorem Aligned.call_of_ready
    (mode : WALRecoveryMode)
    (aligned : Aligned format reader offset todo)
    (ready : reader.eof = true ∨ reader.file.nextArrival = [] ∨
      reader.reach ≠ 0) :
    ∃ result offset' todo',
      Call format mode reader offset todo result offset' todo' := by
  rcases aligned.inReach_or_nothing with ⟨record, records, rfl, inReach⟩ | nothing
  · obtain ⟨next, returns, aligned', consumed, silent⟩ :=
      aligned.returns_record mode inReach
    obtain ⟨arrived, -, counted⟩ := consumed.arrived
    refine ⟨_, _, records, returns, aligned', rfl, ?_, nofun, consumed.fresh, ?_,
      silent⟩
    · simp [delivered, Format.fragmentsOf]
    · simp only [delivered, if_true]
      rw [logBytes_cons_length]
      omega
  · have noArrival : reader.eof = true ∨ reader.file.nextArrival = [] := by
      rcases ready with ended | arrival | some
      · exact .inl ended
      · exact .inr arrival
      · exact absurd nothing some
    obtain ⟨next, offset', returns, aligned', same, ended, empty, consumed,
      silent⟩ := aligned.returns_end mode nothing noArrival
    obtain ⟨arrived, -, counted⟩ := consumed.arrived
    refine ⟨_, offset', todo, returns, aligned', rfl, same,
      fun _ => ⟨ended, empty⟩, consumed.fresh, ?_, silent⟩
    dsimp only
    omega

theorem Aligned.call
    (mode : WALRecoveryMode)
    (aligned : Aligned format reader offset todo) :
    ∃ result offset' todo',
      Call format mode reader offset todo result offset' todo' := by
  by_cases ready : reader.eof = true ∨ reader.file.nextArrival = [] ∨
      reader.reach ≠ 0
  · exact aligned.call_of_ready mode ready
  · -- The call begins with a read, so what arrives may as well be there.
    simp only [not_or, not_not, Bool.not_eq_true] at ready
    obtain ⟨live, -, nothing⟩ := ready
    have short : reader.buffer.length < kHeaderSize := by
      have header := kHeaderSize_eq
      simp only [reach, live, Bool.false_eq_true, if_false] at nothing
      omega
    obtain ⟨result, offset', todo', call⟩ :=
      (aligned.hasten live).call_of_ready mode (.inr (.inl rfl))
    have more : reader.file.unread.length ≤ reader.file.hasten.unread.length := by
      rw [GrowingFile.hasten, GrowingFile.unread_schedule,
        GrowingFile.unread_append _ aligned.positioned.inFile, List.length_append]
      omega
    exact ⟨result, offset', todo',
      @Returns.of_hasten mode (startAssembly reader) _ live
        aligned.positioned.noError short call.returns, call.aligned,
      call.todo_eq, call.position, call.ended,
      fun _ => call.fresh (by simp [Fresh, live]),
      Nat.le_trans (Nat.add_le_add_left more _) call.kept, call.silent⟩

/-- A call does not change where the log will end. -/
theorem Call.sameEnd
    {mode : WALRecoveryMode}
    {result : ReadResult GrowingFile}
    {offset' : Nat}
    {todo' : List Bytes}
    (call : Call format mode reader offset todo result offset' todo')
    (inside : offset ≤ kBlockSize) :
    format.advance offset (format.fragmentsOf offset todo) % kBlockSize =
      format.advance offset' (format.fragmentsOf offset' todo') % kBlockSize := by
  have fits := format.fits_fragmentsOf offset (delivered result) inside
  rw [call.todo_eq, Format.fragmentsOf_append, Format.advance_append]
  exact format.advance_fragmentsOf_sameOffset fits.advance_le
    call.aligned.positioned.offset_le call.position todo'

/-- What calling `ReadRecord` until it returns `false` does. -/
structure Drain
    (format : Format)
    (mode : WALRecoveryMode)
    (reader : Reader GrowingFile)
    (offset : Nat)
    (todo records : List Bytes)
    (final : Reader GrowingFile)
    (left : List Bytes) : Prop where
  reads : Reads GrowingFile.sequentialFile mode (startAssembly reader) records
    final
  todo_eq : todo = records ++ left
  covers : reader.Fresh → ∀ now, now <+: todo →
    (format.logBytes offset now).length ≤
      reader.buffer.length + reader.file.unread.length → now <+: records
  silent : final.reporter = reader.reporter

/-- A call that meets the end of the file returns `false` only when everything
in the file has been returned. -/
theorem Call.drain
    {mode : WALRecoveryMode}
    {result : ReadResult GrowingFile}
    {offset' : Nat}
    {todo' : List Bytes}
    (call : Call format mode reader offset todo result offset' todo')
    (notFound : result.found = false) :
    Drain format mode reader offset todo [] result.reader todo' where
  reads := call.returns.reads_stop notFound
  todo_eq := by simpa [delivered, notFound] using call.todo_eq
  covers := by
    intro fresh now _ inFile
    obtain ⟨ended, nothing⟩ := call.ended notFound
    have empty := call.fresh fresh ended
    have kept := call.kept
    simp only [reach, ended, if_true] at nothing
    simp only [delivered, notFound, Bool.false_eq_true, if_false, nothing, empty,
      Format.logBytes, Format.fragmentsOf, Format.place_nil, List.length_nil]
      at kept
    cases now with
    | nil => exact List.nil_prefix
    | cons record records =>
        have positive := format.gap_lt_length_place_fragments offset true record
        rw [logBytes_cons_length] at inFile
        omega
  silent := call.silent

theorem Aligned.drain
    (mode : WALRecoveryMode)
    (aligned : Aligned format reader offset todo) :
    ∃ records final left,
      Drain format mode reader offset todo records final left := by
  induction todo generalizing reader offset with
  | nil =>
      obtain ⟨result, offset', todo', call⟩ := aligned.call mode
      have notFound : result.found = false := by
        cases found : result.found with
        | false => rfl
        | true =>
            have none := call.todo_eq
            simp [delivered, found] at none
      exact ⟨_, _, _, call.drain notFound⟩
  | cons record records inductionHypothesis =>
      obtain ⟨result, offset', todo', call⟩ := aligned.call mode
      cases found : result.found with
      | false => exact ⟨_, _, _, call.drain found⟩
      | true =>
          have isDelivered : delivered result = [result.record] := by
            simp [delivered, found]
          have todoEq := call.todo_eq
          rw [isDelivered, List.singleton_append, List.cons.injEq] at todoEq
          obtain ⟨rfl, rfl⟩ := todoEq
          obtain ⟨rest, final, left, drain⟩ := inductionHypothesis call.aligned
          refine ⟨result.record :: rest, final, left,
            call.returns.reads_record found call.aligned.fromStart drain.reads, ?_,
            ?_, drain.silent.trans call.silent⟩
          · rw [drain.todo_eq, List.cons_append]
          · intro fresh now isInitial inFile
            cases now with
            | nil => exact List.nil_prefix
            | cons first others =>
                obtain ⟨rfl, othersInitial⟩ := List.cons_prefix_cons.mp isInitial
                have kept := call.kept
                have fits := format.fits_fragmentsOf offset [result.record]
                  aligned.positioned.offset_le
                have position := call.position
                rw [isDelivered] at kept position
                have same := format.logBytes_sameOffset fits.advance_le
                  call.aligned.positioned.offset_le position others
                have split := congrArg List.length
                  (format.logBytes_append offset [result.record] others)
                rw [List.singleton_append, List.length_append, same] at split
                exact (List.prefix_cons_inj _).mpr
                  (drain.covers (call.fresh fresh) others othersInitial (by omega))

/-! ## Looking at the file again -/

/-- `UnmarkEOF` after an end of file in the middle of a block. -/
theorem unmarkEOF_inBlock
    (noError : reader.readError = false)
    (inside : reader.eofOffset ≠ 0) :
    let data := reader.file.arrive.unread.take (kBlockSize - reader.eofOffset)
    reader.unmarkEOF GrowingFile.sequentialFile =
      { reader with
        file := { reader.file.arrive with pos := reader.file.pos + data.length }
        endOfBufferOffset :=
          reader.endOfBufferOffset + UInt64.ofNat data.length
        buffer := reader.buffer ++ data
        eof := decide (data.length < kBlockSize - reader.eofOffset)
        eofOffset :=
          if data.length < kBlockSize - reader.eofOffset then
            reader.eofOffset + data.length
          else 0 } := by
  intro data
  rw [unmarkEOF, noError]
  simp only [Bool.false_eq_true, if_false, if_neg inside,
    GrowingFile.sequentialFile, GrowingFile.read, Status.ok_OK, Bool.not_true]
  by_cases partly : data.length < kBlockSize - reader.eofOffset
  · simp only [data] at partly
    simp only [partly, if_true, decide_true, data]
  · simp only [data] at partly
    simp only [partly, if_false, decide_false, data]

theorem unmarkEOF_of_boundary
    (noError : reader.readError = false)
    (atBoundary : reader.eofOffset = 0) :
    reader.unmarkEOF GrowingFile.sequentialFile = { reader with eof := false } := by
  rw [unmarkEOF, noError]
  simp [atBoundary]

/-- `UnmarkEOF` moves over nothing and loses nothing; the file may have grown. -/
structure Unmarks (before after : Reader GrowingFile) : Prop where
  settings : after.initialOffset = before.initialOffset ∧
    after.logNumber = before.logNumber ∧ after.checksum = before.checksum
  fresh : after.Fresh
  silent : after.reporter = before.reporter
  arrived : ∃ arrivals,
    after.file.arrivals = before.file.arrivals.drop arrivals ∧
      after.buffer.length + after.file.unread.length =
        before.buffer.length + before.file.unread.length +
          (before.file.arrivals.take arrivals).flatten.length

theorem Positioned.unmarkEOF
    {rest : Bytes}
    (positioned : reader.Positioned offset rest) :
    ∃ offset',
      (reader.unmarkEOF GrowingFile.sequentialFile).Positioned offset' rest ∧
        offset % kBlockSize = offset' % kBlockSize ∧
        Unmarks reader (reader.unmarkEOF GrowingFile.sequentialFile) := by
  by_cases atBoundary : reader.eofOffset = 0
  · rw [unmarkEOF_of_boundary positioned.noError atBoundary]
    have unmarks : Unmarks reader { reader with eof := false } :=
      ⟨⟨rfl, rfl, rfl⟩, nofun, rfl, 0, by simp, by simp⟩
    cases ended : reader.eof with
    | false =>
        have same : { reader with eof := false } = reader := by
          rw [← ended]
        rw [same] at unmarks ⊢
        exact ⟨offset, positioned, rfl, unmarks⟩
    | true =>
        have facts := positioned.ended ended
        have zero : offset = 0 := by omega
        refine ⟨kBlockSize, ⟨positioned.noError, positioned.inFile,
          positioned.consistent, fun _ => ⟨?_, atBoundary⟩, nofun⟩,
          by simp [zero], unmarks⟩
        dsimp only
        omega
  · have ended : reader.eof = true := by
      cases ended : reader.eof with
      | true => rfl
      | false => exact absurd (positioned.live ended).2 atBoundary
    have facts := positioned.ended ended
    have inFile := positioned.inFile
    have unreadArrive := reader.file.unread_arrive inFile
    rw [unmarkEOF_inBlock positioned.noError atBoundary, unreadArrive]
    generalize remainingEq : kBlockSize - reader.eofOffset = remaining
    generalize dataEq :
      (reader.file.unread ++ reader.file.nextArrival).take remaining = data
    -- The bytes left in the file, behind those that were read.
    have left : GrowingFile.unread { reader.file.arrive with
        pos := reader.file.pos + data.length } =
          (reader.file.unread ++ reader.file.nextArrival).drop data.length := by
      rw [← unreadArrive]
      simp only [GrowingFile.unread, List.drop_drop]
      rfl
    have split : data ++ (reader.file.unread ++ reader.file.nextArrival).drop
        data.length = reader.file.unread ++ reader.file.nextArrival := by
      rw [← dataEq]
      exact List.prefix_iff_eq_append.mp (List.take_prefix _ _)
    have size : data.length = min remaining
        (reader.file.unread ++ reader.file.nextArrival).length := by
      rw [← dataEq, List.length_take]
    have splitLength := congrArg List.length split
    rw [List.length_append] at splitLength
    have arrivedLength : (reader.file.arrivals.take 1).flatten.length =
        reader.file.nextArrival.length := by
      rw [reader.file.flatten_take_one]
    rw [List.length_append] at size splitLength
    refine ⟨offset, ⟨positioned.noError, ?_, ?_, ?_, ?_⟩, rfl,
      ⟨⟨rfl, rfl, rfl⟩, ?_, rfl, 1, ?_, ?_⟩⟩
    · have unreadLength : reader.file.unread.length =
          reader.file.contents.length - reader.file.pos := by
        simp [GrowingFile.unread]
      have contents : reader.file.arrive.contents.length =
          reader.file.contents.length + reader.file.nextArrival.length :=
        List.length_append
      dsimp only
      omega
    · obtain ⟨tail, whole⟩ := positioned.consistent
      refine ⟨tail, ?_⟩
      dsimp only
      rw [← whole, left, List.append_assoc reader.buffer,
        ← List.append_assoc data, split,
        List.append_assoc reader.file.unread,
        GrowingFile.nextArrival_append_flatten]
    · intro full
      simp only [decide_eq_false_iff_not] at full
      simp only [if_neg full, List.length_append, and_true]
      omega
    · intro short
      simp only [decide_eq_true_eq] at short
      simp only [if_pos short, List.length_append]
      omega
    · intro short
      simp only [decide_eq_true_eq] at short
      apply List.eq_nil_of_length_eq_zero
      dsimp only
      rw [left]
      omega
    · simp [GrowingFile.arrive]
    · dsimp only
      rw [left, arrivedLength, List.length_append]
      omega

/-- `UnmarkEOF` keeps the reader in front of the same records. -/
theorem Aligned.unmarkEOF (aligned : Aligned format reader offset todo) :
    ∃ offset',
      Aligned format (reader.unmarkEOF GrowingFile.sequentialFile) offset' todo ∧
        offset % kBlockSize = offset' % kBlockSize ∧
        Unmarks reader (reader.unmarkEOF GrowingFile.sequentialFile) := by
  obtain ⟨offset', positioned, same, unmarks⟩ := aligned.positioned.unmarkEOF
  have sameLogBytes (records : List Bytes) :
      format.logBytes offset records = format.logBytes offset' records :=
    format.logBytes_sameOffset aligned.positioned.offset_le
      positioned.offset_le same records
  rw [sameLogBytes] at positioned
  obtain ⟨arrived, dropped, counted⟩ := unmarks.arrived
  generalize reader.unmarkEOF GrowingFile.sequentialFile = next at *
  have fileEnds : ∀ chunks, ∃ count,
      next.buffer.length + next.file.unread.length +
          (next.file.arrivals.take chunks).flatten.length =
        (format.logBytes offset' (todo.take count)).length := by
    intro chunks
    obtain ⟨count, ends⟩ := aligned.fileEnds (arrived + chunks)
    rw [List.take_add, List.flatten_append, List.length_append, ← dropped] at ends
    refine ⟨count, ?_⟩
    rw [← sameLogBytes]
    omega
  refine ⟨offset', ⟨positioned, ?_, unmarks.settings.1.trans aligned.fromStart, ?_,
    fileEnds, ?_⟩, same, unmarks⟩
  · intro recycle
    rw [unmarks.settings.2.1]
    exact aligned.accepts recycle
  · have whole := aligned.whole
    have split := congrArg (fun chunks => chunks.flatten.length)
      (List.take_append_drop arrived reader.file.arrivals)
    simp only [List.flatten_append, List.length_append] at split
    unfold total at whole ⊢
    rw [← sameLogBytes, dropped]
    omega
  · intro ended
    obtain ⟨count, ends⟩ := fileEnds 0
    rw [unmarks.fresh ended] at ends
    exact ⟨count, by simpa using ends⟩

/-! ## Growing -/

/-- The file is at rest: all there is lies before the reader. -/
theorem Aligned.eq_of_atRest
    (aligned : Aligned format reader offset todo)
    (atRest : reader.file.arrivals = []) :
    reader.buffer ++ reader.file.unread = format.logBytes offset todo := by
  have consistent := aligned.positioned.consistent
  have whole := aligned.whole
  unfold total at whole
  rw [atRest] at consistent whole
  simp only [List.flatten_nil, List.append_nil, List.length_nil] at consistent whole
  exact consistent.eq_of_length (by rw [List.length_append]; omega)

/-- Batches of complete records are about to arrive in a file at rest. -/
theorem Aligned.schedule
    (aligned : Aligned format reader offset todo)
    (atRest : reader.file.arrivals = [])
    {arrivals : List Bytes}
    {batches : List (List Bytes)}
    (batchwise : ∀ chunks, (arrivals.take chunks).flatten =
      format.logBytes (format.advance offset (format.fragmentsOf offset todo))
        (batches.take chunks).flatten)
    (complete : arrivals.flatten =
      format.logBytes (format.advance offset (format.fragmentsOf offset todo))
        batches.flatten) :
    Aligned format { reader with file := reader.file.schedule arrivals } offset
      (todo ++ batches.flatten) := by
  have all := aligned.eq_of_atRest atRest
  have sizes := congrArg List.length all
  rw [List.length_append] at sizes
  have positioned := aligned.positioned
  refine ⟨⟨positioned.noError, positioned.inFile, ?_, positioned.live,
    positioned.ended⟩, aligned.accepts, aligned.fromStart, ?_, ?_, ?_⟩
  · rw [Format.logBytes_append, ← all, ← complete, List.append_assoc]
    exact List.prefix_refl _
  · rw [Format.logBytes_append, List.length_append, ← complete]
    unfold total
    dsimp only
    rw [GrowingFile.unread_schedule, sizes]
    rfl
  · intro chunks
    refine ⟨todo.length + (batches.take chunks).flatten.length, ?_⟩
    have taken : (todo ++ batches.flatten).take
        (todo.length + (batches.take chunks).flatten.length) =
          todo ++ (batches.take chunks).flatten := by
      have split : batches.flatten = (batches.take chunks).flatten ++
          (batches.drop chunks).flatten := by
        rw [← List.flatten_append, List.take_append_drop]
      rw [List.take_length_add_append, split, List.take_left]
    rw [taken, Format.logBytes_append, List.length_append, ← batchwise]
    dsimp only
    rw [GrowingFile.unread_schedule, sizes]
    rfl
  · intro ended
    obtain ⟨count, ends⟩ := aligned.bufferEnds ended
    refine ⟨min count todo.length, ?_⟩
    rw [List.take_append_of_le_length (Nat.min_le_right _ _)]
    dsimp only
    rw [ends]
    congr 2
    rcases Nat.le_total count todo.length with within | beyond
    · rw [Nat.min_eq_left within]
    · rw [Nat.min_eq_right beyond, List.take_of_length_le beyond,
        List.take_length]

/-- Everything that was about to arrive has arrived. -/
theorem Aligned.settle (aligned : Aligned format reader offset todo) :
    Aligned format { reader with file := reader.file.settle } offset todo := by
  have positioned := aligned.positioned
  have unread : reader.file.settle.unread =
      reader.file.unread ++ reader.file.arrivals.flatten := by
    simp [GrowingFile.settle, GrowingFile.unread_append _ positioned.inFile]
  have arrivals : reader.file.settle.arrivals = [] := rfl
  have whole := aligned.whole
  unfold total at whole
  refine ⟨⟨positioned.noError, ?_, ?_, positioned.live, positioned.ended⟩,
    aligned.accepts, aligned.fromStart, ?_, ?_, aligned.bufferEnds⟩
  · have contents : reader.file.settle.contents =
        reader.file.contents ++ reader.file.arrivals.flatten := rfl
    have pos : reader.file.settle.pos = reader.file.pos := rfl
    have inFile := positioned.inFile
    dsimp only
    rw [contents, pos, List.length_append]
    omega
  · dsimp only
    rw [unread, arrivals, List.flatten_nil, List.append_nil]
    exact positioned.consistent
  · unfold total
    dsimp only
    rw [unread, arrivals, List.flatten_nil, List.length_nil, List.length_append]
    omega
  · intro chunks
    refine ⟨todo.length, ?_⟩
    dsimp only
    rw [unread, arrivals, List.take_length, List.length_append, List.take_nil,
      List.flatten_nil, List.length_nil]
    omega

end Aligned

end Reader
end Log
end RocksUtil
