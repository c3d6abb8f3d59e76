import RocksUtil.File.Durability
import RocksUtil.Log.Boundaries
import RocksUtil.Log.Salvage

/-!
# A log over crashes

A client adds records to a log through a buffered file writer, and syncs the file from time
to time.  A crash leaves some first part of what has been handed to the file, and at least
what had been handed to it when it was last synced.

`DurableLog` says what the log is for: the records that were there at the last sync come
back, in front of some of those added later.  The writer follows it over every run of
requests (`Follows.serve`), whatever fails on the way, as long as the client gives up at the
first record that is refused.  So whatever the crash leaves, a reader finds a log that
`DurableLog` allows (`crash_recovery`).
-/

namespace RocksUtil

namespace FileEvent

/-- Syncing does not go back. -/
theorem synced_isPrefix (trace events : List FileEvent) :
    synced trace <+: synced (trace ++ events) := by
  induction events using List.reverseRecOn with
  | nil => rw [List.append_nil]
  | append_singleton events event inductionHypothesis =>
      rw [← List.append_assoc]
      cases succeeds : event.succeeds with
      | false =>
          rw [synced_concat _ succeeds]
          exact inductionHypothesis
      | true =>
          have isSync : event = .sync true := by
            cases event with
            | sync ok => rw [show ok = true from succeeds]
            | append data => cases succeeds
            | rangeSync offset nbytes => cases succeeds
          have handedOver : synced trace <+: handed trace := by
            obtain ⟨last, isLast⟩ :=
              List.rdropWhile_prefix (fun event => !FileEvent.succeeds event) trace
            exact ⟨handed last, by rw [synced, ← handed_append, isLast]⟩
          rw [isSync, synced_sync, handed_append]
          exact handedOver.trans (List.prefix_append _ _)

end FileEvent

namespace Log

/-! ## What a log is for -/

/-- The records of a log, and those of them that a crash cannot take away. -/
structure DurableLog where
  /-- The records that were added. -/
  records : List Bytes
  /-- Those that were there at the last sync. -/
  durable : List Bytes
  isPrefix : durable <+: records

namespace DurableLog

/-- A new log. -/
def empty : DurableLog := ⟨[], [], List.prefix_refl _⟩

/-- Add a record. -/
def add (log : DurableLog) (record : Bytes) : DurableLog :=
  ⟨log.records ++ [record], log.durable, log.isPrefix.trans (List.prefix_append _ _)⟩

/-- Sync the log. -/
def sync (log : DurableLog) : DurableLog :=
  ⟨log.records, log.records, List.prefix_refl _⟩

/-- What may be found behind a crash. -/
def Allows (log : DurableLog) (found : List Bytes) : Prop :=
  log.durable <+: found ∧ found <+: log.records

end DurableLog

/-! ## The client -/

/-- What the client of a log asks for: a record is added by `AddRecord`, and the rest goes
to `file()`. -/
inductive LogRequest
  | add (record : Bytes)
  | flush
  | sync (useFsync : Bool)
  | syncWithoutFlush (useFsync : Bool)

namespace LogRequest

/-- The record that is added. -/
def record : LogRequest → List Bytes
  | .add record => [record]
  | _ => []

/-- What becomes of the log when the request returns OK. -/
def apply : LogRequest → DurableLog → DurableLog
  | .add record, log => log.add record
  | .flush, log => log
  | .sync _, log => log.sync
  | .syncWithoutFlush _, log => log.sync

/-- What becomes of the log when the request returns. -/
def settle (log : DurableLog) (event : LogRequest × Status) : DurableLog :=
  if event.2.ok then event.1.apply log else log

/-- What the request may have done to the log while it is under way. -/
def begin (log : DurableLog) (request : LogRequest) : DurableLog :=
  ⟨log.records ++ request.record, log.durable,
    log.isPrefix.trans (List.prefix_append _ _)⟩

/-- The client has not been refused a record. -/
def Granted (event : LogRequest × Status) : Prop :=
  event.1.record ≠ [] → event.2.ok = true

instance (event : LogRequest × Status) : Decidable (Granted event) :=
  inferInstanceAs (Decidable (_ → _))

end LogRequest

namespace Writer

variable {ω : Type}

/-- A request. -/
def request
    (F : WritableFile ω)
    (writer : Writer (WritableFileWriter ω)) :
    LogRequest → Status × Writer (WritableFileWriter ω)
  | .add record => writer.addRecord (WritableFileWriter.destination F) record
  | .flush =>
      let result := writer.dest.flush F
      (result.1, { writer with dest := result.2 })
  | .sync useFsync =>
      let result := writer.dest.sync F useFsync
      (result.1, { writer with dest := result.2 })
  | .syncWithoutFlush useFsync =>
      let result := writer.dest.syncWithoutFlush F useFsync
      (result.1, { writer with dest := result.2 })

/-- Requests one after another, each with the status it returns. -/
def serve
    (F : WritableFile ω)
    (writer : Writer (WritableFileWriter ω)) :
    List LogRequest → List (LogRequest × Status) × Writer (WritableFileWriter ω)
  | [] => ([], writer)
  | next :: requests =>
      let result := writer.request F next
      let rest := result.2.serve F requests
      ((next, result.1) :: rest.1, rest.2)

end Writer

/-! ## A writer that is ready for the next record -/

open FileEvent (handed synced synced_isPrefix)
open WritableFile (tracedBytes)
open WritableFileWriter (accepted append destination Durable)

variable {ω : Type} {F : WritableFile ω}

/-- The state of a file writer with room for `count` bytes, whose file has not been synced
since `stable` was all it held. -/
structure Ready
    (stable : Bytes)
    (count : Nat)
    (writer : WritableFileWriter (ω × List FileEvent)) : Prop where
  durable : ∃ history, Durable history writer
  large : 2 * kBlockSize ≤ writer.buf.capacity
  room : writer.buf.currentSize + count ≤ writer.buf.capacity
  synced_eq : synced writer.writableFile.2 = stable

/-- A flush leaves room for two blocks when it succeeds. -/
theorem Ready.flush
    {stable : Bytes}
    {writer : WritableFileWriter (ω × List FileEvent)}
    (ready : Ready stable 0 writer) :
    Ready stable 0 (writer.flush F.traced).2 ∧
      ((writer.flush F.traced).1.ok = true →
        ∀ count, count ≤ 2 * kBlockSize → Ready stable count (writer.flush F.traced).2) := by
  obtain ⟨history, durable⟩ := ready.durable
  have large := ready.large
  rw [← WritableFileWriter.capacity_flush F.traced writer] at large
  have sameSynced := (WritableFileWriter.synced_flush F writer).trans ready.synced_eq
  refine ⟨⟨⟨history, durable.flush⟩, large, WritableFileWriter.currentSize_le _, sameSynced⟩,
    fun succeeds count short => ⟨⟨history, durable.flush⟩, large, ?_, sameSynced⟩⟩
  have empty := WritableFileWriter.bytes_flush (.inl durable.buffered) succeeds
  rw [AlignedBuffer.currentSize, empty, List.length_nil]
  omega

/-- The writer takes what there is room for, and does not sync its file. -/
theorem ready_accepts (F : WritableFile ω) (stable : Bytes) :
    (destination F.traced).Accepts (accepted tracedBytes) (Ready stable) where
  append := by
    intro data rest writer short ready
    obtain ⟨history, durable⟩ := ready.durable
    have fits : writer.buf.currentSize + data.length ≤ writer.buf.capacity := by
      have room := ready.room
      omega
    obtain ⟨status, -, file, capacity, bytes⟩ :=
      @WritableFileWriter.append_of_room _ F.traced writer data fits
    have trace : (append F.traced data writer).2.writableFile.2 = writer.writableFile.2 := by
      rw [file]
      rfl
    refine ⟨by rw [destination, status]; rfl, ?_, ⟨_, durable.append data⟩, ?_, ?_, ?_⟩
    · change handed (append F.traced data writer).2.writableFile.2 ++
        (append F.traced data writer).2.buf.bytes = handed _ ++ _ ++ data
      rw [trace, bytes, List.append_assoc]
    · change _ ≤ (append F.traced data writer).2.buf.capacity
      rw [capacity]
      exact ready.large
    · have room := ready.room
      change (append F.traced data writer).2.buf.bytes.length + rest ≤
        (append F.traced data writer).2.buf.capacity
      rw [capacity, bytes, List.length_append]
      rw [AlignedBuffer.currentSize] at room
      omega
    · change synced (append F.traced data writer).2.writableFile.2 = stable
      rw [trace]
      exact ready.synced_eq
  flush := by
    intro writer ready
    obtain ⟨history, durable⟩ := ready.durable
    have same := WritableFileWriter.flush_spec (F.traced_keepsOnClose).toKeeps durable.buffered
    exact ⟨same.2, ready.flush.1⟩
  flush_ok := by
    intro writer ready succeeds count short
    exact ready.flush.2 succeeds count short

/-! ## Requests to the file -/

/-- The file writer `after` is what requests other than `Append` have left of `writer`. -/
structure Later (writer after : WritableFileWriter (ω × List FileEvent)) : Prop where
  capacity : after.buf.capacity = writer.buf.capacity
  empty : writer.buf.bytes = [] → after.buf.bytes = []
  trace : writer.writableFile.2 <+: after.writableFile.2

theorem Later.flush
    (F : WritableFile ω)
    (writer : WritableFileWriter (ω × List FileEvent)) :
    Later writer (writer.flush F.traced).2 := by
  obtain ⟨events, asks⟩ := WritableFileWriter.flush_asks F writer
  refine ⟨WritableFileWriter.capacity_flush F.traced writer, fun empty => ?_,
    ⟨events, asks.trace.symm⟩⟩
  have nothing : writer.writeOut F.traced = (.OK, writer) := by
    simp [WritableFileWriter.writeOut, AlignedBuffer.currentSize, empty]
  unfold WritableFileWriter.flush
  rw [nothing]
  dsimp only
  split
  · split
    · rw [WritableFileWriter.buf_syncBehind]
      exact empty
    · exact empty
  · exact empty

/-- A sync of the file writes down how it has ended. -/
theorem Later.syncInternal
    {writer after : WritableFileWriter (ω × List FileEvent)}
    (later : Later writer after)
    {file : ω × List FileEvent}
    {pending : Bool}
    (isFile : file = after.writableFile ∨ file = (F.traced.sync after.writableFile).2 ∨
      file = (F.traced.fsync after.writableFile).2) :
    Later writer { after with writableFile := file, pendingSync := pending } := by
  refine ⟨later.capacity, later.empty, later.trace.trans ?_⟩
  rcases isFile with rfl | rfl | rfl
  · exact List.prefix_refl _
  · exact List.prefix_append _ _
  · exact List.prefix_append _ _

theorem Later.sync
    (F : WritableFile ω)
    (useFsync : Bool)
    (writer : WritableFileWriter (ω × List FileEvent)) :
    Later writer (writer.sync F.traced useFsync).2 := by
  obtain ⟨file, pending, isResult, isFile⟩ := writer.sync_cases F.traced useFsync
  rw [isResult]
  exact (Later.flush F writer).syncInternal isFile

theorem Later.syncWithoutFlush
    (F : WritableFile ω)
    (useFsync : Bool)
    (writer : WritableFileWriter (ω × List FileEvent)) :
    Later writer (writer.syncWithoutFlush F.traced useFsync).2 := by
  have same : Later writer writer :=
    ⟨rfl, fun empty => empty, List.prefix_refl _⟩
  unfold WritableFileWriter.syncWithoutFlush
  split
  · exact same
  · obtain ⟨file, isResult, isFile⟩ := writer.syncInternal_cases F.traced useFsync
    rw [isResult]
    exact same.syncInternal (.inr isFile)

/-- `SyncWithoutFlush` syncs what has been handed to the file, when it returns OK. -/
theorem synced_syncWithoutFlush
    {useFsync : Bool}
    {writer : WritableFileWriter (ω × List FileEvent)}
    (succeeds : (writer.syncWithoutFlush F.traced useFsync).1.ok = true) :
    synced (writer.syncWithoutFlush F.traced useFsync).2.writableFile.2 =
      handed writer.writableFile.2 := by
  unfold WritableFileWriter.syncWithoutFlush at succeeds ⊢
  split at succeeds
  · cases succeeds
  · rename_i isSafe
    obtain ⟨s, file, isSync, trace⟩ :=
      WritableFileWriter.syncInternal_traced F useFsync writer
    rw [if_neg isSafe]
    rw [isSync] at succeeds ⊢
    rw [succeeds] at trace
    change synced file.2 = _
    rw [trace, FileEvent.synced_sync]

/-! ## The writer follows the log -/

variable {log : DurableLog} {writer : Writer (WritableFileWriter (ω × List FileEvent))}

/-- The writer has accepted the records of the log and holds none of them back, and those
that are durable are in the file as it was last synced. -/
structure Follows
    (log : DurableLog)
    (writer : Writer (WritableFileWriter (ω × List FileEvent))) : Prop where
  bytes : accepted tracedBytes writer.dest = writer.format.logBytes 0 log.records
  offset : writer.blockOffset =
    writer.format.advance 0 (writer.format.fragmentsOf 0 log.records)
  served : ∃ history, Durable history writer.dest
  large : 2 * kBlockSize ≤ writer.dest.buf.capacity
  empty : writer.dest.buf.bytes = []
  durable : writer.format.logBytes 0 log.durable <+: synced writer.dest.writableFile.2

theorem Follows.handed_eq (follows : Follows log writer) :
    handed writer.dest.writableFile.2 = writer.format.logBytes 0 log.records := by
  have bytes := follows.bytes
  rw [accepted, follows.empty, List.append_nil] at bytes
  exact bytes

theorem Follows.ready
    (follows : Follows log writer)
    {count : Nat}
    (short : count ≤ 2 * kBlockSize) :
    Ready (synced writer.dest.writableFile.2) count writer.dest := by
  refine ⟨follows.served, follows.large, ?_, rfl⟩
  rw [AlignedBuffer.currentSize, follows.empty, List.length_nil, Nat.zero_add]
  exact short.trans follows.large

/-- What a request leaves, whether or not it succeeds. -/
structure Under
    (log : DurableLog)
    (writer after : Writer (WritableFileWriter (ω × List FileEvent))) : Prop where
  format_eq : after.format = writer.format
  bytes : accepted tracedBytes after.dest <+: writer.format.logBytes 0 log.records

/-- `AddRecord` appends the record, or some first part of it when it fails. -/
theorem Follows.add (follows : Follows log writer) (record : Bytes) :
    let result := writer.addRecord (destination F.traced) record
    Under (log.add record) writer result.2 ∧
      (result.1.ok = true → Follows (log.add record) result.2) := by
  intro result
  have accepts := ready_accepts F (synced writer.dest.writableFile.2)
  have room := follows.ready (writer.firstSpan_le record)
  obtain ⟨written, others, split, -, bytes, offset, sameFormat, ready, whole, -⟩ :=
    writer.addRecord_accepts accepts record room
  have all : writer.format.logBytes 0 (log.records ++ [record]) =
      writer.format.logBytes 0 log.records ++
        writer.format.place writer.blockOffset
          (writer.format.fragments writer.blockOffset true record) := by
    rw [Format.logBytes_append, ← follows.offset, Format.logBytes, Format.logBytes,
      Format.fragmentsOf, Format.fragmentsOf, List.append_nil]
  have under : Under (log.add record) writer result.2 := by
    refine ⟨sameFormat, ?_⟩
    rw [bytes, follows.bytes]
    change _ <+: writer.format.logBytes 0 (log.records ++ [record])
    rw [all, split, Format.place_append, ← List.append_assoc]
    exact List.prefix_append _ _
  refine ⟨under, fun succeeds => ?_⟩
  have none := whole succeeds
  rw [none, List.append_nil] at split
  refine ⟨?_, ?_, ready.durable, ready.large, ?_, ?_⟩
  · rw [bytes, follows.bytes, sameFormat, ← split]
    exact all.symm
  · rw [offset, sameFormat, ← split, follows.offset]
    change _ = writer.format.advance 0 (writer.format.fragmentsOf 0 (log.records ++ [record]))
    rw [Format.fragmentsOf_append, Format.advance_append, Format.fragmentsOf, Format.fragmentsOf,
      List.append_nil]
  · obtain ⟨dest, readyDest, flushes, isFlush⟩ :=
      writer.addRecord_flushes accepts record room succeeds
    obtain ⟨history, durable⟩ := readyDest.durable
    rw [isFlush]
    exact WritableFileWriter.bytes_flush (.inl durable.buffered) flushes
  · rw [sameFormat, ready.synced_eq]
    exact follows.durable

/-- A request to the file writer other than `Append` accepts nothing. -/
theorem Follows.unchanged
    (follows : Follows log writer)
    {next : WritableFileWriter.Request}
    (noAppend : ∀ data, next ≠ .call (.append data))
    (later : Later writer.dest (writer.dest.request F.traced next).2) :
    let after := { writer with dest := (writer.dest.request F.traced next).2 }
    Under log writer after ∧ Follows log after := by
  intro after
  obtain ⟨history, durable⟩ := follows.served
  have asked := durable.request (F := F) next
  have same : accepted tracedBytes after.dest = accepted tracedBytes writer.dest :=
    asked.accepted_eq.trans
      ((WritableFileWriter.granted_of_noAppend history noAppend).trans durable.accepted_eq.symm)
  obtain ⟨events, trace⟩ := later.trace
  refine ⟨⟨rfl, ?_⟩, same.trans follows.bytes, follows.offset, ⟨_, asked⟩, ?_,
    later.empty follows.empty, ?_⟩
  · rw [same, follows.bytes]
  · exact follows.large.trans later.capacity.ge
  · change _ <+: synced (writer.dest.request F.traced next).2.writableFile.2
    rw [← trace]
    exact follows.durable.trans (synced_isPrefix _ events)

/-- When all that was handed to the file is synced, all records are durable. -/
theorem Follows.sync
    (follows : Follows log writer)
    (isSynced : synced writer.dest.writableFile.2 = handed writer.dest.writableFile.2) :
    Follows log.sync writer := by
  refine { follows with durable := ?_ }
  rw [isSynced, follows.handed_eq]
  exact List.prefix_refl _

/-- A request, whether or not it succeeds, and unless a record is refused. -/
theorem Follows.request (follows : Follows log writer) (next : LogRequest) :
    let result := writer.request F.traced next
    Under (next.begin log) writer result.2 ∧
      (LogRequest.Granted (next, result.1) →
        Follows (LogRequest.settle log (next, result.1)) result.2) := by
  have nothing (after : Writer (WritableFileWriter (ω × List FileEvent)))
      (request : LogRequest) (none : request.record = []) (under : Under log writer after) :
      Under (request.begin log) writer after := by
    refine ⟨under.format_eq, ?_⟩
    change _ <+: writer.format.logBytes 0 (log.records ++ request.record)
    rw [none, List.append_nil]
    exact under.bytes
  intro result
  unfold LogRequest.settle
  cases next with
  | add record =>
      obtain ⟨under, follows'⟩ := follows.add (F := F) record
      refine ⟨⟨under.format_eq, under.bytes⟩, fun granted => ?_⟩
      have succeeds : result.1.ok = true := granted (List.cons_ne_nil _ _)
      rw [if_pos succeeds]
      exact follows' succeeds
  | flush =>
      obtain ⟨under, follows'⟩ :=
        @Follows.unchanged _ F _ _ follows (.call .flush) nofun (Later.flush F _)
      refine ⟨nothing _ .flush rfl under, fun _ => ?_⟩
      split <;> exact follows'
  | sync useFsync =>
      obtain ⟨under, follows'⟩ :=
        @Follows.unchanged _ F _ _ follows (.call (.sync useFsync)) nofun (Later.sync F _ _)
      refine ⟨nothing _ (.sync useFsync) rfl under, fun _ => ?_⟩
      split
      · rename_i succeeds
        obtain ⟨history, durable⟩ := follows.served
        have isSynced := ((durable.sync useFsync).2 succeeds).1
        rw [← durable.accepted_eq, follows.bytes] at isSynced
        exact follows'.sync (isSynced.trans follows'.handed_eq.symm)
      · exact follows'
  | syncWithoutFlush useFsync =>
      obtain ⟨under, follows'⟩ := @Follows.unchanged _ F _ _ follows
        (.syncWithoutFlush useFsync) nofun (Later.syncWithoutFlush F _ _)
      refine ⟨nothing _ (.syncWithoutFlush useFsync) rfl under, fun _ => ?_⟩
      split
      · rename_i succeeds
        have isSynced := synced_syncWithoutFlush succeeds
        rw [follows.handed_eq] at isSynced
        exact follows'.sync (isSynced.trans follows'.handed_eq.symm)
      · exact follows'

/-- The log behind any sequence of requests. -/
theorem Follows.serve
    (requests : List LogRequest)
    {log : DurableLog}
    {writer : Writer (WritableFileWriter (ω × List FileEvent))}
    (follows : Follows log writer)
    (granted : ∀ event ∈ (writer.serve F.traced requests).1, LogRequest.Granted event) :
    let served := writer.serve F.traced requests
    Follows (served.1.foldl LogRequest.settle log) served.2 ∧
      served.2.format = writer.format := by
  induction requests generalizing log writer with
  | nil => exact ⟨follows, rfl⟩
  | cons next requests inductionHypothesis =>
      obtain ⟨first, others⟩ := List.forall_mem_cons.mp granted
      obtain ⟨under, follows'⟩ := follows.request (F := F) next
      obtain ⟨follows'', sameFormat⟩ := inductionHypothesis (follows' first) others
      exact ⟨follows'', sameFormat.trans under.format_eq⟩

/-- A new log. -/
theorem follows_new
    (F : WritableFile ω)
    (buffered : F.useOSBuffer = true)
    (notDirect : F.useDirectIO = false)
    (file : ω)
    (maxBufferSize bytesPerSync : Nat)
    (logNumber : UInt64)
    (recycle : Bool) :
    Follows .empty (Writer.new (WritableFileWriter.new F.traced (file, []) maxBufferSize
      bytesPerSync) logNumber recycle) where
  bytes := rfl
  offset := rfl
  served := ⟨[], buffered, notDirect, rfl, fun _ => ⟨rfl, rfl, [], [], rfl, .inl rfl, nofun⟩⟩
  large := le_roundup 65536 (Nat.pos_of_isPowerOfTwo F.powerOfTwo)
  empty := rfl
  durable := List.prefix_refl _

/-! ## Recovery -/

/-- A cut behind the first records of a log leaves them. -/
theorem Format.prefix_survivors
    (format : Format)
    {position offset cut : Nat}
    {front : List Bytes}
    (back : List Bytes)
    (reached : position + (format.logBytes offset front).length ≤ cut) :
    front <+: survivors (format.extents position offset (front ++ back)) cut := by
  induction front generalizing position offset with
  | nil => exact List.nil_prefix
  | cons record front inductionHypothesis =>
      rw [Reader.logBytes_cons_length] at reached
      have rest := @inductionHypothesis
        (position + (format.place offset (format.fragments offset true record)).length)
        (format.advance offset (format.fragments offset true record)) (by omega)
      have survives : position +
          (format.place offset (format.fragments offset true record)).length ≤ cut := by
        omega
      simpa [extents, survivors, survives] using rest

/-- A log on a file in buffered mode, any of whose calls may fail, and any requests of a
client that gives up at the first record that is refused.  A crash while the `next` one is
under way leaves a part of what has been handed to the file, and at least what had been when
it was last synced.  A reader then finds all durable records, and of the others, including
the one that was being added, the first ones; and all records before, if nothing was lost of
what had been handed to the file. -/
theorem crash_recovery
    (F : WritableFile ω)
    (buffered : F.useOSBuffer = true)
    (notDirect : F.useDirectIO = false)
    (file : ω)
    (maxBufferSize bytesPerSync : Nat)
    (logNumber : UInt64)
    (recycle : Bool)
    (small : recycle = true → logNumber.toNat < 2 ^ 32)
    (requests : List LogRequest)
    (next : LogRequest)
    (mode : WALRecoveryMode)
    (checksum : Bool)
    (reporter : Option (List Report)) :
    let served := (Writer.new (WritableFileWriter.new F.traced (file, []) maxBufferSize
      bytesPerSync) logNumber recycle).serve F.traced requests
    let log := served.1.foldl LogRequest.settle .empty
    let before := served.2.dest.writableFile.2
    let after := (served.2.request F.traced next).2.dest.writableFile.2
    (∀ event ∈ served.1, LogRequest.Granted event) →
    ∀ disk, synced before <+: disk → disk <+: handed after →
      ∃ found final,
        (∃ enough, ∀ fuel, enough ≤ fuel →
          (Reader.new (GrowingFile.atRest disk) reporter checksum 0 logNumber).readRecords
            GrowingFile.sequentialFile mode fuel = some (found, final)) ∧
        (next.begin log).Allows found ∧
        (handed before <+: disk → log.records <+: found) ∧
        (mode ≠ .absoluteConsistency → final.reporter = reporter) := by
  intro served log before after granted disk kept inFile
  obtain ⟨follows, sameFormat⟩ := (follows_new F buffered notDirect file maxBufferSize
    bytesPerSync logNumber recycle).serve requests granted
  obtain ⟨under, -⟩ := follows.request (F := F) next
  have isFormat : served.2.format = ⟨recycle, logNumber⟩ := sameFormat
  have accepts := @Reader.accepts_new (GrowingFile.atRest disk) recycle logNumber small
    reporter checksum
  have durable := follows.durable.trans kept
  have whole := follows.handed_eq
  have isInitial := (inFile.trans (List.prefix_append _ _)).trans under.bytes
  change served.2.format.logBytes 0 log.durable <+: disk at durable
  change handed before = served.2.format.logBytes 0 log.records at whole
  change disk <+: served.2.format.logBytes 0 (log.records ++ next.record) at isInitial
  rw [isFormat] at durable whole isInitial
  generalize (⟨recycle, logNumber⟩ : Format) = format at accepts durable whole isInitial
  obtain ⟨final, reads, quiet, -⟩ := Reader.readRecords_initial format
    (log.records ++ next.record) isInitial mode reporter checksum logNumber accepts
  obtain ⟨assembled, found, -, -⟩ := format.visible_fragmentsOf 0 kBlockSize disk.length
    (log.records ++ next.record)
  rw [Nat.zero_add, Format.extents_kBlockSize] at assembled found
  rw [assembled] at reads
  have reaches {front back : List Bytes} (all : log.records ++ next.record = front ++ back)
      (inDisk : format.logBytes 0 front <+: disk) :
      front <+: Format.survivors
        (format.extents 0 0 (log.records ++ next.record)) disk.length := by
    rw [all]
    exact format.prefix_survivors back ((Nat.zero_add _).trans_le inDisk.length_le)
  obtain ⟨others, isRecords⟩ := log.isPrefix
  refine ⟨_, final, reads, ⟨?_, found⟩, fun all => ?_, fun tolerant => quiet (.inl tolerant)⟩
  · have all := congrArg (· ++ next.record) isRecords.symm
    exact reaches (all.trans (List.append_assoc ..)) durable
  · exact reaches rfl (whole ▸ all)

/-- A record is synced, a second one is not, and the crash comes behind the third, before
its last byte is on the disk. -/
theorem crash_recovery_three :
    let F := FaultyFile.Traits.default.writableFile
    let served := (Writer.new (WritableFileWriter.new F.traced (⟨[], []⟩, []) 65536 0) 7
      false).serve F.traced [.add [1, 2], .sync true, .add [3]]
    let after := (served.2.request F.traced (.add [4])).2.dest.writableFile.2
    ∃ found final,
      (∃ enough, ∀ fuel, enough ≤ fuel →
        (Reader.new (GrowingFile.atRest (handed after).dropLast) none true 0 7).readRecords
          GrowingFile.sequentialFile .pointInTimeRecovery fuel = some (found, final)) ∧
      [[1, 2], [3]] <+: found ∧ found <+: [[1, 2], [3], [4]] := by
  obtain ⟨found, final, reads, ⟨-, later⟩, all, -⟩ := crash_recovery
    FaultyFile.Traits.default.writableFile rfl rfl ⟨[], []⟩ 65536 0 7 false
    Bool.false_ne_true.elim [.add [1, 2], .sync true, .add [3]] (.add [4])
    .pointInTimeRecovery true none (by decide +kernel) _ (by decide +kernel)
    (List.dropLast_prefix _)
  have isLog : (((Writer.new (WritableFileWriter.new
      FaultyFile.Traits.default.writableFile.traced (⟨[], []⟩, []) 65536 0) 7 false).serve
        FaultyFile.Traits.default.writableFile.traced
          [.add [1, 2], .sync true, .add [3]]).1.foldl LogRequest.settle .empty).records =
            [[1, 2], [3]] := by
    decide +kernel
  refine ⟨found, final, reads, isLog ▸ all (by decide +kernel), ?_⟩
  change found <+: _ ++ [[4]] at later
  rw [isLog] at later
  exact later

end Log
end RocksUtil
