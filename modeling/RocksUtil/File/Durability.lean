import RocksUtil.Env.TracedFile
import RocksUtil.File.Accounting

/-!
# Syncing

A `Sync` flushes the buffer and syncs the file, unless nothing has been appended since the
last one.  Whether that is so is kept in `pending_sync_`, which every `Append` sets before
it does anything else, and only a `Sync` that returns OK clears.  So behind such a `Sync`
all that was accepted had been handed to the file when it was last synced, whatever has
failed on the way (`sync_means_synced`).
-/

namespace RocksUtil
namespace WritableFileWriter

open FileEvent (handed synced syncs)
open WritableFile (tracedBytes)

/-- The calls between the constructor and `Close`, with the one that may also be made by
another thread. -/
inductive Request
  | call (next : Call)
  | syncWithoutFlush (useFsync : Bool)

variable {ω : Type}

/-- A request. -/
def request
    (F : WritableFile ω)
    (writer : WritableFileWriter ω) : Request → Status × WritableFileWriter ω
  | .call next => writer.call F next
  | .syncWithoutFlush useFsync => writer.syncWithoutFlush F useFsync

/-- Requests one after another, each with the status it returns. -/
def serve
    (F : WritableFile ω)
    (writer : WritableFileWriter ω) :
    List Request → List (Request × Status) × WritableFileWriter ω
  | [] => ([], writer)
  | next :: requests =>
      let result := writer.request F next
      let rest := result.2.serve F requests
      ((next, result.1) :: rest.1, rest.2)

/-- The data of an `Append` that has returned OK. -/
def Request.added : Request × Status → Bytes
  | (.call next, s) => WritableFileWriter.added (next, s)
  | _ => []

/-- The data of the `Append`s that have returned OK. -/
def granted (history : List (Request × Status)) : Bytes := history.flatMap Request.added

/-- There was no `Append` since the last `Sync` that has returned OK, or since the start. -/
def Untouched (history : List (Request × Status)) : Prop :=
  ∃ before after, history = before ++ after ∧
    (before = [] ∨ ∃ earlier useFsync s,
      before = earlier ++ [(.call (.sync useFsync), s)] ∧ s.ok = true) ∧
    ∀ event ∈ after, ∀ data, event.1 ≠ .call (.append data)

variable {F : WritableFile ω} {writer : WritableFileWriter (ω × List FileEvent)}
  {history : List (Request × Status)}

theorem Untouched.concat
    (untouched : Untouched history)
    {event : Request × Status}
    (noAppend : ∀ data, event.1 ≠ .call (.append data)) :
    Untouched (history ++ [event]) := by
  obtain ⟨before, after, rfl, start, none⟩ := untouched
  refine ⟨before, after ++ [event], List.append_assoc .., start, fun other member => ?_⟩
  rcases List.mem_append.mp member with earlier | last
  · exact none other earlier
  · rw [List.mem_singleton.mp last]
    exact noAppend

theorem untouched_sync
    (history : List (Request × Status))
    (useFsync : Bool)
    {s : Status}
    (succeeds : s.ok = true) :
    Untouched (history ++ [(.call (.sync useFsync), s)]) :=
  ⟨_, [], (List.append_nil _).symm, .inr ⟨history, useFsync, s, rfl, succeeds⟩, nofun⟩

/-! ## What is asked of the file -/

/-- A part of a call asks the file for some `events`, none of which is a sync; they hand
nothing to it if the buffer is empty. -/
structure Asks
    (writer after : WritableFileWriter (ω × List FileEvent))
    (events : List FileEvent) : Prop where
  trace : after.writableFile.2 = writer.writableFile.2 ++ events
  noSync : syncs events = []
  nothing : writer.buf.bytes = [] → handed events = []

theorem writeOut_asks
    (F : WritableFile ω)
    (writer : WritableFileWriter (ω × List FileEvent)) :
    ∃ events, Asks writer (writer.writeOut F.traced).2 events := by
  unfold writeOut
  split
  · rename_i some
    have nonempty : writer.buf.bytes ≠ [] := List.ne_nil_of_length_pos some
    split
    · unfold writeBuffered
      rw [if_pos (List.length_pos_of_ne_nil nonempty)]
      dsimp only
      split
      · rename_i succeeds
        exact ⟨[.append writer.buf.bytes], if_pos succeeds, rfl,
          fun empty => absurd empty nonempty⟩
      · rename_i fails
        refine ⟨[], ?_, rfl, fun _ => rfl⟩
        rw [List.append_nil]
        exact if_neg fails
    · unfold writeUnbuffered
      dsimp only
      refine ⟨[], ?_, rfl, fun _ => rfl⟩
      rw [List.append_nil]
      split <;> split <;> rfl
  · exact ⟨[], (List.append_nil _).symm, rfl, fun _ => rfl⟩

theorem syncBehind_asks
    (F : WritableFile ω)
    (s : Status)
    (writer : WritableFileWriter (ω × List FileEvent)) :
    ∃ events,
      (writer.syncBehind F.traced s).2.writableFile.2 = writer.writableFile.2 ++ events ∧
        syncs events = [] ∧ handed events = [] := by
  unfold syncBehind
  by_cases due : writer.syncDue = true
  · rw [if_pos due]
    exact ⟨[.rangeSync writer.lastSyncSize writer.syncLength], rfl, rfl, rfl⟩
  · rw [if_neg due]
    exact ⟨[], (List.append_nil _).symm, rfl, rfl⟩

/-- A flush does not sync the file, but for a range of it. -/
theorem flush_asks
    (F : WritableFile ω)
    (writer : WritableFileWriter (ω × List FileEvent)) :
    ∃ events, Asks writer (writer.flush F.traced).2 events := by
  obtain ⟨events, asks⟩ := writeOut_asks F writer
  unfold flush
  simp only
  split
  · split
    · obtain ⟨more, isMore, noSync, nothing⟩ := syncBehind_asks F
        (F.traced.flush (writer.writeOut F.traced).2.writableFile).1
        { (writer.writeOut F.traced).2 with
          writableFile := (F.traced.flush (writer.writeOut F.traced).2.writableFile).2 }
      refine ⟨events ++ more, isMore.trans ?_, ?_, fun empty => ?_⟩
      · rw [← List.append_assoc, ← asks.trace]
        rfl
      · rw [FileEvent.syncs_append, asks.noSync, noSync, List.append_nil]
      · rw [FileEvent.handed_append, asks.nothing empty, nothing, List.append_nil]
    · exact ⟨events, asks.trace, asks.noSync, asks.nothing⟩
  · exact ⟨events, asks⟩

/-! ## Requests -/

/-- What holds behind every request. -/
structure Durable
    (history : List (Request × Status))
    (writer : WritableFileWriter (ω × List FileEvent)) : Prop where
  buffered : writer.useOSBuffer = true
  notDirect : writer.directIO = false
  accepted_eq : accepted tracedBytes writer = granted history
  clean : writer.pendingSync = false → writer.buf.bytes = [] ∧
    synced writer.writableFile.2 = granted history ∧ Untouched history

theorem granted_concat (history : List (Request × Status)) (event : Request × Status) :
    granted (history ++ [event]) = granted history ++ Request.added event := by
  rw [granted, List.flatMap_append, List.flatMap_singleton]
  rfl

/-- A flush that hands nothing to the file leaves it as well synced as it was. -/
theorem synced_flush
    (F : WritableFile ω)
    (writer : WritableFileWriter (ω × List FileEvent)) :
    synced (writer.flush F.traced).2.writableFile.2 = synced writer.writableFile.2 := by
  obtain ⟨events, asks⟩ := flush_asks F writer
  rw [asks.trace, FileEvent.synced_append _ asks.noSync]

theorem Durable.append
    (durable : Durable history writer)
    (data : Bytes) :
    let result := append F.traced data writer
    Durable (history ++ [(.call (.append data), result.1)]) result.2 := by
  intro result
  have modes := SameModes.append F.traced data writer
  have account := append_accepts (F.traced_keepsOnClose).leaks durable.buffered trivial data
  have noLeak : appendLeak F.traced (fun _ _ => 0) writer data = 0 := by
    simp [appendLeak, flushLeak]
  refine ⟨account.buffered, modes.directIO.trans durable.notDirect, ?_, fun clean => ?_⟩
  · rw [granted_concat, account.accepted_eq noLeak, durable.accepted_eq]
    rfl
  · have pending : result.2.pendingSync = true := modes.pendingSync
    rw [pending] at clean
    cases clean

theorem added_of_noAppend
    {event : Request × Status}
    (noAppend : ∀ data, event.1 ≠ .call (.append data)) : Request.added event = [] := by
  obtain ⟨next, s⟩ := event
  cases next with
  | syncWithoutFlush useFsync => rfl
  | call next =>
      cases next with
      | append data => exact absurd rfl (noAppend data)
      | flush => rfl
      | sync useFsync => rfl

theorem granted_of_noAppend
    (history : List (Request × Status))
    {event : Request × Status}
    (noAppend : ∀ data, event.1 ≠ .call (.append data)) :
    granted (history ++ [event]) = granted history := by
  rw [granted_concat, added_of_noAppend noAppend, List.append_nil]

/-- A request that is not an `Append`, and has changed nothing. -/
theorem Durable.concat
    (durable : Durable history writer)
    {event : Request × Status}
    (noAppend : ∀ data, event.1 ≠ .call (.append data)) :
    Durable (history ++ [event]) writer := by
  have same := granted_of_noAppend history noAppend
  refine ⟨durable.buffered, durable.notDirect, durable.accepted_eq.trans same.symm,
    fun clean => ?_⟩
  obtain ⟨empty, isSynced, untouched⟩ := durable.clean clean
  exact ⟨empty, isSynced.trans same.symm, untouched.concat noAppend⟩

/-- Another state of the file with nothing more handed to it. -/
theorem Durable.of_file
    (durable : Durable history writer)
    {file : ω × List FileEvent}
    (same : handed file.2 = handed writer.writableFile.2)
    (asSynced : writer.pendingSync = false → synced file.2 = granted history) :
    Durable history { writer with writableFile := file } := by
  refine ⟨durable.buffered, durable.notDirect, ?_, fun clean => ?_⟩
  · exact (congrArg (· ++ writer.buf.bytes) same).trans durable.accepted_eq
  · exact ⟨(durable.clean clean).1, asSynced clean, (durable.clean clean).2.2⟩

/-- A flush keeps the account. -/
theorem Durable.flush (durable : Durable history writer) :
    Durable history (writer.flush F.traced).2 := by
  have modes := SameModes.flush F.traced writer
  have account := flush_accepts (F.traced_keepsOnClose).leaks durable.buffered trivial
  have noLeak : flushLeak (fun _ _ => 0) writer = 0 := by
    simp [flushLeak]
  have same : accepted tracedBytes (writer.flush F.traced).2 =
      accepted tracedBytes writer := by
    rw [account.accepted_eq noLeak, List.append_nil]
  refine ⟨account.buffered, modes.directIO.trans durable.notDirect,
    same.trans durable.accepted_eq, fun clean => ?_⟩
  obtain ⟨empty, isSynced, untouched⟩ := durable.clean (modes.pendingSync.symm.trans clean)
  obtain ⟨events, asks⟩ := flush_asks F writer
  refine ⟨?_, (synced_flush F writer).trans isSynced, untouched⟩
  rw [accepted, accepted, tracedBytes, tracedBytes, asks.trace, FileEvent.handed_append,
    asks.nothing empty, empty, List.append_nil] at same
  exact List.append_right_eq_self.mp same

/-- A sync of the file is in its trace. -/
theorem syncInternal_traced
    (F : WritableFile ω)
    (useFsync : Bool)
    (writer : WritableFileWriter (ω × List FileEvent)) :
    ∃ s file, writer.syncInternal F.traced useFsync = (s, { writer with writableFile := file }) ∧
      file.2 = writer.writableFile.2 ++ [.sync s.ok] := by
  cases useFsync with
  | true => exact ⟨_, _, rfl, rfl⟩
  | false => exact ⟨_, _, rfl, rfl⟩

/-- What `Sync` leaves, and what is so if it returns OK. -/
theorem Durable.sync
    (durable : Durable history writer)
    (useFsync : Bool) :
    let result := writer.sync F.traced useFsync
    Durable (history ++ [(.call (.sync useFsync), result.1)]) result.2 ∧
      (result.1.ok = true → synced result.2.writableFile.2 = granted history ∧
        (syncs result.2.writableFile.2 = syncs writer.writableFile.2 →
          Untouched history)) := by
  intro result
  have flushed := durable.flush (F := F)
  have noAppend (data : Bytes) : Request.call (.sync useFsync) ≠ .call (.append data) := by
    simp
  have sameGranted (s : Status) :
      granted (history ++ [(.call (.sync useFsync), s)]) = granted history :=
    granted_of_noAppend history noAppend
  cases flushes : (writer.flush F.traced).1.ok with
  | false =>
      have isResult : result = writer.flush F.traced := by
        simp [result, WritableFileWriter.sync, flushes]
      rw [isResult]
      refine ⟨flushed.concat noAppend, fun succeeds => ?_⟩
      rw [flushes] at succeeds
      cases succeeds
  | true =>
      have empty := bytes_flush (.inl durable.buffered) flushes
      cases pending : (writer.flush F.traced).2.pendingSync with
      | false =>
          have isResult : result =
              (.OK, { (writer.flush F.traced).2 with pendingSync := false }) := by
            simp [result, WritableFileWriter.sync, flushes, pending]
          obtain ⟨-, isSynced, untouched⟩ := flushed.clean pending
          rw [isResult]
          refine ⟨⟨flushed.buffered, flushed.notDirect,
            flushed.accepted_eq.trans (sameGranted _).symm, fun _ => ?_⟩,
            fun _ => ⟨isSynced, fun _ => untouched⟩⟩
          exact ⟨empty, isSynced.trans (sameGranted _).symm,
            untouched_sync history useFsync rfl⟩
      | true =>
          obtain ⟨s, file, isSync, isTrace⟩ :=
            syncInternal_traced F useFsync (writer.flush F.traced).2
          have isResult : result = if s.ok then
              (.OK, { (writer.flush F.traced).2 with writableFile := file, pendingSync := false })
              else (s, { (writer.flush F.traced).2 with writableFile := file }) := by
            simp [result, WritableFileWriter.sync, flushes, pending, flushed.notDirect, isSync]
          have sameHanded : handed file.2 = handed (writer.flush F.traced).2.writableFile.2 := by
            rw [isTrace, FileEvent.handed_append]
            exact List.append_nil _
          have kept := flushed.of_file sameHanded fun clean => by
            rw [pending] at clean
            cases clean
          cases succeeds : s.ok with
          | false =>
              rw [succeeds, if_neg Bool.false_ne_true] at isResult
              rw [isResult]
              refine ⟨kept.concat noAppend, fun ok => ?_⟩
              rw [succeeds] at ok
              cases ok
          | true =>
              rw [succeeds, if_pos rfl] at isResult
              rw [succeeds] at isTrace
              have isSynced : synced file.2 = granted history := by
                have account := flushed.accepted_eq
                rw [accepted, empty, List.append_nil] at account
                rw [isTrace, FileEvent.synced_sync]
                exact account
              rw [isResult]
              refine ⟨⟨kept.buffered, kept.notDirect,
                kept.accepted_eq.trans (sameGranted _).symm, fun _ => ?_⟩,
                fun _ => ⟨isSynced, fun skipped => ?_⟩⟩
              · exact ⟨empty, isSynced.trans (sameGranted _).symm,
                  untouched_sync history useFsync rfl⟩
              · -- The trace has one sync more than before.
                obtain ⟨events, asks⟩ := flush_asks F writer
                have more := congrArg List.length skipped
                change (syncs file.2).length = _ at more
                rw [isTrace, asks.trace, FileEvent.syncs_append, FileEvent.syncs_append,
                  asks.noSync, List.append_nil, List.length_append] at more
                exact absurd more (Nat.succ_ne_self _)

theorem Durable.syncWithoutFlush
    (durable : Durable history writer)
    (useFsync : Bool) :
    Durable history (writer.syncWithoutFlush F.traced useFsync).2 := by
  unfold WritableFileWriter.syncWithoutFlush
  by_cases unsafeSync : (!F.traced.isSyncThreadSafe) = true
  · rw [if_pos unsafeSync]
    exact durable
  · rw [if_neg unsafeSync]
    obtain ⟨s, file, isSync, isTrace⟩ := syncInternal_traced F useFsync writer
    have sameHanded : handed file.2 = handed writer.writableFile.2 := by
      rw [isTrace, FileEvent.handed_append]
      exact List.append_nil _
    rw [isSync]
    apply durable.of_file sameHanded
    intro clean
    obtain ⟨empty, isSynced, -⟩ := durable.clean clean
    cases succeeds : s.ok with
    | false =>
        rw [isTrace, succeeds, FileEvent.synced_concat _ rfl]
        exact isSynced
    | true =>
        have account := durable.accepted_eq
        rw [accepted, empty, List.append_nil] at account
        rw [isTrace, succeeds, FileEvent.synced_sync]
        exact account

/-- Behind any request. -/
theorem Durable.request
    (durable : Durable history writer)
    (next : Request) :
    let result := writer.request F.traced next
    Durable (history ++ [(next, result.1)]) result.2 := by
  cases next with
  | call next =>
      cases next with
      | append data => exact durable.append data
      | flush => exact durable.flush.concat nofun
      | sync useFsync => exact (durable.sync useFsync).1
  | syncWithoutFlush useFsync => exact (durable.syncWithoutFlush useFsync).concat nofun

/-- Any sequence of requests. -/
theorem Durable.serve
    (requests : List Request)
    {history : List (Request × Status)}
    {writer : WritableFileWriter (ω × List FileEvent)}
    (durable : Durable history writer) :
    let served := writer.serve F.traced requests
    Durable (history ++ served.1) served.2 := by
  induction requests generalizing history writer with
  | nil =>
      change Durable (history ++ []) writer
      rw [List.append_nil]
      exact durable
  | cons next requests inductionHypothesis =>
      have rest := inductionHypothesis (durable.request (F := F) next)
      dsimp only at rest
      rw [List.append_assoc] at rest
      exact rest

/-- A writer in buffered mode, not by direct I/O, over a new file, and any sequence of
requests, of which any may fail: when a `Sync` behind them returns OK, the data of all
`Append`s that have returned OK had been handed to the file when it was last synced, and if
the `Sync` has not synced the file itself, there was no `Append` since the last one. -/
theorem sync_means_synced
    (F : WritableFile ω)
    (buffered : F.useOSBuffer = true)
    (notDirect : F.useDirectIO = false)
    (file : ω)
    (maxBufferSize bytesPerSync : Nat)
    (requests : List Request)
    (useFsync : Bool) :
    let served := (new F.traced (file, []) maxBufferSize bytesPerSync).serve F.traced requests
    let result := served.2.sync F.traced useFsync
    result.1.ok = true → synced result.2.writableFile.2 = granted served.1 ∧
      (syncs result.2.writableFile.2 = syncs served.2.writableFile.2 → Untouched served.1) := by
  intro served result
  have start : Durable [] (new F.traced (file, []) maxBufferSize bytesPerSync) :=
    ⟨buffered, notDirect, rfl, fun _ => ⟨rfl, rfl, [], [], rfl, .inl rfl, nofun⟩⟩
  exact ((start.serve requests).sync useFsync).2

/-- The first write fails, and the `Sync` behind the next makes it again. -/
theorem sync_means_synced_retry :
    ∃ served, served = (new FaultyFile.Traits.default.writableFile.traced
        (⟨[], [.IOError ""]⟩, []) 65536 0).serve FaultyFile.Traits.default.writableFile.traced
          [.call (.append [1, 2]), .call .flush] ∧
      (served.2.sync FaultyFile.Traits.default.writableFile.traced true).1.ok = true ∧
      synced (served.2.sync FaultyFile.Traits.default.writableFile.traced
        true).2.writableFile.2 = [1, 2] := by
  have holds := sync_means_synced FaultyFile.Traits.default.writableFile rfl rfl
    ⟨[], [.IOError ""]⟩ 65536 0 [.call (.append [1, 2]), .call .flush] true
  have isServed : ((new FaultyFile.Traits.default.writableFile.traced
      (⟨[], [.IOError ""]⟩, []) 65536 0).serve FaultyFile.Traits.default.writableFile.traced
        [.call (.append [1, 2]), .call .flush]).1 =
          [(.call (.append [1, 2]), .OK), (.call .flush, .IOError "")] := by
    simp [serve, request, call, new, append, prepare, makeRoom, store, place, appendLoop,
      fill, flush, writeOut, writeBuffered, WritableFile.traced, AlignedBuffer.allocate,
      AlignedBuffer.append, AlignedBuffer.currentSize, roundup,
      FaultyFile.Traits.writableFile, FaultyFile.Traits.default, FaultyFile.append,
      FaultyFile.outcome]
  have succeeds : (((new FaultyFile.Traits.default.writableFile.traced
      (⟨[], [.IOError ""]⟩, []) 65536 0).serve FaultyFile.Traits.default.writableFile.traced
        [.call (.append [1, 2]), .call .flush]).2.sync
          FaultyFile.Traits.default.writableFile.traced true).1.ok = true := by
    simp [serve, request, call, new, append, prepare, makeRoom, store, place, appendLoop,
      fill, flush, sync, syncInternal, writeOut, writeBuffered, syncBehind, syncDue,
      WritableFile.traced, AlignedBuffer.allocate, AlignedBuffer.append,
      AlignedBuffer.currentSize, roundup, FaultyFile.Traits.writableFile,
      FaultyFile.Traits.default, FaultyFile.append, FaultyFile.flush, FaultyFile.outcome,
      FaultyFile.pass]
  refine ⟨_, rfl, succeeds, (holds succeeds).1.trans ?_⟩
  rw [isServed]
  rfl

end WritableFileWriter
end RocksUtil
