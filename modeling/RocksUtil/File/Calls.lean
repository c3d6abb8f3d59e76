import RocksUtil.File.WritableFileWriter

/-!
# Calls of a file writer

`Sync` and `Close` of `WritableFileWriter`, and sequences of calls with the
statuses they return.
-/

namespace RocksUtil
namespace WritableFileWriter

variable {ω : Type}

/-- `SyncInternal`. -/
def syncInternal
    (F : WritableFile ω)
    (useFsync : Bool)
    (writer : WritableFileWriter ω) : Status × WritableFileWriter ω :=
  let synced :=
    if useFsync then F.fsync writer.writableFile else F.sync writer.writableFile
  (synced.1, { writer with writableFile := synced.2 })

/-- `Sync`. -/
def sync
    (F : WritableFile ω)
    (useFsync : Bool)
    (writer : WritableFileWriter ω) : Status × WritableFileWriter ω :=
  let flushed := writer.flush F
  if flushed.1.ok then
    if !WritableFileWriter.directIO flushed.2 && flushed.2.pendingSync then
      let synced := flushed.2.syncInternal F useFsync
      if synced.1.ok then (.OK, { synced.2 with pendingSync := false })
      else synced
    else (.OK, { flushed.2 with pendingSync := false })
  else flushed

/-- `SyncWithoutFlush`. -/
def syncWithoutFlush
    (F : WritableFile ω)
    (useFsync : Bool)
    (writer : WritableFileWriter ω) : Status × WritableFileWriter ω :=
  if !F.isSyncThreadSafe then
    (.NotSupported ("Can't WritableFileWriter::SyncWithoutFlush() because " ++
      "WritableFile::IsSyncThreadSafe() is false"), writer)
  else writer.syncInternal F useFsync

/-- `Close`, with the file it leaves behind: the writer itself holds none any
more.  The first failure is the one it returns. -/
def close
    (F : WritableFile ω)
    (writer : WritableFileWriter ω) : Status × ω :=
  let flushed := writer.flush F
  let truncated := F.truncate flushed.2.filesize flushed.2.writableFile
  let closed := F.close truncated.2
  let s := if !truncated.1.ok && flushed.1.ok then truncated.1 else flushed.1
  (if !closed.1.ok && s.ok then closed.1 else s, closed.2)

/-- The calls between the constructor and `Close`. -/
inductive Call
  | append (data : Bytes)
  | flush
  | sync (useFsync : Bool)

/-- The data of a call, whatever it returns. -/
def Call.data : Call → Bytes
  | .append data => data
  | _ => []

/-- A call. -/
def call
    (F : WritableFile ω)
    (writer : WritableFileWriter ω) : Call → Status × WritableFileWriter ω
  | .append data => append F data writer
  | .flush => writer.flush F
  | .sync useFsync => writer.sync F useFsync

/-- Calls one after another, each with the status it returns. -/
def run
    (F : WritableFile ω)
    (writer : WritableFileWriter ω) :
    List Call → List (Call × Status) × WritableFileWriter ω
  | [] => ([], writer)
  | next :: calls =>
      let result := writer.call F next
      let rest := result.2.run F calls
      ((next, result.1) :: rest.1, rest.2)

/-- The data of an `Append` that has returned OK. -/
def added : Call × Status → Bytes
  | (.append data, s) => if s.ok then data else []
  | _ => []

/-- The data of the `Append`s that have returned OK. -/
def appended (history : List (Call × Status)) : Bytes := history.flatMap added

@[simp] theorem appended_nil : appended [] = [] := rfl

@[simp] theorem appended_cons
    (event : Call × Status)
    (history : List (Call × Status)) :
    appended (event :: history) = added event ++ appended history := rfl

theorem syncInternal_cases
    (F : WritableFile ω)
    (useFsync : Bool)
    (writer : WritableFileWriter ω) :
    ∃ file,
      (writer.syncInternal F useFsync).2 = { writer with writableFile := file } ∧
        (file = (F.sync writer.writableFile).2 ∨
          file = (F.fsync writer.writableFile).2) := by
  cases useFsync with
  | true => exact ⟨_, rfl, .inr rfl⟩
  | false => exact ⟨_, rfl, .inl rfl⟩

/-- `Sync` leaves the writer as its flush does, up to a sync of the file. -/
theorem sync_cases
    (F : WritableFile ω)
    (useFsync : Bool)
    (writer : WritableFileWriter ω) :
    ∃ file pending,
      (writer.sync F useFsync).2 =
          { (writer.flush F).2 with writableFile := file, pendingSync := pending } ∧
        (file = (writer.flush F).2.writableFile ∨
          file = (F.sync (writer.flush F).2.writableFile).2 ∨
          file = (F.fsync (writer.flush F).2.writableFile).2) := by
  obtain ⟨file, synced, isFile⟩ :=
    (writer.flush F).2.syncInternal_cases F useFsync
  unfold sync
  simp only
  split
  · split
    · split
      · rw [synced]
        exact ⟨file, false, rfl, .inr isFile⟩
      · rw [synced]
        exact ⟨file, _, rfl, .inr isFile⟩
    · exact ⟨_, _, rfl, .inl rfl⟩
  · exact ⟨_, _, rfl, .inl rfl⟩

/-- `Close` returns OK only if all of its parts do. -/
theorem ok_close
    {F : WritableFile ω}
    {writer : WritableFileWriter ω}
    (succeeds : (writer.close F).1.ok = true) :
    (writer.flush F).1.ok = true := by
  by_contra failed
  rw [Bool.not_eq_true] at failed
  simp [close, failed] at succeeds

/-! ## What no call changes -/

@[simp] theorem filesize_grow (writer : WritableFileWriter ω) :
    writer.grow.filesize = writer.filesize := by
  unfold grow
  simp only
  split <;> rfl

/-- The modes of the file and whether a sync is pending are as before. -/
structure SameModes (writer after : WritableFileWriter ω) : Prop where
  pendingSync : after.pendingSync = writer.pendingSync
  directIO : after.directIO = writer.directIO
  useOSBuffer : after.useOSBuffer = writer.useOSBuffer
  bytesPerSync : after.bytesPerSync = writer.bytesPerSync

namespace SameModes

variable {writer middle after : WritableFileWriter ω}

theorem refl (writer : WritableFileWriter ω) : SameModes writer writer :=
  ⟨rfl, rfl, rfl, rfl⟩

theorem trans
    (first : SameModes writer middle)
    (second : SameModes middle after) : SameModes writer after :=
  ⟨second.pendingSync.trans first.pendingSync, second.directIO.trans first.directIO,
    second.useOSBuffer.trans first.useOSBuffer,
    second.bytesPerSync.trans first.bytesPerSync⟩

end SameModes

/-- What a flush does not change. -/
structure SameSettings (writer after : WritableFileWriter ω) : Prop where
  filesize : after.filesize = writer.filesize
  maxBufferSize : after.maxBufferSize = writer.maxBufferSize
  modes : SameModes writer after

namespace SameSettings

variable {writer middle after : WritableFileWriter ω}

theorem refl (writer : WritableFileWriter ω) : SameSettings writer writer :=
  ⟨rfl, rfl, .refl writer⟩

theorem trans
    (first : SameSettings writer middle)
    (second : SameSettings middle after) : SameSettings writer after :=
  ⟨second.filesize.trans first.filesize, second.maxBufferSize.trans first.maxBufferSize,
    first.modes.trans second.modes⟩

theorem writeBuffered
    (F : WritableFile ω)
    (writer : WritableFileWriter ω)
    (data : Bytes) : SameSettings writer (writer.writeBuffered F data).2 := by
  unfold WritableFileWriter.writeBuffered
  dsimp only
  split
  · split <;> exact ⟨rfl, rfl, rfl, rfl, rfl, rfl⟩
  · exact ⟨rfl, rfl, rfl, rfl, rfl, rfl⟩

theorem writeUnbuffered (F : WritableFile ω) (writer : WritableFileWriter ω) :
    SameSettings writer (writer.writeUnbuffered F).2 := by
  unfold WritableFileWriter.writeUnbuffered
  dsimp only
  generalize (if 0 < (writer.buf.padToAlignmentWith 0).currentSize then _
    else _ : Status × ω) = written
  split <;> exact ⟨rfl, rfl, rfl, rfl, rfl, rfl⟩

theorem writeOut (F : WritableFile ω) (writer : WritableFileWriter ω) :
    SameSettings writer (writer.writeOut F).2 := by
  unfold WritableFileWriter.writeOut
  split
  · split
    · exact writeBuffered F writer _
    · exact writeUnbuffered F writer
  · exact refl writer

theorem syncBehind
    (F : WritableFile ω)
    (s : Status)
    (writer : WritableFileWriter ω) : SameSettings writer (writer.syncBehind F s).2 := by
  unfold WritableFileWriter.syncBehind
  dsimp only
  split
  · exact ⟨rfl, rfl, rfl, rfl, rfl, rfl⟩
  · exact refl writer

theorem flush (F : WritableFile ω) (writer : WritableFileWriter ω) :
    SameSettings writer (writer.flush F).2 := by
  have written := writeOut F writer
  unfold WritableFileWriter.flush
  generalize writer.writeOut F = out at written ⊢
  have flushed : SameSettings writer
      { out.2 with writableFile := (F.flush out.2.writableFile).2 } :=
    ⟨written.filesize, written.maxBufferSize, written.modes.pendingSync,
      written.modes.directIO, written.modes.useOSBuffer, written.modes.bytesPerSync⟩
  dsimp only
  split
  · split
    · exact flushed.trans (syncBehind F _ _)
    · exact flushed
  · exact written

end SameSettings

theorem filesize_flush (F : WritableFile ω) (writer : WritableFileWriter ω) :
    (writer.flush F).2.filesize = writer.filesize :=
  (SameSettings.flush F writer).filesize

/-- Making room is a flush and a growth of the buffer, or less. -/
theorem makeRoom_preserves
    {F : WritableFile ω}
    {writer : WritableFileWriter ω}
    (Property : WritableFileWriter ω → Prop)
    (left : Nat)
    (initial : Property writer)
    (flushed : Property (writer.flush F).2)
    (grown : ∀ {room : WritableFileWriter ω}, Property room → Property room.grow) :
    Property (writer.makeRoom F left).2 := by
  have made : Property (if 0 < writer.buf.currentSize then writer.flush F
      else (.OK, writer)).2 := by
    split
    · exact flushed
    · exact initial
  unfold makeRoom
  simp only
  by_cases full : writer.useOSBuffer = true ∧
      writer.buf.capacity - writer.buf.currentSize < left
  · rw [if_pos full]
    generalize (if 0 < writer.buf.currentSize then writer.flush F
      else (Status.OK, writer)) = room at made ⊢
    split
    · exact grown made
    · exact made
  · rw [if_neg full]
    exact initial

namespace SameModes

variable {writer middle after : WritableFileWriter ω}

theorem flush (F : WritableFile ω) (writer : WritableFileWriter ω) :
    SameModes writer (writer.flush F).2 :=
  (SameSettings.flush F writer).modes

theorem grow (writer : WritableFileWriter ω) : SameModes writer writer.grow := by
  unfold WritableFileWriter.grow
  dsimp only
  split <;> exact ⟨rfl, rfl, rfl, rfl⟩

theorem makeRoom
    (F : WritableFile ω)
    (writer : WritableFileWriter ω)
    (left : Nat) : SameModes writer (writer.makeRoom F left).2 :=
  makeRoom_preserves (SameModes writer) left (refl writer) (flush F writer)
    (fun same => same.trans (grow _))

theorem fill (writer : WritableFileWriter ω) (src : Bytes) :
    SameModes writer (writer.fill src) :=
  ⟨rfl, rfl, rfl, rfl⟩

theorem appendLoop
    (F : WritableFile ω)
    (s : Status)
    (writer : WritableFileWriter ω)
    (src : Bytes) : SameModes writer (writer.appendLoop F s src).2 := by
  fun_induction WritableFileWriter.appendLoop F s writer src with
  | case1 s writer src some more flushes inductionHypothesis =>
      have flushed := (flush F (writer.fill src)).trans (grow _)
      exact (fill writer src).trans (flushed.trans inductionHypothesis)
  | case2 s writer src some more failed =>
      exact (fill writer src).trans (flush F (writer.fill src))
  | case3 s writer src some all => exact fill writer src
  | case4 s writer src none => exact refl writer

theorem store
    (F : WritableFile ω)
    (s : Status)
    (writer : WritableFileWriter ω)
    (data : Bytes) : SameModes writer (writer.store F s data).2 := by
  have placed : SameModes writer (writer.place F s data).2 := by
    unfold place
    split
    · exact appendLoop F s writer data
    · exact (SameSettings.writeBuffered F writer data).modes
  unfold WritableFileWriter.store
  dsimp only
  split
  · exact ⟨placed.pendingSync, placed.directIO, placed.useOSBuffer, placed.bytesPerSync⟩
  · exact placed

/-- An `Append` changes whether a sync is pending, and then as `prepare` does. -/
theorem append
    (F : WritableFile ω)
    (data : Bytes)
    (writer : WritableFileWriter ω) :
    SameModes (writer.prepare F data.length) (append F data writer).2 := by
  have room := makeRoom F (writer.prepare F data.length) data.length
  unfold WritableFileWriter.append
  dsimp only
  split
  · exact room.trans (store F _ _ data)
  · exact room

end SameModes

end WritableFileWriter
end RocksUtil
