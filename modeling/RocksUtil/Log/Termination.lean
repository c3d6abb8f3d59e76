import RocksUtil.Env.FailingFile
import RocksUtil.Log.Salvage

/-!
# ReadRecord returns

In the modes other than `kSkipAnyCorruptedRecords`, every physical record with which the
loop of `ReadRecord` goes on takes bytes out of the buffer, and a block that is read
takes them out of the file.  What is left of both bounds the number of iterations, over
any bytes, from any state of the reader, and when reads fail
(`readRecord_terminates`).
-/

namespace RocksUtil
namespace Log
namespace Reader

variable {φ : Type} {F : SequentialFile φ} {left : φ → Nat}

/-- The bytes that can still get into the loop of `ReadRecord`: those of the buffer, and
those of the file as long as it is read. -/
def toRead (left : φ → Nat) (reader : Reader φ) : Nat :=
  reader.buffer.length + if reader.eof || reader.readError then 0 else left reader.file

/-- `ReadRecord` returns with this code, unless it salvages what it can. -/
def Ends (code : Nat) : Prop := code = kEof ∨ code = kBadHeader ∨ code = kOldRecord

/-- The call is the last one, or it has taken bytes. -/
def Progresses (left : φ → Nat) (reader : Reader φ) (physical : PhysicalRead φ) : Prop :=
  Ends physical.code ∨ toRead left physical.reader < toRead left reader

theorem readMore_stop_ends
    {reader next : Reader φ}
    {dropSize error dropped : Nat}
    (stop : reader.readMore F dropSize = .stop error dropped next) :
    Ends error := by
  unfold readMore at stop
  dsimp only at stop
  split at stop
  · split at stop
    · cases stop
      exact .inl rfl
    · split at stop <;> cases stop
  · split at stop
    · cases stop
      exact .inr (.inl rfl)
    · cases stop
      exact .inl rfl

/-- The bytes of a block come out of the file. -/
theorem toRead_readMore
    (depletes : F.Depletes left)
    {reader next : Reader φ}
    {dropSize : Nat}
    (more : reader.readMore F dropSize = .more next) :
    toRead left next ≤ toRead left reader := by
  unfold readMore at more
  dsimp only at more
  split at more
  · rename_i live
    simp only [Bool.and_eq_true, Bool.not_eq_true'] at live
    have before : toRead left reader = reader.buffer.length + left reader.file := by
      simp [toRead, live.1, live.2]
    split at more
    · cases more
    · rename_i succeeds
      have taken := depletes kBlockSize reader.file (by simpa using succeeds)
      split at more
      · cases more
        rw [before]
        simp only [toRead, Bool.true_or, if_true]
        omega
      · cases more
        rw [before]
        simp only [toRead, live.1, live.2, Bool.or_self, Bool.false_eq_true, if_false]
        omega
  · split at more <;> cases more

theorem toRead_takeRecord
    (reader : Reader φ)
    {headerSize : Nat}
    (type length dropSize : Nat)
    (positive : 0 < headerSize)
    (nonempty : 0 < reader.buffer.length) :
    toRead left (reader.takeRecord headerSize type length dropSize).reader <
      toRead left reader := by
  have shorter : (reader.buffer.drop (headerSize + length)).length <
      reader.buffer.length := by
    rw [List.length_drop]
    omega
  have less (buffer : Bytes) (fewer : buffer.length < reader.buffer.length) :
      toRead left { reader with buffer := buffer } < toRead left reader :=
    Nat.add_lt_add_right fewer _
  unfold takeRecord
  dsimp only
  split
  · split
    · exact less [] nonempty
    · split
      · exact less [] nonempty
      · exact less [] nonempty
  · split
    · exact less [] nonempty
    · split
      · exact less [] nonempty
      · split
        · exact less _ shorter
        · exact less _ shorter

/-- A physical record that does not end the call of `ReadRecord` takes bytes. -/
theorem progresses
    (depletes : F.Depletes left)
    (reader : Reader φ)
    (dropSize : Nat) :
    Progresses left reader (reader.readPhysicalRecord F dropSize) := by
  have header := kHeaderSize_eq
  have recyclableHeader := kRecyclableHeaderSize_eq
  induction reads : reader.readsLeft using Nat.strongRecOn generalizing reader with
  | ind count inductionHypothesis =>
      have later {next : Reader φ}
          (fewer : next.readsLeft < reader.readsLeft)
          (less : toRead left next ≤ toRead left reader) :
          Progresses left reader (next.readPhysicalRecord F dropSize) := by
        rcases inductionHypothesis _ (reads ▸ fewer) next rfl with ends | takes
        · exact .inl ends
        · exact .inr (Nat.lt_of_lt_of_le takes less)
      obtain ⟨recycled, noted⟩ := noteRecycled_eq reader
      have sameToRead : toRead left reader.noteRecycled = toRead left reader := by
        rw [noted]
        rfl
      by_cases short : reader.buffer.length < kHeaderSize
      · cases fetched : reader.readMore F dropSize with
        | stop error dropped next =>
            rw [readPhysicalRecord_of_stop short fetched]
            exact .inl (readMore_stop_ends fetched)
        | more next =>
            rw [readPhysicalRecord_of_more short fetched]
            exact later (readsLeft_readMore (by omega) fetched)
              (toRead_readMore depletes fetched)
      · have enough : kHeaderSize ≤ reader.buffer.length := Nat.not_lt.mp short
        cases recyclable : isRecyclableType (headerType reader.buffer) with
        | false =>
            rw [readPhysicalRecord_of_legacy enough recyclable]
            exact .inr (toRead_takeRecord reader _ _ _ (by omega) (by omega))
        | true =>
            by_cases shortRecyclable : reader.buffer.length < kRecyclableHeaderSize
            · cases fetched : reader.noteRecycled.readMore F dropSize with
              | stop error dropped next =>
                  rw [readPhysicalRecord_of_recyclable_stop enough recyclable
                    shortRecyclable fetched]
                  exact .inl (readMore_stop_ends fetched)
              | more next =>
                  rw [readPhysicalRecord_of_recyclable_more enough recyclable
                    shortRecyclable fetched]
                  refine later ?_ ?_
                  · rw [← readsLeft_noteRecycled reader]
                    exact readsLeft_readMore (by simpa using shortRecyclable) fetched
                  · rw [← sameToRead]
                    exact toRead_readMore depletes fetched
            · rw [readPhysicalRecord_of_recyclable (Nat.not_lt.mp shortRecyclable)
                recyclable]
              split
              · exact .inl (.inr (.inr rfl))
              · refine .inr ?_
                rw [← sameToRead]
                exact toRead_takeRecord reader.noteRecycled _ _ _ (by omega)
                  (by rw [buffer_noteRecycled]; omega)

/-- With such a code the loop does not go on. -/
theorem handle_of_ends
    {mode : WALRecoveryMode}
    (keepsToLog : mode ≠ .skipAnyCorruptedRecords)
    (assembly next : Assembly φ)
    (offset : UInt64)
    {physical : PhysicalRead φ}
    (ends : Ends physical.code) :
    handle mode assembly offset physical ≠ .inl next := by
  rcases ends with isEof | badHeader | old
  · exact handle_of_end mode assembly next offset (.inl isEof)
  · exact handle_of_end mode assembly next offset (.inr badHeader)
  · simp [handle, old, kOldRecord, kEof, kBadHeader, kMaxRecordType, RecordType.code,
      keepsToLog]

/-- Each iteration with which the loop goes on uses up bytes. -/
theorem toRead_readRecordStep
    (depletes : F.Depletes left)
    {mode : WALRecoveryMode}
    (keepsToLog : mode ≠ .skipAnyCorruptedRecords)
    {assembly next : Assembly φ}
    (step : readRecordStep F mode assembly = .inl next) :
    toRead left next.reader < toRead left assembly.reader := by
  obtain ⟨reporter, same⟩ := goesOnWith_handle mode assembly
    assembly.reader.bufferOffset (assembly.reader.readPhysicalRecord F 0) next step
  rcases progresses depletes assembly.reader 0 with ends | takes
  · exact absurd step (handle_of_ends keepsToLog assembly next _ ends)
  · rw [same]
    exact takes

theorem readRecordLoop_terminates
    (depletes : F.Depletes left)
    {mode : WALRecoveryMode}
    (keepsToLog : mode ≠ .skipAnyCorruptedRecords)
    (assembly : Assembly φ)
    (fuel : Nat)
    (enough : toRead left assembly.reader < fuel) :
    ∃ result, readRecordLoop F mode fuel assembly = some result := by
  induction fuel generalizing assembly with
  | zero => exact absurd enough (Nat.not_lt_zero _)
  | succ fuel inductionHypothesis =>
      rw [readRecordLoop]
      cases step : readRecordStep F mode assembly with
      | inr result => exact ⟨result, rfl⟩
      | inl next =>
          have fewer := toRead_readRecordStep depletes keepsToLog step
          exact inductionHypothesis next (by omega)

theorem readRecord_returns
    (depletes : F.Depletes left)
    {mode : WALRecoveryMode}
    (keepsToLog : mode ≠ .skipAnyCorruptedRecords)
    (reader : Reader φ) :
    ∃ enough result, ∀ fuel, enough ≤ fuel →
      reader.readRecord F mode fuel = some result := by
  have loop (start : Reader φ) : ∃ enough result, ∀ fuel, enough ≤ fuel →
      readRecordLoop F mode fuel (startAssembly start) = some result := by
    obtain ⟨result, returned⟩ := readRecordLoop_terminates depletes keepsToLog
      (startAssembly start) _ (Nat.lt_succ_self _)
    refine ⟨toRead left (startAssembly start).reader + 1, result, fun fuel enough => ?_⟩
    obtain ⟨more, sum⟩ := Nat.exists_eq_add_of_le enough
    rw [sum]
    exact readRecordLoop_mono returned more
  unfold readRecord
  by_cases behind : reader.lastRecordOffset < reader.initialOffset
  · simp only [if_pos behind]
    by_cases skipped : (reader.skipToInitialBlock F).1 = true
    · simp only [skipped, Bool.not_true, Bool.false_eq_true, if_false]
      exact loop _
    · simp only [skipped, Bool.not_false, if_true]
      exact ⟨0, _, fun _ _ => rfl⟩
  · simp only [if_neg behind]
    exact loop reader

/-- On any finite file, with `Read` and `Skip` failing at any point and from any state,
`ReadRecord` returns in the modes that keep to the log. -/
theorem readRecord_terminates
    (mode : WALRecoveryMode)
    (keepsToLog : mode ≠ .skipAnyCorruptedRecords)
    (reader : Reader FailingFile) :
    ∃ enough result, ∀ fuel, enough ≤ fuel →
      reader.readRecord FailingFile.sequentialFile mode fuel = some result :=
  readRecord_returns FailingFile.depletes keepsToLog reader

/-- A file of which the second block cannot be read. -/
theorem readRecord_terminates_failing :
    ∃ enough result, ∀ fuel, enough ≤ fuel →
      (Reader.new
        (⟨[1, 2, 3], 0, [none, some ⟨.IOError "disk", 0, rfl⟩]⟩ : FailingFile)
        (some []) true 0 7).readRecord FailingFile.sequentialFile .pointInTimeRecovery
        fuel = some result :=
  readRecord_terminates .pointInTimeRecovery (by decide) _

end Reader
end Log
end RocksUtil
