import RocksUtil.Log.PhysicalRecords

/-!
# A reader inside a log

`Positioned` ties the fields of a reader to the part of the log that still lies
before it: what is in the buffer, in the file and about to arrive in the file is
an initial part of the rest of the log, and the end of the buffer is the end of
a block unless the end of the file was met earlier.  `Consumes` accounts for the
bytes a reader has moved over.

The main result of this module is that a reader in front of fragments it can
reach delivers them one by one (`deliver`), skipping the zeros in between.
-/

namespace RocksUtil
namespace Log
namespace Reader

/-- The reader stands at block offset `offset`, in front of the bytes `rest`,
of which the end may not have been written yet. -/
structure Positioned
    (reader : Reader GrowingFile)
    (offset : Nat)
    (rest : Bytes) : Prop where
  noError : reader.readError = false
  inFile : reader.file.pos ≤ reader.file.contents.length
  consistent :
    reader.buffer ++ (reader.file.unread ++ reader.file.arrivals.flatten) <+: rest
  live : reader.eof = false →
    offset + reader.buffer.length = kBlockSize ∧ reader.eofOffset = 0
  ended : reader.eof = true →
    offset + reader.buffer.length < kBlockSize ∧
      reader.eofOffset = offset + reader.buffer.length

/-- Bytes the reader can get at without meeting the end of the file. -/
def reach (reader : Reader GrowingFile) : Nat :=
  if reader.eof then reader.buffer.length
  else reader.buffer.length + reader.file.unread.length

/-- Bytes ahead of the reader, with those that have not arrived yet. -/
def total (reader : Reader GrowingFile) : Nat :=
  reader.buffer.length + reader.file.unread.length +
    reader.file.arrivals.flatten.length

/-- From `before` to `after` the reader moved over `count` bytes; the file may
have grown on the way. -/
structure Consumes (before after : Reader GrowingFile) (count : Nat) : Prop where
  settings : after.initialOffset = before.initialOffset ∧
    after.logNumber = before.logNumber ∧ after.checksum = before.checksum
  ended : before.eof = true →
    after.eof = true ∧ after.file = before.file ∧
      after.buffer.length + count = before.buffer.length
  reached : before.eof = false → after.eof = true → after.file.unread = []
  arrived : ∃ arrivals,
    after.file.arrivals = before.file.arrivals.drop arrivals ∧
      after.buffer.length + after.file.unread.length + count =
        before.buffer.length + before.file.unread.length +
          (before.file.arrivals.take arrivals).flatten.length

namespace Consumes

theorem refl (reader : Reader GrowingFile) : Consumes reader reader 0 where
  settings := ⟨rfl, rfl, rfl⟩
  ended := fun ended => ⟨ended, rfl, rfl⟩
  reached := by
    intro live ended
    rw [live] at ended
    cases ended
  arrived := ⟨0, by simp, by simp⟩

theorem trans
    {first second third : Reader GrowingFile}
    {left right : Nat}
    (consumesLeft : Consumes first second left)
    (consumesRight : Consumes second third right) :
    Consumes first third (left + right) where
  settings := by
    have leftSettings := consumesLeft.settings
    have rightSettings := consumesRight.settings
    exact ⟨rightSettings.1.trans leftSettings.1,
      rightSettings.2.1.trans leftSettings.2.1,
      rightSettings.2.2.trans leftSettings.2.2⟩
  ended := by
    intro ended
    obtain ⟨endedThen, sameFile, count⟩ := consumesLeft.ended ended
    obtain ⟨endedLast, sameLast, countLast⟩ := consumesRight.ended endedThen
    exact ⟨endedLast, sameLast.trans sameFile, by omega⟩
  reached := by
    intro live ended
    cases endedThen : second.eof with
    | false => exact consumesRight.reached endedThen ended
    | true =>
        rw [(consumesRight.ended endedThen).2.1]
        exact consumesLeft.reached live endedThen
  arrived := by
    obtain ⟨first', dropped, counted⟩ := consumesLeft.arrived
    obtain ⟨second', dropped', counted'⟩ := consumesRight.arrived
    refine ⟨first' + second', ?_, ?_⟩
    · rw [dropped', dropped, List.drop_drop]
    · rw [List.take_add, List.flatten_append, List.length_append, ← dropped]
      omega

/-- What came into reach is what arrived in the file. -/
theorem reach_arrived
    {before after : Reader GrowingFile}
    {count : Nat}
    (consumes : Consumes before after count) :
    ∃ arrivals,
      (before.eof = true → arrivals = 0) ∧
        after.file.arrivals = before.file.arrivals.drop arrivals ∧
        after.reach + count =
          before.reach + (before.file.arrivals.take arrivals).flatten.length := by
  unfold reach
  cases ended : before.eof with
  | true =>
      obtain ⟨endedAfter, sameFile, count⟩ := consumes.ended ended
      refine ⟨0, fun _ => rfl, by simp [sameFile], ?_⟩
      simp only [endedAfter, if_true, List.take_zero, List.flatten_nil,
        List.length_nil]
      omega
  | false =>
      obtain ⟨arrivals, dropped, counted⟩ := consumes.arrived
      refine ⟨arrivals, Bool.false_ne_true.elim, dropped, ?_⟩
      cases endedAfter : after.eof with
      | false =>
          simp only [Bool.false_eq_true, if_false]
          omega
      | true =>
          rw [consumes.reached ended endedAfter, List.length_nil] at counted
          simp only [if_true, Bool.false_eq_true, if_false]
          omega

/-- What was in reach is still in reach, but for what was consumed. -/
theorem reach_le
    {before after : Reader GrowingFile}
    {count : Nat}
    (consumes : Consumes before after count) :
    before.reach ≤ after.reach + count := by
  obtain ⟨arrivals, -, -, counted⟩ := consumes.reach_arrived
  omega

/-- In a file at rest nothing else comes into reach. -/
theorem reach_eq
    {before after : Reader GrowingFile}
    {count : Nat}
    (consumes : Consumes before after count)
    (atRest : before.file.arrivals = []) :
    after.reach + count = before.reach ∧ after.file.arrivals = [] := by
  obtain ⟨arrivals, -, dropped, counted⟩ := consumes.reach_arrived
  rw [atRest] at dropped counted
  simp only [List.take_nil, List.flatten_nil, List.length_nil] at counted
  exact ⟨by omega, by simpa using dropped⟩

/-- What has been and will be in the file is consumed or still ahead. -/
theorem total_eq
    {before after : Reader GrowingFile}
    {count : Nat}
    (consumes : Consumes before after count) :
    after.total + count = before.total := by
  obtain ⟨arrivals, dropped, counted⟩ := consumes.arrived
  have split := congrArg (fun chunks => chunks.flatten.length)
    (List.take_append_drop arrivals before.file.arrivals)
  simp only [List.flatten_append, List.length_append] at split
  unfold total
  rw [dropped]
  omega

theorem accepts
    {before after : Reader GrowingFile}
    {count : Nat}
    {format : Format}
    (consumes : Consumes before after count)
    (accepts : before.Accepts format) : after.Accepts format := by
  intro recycle
  rw [consumes.settings.2.1]
  exact accepts recycle

end Consumes

/-! ## Moving through the buffer and to the next block -/

section Moves

variable {reader : Reader GrowingFile} {offset : Nat} {rest : Bytes}

theorem Positioned.offset_le (positioned : reader.Positioned offset rest) :
    offset ≤ kBlockSize := by
  cases ended : reader.eof with
  | false => have := positioned.live ended; omega
  | true => have := positioned.ended ended; omega

/-- The buffer holds the next bytes. -/
theorem Positioned.buffer_eq (positioned : reader.Positioned offset rest) :
    reader.buffer = rest.take reader.buffer.length := by
  obtain ⟨tail, split⟩ := positioned.consistent
  rw [← split, List.append_assoc, List.take_left]

/-- Where everything ahead is in reach, the buffer holds what is left of the
block. -/
theorem Positioned.length_buffer
    (positioned : reader.Positioned offset rest)
    (whole : reader.reach = rest.length) :
    reader.buffer.length = min (kBlockSize - offset) rest.length := by
  have inside := positioned.offset_le
  unfold reach at whole
  cases ended : reader.eof with
  | false =>
      have facts := positioned.live ended
      simp only [ended, Bool.false_eq_true, if_false] at whole
      omega
  | true =>
      have facts := positioned.ended ended
      simp only [ended, if_true] at whole
      omega

/-- Taking bytes out of the buffer. -/
theorem Positioned.advance
    (positioned : reader.Positioned offset rest)
    {taken remaining : Bytes}
    (buffered : reader.buffer = taken ++ remaining)
    (recycled : Bool) :
    let next := { reader with buffer := remaining, recycled := recycled }
    next.Positioned (offset + taken.length) (rest.drop taken.length) ∧
      Consumes reader next taken.length := by
  have length : reader.buffer.length = taken.length + remaining.length := by
    rw [buffered, List.length_append]
  refine ⟨⟨positioned.noError, positioned.inFile, ?_, ?_, ?_⟩,
    ⟨⟨rfl, rfl, rfl⟩, ?_, ?_, ⟨0, by simp, ?_⟩⟩⟩
  · have consistent := positioned.consistent
    rw [buffered, List.append_assoc] at consistent
    obtain ⟨tail, split⟩ := consistent
    refine ⟨tail, ?_⟩
    rw [← split, List.append_assoc taken, List.drop_left]
  · intro live
    have facts := positioned.live live
    exact ⟨by dsimp only; omega, facts.2⟩
  · intro ended
    have facts := positioned.ended ended
    exact ⟨by dsimp only; omega, by dsimp only; omega⟩
  · intro ended
    exact ⟨ended, rfl, by dsimp only; omega⟩
  · intro live ended
    dsimp only at ended
    rw [live] at ended
    cases ended
  · simp only [List.take_zero, List.flatten_nil, List.length_nil]
    omega

/-- The bytes `ReadMore` delivers, and those it leaves in the file. -/
theorem refill_split (inFile : reader.file.pos ≤ reader.file.contents.length) :
    reader.refill.buffer ++ reader.refill.file.unread =
        reader.file.unread ++ reader.file.nextArrival ∧
      reader.refill.buffer.length =
        min kBlockSize (reader.file.unread ++ reader.file.nextArrival).length := by
  have arrived := reader.file.unread_arrive inFile
  have buffer : reader.refill.buffer =
      (reader.file.unread ++ reader.file.nextArrival).take kBlockSize := by
    rw [← arrived]
    rfl
  have unread : reader.refill.file.unread =
      (reader.file.unread ++ reader.file.nextArrival).drop
        reader.refill.buffer.length := by
    rw [← arrived, GrowingFile.unread, GrowingFile.unread, List.drop_drop]
    rfl
  refine ⟨?_, ?_⟩
  · rw [unread, buffer, List.length_take]
    rcases Nat.le_total kBlockSize
      (reader.file.unread ++ reader.file.nextArrival).length with full | partly
    · rw [Nat.min_eq_left full, List.take_append_drop]
    · rw [Nat.min_eq_right partly, List.drop_length, List.append_nil,
        List.take_of_length_le partly]
  · rw [buffer, List.length_take]

/-- Fetching the next block, dropping what is left of this one. -/
theorem Positioned.refill
    (positioned : reader.Positioned offset rest)
    (live : reader.eof = false) :
    reader.refill.Positioned 0 (rest.drop reader.buffer.length) ∧
      Consumes reader reader.refill reader.buffer.length := by
  obtain ⟨split, length⟩ := refill_split positioned.inFile
  have splitLength := congrArg List.length split
  simp only [List.length_append] at splitLength length
  have eofIff : reader.refill.eof = true ↔
      reader.refill.buffer.length < kBlockSize := by
    simp [Reader.refill]
  have eofOffset : reader.refill.eofOffset =
      if reader.refill.buffer.length < kBlockSize then
        reader.refill.buffer.length
      else reader.eofOffset := rfl
  have arrivals : reader.refill.file.arrivals = reader.file.arrive.arrivals := rfl
  have block := kBlockSize_eq
  refine ⟨⟨positioned.noError, ?_, ?_, ?_, ?_⟩,
    ⟨⟨rfl, rfl, rfl⟩, ?_, ?_, ⟨1, ?_, ?_⟩⟩⟩
  · have size : reader.refill.file.unread.length =
        reader.refill.file.contents.length - reader.refill.file.pos := by
      simp [GrowingFile.unread]
    have pos : reader.refill.file.pos =
        reader.file.pos + reader.refill.buffer.length := rfl
    have contents : reader.refill.file.contents.length =
        reader.file.contents.length + reader.file.nextArrival.length := by
      rw [← List.length_append]
      rfl
    have before : reader.file.unread.length =
        reader.file.contents.length - reader.file.pos := by
      simp [GrowingFile.unread]
    have inFile := positioned.inFile
    omega
  · obtain ⟨tail, whole⟩ := positioned.consistent
    refine ⟨tail, ?_⟩
    rw [← List.append_assoc reader.refill.buffer, split, arrivals,
      List.append_assoc reader.file.unread,
      GrowingFile.nextArrival_append_flatten, ← whole,
      List.append_assoc reader.buffer, List.drop_left]
  · intro full
    have notShort : ¬reader.refill.buffer.length < kBlockSize := by
      rw [← eofIff, full]
      simp
    rw [eofOffset, if_neg notShort]
    exact ⟨by omega, (positioned.live live).2⟩
  · intro ended
    have short := eofIff.mp ended
    rw [eofOffset, if_pos short]
    exact ⟨by omega, by omega⟩
  · intro ended
    rw [live] at ended
    cases ended
  · intro _ ended
    have short := eofIff.mp ended
    apply List.eq_nil_of_length_eq_zero
    omega
  · rw [arrivals]
    simp [GrowingFile.arrive]
  · rw [GrowingFile.flatten_take_one]
    omega

/-- Bytes of the current block that are in reach are in the buffer. -/
theorem Positioned.le_buffer
    (positioned : reader.Positioned offset rest)
    {count : Nat}
    (inReach : count ≤ reader.reach)
    (inBlock : offset + count ≤ kBlockSize) :
    count ≤ reader.buffer.length := by
  cases ended : reader.eof with
  | false =>
      have facts := positioned.live ended
      omega
  | true =>
      simpa [reach, ended] using inReach

/-- The next bytes, when they are in the buffer. -/
theorem Positioned.buffer_split
    {taken remaining : Bytes}
    (positioned : reader.Positioned offset (taken ++ remaining))
    (inBuffer : taken.length ≤ reader.buffer.length) :
    reader.buffer = taken ++ reader.buffer.drop taken.length := by
  have buffer := positioned.buffer_eq
  rw [List.take_append, List.take_of_length_le inBuffer] at buffer
  rw [buffer, List.drop_left]

/-- A reader that stands behind the last header of a block has the rest of the
block in its buffer, if it can reach beyond it. -/
theorem Positioned.blockEnd
    (positioned : reader.Positioned offset rest)
    (beyond : kBlockSize - offset < reader.reach ∨
      kBlockSize - offset = reader.reach ∧ reader.eof = false) :
    reader.eof = false ∧ reader.buffer.length = kBlockSize - offset := by
  have inside := positioned.offset_le
  cases ended : reader.eof with
  | false =>
      have facts := positioned.live ended
      exact ⟨rfl, by omega⟩
  | true =>
      have facts := positioned.ended ended
      simp only [reach, ended, if_true] at beyond
      rcases beyond with beyond | ⟨-, live⟩
      · omega
      · cases live

end Moves

/-! ## Delivering fragments -/

section Deliver

variable {reader : Reader GrowingFile} {format : Format} {offset : Nat}
  {fragment : Fragment} {body : Bytes}

/-- A record in the current block. -/
theorem deliver_inBlock
    {remaining : Bytes}
    (dropSize : Nat)
    (positioned :
      reader.Positioned offset (format.encode fragment ++ remaining))
    (inBlock : offset + (format.encode fragment).length ≤ kBlockSize)
    (inReach : (format.encode fragment).length ≤ reader.reach)
    (accepts : reader.Accepts format)
    (fromStart : reader.initialOffset = 0) :
    ∃ next,
      reader.readPhysicalRecord GrowingFile.sequentialFile dropSize =
          ⟨(format.type fragment).code, fragment.payload, dropSize, next⟩ ∧
        next.Positioned (offset + (format.encode fragment).length) remaining ∧
        Consumes reader next (format.encode fragment).length ∧
        next.reporter = reader.reporter := by
  have inBuffer := positioned.le_buffer inReach inBlock
  have split := positioned.buffer_split inBuffer
  have length := format.length_encode fragment
  have small : fragment.payload.length < 65536 := by
    have block := kBlockSize_eq
    omega
  obtain ⟨recycled, result⟩ := readPhysicalRecord_complete
    (F := GrowingFile.sequentialFile) dropSize split small accepts fromStart
  have moved := positioned.advance split recycled
  rw [List.drop_left] at moved
  exact ⟨_, result, moved.1, moved.2, rfl⟩

/-- Number of bytes up to the end of a fragment written at `offset`. -/
def span (format : Format) (offset : Nat) (fragment : Fragment) : Nat :=
  format.gap offset + (format.encode fragment).length

/-- The zeros in front of a record are dropped when the next block is fetched. -/
theorem approach
    (dropSize : Nat)
    (positioned : reader.Positioned offset
      (List.replicate (format.gap offset) 0 ++ body))
    (narrow : format.gap offset < kHeaderSize)
    (beyond : format.gap offset < reader.reach) :
    ∃ there,
      reader.readPhysicalRecord GrowingFile.sequentialFile dropSize =
          there.readPhysicalRecord GrowingFile.sequentialFile dropSize ∧
        there.Positioned (format.startOffset offset) body ∧
        Consumes reader there (format.gap offset) ∧
        there.reporter = reader.reporter ∧
        (there = reader ∨ there = reader.refill) := by
  by_cases switches : kBlockSize - offset < format.header
  · have gap : format.gap offset = kBlockSize - offset := by
      simp [Format.gap, switches]
    have start : format.startOffset offset = 0 := by
      simp [Format.startOffset, switches]
    obtain ⟨live, blockEnd⟩ := positioned.blockEnd (.inl (by omega))
    obtain ⟨refilled, consumed⟩ := positioned.refill live
    rw [blockEnd, ← gap] at refilled consumed
    rw [List.drop_left' (by simp)] at refilled
    refine ⟨reader.refill, ?_, start ▸ refilled, consumed, rfl, .inr rfl⟩
    exact readPhysicalRecord_refill reader dropSize live positioned.noError
      (by omega)
  · have gap : format.gap offset = 0 := by
      simp [Format.gap, switches]
    have start : format.startOffset offset = offset := by
      simp [Format.startOffset, switches]
    rw [gap, List.replicate_zero, List.nil_append] at positioned
    refine ⟨reader, rfl, ?_, ?_, rfl, .inl rfl⟩
    · rw [start]
      exact positioned
    · rw [gap]
      exact .refl reader

/-- A record that the reader can reach, in this block or the next. -/
theorem deliver
    (dropSize : Nat)
    (positioned : reader.Positioned offset
      (List.replicate (format.gap offset) 0 ++ (format.encode fragment ++ body)))
    (ends : format.endOffset offset fragment.payload.length ≤ kBlockSize)
    (inReach : span format offset fragment ≤ reader.reach)
    (narrow : format.gap offset < kHeaderSize)
    (accepts : reader.Accepts format)
    (fromStart : reader.initialOffset = 0) :
    ∃ next,
      reader.readPhysicalRecord GrowingFile.sequentialFile dropSize =
          ⟨(format.type fragment).code, fragment.payload, dropSize, next⟩ ∧
        next.Positioned (format.endOffset offset fragment.payload.length) body ∧
        Consumes reader next (span format offset fragment) ∧
        next.reporter = reader.reporter := by
  have length := format.length_encode fragment
  have bounds := format.header_bounds
  unfold span at inReach ⊢
  rw [Format.endOffset, ← length] at ends ⊢
  obtain ⟨there, same, moved, consumed, silent, -⟩ :=
    approach dropSize positioned narrow (by omega)
  have reached := consumed.reach_le
  obtain ⟨next, result, moved', consumed', silent'⟩ := deliver_inBlock dropSize
    moved ends (by omega) (consumed.accepts accepts)
    (consumed.settings.1.trans fromStart)
  exact ⟨next, same.trans result, moved', consumed.trans consumed',
    silent'.trans silent⟩

/-- A gap that is as long as a legacy header is skipped as a bad record. -/
theorem skipGap
    (dropSize : Nat)
    (positioned : reader.Positioned offset
      (List.replicate (format.gap offset) 0 ++ body))
    (inReach : format.gap offset ≤ reader.reach)
    (wide : kHeaderSize ≤ format.gap offset) :
    ∃ next,
      reader.readPhysicalRecord GrowingFile.sequentialFile dropSize =
          ⟨kBadRecord, [], dropSize, next⟩ ∧
        next.Positioned kBlockSize body ∧
        Consumes reader next (format.gap offset) ∧
        next.reporter = reader.reporter := by
  have header := kHeaderSize_eq
  obtain ⟨gap, -⟩ :=
    format.startOffset_of_gap (by omega : 0 < format.gap offset)
  have inside := positioned.offset_le
  have inBuffer := positioned.le_buffer inReach (by omega)
  have split := positioned.buffer_split (by simpa using inBuffer)
  have empty : reader.buffer.drop
      (List.replicate (format.gap offset) (0 : UInt8)).length = [] := by
    apply List.eq_nil_of_length_eq_zero
    simp only [List.length_drop, List.length_replicate]
    cases ended : reader.eof with
    | false => have facts := positioned.live ended; omega
    | true => have facts := positioned.ended ended; omega
  rw [empty] at split
  obtain ⟨moved, consumed⟩ := positioned.advance split reader.recycled
  rw [List.append_nil] at split
  have atEnd : offset + format.gap offset = kBlockSize := by omega
  rw [List.drop_left, List.length_replicate, atEnd] at moved
  rw [List.length_replicate] at consumed
  exact ⟨_, readPhysicalRecord_zeros dropSize split wide, moved, consumed, rfl⟩

end Deliver

end Reader
end Log
end RocksUtil
