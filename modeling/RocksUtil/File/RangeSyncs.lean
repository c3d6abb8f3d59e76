import RocksUtil.Env.TracedFile
import RocksUtil.File.Accounting

/-!
# Syncing behind the recent data

`Flush` syncs the file behind the recent data, whenever `bytes_per_sync_` bytes have come
together there.  The end of a range is computed from `filesize_`, by leaving out the last
megabyte and rounding down to a page, so it only moves forward, and the range starts where
the last one ended.

The states in which a call comes to this last part of `Flush` are its moments
(`callMoments`).  What a range is compared with, `filesize_` and the bytes that the file has
got, is that of the moment (`range_syncs_tile`).
-/

namespace RocksUtil
namespace WritableFileWriter

open FileEvent (handed ranges)
open WritableFile (tracedBytes)

variable {ω : Type}

/-! ## Moments -/

/-- The state in which `Flush` comes to its last part, if it does. -/
def flushMoment
    (F : WritableFile ω)
    (writer : WritableFileWriter ω) : Option (WritableFileWriter ω) :=
  let written := writer.writeOut F
  let flushed := F.flush written.2.writableFile
  if written.1.ok && flushed.1.ok then some { written.2 with writableFile := flushed.2 }
  else none

/-- The moments of the first part of `Append`, which flushes to make room. -/
def roomMoments
    (F : WritableFile ω)
    (writer : WritableFileWriter ω)
    (left : Nat) : List (WritableFileWriter ω) :=
  if (writer.useOSBuffer = true ∧ writer.buf.capacity - writer.buf.currentSize < left) ∧
      0 < writer.buf.currentSize then (writer.flushMoment F).toList
  else []

/-- The moments of the loop of `Append`. -/
def loopMoments
    (F : WritableFile ω)
    (writer : WritableFileWriter ω)
    (src : Bytes) : List (WritableFileWriter ω) :=
  if 0 < src.length then
    if 0 < (src.drop (writer.buf.append src).1).length then
      if ((writer.fill src).flush F).1.ok then
        ((writer.fill src).flushMoment F).toList ++
          loopMoments F ((writer.fill src).flush F).2.grow
            (src.drop (writer.buf.append src).1)
      else ((writer.fill src).flushMoment F).toList
    else []
  else []
termination_by writer.appendMeasure src
decreasing_by
  rename_i more succeeds
  exact appendMeasure_lt more succeeds

/-- The moments of a call, in their order. -/
def callMoments
    (F : WritableFile ω)
    (writer : WritableFileWriter ω) : Call → List (WritableFileWriter ω)
  | .append data =>
      let prepared := writer.prepare F data.length
      let room := prepared.makeRoom F data.length
      prepared.roomMoments F data.length ++
        if room.1.ok = true ∧
            (room.2.useOSBuffer = false ∨ data.length ≤ room.2.buf.capacity) then
          room.2.loopMoments F data
        else []
  | .flush => (writer.flushMoment F).toList
  | .sync _ => (writer.flushMoment F).toList

/-- The moments of calls one after another. -/
def runMoments
    (F : WritableFile ω)
    (writer : WritableFileWriter ω) : List Call → List (WritableFileWriter ω)
  | [] => []
  | next :: calls =>
      writer.callMoments F next ++ (writer.call F next).2.runMoments F calls

/-- The ranges that are to be synced at some moments. -/
def dueRanges (moments : List (WritableFileWriter ω)) : List (Nat × Nat) :=
  (moments.filter syncDue).map fun moment => (moment.lastSyncSize, moment.syncLength)

theorem dueRanges_append (first second : List (WritableFileWriter ω)) :
    dueRanges (first ++ second) = dueRanges first ++ dueRanges second := by
  rw [dueRanges, List.filter_append, List.map_append]
  rfl

/-- `Flush` goes on from its moment. -/
theorem flush_of_moment
    {F : WritableFile ω}
    {writer moment : WritableFileWriter ω}
    (isMoment : writer.flushMoment F = some moment) :
    (writer.writeOut F).1.ok = true ∧
      moment = { (writer.writeOut F).2 with
        writableFile := (F.flush (writer.writeOut F).2.writableFile).2 } ∧
          ∃ s, writer.flush F = moment.syncBehind F s := by
  unfold flushMoment at isMoment
  simp only [Bool.and_eq_true] at isMoment
  split at isMoment
  · rename_i succeeds
    cases isMoment
    refine ⟨succeeds.1, rfl, (F.flush (writer.writeOut F).2.writableFile).1, ?_⟩
    unfold flush
    simp only [if_pos succeeds.1, if_pos succeeds.2]
  · cases isMoment

/-- Without a moment it ends before. -/
theorem flush_of_noMoment
    {F : WritableFile ω}
    {writer : WritableFileWriter ω}
    (noMoment : writer.flushMoment F = none) :
    ∃ file, (writer.flush F).2 = { (writer.writeOut F).2 with writableFile := file } ∧
      (file = (writer.writeOut F).2.writableFile ∨
        file = (F.flush (writer.writeOut F).2.writableFile).2) := by
  unfold flushMoment at noMoment
  simp only [Bool.and_eq_true] at noMoment
  split at noMoment
  · cases noMoment
  · rename_i fails
    unfold flush
    simp only
    split
    · rename_i written
      have unflushed : ¬(F.flush (writer.writeOut F).2.writableFile).1.ok = true :=
        fun flushed => fails ⟨written, flushed⟩
      rw [if_neg unflushed]
      exact ⟨_, rfl, .inr rfl⟩
    · exact ⟨_, rfl, .inl rfl⟩

/-! ## One flush -/

/-- The ranges follow each other from `start` to `stop`. -/
def Tiles : (start : Nat) → List (Nat × Nat) → (stop : Nat) → Prop
  | start, [], stop => start = stop
  | start, (offset, nbytes) :: rest, stop => offset = start ∧ Tiles (offset + nbytes) rest stop

theorem Tiles.concat
    {start stop : Nat}
    {tiles : List (Nat × Nat)}
    (holds : Tiles start tiles stop)
    (nbytes : Nat) :
    Tiles start (tiles ++ [(stop, nbytes)]) (stop + nbytes) := by
  induction tiles generalizing start with
  | nil => exact ⟨holds.symm, rfl⟩
  | cons tile tiles inductionHypothesis =>
      exact ⟨holds.1, inductionHypothesis holds.2⟩

/-- A writer that has synced what lies in front of `last_sync_size_`. -/
structure Tiled
    (bytesPerSync : Nat)
    (writer : WritableFileWriter (ω × List FileEvent)) : Prop where
  buffered : writer.useOSBuffer = true
  bytesPerSync_eq : writer.bytesPerSync = bytesPerSync
  counted : writer.filesize = (accepted tracedBytes writer).length
  behind : writer.lastSyncSize ≤ writer.offsetSyncTo
  atPage : kBytesAlignWhenSync ∣ writer.lastSyncSize
  tiles : Tiles 0 (ranges writer.writableFile.2) writer.lastSyncSize

/-- What is so at a moment. -/
structure SyncsWell
    (bytesPerSync : Nat)
    (moment : WritableFileWriter (ω × List FileEvent)) : Prop where
  assertion : kBytesNotSyncRange < moment.filesize → moment.lastSyncSize ≤ moment.offsetSyncTo
  large : moment.syncDue = true → bytesPerSync ≤ moment.syncLength
  atPage : moment.syncDue = true →
    kBytesAlignWhenSync ∣ moment.lastSyncSize + moment.syncLength
  notRecent : moment.syncDue = true →
    moment.lastSyncSize + moment.syncLength + kBytesNotSyncRange ≤ moment.filesize
  written : moment.syncDue = true →
    moment.lastSyncSize + moment.syncLength ≤ (handed moment.writableFile.2).length

variable {F : WritableFile ω} {writer moment : WritableFileWriter (ω × List FileEvent)}
  {bytesPerSync : Nat}

theorem dvd_offsetSyncTo (writer : WritableFileWriter ω) :
    kBytesAlignWhenSync ∣ writer.offsetSyncTo :=
  Nat.dvd_sub_mod _

/-- The end of the range moves forward. -/
theorem offsetSyncTo_mono
    {writer after : WritableFileWriter ω}
    (larger : writer.filesize ≤ after.filesize) :
    writer.offsetSyncTo ≤ after.offsetSyncTo := by
  have down (offset : Nat) : offset - offset % kBytesAlignWhenSync =
      kBytesAlignWhenSync * (offset / kBytesAlignWhenSync) := by
    have split := Nat.div_add_mod offset kBytesAlignWhenSync
    omega
  unfold offsetSyncTo
  rw [down, down]
  apply Nat.mul_le_mul_left
  apply Nat.div_le_div_right
  exact Nat.sub_le_sub_right larger _

/-- The range that is to be synced ends at `offset_sync_to`. -/
theorem Tiled.syncLength_eq
    (tiled : Tiled bytesPerSync writer)
    (fits : writer.filesize < 2 ^ 64) :
    writer.lastSyncSize + writer.syncLength = writer.offsetSyncTo := by
  have behind := tiled.behind
  have small : writer.offsetSyncTo ≤ writer.filesize := by
    unfold offsetSyncTo
    exact Nat.le_trans (Nat.sub_le ..) (Nat.sub_le ..)
  have isLength : writer.offsetSyncTo + 2 ^ 64 - writer.lastSyncSize =
      writer.offsetSyncTo - writer.lastSyncSize + 2 ^ 64 := by
    omega
  rw [syncLength, isLength, Nat.add_mod_right, Nat.mod_eq_of_lt (by omega)]
  exact Nat.add_sub_cancel' behind

theorem Tiled.syncsWell
    (tiled : Tiled bytesPerSync writer)
    (empty : writer.buf.bytes = [])
    (fits : writer.filesize < 2 ^ 64) : SyncsWell bytesPerSync writer := by
  have isEnd := tiled.syncLength_eq fits
  have due (isDue : writer.syncDue = true) :
      kBytesNotSyncRange < writer.filesize ∧ writer.bytesPerSync ≤ writer.syncLength := by
    simp only [syncDue, Bool.and_eq_true, decide_eq_true_eq] at isDue
    exact ⟨isDue.2.1, isDue.2.2.2⟩
  have recent (isDue : writer.syncDue = true) :
      writer.lastSyncSize + writer.syncLength + kBytesNotSyncRange ≤ writer.filesize := by
    have large := (due isDue).1
    rw [isEnd, offsetSyncTo]
    omega
  refine ⟨fun _ => tiled.behind, fun isDue => ?_, fun _ => ?_, recent, fun isDue => ?_⟩
  · rw [← tiled.bytesPerSync_eq]
    exact (due isDue).2
  · rw [isEnd]
    exact dvd_offsetSyncTo writer
  · have counted := tiled.counted
    rw [accepted, empty, List.append_nil, tracedBytes] at counted
    have notRecent := recent isDue
    omega

/-- Changes that do not concern what is synced. -/
theorem Tiled.of_larger
    (tiled : Tiled bytesPerSync writer)
    {after : WritableFileWriter (ω × List FileEvent)}
    (modes : after.useOSBuffer = writer.useOSBuffer ∧
      after.bytesPerSync = writer.bytesPerSync)
    (larger : writer.filesize ≤ after.filesize)
    (counted : after.filesize = (accepted tracedBytes after).length)
    (lastSyncSize : after.lastSyncSize = writer.lastSyncSize)
    (sameRanges : ranges after.writableFile.2 = ranges writer.writableFile.2) :
    Tiled bytesPerSync after := by
  refine ⟨modes.1.trans tiled.buffered, modes.2.trans tiled.bytesPerSync_eq, counted, ?_, ?_, ?_⟩
  · rw [lastSyncSize]
    exact Nat.le_trans tiled.behind (offsetSyncTo_mono larger)
  · rw [lastSyncSize]
    exact tiled.atPage
  · rw [sameRanges, lastSyncSize]
    exact tiled.tiles

theorem Tiled.of_same
    (tiled : Tiled bytesPerSync writer)
    {after : WritableFileWriter (ω × List FileEvent)}
    (modes : after.useOSBuffer = writer.useOSBuffer ∧
      after.bytesPerSync = writer.bytesPerSync)
    (filesize : after.filesize = writer.filesize)
    (lastSyncSize : after.lastSyncSize = writer.lastSyncSize)
    (account : accepted tracedBytes after = accepted tracedBytes writer)
    (sameRanges : ranges after.writableFile.2 = ranges writer.writableFile.2) :
    Tiled bytesPerSync after :=
  tiled.of_larger modes (Nat.le_of_eq filesize.symm)
    (by rw [filesize, account, tiled.counted]) lastSyncSize sameRanges

/-- Writing to the file syncs nothing. -/
theorem writeBuffered_same
    (F : WritableFile ω)
    (writer : WritableFileWriter (ω × List FileEvent))
    (data : Bytes) :
    let after := (writer.writeBuffered F.traced data).2
    after.lastSyncSize = writer.lastSyncSize ∧
      ranges after.writableFile.2 = ranges writer.writableFile.2 := by
  unfold writeBuffered
  by_cases some : 0 < data.length
  · rw [if_pos some]
    cases succeeds : (F.append data writer.writableFile.1).1.ok with
    | true =>
        have isAppend : F.traced.append data writer.writableFile =
            ((F.append data writer.writableFile.1).1,
              (F.append data writer.writableFile.1).2,
                writer.writableFile.2 ++ [.append data]) := by
          simp [WritableFile.traced, succeeds]
        rw [isAppend]
        dsimp only
        rw [if_pos succeeds]
        exact ⟨rfl, (FileEvent.ranges_append ..).trans (List.append_nil _)⟩
    | false =>
        have isAppend : F.traced.append data writer.writableFile =
            ((F.append data writer.writableFile.1).1,
              (F.append data writer.writableFile.1).2, writer.writableFile.2) := by
          simp [WritableFile.traced, succeeds]
        rw [isAppend]
        dsimp only
        rw [if_neg (Bool.eq_false_iff.mp succeeds)]
        exact ⟨rfl, rfl⟩
  · rw [if_neg some]
    exact ⟨rfl, rfl⟩

/-- Writing the buffer out changes neither the size nor what is synced. -/
theorem writeOut_same
    (F : WritableFile ω)
    (writer : WritableFileWriter (ω × List FileEvent)) :
    let after := (writer.writeOut F.traced).2
    SameModes writer after ∧ after.filesize = writer.filesize ∧
      after.lastSyncSize = writer.lastSyncSize ∧
        ranges after.writableFile.2 = ranges writer.writableFile.2 := by
  have settings := SameSettings.writeOut F.traced writer
  refine ⟨settings.modes, settings.filesize, ?_⟩
  unfold writeOut
  by_cases some : 0 < writer.buf.currentSize
  · rw [if_pos some]
    by_cases buffered : writer.useOSBuffer = true
    · rw [if_pos buffered]
      exact writeBuffered_same F writer _
    · rw [if_neg buffered]
      unfold writeUnbuffered
      dsimp only
      split <;> split <;> exact ⟨rfl, rfl⟩
  · rw [if_neg some]
    exact ⟨rfl, rfl⟩

/-- Nor does it change what has been accepted. -/
theorem Tiled.writeOut (tiled : Tiled bytesPerSync writer) :
    Tiled bytesPerSync (writer.writeOut F.traced).2 := by
  have account := writeOut_accepts (F.traced_keepsOnClose).leaks tiled.buffered trivial
  have noLeak : flushLeak (fun _ _ => 0) writer = 0 := by
    simp [flushLeak]
  have same := account.accepted_eq noLeak
  rw [List.append_nil] at same
  obtain ⟨modes, filesize, lastSyncSize, sameRanges⟩ := writeOut_same F writer
  exact tiled.of_same ⟨modes.useOSBuffer, modes.bytesPerSync⟩ filesize lastSyncSize same sameRanges

/-- A moment finds the buffer empty. -/
theorem Tiled.of_moment
    (tiled : Tiled bytesPerSync writer)
    (isMoment : writer.flushMoment F.traced = some moment) :
    Tiled bytesPerSync moment ∧ moment.buf.bytes = [] ∧
      moment.filesize = writer.filesize ∧
        ranges moment.writableFile.2 = ranges writer.writableFile.2 := by
  obtain ⟨written, rfl, -⟩ := flush_of_moment isMoment
  obtain ⟨-, filesize, -, sameRanges⟩ := writeOut_same F writer
  exact ⟨tiled.writeOut.of_same ⟨rfl, rfl⟩ rfl rfl rfl rfl,
    bytes_writeOut (.inl tiled.buffered) written, filesize, sameRanges⟩

/-- The last part of `Flush` adds a range, if one is due. -/
theorem Tiled.syncBehind
    (tiled : Tiled bytesPerSync moment)
    (fits : moment.filesize < 2 ^ 64)
    (s : Status) :
    let result := moment.syncBehind F.traced s
    Tiled bytesPerSync result.2 ∧
      ranges result.2.writableFile.2 = ranges moment.writableFile.2 ++ dueRanges [moment] := by
  intro result
  by_cases due : moment.syncDue = true
  · have isResult : result.2 = { moment with
        writableFile := ((F.rangeSync moment.lastSyncSize moment.syncLength
          moment.writableFile.1).2, moment.writableFile.2 ++
            [.rangeSync moment.lastSyncSize moment.syncLength])
        lastSyncSize := moment.offsetSyncTo } := by
      simp [result, WritableFileWriter.syncBehind, due, WritableFile.traced]
    have isDue : dueRanges [moment] = [(moment.lastSyncSize, moment.syncLength)] := by
      simp [dueRanges, due]
    have added : ranges result.2.writableFile.2 =
        ranges moment.writableFile.2 ++ [(moment.lastSyncSize, moment.syncLength)] := by
      rw [isResult]
      exact FileEvent.ranges_append ..
    refine ⟨?_, added.trans (congrArg _ isDue.symm)⟩
    have tiles := tiled.tiles.concat moment.syncLength
    rw [tiled.syncLength_eq fits, ← added] at tiles
    rw [isResult] at tiles ⊢
    refine ⟨tiled.buffered, tiled.bytesPerSync_eq, ?_, Nat.le_refl _,
      dvd_offsetSyncTo moment, tiles⟩
    have sameHanded : handed (moment.writableFile.2 ++
        [.rangeSync moment.lastSyncSize moment.syncLength]) = handed moment.writableFile.2 :=
      (FileEvent.handed_append ..).trans (List.append_nil _)
    exact tiled.counted.trans (congrArg (fun held => (held ++ moment.buf.bytes).length)
      sameHanded.symm)
  · have isResult : result = (s, moment) := by
      simp [result, WritableFileWriter.syncBehind, due]
    have isDue : dueRanges [moment] = [] := by
      simp [dueRanges, due]
    rw [isResult, isDue, List.append_nil]
    exact ⟨tiled, rfl⟩

/-- What a part of a call does whose moments are `moments`. -/
structure Syncs
    (bytesPerSync : Nat)
    (writer after : WritableFileWriter (ω × List FileEvent))
    (moments : List (WritableFileWriter (ω × List FileEvent))) : Prop where
  tiled : Tiled bytesPerSync after
  ranges_eq : ranges after.writableFile.2 = ranges writer.writableFile.2 ++ dueRanges moments
  syncsWell : ∀ moment ∈ moments, SyncsWell bytesPerSync moment

theorem Syncs.trans
    {middle after : WritableFileWriter (ω × List FileEvent)}
    {first second : List (WritableFileWriter (ω × List FileEvent))}
    (one : Syncs bytesPerSync writer middle first)
    (two : Syncs bytesPerSync middle after second) :
    Syncs bytesPerSync writer after (first ++ second) := by
  refine ⟨two.tiled, ?_, fun moment member => ?_⟩
  · rw [two.ranges_eq, one.ranges_eq, dueRanges_append, List.append_assoc]
  · rcases List.mem_append.mp member with isFirst | isSecond
    · exact one.syncsWell moment isFirst
    · exact two.syncsWell moment isSecond

theorem Syncs.of_tiled
    {after : WritableFileWriter (ω × List FileEvent)}
    (tiled : Tiled bytesPerSync after)
    (same : ranges after.writableFile.2 = ranges writer.writableFile.2) :
    Syncs bytesPerSync writer after [] :=
  ⟨tiled, same.trans (List.append_nil _).symm, nofun⟩

theorem Tiled.flush
    (tiled : Tiled bytesPerSync writer)
    (fits : writer.filesize < 2 ^ 64) :
    Syncs bytesPerSync writer (writer.flush F.traced).2
      (writer.flushMoment F.traced).toList := by
  cases isMoment : writer.flushMoment F.traced with
  | some moment =>
      obtain ⟨-, -, s, isFlush⟩ := flush_of_moment isMoment
      obtain ⟨tiled', empty, sameSize, sameRanges⟩ := tiled.of_moment isMoment
      rw [← sameSize] at fits
      obtain ⟨tiled'', added⟩ := tiled'.syncBehind (F := F) fits s
      rw [isFlush]
      refine ⟨tiled'', added.trans (congrArg (· ++ _) sameRanges), fun other member => ?_⟩
      rw [List.mem_singleton.mp member]
      exact tiled'.syncsWell empty fits
  | none =>
      obtain ⟨file, isFlush, isFile⟩ := flush_of_noMoment isMoment
      obtain ⟨-, -, -, sameRanges⟩ := writeOut_same F writer
      rw [isFlush]
      rcases isFile with rfl | rfl
      · exact .of_tiled tiled.writeOut sameRanges
      · exact .of_tiled (tiled.writeOut.of_same ⟨rfl, rfl⟩ rfl rfl rfl rfl)
          sameRanges

/-! ## Calls -/

/-- The first part of `Append`. -/
theorem Tiled.makeRoom
    (tiled : Tiled bytesPerSync writer)
    (fits : writer.filesize < 2 ^ 64)
    (left : Nat) :
    Syncs bytesPerSync writer (writer.makeRoom F.traced left).2
      (writer.roomMoments F.traced left) := by
  have grow {middle : WritableFileWriter (ω × List FileEvent)}
      {moments : List (WritableFileWriter (ω × List FileEvent))}
      (syncs : Syncs bytesPerSync writer middle moments)
      (empty : middle.buf.bytes = []) : Syncs bytesPerSync writer middle.grow moments := by
    have sameLast : middle.grow.lastSyncSize = middle.lastSyncSize := by
      unfold WritableFileWriter.grow
      dsimp only
      split <;> rfl
    have sameRanges : ranges middle.grow.writableFile.2 = ranges middle.writableFile.2 := by
      rw [writableFile_grow]
    have modes := SameModes.grow middle
    exact ⟨syncs.tiled.of_same ⟨modes.useOSBuffer, modes.bytesPerSync⟩ (filesize_grow middle)
      sameLast (accepted_grow empty) sameRanges, sameRanges.trans syncs.ranges_eq,
        syncs.syncsWell⟩
  have buffered := tiled.buffered
  by_cases full : writer.buf.capacity - writer.buf.currentSize < left
  · by_cases some : 0 < writer.buf.currentSize
    · have flushed := tiled.flush (F := F) fits
      have isMoments : writer.roomMoments F.traced left =
          (writer.flushMoment F.traced).toList := by
        simp [roomMoments, buffered, full, some]
      rw [isMoments]
      cases succeeds : (writer.flush F.traced).1.ok with
      | true =>
          have isRoom : (writer.makeRoom F.traced left).2 =
              (writer.flush F.traced).2.grow := by
            simp [WritableFileWriter.makeRoom, buffered, full, some, succeeds]
          rw [isRoom]
          exact grow flushed (bytes_flush (.inl buffered) succeeds)
      | false =>
          have isRoom : writer.makeRoom F.traced left = writer.flush F.traced := by
            simp [WritableFileWriter.makeRoom, buffered, full, some, succeeds]
          rw [isRoom]
          exact flushed
    · have empty : writer.buf.bytes = [] :=
        List.eq_nil_of_length_eq_zero (Nat.eq_zero_of_not_pos some)
      have isMoments : writer.roomMoments F.traced left = [] := by
        simp [roomMoments, some]
      have isRoom : (writer.makeRoom F.traced left).2 = writer.grow := by
        simp [WritableFileWriter.makeRoom, buffered, full, some]
      rw [isRoom, isMoments]
      exact grow (.of_tiled tiled rfl) empty
  · have isMoments : writer.roomMoments F.traced left = [] := by
      simp [roomMoments, full]
    have isRoom : (writer.makeRoom F.traced left).2 = writer := by
      simp [WritableFileWriter.makeRoom, full]
    rw [isRoom, isMoments]
    exact .of_tiled tiled rfl

/-- Data that fit into the buffer make the loop of `Append` flush nothing. -/
theorem loopMoments_of_room
    {F : WritableFile ω}
    {writer : WritableFileWriter ω}
    {data : Bytes}
    (room : writer.buf.currentSize + data.length ≤ writer.buf.capacity) :
    writer.loopMoments F data = [] := by
  unfold loopMoments
  rw [if_neg (AlignedBuffer.not_lt_left room), ite_self]

theorem lastSyncSize_appendLoop
    {F : WritableFile ω}
    {writer : WritableFileWriter ω}
    {data : Bytes}
    (s : Status)
    (room : writer.buf.currentSize + data.length ≤ writer.buf.capacity) :
    (writer.appendLoop F s data).2.lastSyncSize = writer.lastSyncSize := by
  unfold appendLoop
  rw [if_neg (AlignedBuffer.not_lt_left room)]
  split <;> rfl

/-- The last part of `Append`, of data that fit into the buffer or find it empty. -/
theorem Tiled.store
    (tiled : Tiled bytesPerSync writer)
    {s : Status}
    (succeeds : s.ok = true)
    {data : Bytes}
    (room : writer.buf.currentSize + data.length ≤ writer.buf.capacity ∨
      writer.buf.bytes = []) :
    Syncs bytesPerSync writer (writer.store F.traced s data).2
      (if writer.useOSBuffer = false ∨ data.length ≤ writer.buf.capacity then
        writer.loopMoments F.traced data
      else []) := by
  have account := place_accepts (F.traced_keepsOnClose).leaks tiled.buffered trivial succeeds
    room
  have placed : (writer.place F.traced s data).2.lastSyncSize = writer.lastSyncSize ∧
      (writer.place F.traced s data).2.filesize = writer.filesize ∧
        ranges (writer.place F.traced s data).2.writableFile.2 =
          ranges writer.writableFile.2 ∧
            (if writer.useOSBuffer = false ∨ data.length ≤ writer.buf.capacity then
              writer.loopMoments F.traced data
            else []) = [] := by
    by_cases fits : data.length ≤ writer.buf.capacity
    · have inBuffer : writer.buf.currentSize + data.length ≤ writer.buf.capacity := by
        rcases room with inBuffer | empty
        · exact inBuffer
        · rw [AlignedBuffer.currentSize, empty, List.length_nil]
          omega
      have isPlaced : writer.place F.traced s data = writer.appendLoop F.traced s data :=
        if_pos (.inr fits)
      obtain ⟨-, -, file, -, -⟩ := @appendLoop_of_room _ F.traced writer data s inBuffer
      rw [isPlaced, file, if_pos (.inr fits)]
      exact ⟨lastSyncSize_appendLoop s inBuffer, filesize_appendLoop F.traced s writer data, rfl,
        loopMoments_of_room inBuffer⟩
    · have past : ¬(writer.useOSBuffer = false ∨ data.length ≤ writer.buf.capacity) := by
        rw [tiled.buffered]
        exact fun either => either.elim nofun fits
      have isPlaced : writer.place F.traced s data = writer.writeBuffered F.traced data :=
        if_neg past
      obtain ⟨lastSyncSize, sameRanges⟩ := writeBuffered_same F writer data
      rw [isPlaced, if_neg past]
      exact ⟨lastSyncSize, (SameSettings.writeBuffered F.traced writer data).filesize, sameRanges,
        rfl⟩
  obtain ⟨lastSyncSize, filesize, sameRanges, isMoments⟩ := placed
  have modes := SameModes.store F.traced s writer data
  have noLeak : (if data.length ≤ writer.buf.capacity then 0 else 0) = 0 := ite_self 0
  have accepts := account.accepted_eq noLeak
  have counted := tiled.counted
  rw [isMoments]
  unfold WritableFileWriter.store at modes ⊢
  dsimp only at modes ⊢
  cases stored : (writer.place F.traced s data).1.ok with
  | true =>
      simp only [stored, if_true] at modes accepts ⊢
      have size : (writer.place F.traced s data).2.filesize + data.length =
          (accepted tracedBytes (writer.place F.traced s data).2).length := by
        rw [accepts, List.length_append, filesize, counted]
      exact .of_tiled (tiled.of_larger ⟨modes.useOSBuffer, modes.bytesPerSync⟩
        (Nat.le_trans (Nat.le_of_eq filesize.symm) (Nat.le_add_right ..)) size lastSyncSize
          sameRanges) sameRanges
  | false =>
      simp only [stored, Bool.false_eq_true, if_false, List.append_nil] at modes accepts ⊢
      exact .of_tiled (tiled.of_same ⟨modes.useOSBuffer, modes.bytesPerSync⟩ filesize
        lastSyncSize accepts sameRanges) sameRanges

/-- `Append`. -/
theorem Tiled.append
    (tiled : Tiled bytesPerSync writer)
    (fits : writer.filesize < 2 ^ 64)
    (data : Bytes) :
    Syncs bytesPerSync writer (append F.traced data writer).2
      (writer.callMoments F.traced (.append data)) := by
  have prepared : Tiled bytesPerSync (writer.prepare F.traced data.length) :=
    ⟨tiled.buffered, tiled.bytesPerSync_eq, tiled.counted, tiled.behind, tiled.atPage,
      tiled.tiles⟩
  have made := prepared.makeRoom (F := F) fits data.length
  have start : Syncs bytesPerSync writer (writer.prepare F.traced data.length) [] :=
    .of_tiled prepared rfl
  have room := start.trans made
  have free := (makeRoom_accepts (F.traced_keepsOnClose).leaks prepared.buffered trivial
    data.length).2
  rw [List.nil_append] at room
  unfold callMoments WritableFileWriter.append
  dsimp only
  cases succeeds : ((writer.prepare F.traced data.length).makeRoom F.traced
      data.length).1.ok with
  | true =>
      have stored := made.tiled.store (F := F) succeeds (free succeeds)
      simp only [true_and, if_true]
      exact room.trans stored
  | false =>
      simp only [Bool.false_eq_true, false_and, if_false, List.append_nil]
      exact room

/-- Any call. -/
theorem Tiled.call
    (tiled : Tiled bytesPerSync writer)
    (fits : writer.filesize < 2 ^ 64)
    (next : Call) :
    Syncs bytesPerSync writer (writer.call F.traced next).2
      (writer.callMoments F.traced next) := by
  cases next with
  | append data => exact tiled.append fits data
  | flush => exact tiled.flush fits
  | sync useFsync =>
      have flushed := tiled.flush (F := F) fits
      obtain ⟨file, pending, isResult, isFile⟩ := sync_cases F.traced useFsync writer
      have silent (s : Bool) :
          handed ((writer.flush F.traced).2.writableFile.2 ++ [.sync s]) =
              handed (writer.flush F.traced).2.writableFile.2 ∧
            ranges ((writer.flush F.traced).2.writableFile.2 ++ [.sync s]) =
              ranges (writer.flush F.traced).2.writableFile.2 :=
        ⟨(FileEvent.handed_append ..).trans (List.append_nil _),
          (FileEvent.ranges_append ..).trans (List.append_nil _)⟩
      have same : handed file.2 = handed (writer.flush F.traced).2.writableFile.2 ∧
          ranges file.2 = ranges (writer.flush F.traced).2.writableFile.2 := by
        rcases isFile with rfl | rfl | rfl
        · exact ⟨rfl, rfl⟩
        · exact silent _
        · exact silent _
      change Syncs bytesPerSync writer (writer.sync F.traced useFsync).2 _
      rw [isResult]
      exact ⟨flushed.tiled.of_same ⟨rfl, rfl⟩ rfl rfl (congrArg (· ++ _) same.1) same.2,
        same.2.trans flushed.ranges_eq, flushed.syncsWell⟩

/-- Any sequence of calls. -/
theorem Tiled.run
    (calls : List Call)
    {writer : WritableFileWriter (ω × List FileEvent)}
    (tiled : Tiled bytesPerSync writer)
    (fits : writer.filesize + (appended (writer.run F.traced calls).1).length < 2 ^ 64) :
    Syncs bytesPerSync writer (writer.run F.traced calls).2
      (writer.runMoments F.traced calls) := by
  induction calls generalizing writer with
  | nil => exact .of_tiled tiled rfl
  | cons next calls inductionHypothesis =>
      have isRun : appended (writer.run F.traced (next :: calls)).1 =
          added (next, (writer.call F.traced next).1) ++
            appended ((writer.call F.traced next).2.run F.traced calls).1 := rfl
      rw [isRun, List.length_append, ← Nat.add_assoc, ← filesize_call] at fits
      have larger := filesize_call F.traced writer next
      have called := tiled.call (F := F) (by omega) next
      exact called.trans (inductionHypothesis called.tiled fits)

/-- A writer in buffered mode over a new file, and any sequence of calls, of which any may
fail: the ranges to sync are those that are due at the moments of the calls, they follow
each other from the start of the file on, and each is at least `bytes_per_sync_` bytes long
and ends at a page, in what has been written and a megabyte in front of the end. -/
theorem range_syncs_tile
    (F : WritableFile ω)
    (buffered : F.useOSBuffer = true)
    (file : ω)
    (maxBufferSize bytesPerSync : Nat)
    (calls : List Call) :
    let start := new F.traced (file, []) maxBufferSize bytesPerSync
    let ran := start.run F.traced calls
    let moments := start.runMoments F.traced calls
    (appended ran.1).length < 2 ^ 64 →
      ranges ran.2.writableFile.2 = dueRanges moments ∧
        Tiles 0 (ranges ran.2.writableFile.2) ran.2.lastSyncSize ∧
          ∀ moment ∈ moments, SyncsWell bytesPerSync moment := by
  intro start ran moments fits
  have tiled : Tiled bytesPerSync start :=
    ⟨buffered, rfl, rfl, Nat.zero_le _, Nat.dvd_zero _, rfl⟩
  have size : start.filesize = 0 := rfl
  have syncs := tiled.run (F := F) calls (by
    rw [size, Nat.zero_add]
    exact fits)
  exact ⟨syncs.ranges_eq, syncs.tiled.tiles, syncs.syncsWell⟩

section Sample

/-- A writer of pages over a file that never fails. -/
def pageWriter : WritableFileWriter (FaultyFile × List FileEvent) :=
  new FaultyFile.Traits.default.writableFile.traced (⟨[], []⟩, []) 65536 4096

/-- Data that are longer than the buffer go to the file. -/
theorem append_pageWriter
    {data : Bytes}
    (long : 65536 < data.length) :
    let after := append FaultyFile.Traits.default.writableFile.traced data pageWriter
    after.1 = .OK ∧ ∃ buf positive, buf.bytes = [] ∧ after.2 = { pageWriter with
      buf := buf
      positive := positive
      filesize := data.length
      pendingSync := true
      writableFile := (⟨data, []⟩, [.append data]) } := by
  have nonempty : 0 < data.length := by omega
  have past : ¬ data.length ≤ 65536 := by omega
  simp [append, pageWriter, new, prepare, makeRoom, store, place, grow, writeBuffered, long,
    nonempty, past, WritableFile.traced, AlignedBuffer.allocate, AlignedBuffer.currentSize,
    AlignedBuffer.size, roundup, FaultyFile.Traits.writableFile, FaultyFile.Traits.default,
    FaultyFile.append, FaultyFile.outcome, FaultyFile.pass]

/-- Two pages more than a megabyte: a flush syncs the two pages. -/
theorem range_syncs_tile_pages :
    ∃ data : Bytes, data.length = 2 ^ 20 + 8192 ∧
      let F := FaultyFile.Traits.default.writableFile
      let calls := [.append data, .flush]
      let ran := pageWriter.run F.traced calls
      let moments := pageWriter.runMoments F.traced calls
      ranges ran.2.writableFile.2 = [(0, 8192)] ∧
        ranges ran.2.writableFile.2 = dueRanges moments ∧
          Tiles 0 (ranges ran.2.writableFile.2) ran.2.lastSyncSize ∧
            ∀ moment ∈ moments, SyncsWell 4096 moment := by
  obtain ⟨data, length⟩ : ∃ data : Bytes, data.length = 2 ^ 20 + 8192 :=
    ⟨List.replicate (2 ^ 20 + 8192) 0, List.length_replicate⟩
  refine ⟨data, length, ?_⟩
  intro F calls ran moments
  obtain ⟨appends, buf, positive, empty, isAfter⟩ :=
    @append_pageWriter data (by rw [length]; decide)
  have flushed : (append F.traced data pageWriter).2.flush F.traced =
      (.OK, { (append F.traced data pageWriter).2 with
        lastSyncSize := 8192
        writableFile := (⟨data, []⟩, [.append data, .rangeSync 0 8192]) }) := by
    rw [isAfter, length]
    simp [flush, writeOut, syncBehind, syncDue, syncLength, offsetSyncTo, empty, F, pageWriter, new,
      AlignedBuffer.currentSize, kBytesNotSyncRange, kBytesAlignWhenSync, WritableFile.traced,
      FaultyFile.Traits.writableFile, FaultyFile.Traits.default, FaultyFile.flush,
      FaultyFile.outcome, FaultyFile.pass]
  have isRan : ran = ([(.append data, .OK), (.flush, .OK)],
      { (append F.traced data pageWriter).2 with
        lastSyncSize := 8192
        writableFile := (⟨data, []⟩, [.append data, .rangeSync 0 8192]) }) := by
    change ([_, _], _) = _
    simp only [run, call]
    rw [flushed, appends]
  have fits : (appended ran.1).length < 2 ^ 64 := by
    rw [isRan]
    change (data ++ []).length < _
    rw [List.append_nil, length]
    decide
  refine ⟨?_, range_syncs_tile F rfl _ _ _ _ fits⟩
  rw [isRan]
  rfl

end Sample

end WritableFileWriter
end RocksUtil
