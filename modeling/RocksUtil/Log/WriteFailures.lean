import RocksUtil.File.Buffered
import RocksUtil.Log.Boundaries
import RocksUtil.Log.Salvage

/-!
# Write failures

A `log::Writer` over a buffered `WritableFileWriter` whose file fails now and
then.  `AddRecord` advances its block offset whether or not its `Append` calls
took the bytes, and ignores the status of the one for the trailer of a block.
What keeps a log readable is therefore that no `Append` is refused, and that
holds as long as there is room in the buffer (`HasRoom`): the writer then has
accepted a log of fragments in which a failed call leaves the first fragments of
its record (`addRecord_accepts`), and every acknowledged record is read back
(`acknowledged_records_survive`).

Flushes that fail again and again fill the buffer, and the first `Append` that is
refused after that puts the log out of step (`acknowledged_record_lost`).
-/

namespace RocksUtil

namespace WritableFileWriter

/-- `count` more bytes fit in the buffer, or the calls of `Append` and `Flush`
that make room for them are going to succeed. -/
def HasRoom (writer : WritableFileWriter FaultyFile) (count : Nat) : Prop :=
  writer.buf.currentSize + count ≤ writer.buf.capacity ∨
    (writer.writableFile.outcome.ok = true ∧
      writer.writableFile.pass.outcome.ok = true)

instance (writer : WritableFileWriter FaultyFile) (count : Nat) :
    Decidable (writer.HasRoom count) :=
  inferInstanceAs (Decidable (_ ∨ _))

/-- The state of a writer in buffered mode.  The buffer never gets smaller than
it was at first. -/
structure Buffered (writer : WritableFileWriter FaultyFile) : Prop where
  mode : writer.useOSBuffer = true
  large : 65536 ≤ writer.buf.capacity

section Faulty

variable {traits : FaultyFile.Traits} {writer : WritableFileWriter FaultyFile}
  {data : Bytes} {rest : Nat}

/-- A flush whose calls succeed succeeds. -/
theorem flush_ok
    (mode : writer.useOSBuffer = true)
    (first : writer.writableFile.outcome.ok = true)
    (second : writer.writableFile.pass.outcome.ok = true) :
    (writer.flush traits.writableFile).1.ok = true := by
  have synced : ∀ (s : Status) (after : WritableFileWriter FaultyFile),
      s.ok = true → (after.syncBehind traits.writableFile s).1.ok = true := by
    intro s after succeeds
    cases due : after.syncDue <;> simp [syncBehind, due, succeeds]
  unfold flush writeOut
  by_cases nonempty : 0 < writer.buf.currentSize
  · have nonempty' : 0 < writer.buf.bytes.length := nonempty
    have appended : (writer.writeBuffered traits.writableFile writer.buf.bytes) =
        (writer.writableFile.outcome, { writer with
          writableFile := { writer.writableFile.pass with
            contents := writer.writableFile.contents ++ writer.buf.bytes }
          buf := writer.buf.size 0 }) := by
      simp [writeBuffered, nonempty', FaultyFile.Traits.writableFile,
        FaultyFile.append, first]
    simp only [if_pos nonempty, if_pos mode, appended, if_pos first]
    change (if writer.writableFile.pass.outcome.ok = true then _ else _ :
      Status × WritableFileWriter FaultyFile).1.ok = true
    rw [if_pos second]
    exact synced _ _ second
  · simp only [if_neg nonempty, Status.ok_OK, if_true]
    change (if writer.writableFile.outcome.ok = true then _ else _ :
      Status × WritableFileWriter FaultyFile).1.ok = true
    rw [if_pos first]
    exact synced _ _ first

theorem writableFile_syncBehind
    (s : Status)
    (writer : WritableFileWriter FaultyFile) :
    (writer.syncBehind traits.writableFile s).2.writableFile =
      writer.writableFile := by
  cases due : writer.syncDue <;> simp [syncBehind, due]

theorem outcomes_writeBuffered
    (quiet : writer.writableFile.outcomes = [])
    (data : Bytes) :
    (writer.writeBuffered traits.writableFile data).2.writableFile.outcomes =
      [] := by
  have appended := FaultyFile.outcomes_append data writer.writableFile
  rw [quiet, List.tail_nil] at appended
  by_cases nonempty : 0 < data.length
  · cases status : (FaultyFile.append data writer.writableFile).1.ok <;>
      simp [writeBuffered, nonempty, status, appended]
  · simp [writeBuffered, nonempty, quiet]

/-- Behind the end of the schedule a flush has nothing to use up. -/
theorem outcomes_flush
    (mode : writer.useOSBuffer = true)
    (quiet : writer.writableFile.outcomes = []) :
    (writer.flush traits.writableFile).2.writableFile.outcomes = [] := by
  have written : (writer.writeOut traits.writableFile).2.writableFile.outcomes =
      [] := by
    unfold writeOut
    simp only [if_pos mode]
    split
    · exact outcomes_writeBuffered quiet _
    · exact quiet
  have passed : (writer.writeOut traits.writableFile).2.writableFile.pass.outcomes =
      [] := by
    rw [FaultyFile.outcomes_pass, written]
    rfl
  cases status : (writer.writeOut traits.writableFile).1.ok with
  | false => simp [flush, status, written]
  | true =>
      cases outcome :
          (writer.writeOut traits.writableFile).2.writableFile.outcome.ok with
      | false => simpa [flush, status, FaultyFile.flush, outcome] using passed
      | true =>
          simpa [flush, status, FaultyFile.flush, outcome,
            writableFile_syncBehind] using passed

/-- Where there is room for `data` and `rest` more bytes, `Append` accepts `data`
and leaves room for the rest. -/
theorem append_of_hasRoom
    (buffered : writer.Buffered)
    (room : writer.HasRoom (data.length + rest))
    (short : data.length + rest ≤ 65536) :
    let result := append traits.writableFile data writer
    result.1.ok = true ∧
      accepted FaultyFile.contents result.2 =
        accepted FaultyFile.contents writer ++ data ∧
      result.2.Buffered ∧
      result.2.HasRoom rest ∧
      (writer.writableFile.outcomes = [] →
        result.2.writableFile.outcomes = []) := by
  obtain ⟨mode, large⟩ := buffered
  by_cases fits : writer.buf.currentSize + data.length ≤ writer.buf.capacity
  · obtain ⟨status, mode', file, capacity, bytes⟩ :=
      @append_of_room _ traits.writableFile writer data fits
    refine ⟨by rw [status]; rfl, ?_, ⟨mode'.trans mode, by rwa [capacity]⟩, ?_,
      fun quiet => by rw [file]; exact quiet⟩
    · rw [accepted, accepted, file, bytes, List.append_assoc]
      rfl
    · unfold HasRoom
      rw [AlignedBuffer.currentSize, file, capacity, bytes, List.length_append]
      rcases room with roomy | flushes
      · left
        rw [AlignedBuffer.currentSize] at roomy
        omega
      · exact .inr flushes
  · have flushes : writer.writableFile.outcome.ok = true ∧
        writer.writableFile.pass.outcome.ok = true := by
      rcases room with roomy | flushes
      · omega
      · exact flushes
    have prepared : (writer.prepare traits.writableFile data.length).useOSBuffer =
        true := mode
    have flushed : ((writer.prepare traits.writableFile data.length).flush
        traits.writableFile).1.ok = true := flush_ok mode flushes.1 flushes.2
    obtain ⟨status, mode', file, capacity, bytes⟩ :=
      (append_of_full mode (by omega) (by omega)).2 flushed
    refine ⟨status, ?_, ⟨?_, by omega⟩, .inl ?_, fun quiet => ?_⟩
    · have kept := contents_flush traits.keeps prepared flushed
      rw [accepted, file, bytes, kept]
      rfl
    · rw [mode']
      exact (flush_spec traits.keeps prepared).1
    · rw [AlignedBuffer.currentSize, bytes]
      omega
    · rw [file]
      exact outcomes_flush prepared quiet

/-- A flush keeps the writer in buffered mode. -/
theorem Buffered.flush (buffered : writer.Buffered) :
    (writer.flush traits.writableFile).2.Buffered where
  mode := (flush_spec traits.keeps buffered.mode).1
  large := by
    rw [capacity_flush]
    exact buffered.large

/-- The writer takes what there is room for. -/
theorem destination_accepts (traits : FaultyFile.Traits) :
    (destination traits.writableFile).Accepts (accepted FaultyFile.contents)
      fun count writer => writer.Buffered ∧ writer.HasRoom count where
  append := by
    intro data rest writer short room
    obtain ⟨status, written, buffered, left, -⟩ :=
      @append_of_hasRoom traits writer data rest room.1 room.2 short
    exact ⟨status, written, buffered, left⟩
  flush := by
    intro writer room
    exact ⟨(flush_spec traits.keeps room.1.mode).2, room.1.flush,
      .inl (currentSize_le _)⟩
  flush_ok := by
    intro writer room succeeds count short
    have empty : (writer.flush traits.writableFile).2.buf.bytes = [] :=
      bytes_flush (.inl room.1.mode) succeeds
    have buffered : (writer.flush traits.writableFile).2.Buffered := room.1.flush
    refine ⟨buffered, .inl ?_⟩
    have large := buffered.large
    have block := Log.kBlockSize_eq
    change (writer.flush traits.writableFile).2.buf.bytes.length + count ≤ _
    rw [empty, List.length_nil]
    change _ ≤ (writer.flush traits.writableFile).2.buf.capacity
    omega

/-- Behind the end of the schedule the writer takes everything. -/
theorem destination_accepts_quiet (traits : FaultyFile.Traits) :
    (destination traits.writableFile).Accepts (accepted FaultyFile.contents)
      fun _ writer => writer.Buffered ∧ writer.writableFile.outcomes = [] where
  append := by
    intro data rest writer short room
    have hasRoom : writer.HasRoom (data.length + rest) := by
      right
      simp [FaultyFile.outcome, FaultyFile.pass, room.2]
    obtain ⟨status, written, buffered, -, quiet⟩ :=
      @append_of_hasRoom traits writer data rest room.1 hasRoom short
    exact ⟨status, written, buffered, quiet room.2⟩
  flush := by
    intro writer room
    exact ⟨(flush_spec traits.keeps room.1.mode).2, room.1.flush,
      outcomes_flush room.1.mode room.2⟩
  flush_ok := by
    intro writer room _ _ _
    exact ⟨room.1.flush, outcomes_flush room.1.mode room.2⟩

theorem flush_ok_quiet
    (mode : writer.useOSBuffer = true)
    (quiet : writer.writableFile.outcomes = []) :
    (writer.flush traits.writableFile).1.ok = true := by
  apply flush_ok mode <;>
    simp [FaultyFile.outcome, FaultyFile.pass, quiet]

theorem buffered_new
    (traits : FaultyFile.Traits)
    (file : FaultyFile)
    (maxBufferSize bytesPerSync : Nat) :
    (new traits.writableFile file maxBufferSize bytesPerSync).Buffered where
  mode := rfl
  large := le_roundup 65536 (Nat.pos_of_isPowerOfTwo traits.powerOfTwo)

end Faulty
end WritableFileWriter

namespace Log

/-! ## Fragments behind an incomplete record -/

/-- The beginning of a record drops what is pending. -/
theorem assemble_of_start
    (pending : Option Bytes)
    {fragment : Fragment}
    (start : fragment.start = true)
    (fragments : List Fragment) :
    assemble pending (fragment :: fragments) =
      assemble none (fragment :: fragments) := by
  simp [assemble, completed, pendingNext, start]

namespace Format

theorem place_of_noGap
    {format : Format}
    {offset : Nat}
    (noGap : format.gap offset = 0)
    (fragment : Fragment)
    (fragments : List Fragment) :
    format.place offset (fragment :: fragments) =
      format.encode fragment ++
        format.place (format.endOffset offset fragment.payload.length)
          fragments := by
  rw [place_cons, noGap]
  exact List.nil_append _

/-- Two blocks, and behind them a record and one that starts at `last`. -/
theorem place_blocks
    {format : Format}
    {full last : Nat}
    {block kept lost : Fragment}
    (noGap : format.gap full = 0)
    (afterBlock : format.endOffset full block.payload.length = full)
    (afterKept : format.endOffset full kept.payload.length = last)
    (noGapLast : format.gap last = 0) :
    format.place full ([block, block, kept] ++ [lost]) =
      format.encode block ++
        (format.encode block ++ (format.encode kept ++ format.encode lost)) := by
  rw [List.cons_append, place_of_noGap noGap, afterBlock, List.cons_append,
    place_of_noGap noGap, afterBlock, List.cons_append, place_of_noGap noGap,
    afterKept, List.nil_append, place_of_noGap noGapLast, place_nil,
    List.append_nil]

/-- The fragments of a record stand for it behind an incomplete one, too. -/
theorem assemble_record_behind
    (format : Format)
    (offset : Nat)
    (pending : Option Bytes)
    (record : Bytes) :
    assemble pending (format.fragments offset true record) = [record] := by
  rw [← (format.assemble_record offset record).1]
  rw [fragments]
  split <;> exact assemble_of_start pending rfl _

end Format

namespace Writer

variable {δ : Type}

/-- The records of a run whose `AddRecord` returned OK. -/
def acknowledged (D : Destination δ) : Writer δ → List Bytes → List Bytes
  | _, [] => []
  | writer, record :: records =>
      let result := writer.addRecord D record
      (if result.1.ok then [record] else []) ++
        acknowledged D result.2 records

/-- The destination has accepted these fragments, and the records acknowledged so
far are among those they stand for. -/
structure Holds
    (contents : δ → Bytes)
    (writer : Writer δ)
    (pieces : List Fragment)
    (records : List Bytes) : Prop where
  bytes : contents writer.dest = writer.format.place 0 pieces
  offset : writer.blockOffset = writer.format.advance 0 pieces
  fits : writer.format.Fits 0 pieces
  survive : records.Sublist (assemble none pieces)

section Runs

variable {D : Destination δ} {contents : δ → Bytes} {Room : Nat → δ → Prop}
  {writer : Writer δ} {pieces : List Fragment} {acked : List Bytes}

/-- One call of `AddRecord`. -/
theorem Holds.addRecord
    (holds : Holds contents writer pieces acked)
    (accepts : D.Accepts contents Room)
    (record : Bytes)
    (room : Room (writer.firstSpan record) writer.dest) :
    let result := writer.addRecord D record
    ∃ pieces',
      Holds contents result.2 pieces'
          (acked ++ if result.1.ok then [record] else []) ∧
        Room 0 result.2.dest ∧
        result.2.format = writer.format := by
  intro result
  obtain ⟨written, others, split, -, bytes, offset, sameFormat, valid, whole, -⟩ :=
    addRecord_accepts accepts writer record room
  refine ⟨pieces ++ written, ⟨?_, ?_, ?_, ?_⟩, valid, sameFormat⟩
  · rw [sameFormat, bytes, holds.bytes, holds.offset, Format.place_append]
  · rw [sameFormat, offset, holds.offset, Format.advance_append]
  · have fits := writer.format.fits_fragments writer.blockOffset true record
      (holds.offset ▸ holds.fits.advance_le)
    rw [split] at fits
    rw [sameFormat, Format.fits_append, ← holds.offset]
    exact ⟨holds.fits, ((Format.fits_append _ _ _ _).mp fits).1⟩
  · rw [assemble_append]
    apply holds.survive.append
    cases ok : result.1.ok with
    | false => simp
    | true =>
        rw [whole ok, List.append_nil] at split
        rw [← split, Format.assemble_record_behind]
        simp

/-- A run of `AddRecord` calls that each find room. -/
theorem Holds.addRecords
    (holds : Holds contents writer pieces acked)
    (accepts : D.Accepts contents Room)
    (valid : Room 0 writer.dest)
    (records : List Bytes)
    (roomy : ∀ before record after, records = before ++ record :: after →
      Room 0 (writer.addRecords D before).dest →
        Room ((writer.addRecords D before).firstSpan record)
          (writer.addRecords D before).dest) :
    ∃ pieces',
      Holds contents (writer.addRecords D records) pieces'
          (acked ++ acknowledged D writer records) ∧
        Room 0 (writer.addRecords D records).dest ∧
        (writer.addRecords D records).format = writer.format := by
  induction records generalizing writer pieces acked with
  | nil =>
      rw [acknowledged, List.append_nil]
      exact ⟨pieces, holds, valid, rfl⟩
  | cons record records inductionHypothesis =>
      obtain ⟨middle, holds', valid', sameFormat⟩ :=
        holds.addRecord accepts record (roomy [] record records rfl valid)
      obtain ⟨final, holds'', valid'', sameFormat'⟩ := inductionHypothesis holds'
        valid' (by
          intro before next after split
          exact roomy (record :: before) next after (by rw [split]; rfl))
      rw [List.append_assoc] at holds''
      exact ⟨final, holds'', valid'', sameFormat'.trans sameFormat⟩

theorem holds_new
    {dest : δ}
    (fresh : contents dest = [])
    (logNumber : UInt64)
    (recycle : Bool) :
    Holds contents (Writer.new dest logNumber recycle) [] [] where
  bytes := fresh
  offset := rfl
  fits := Nat.zero_le _
  survive := List.Sublist.refl _

end Runs
end Writer

/-! ## Reading back what was acknowledged -/

namespace Reader

/-- A file that holds placed fragments is read back as what they stand for. -/
theorem readRecords_place
    {format : Format}
    {pieces : List Fragment}
    (fits : format.Fits 0 pieces)
    (mode : WALRecoveryMode)
    (reporter : Option (List Report))
    (checksum : Bool)
    (logNumber : UInt64)
    (accepts : (Reader.new (GrowingFile.atRest (format.place 0 pieces)) reporter
      checksum 0 logNumber).Accepts format) :
    ∃ final enough, ∀ fuel, enough ≤ fuel →
      (Reader.new (GrowingFile.atRest (format.place 0 pieces)) reporter checksum 0
        logNumber).readRecords GrowingFile.sequentialFile mode fuel =
          some (assemble none pieces, final) := by
  have same : 0 % kBlockSize = kBlockSize % kBlockSize := by simp
  have fits' := fits.sameOffset (le_refl kBlockSize) same
  rw [← Format.place_kBlockSize] at accepts ⊢
  obtain ⟨final, reads, -⟩ := readRecords_placed fits' (List.prefix_refl _) mode
    reporter checksum logNumber accepts
  rw [Format.visible_eq_self _ _ _ _ (le_refl _)] at reads
  exact ⟨final, reads⟩

end Reader

namespace Writer

/-- A new log over a buffered file that follows a schedule of outcomes. -/
def onFaultyFile
    (traits : FaultyFile.Traits)
    (outcomes : List Status)
    (maxBufferSize bytesPerSync : Nat)
    (logNumber : UInt64)
    (recycle : Bool) : Writer (WritableFileWriter FaultyFile) :=
  Writer.new (WritableFileWriter.new traits.writableFile ⟨[], outcomes⟩
    maxBufferSize bytesPerSync) logNumber recycle

/-- In a run of `AddRecord` calls that each find room in the buffer for the first
fragment of their record, the block offset stays in step with the bytes
accepted, and all acknowledged records are read back in their order. -/
theorem acknowledged_records_survive
    (traits : FaultyFile.Traits)
    (outcomes : List Status)
    (maxBufferSize bytesPerSync : Nat)
    (logNumber : UInt64)
    (recycle : Bool)
    (small : recycle = true → logNumber.toNat < 2 ^ 32)
    (records : List Bytes)
    (roomy :
      let D := WritableFileWriter.destination traits.writableFile
      let writer := onFaultyFile traits outcomes maxBufferSize bytesPerSync
        logNumber recycle
      ∀ before record after, records = before ++ record :: after →
        (writer.addRecords D before).dest.HasRoom
          ((writer.addRecords D before).firstSpan record))
    (reporter : Option (List Report))
    (checksum : Bool) :
    let D := WritableFileWriter.destination traits.writableFile
    let writer := onFaultyFile traits outcomes maxBufferSize bytesPerSync
      logNumber recycle
    (∀ before, before <+: records →
      (writer.addRecords D before).blockOffset % kBlockSize =
        ((writer.addRecords D before).dest.accepted
          FaultyFile.contents).length % kBlockSize) ∧
      let flushed := (writer.addRecords D records).dest.flush traits.writableFile
      (flushed.1.ok = true →
        ∃ returned final,
          (acknowledged D writer records).Sublist returned ∧
            ∃ enough, ∀ fuel, enough ≤ fuel →
              (Reader.new
                (GrowingFile.atRest flushed.2.writableFile.contents) reporter
                checksum 0 logNumber).readRecords GrowingFile.sequentialFile
                  .skipAnyCorruptedRecords fuel = some (returned, final)) := by
  intro D writer
  have accepts := WritableFileWriter.destination_accepts traits
  have fresh := holds_new (rfl : WritableFileWriter.accepted FaultyFile.contents
    (WritableFileWriter.new traits.writableFile ⟨[], outcomes⟩ maxBufferSize
      bytesPerSync) = []) logNumber recycle
  have valid : writer.dest.Buffered ∧ writer.dest.HasRoom 0 :=
    ⟨WritableFileWriter.buffered_new _ _ _ _, .inl (Nat.zero_le _)⟩
  have run : ∀ before, before <+: records → ∃ pieces,
      Holds (WritableFileWriter.accepted FaultyFile.contents)
          (writer.addRecords D before) pieces (acknowledged D writer before) ∧
        (writer.addRecords D before).dest.Buffered ∧
        (writer.addRecords D before).format = ⟨recycle, logNumber⟩ := by
    rintro before ⟨rest, split⟩
    obtain ⟨pieces, holds, valid', sameFormat⟩ :=
      fresh.addRecords accepts valid before (by
        rintro earlier record after rfl buffered
        exact ⟨buffered.1, roomy earlier record (after ++ rest)
          (by rw [← split, List.append_assoc, List.cons_append])⟩)
    exact ⟨pieces, holds, valid'.1, sameFormat⟩
  constructor
  · intro before initial
    obtain ⟨pieces, holds, -⟩ := run before initial
    rw [holds.offset, holds.fits.advance_mod, holds.bytes, Nat.zero_add]
  · intro flushed succeeds
    obtain ⟨pieces, holds, buffered, sameFormat⟩ := run records (List.prefix_refl _)
    have contents : flushed.2.writableFile.contents =
        Format.place ⟨recycle, logNumber⟩ 0 pieces := by
      rw [← sameFormat, ← holds.bytes]
      exact WritableFileWriter.contents_flush traits.keeps buffered.mode succeeds
    have fits := holds.fits
    rw [sameFormat] at fits
    rw [contents]
    obtain ⟨final, reads⟩ := Reader.readRecords_place fits .skipAnyCorruptedRecords
      reporter checksum logNumber (Reader.accepts_new small reporter checksum)
    exact ⟨_, final, holds.survive, reads⟩

theorem acknowledged_records_survive_retry :
    let D := WritableFileWriter.destination
      FaultyFile.Traits.default.writableFile
    let writer := onFaultyFile .default [.IOError "", .OK, .OK] 65536 0 7 false
    let flushed := (writer.addRecords D [[1], [2]]).dest.flush
      FaultyFile.Traits.default.writableFile
    acknowledged D writer [[1], [2]] = [[2]] ∧
      ∃ returned final,
        [[2]].Sublist returned ∧
          ∃ enough, ∀ fuel, enough ≤ fuel →
            (Reader.new (GrowingFile.atRest flushed.2.writableFile.contents) none
              true 0 7).readRecords GrowingFile.sequentialFile
                .skipAnyCorruptedRecords fuel = some (returned, final) := by
  intro D writer flushed
  have acked : acknowledged D writer [[1], [2]] = [[2]] := by decide +kernel
  have survive := acknowledged_records_survive .default [.IOError "", .OK, .OK]
    65536 0 7 false Bool.false_ne_true.elim [[1], [2]] (by
      intro D writer before record after split
      rcases before with _ | ⟨first, _ | ⟨second, before⟩⟩
      · obtain ⟨rfl, -⟩ := List.cons.inj split
        decide +kernel
      · simp only [List.cons_append, List.nil_append, List.cons.injEq] at split
        obtain ⟨rfl, rfl, -⟩ := split
        decide +kernel
      · simp at split) none true
  obtain ⟨returned, final, sublist, reads⟩ := survive.2 (by decide +kernel)
  refine ⟨acked, returned, final, ?_, reads⟩
  rw [← acked]
  exact sublist

end Writer

/-! ## How a refused `Append` loses a later record -/

namespace Reader

/-- A record that straddles the end of a block is lost: the part of it in this
block is dropped for its length, and less than a header is left behind. -/
theorem reads_straddling
    {assembly : Assembly GrowingFile}
    {format : Format}
    {fragment : Fragment}
    {offset : Nat}
    (positioned :
      assembly.reader.Positioned offset (format.encode fragment))
    (headerFits : offset + format.header ≤ kBlockSize)
    (straddles : kBlockSize < offset + (format.encode fragment).length)
    (fewBehind :
      offset + (format.encode fragment).length < kBlockSize + kHeaderSize)
    (whole : assembly.reader.reach = (format.encode fragment).length)
    (atRest : assembly.reader.file.arrivals = [])
    (accepts : assembly.reader.Accepts format) :
    ∃ final, Reads GrowingFile.sequentialFile .skipAnyCorruptedRecords assembly []
      final := by
  have block := kBlockSize_eq
  have header := kHeaderSize_eq
  have length := format.length_encode fragment
  have headerLength : (Writer.formatHeader format.logNumber (format.type fragment)
      fragment.payload).length = format.header := by
    rw [Writer.length_formatHeader, Format.type, Writer.isRecyclable_fragmentType]
    rfl
  obtain ⟨live, size⟩ := positioned.blockEnd (.inl (by omega))
  have split := Positioned.buffer_split (positioned : assembly.reader.Positioned
    offset (_ ++ fragment.payload)) (by omega)
  obtain ⟨recycled, taken⟩ := readPhysicalRecord_header
    (F := GrowingFile.sequentialFile) 0 split (by omega) accepts
  obtain ⟨moved, consumed⟩ :=
    positioned.advance (List.append_nil _).symm recycled
  generalize emptied : ({ assembly.reader with buffer := [], recycled := recycled } :
    Reader GrowingFile) = next at moved consumed
  have noBuffer : next.buffer = [] := by rw [← emptied]
  have nextLive : next.eof = false := by rw [← emptied]; exact live
  have dropped : assembly.reader.readPhysicalRecord GrowingFile.sequentialFile 0 =
      ⟨kBadRecordLen, [], assembly.reader.buffer.length, next⟩ := by
    rw [taken, takeRecord, if_pos (by dsimp only; omega), ← emptied]
    simp [live]
  obtain ⟨following, goesOn⟩ : ∃ following,
      readRecordStep GrowingFile.sequentialFile .skipAnyCorruptedRecords assembly =
        .inl following := by
    rw [readRecordStep, dropped]
    simp [handle, RecordType.code, kBadRecordLen, kBadHeader, kEof, kOldRecord,
      kBadRecord, kMaxRecordType]
  obtain ⟨reporter, sameReader⟩ := goesOnWith_handle _ _ _ _ _ goesOn
  rw [dropped] at sameReader
  -- What is left of the record is too short for a header.
  obtain ⟨reached, stillAtRest⟩ := consumed.reach_eq atRest
  have unread : next.file.unread.length = next.reach := by
    simp [reach, nextLive, noBuffer]
  have followingLive : following.reader.eof = false := by
    rw [sameReader]
    exact nextLive
  have refilled := refill_split moved.inFile
  rw [GrowingFile.nextArrival, stillAtRest, List.headD_nil, List.append_nil]
    at refilled
  have refillSize : following.reader.refill.buffer.length = next.reach := by
    rw [sameReader]
    change next.refill.buffer.length = next.reach
    omega
  have ended : following.reader.refill.eof = true := by
    have short : following.reader.refill.buffer.length < kBlockSize := by omega
    simpa [Reader.refill] using short
  have physical : following.reader.readPhysicalRecord GrowingFile.sequentialFile 0 =
      ⟨kBadHeader, [], following.reader.refill.buffer.length,
        { following.reader.refill with buffer := [] }⟩ := by
    rw [readPhysicalRecord_refill _ _ followingLive
        (by rw [sameReader]; exact moved.noError)
        (by rw [sameReader]; change next.buffer.length < _; simp [noBuffer, header]),
      readPhysicalRecord_short 0 ended (by omega), if_neg]
    intro none
    rw [none, List.length_nil] at refillSize
    omega
  obtain ⟨reporter', handled, -⟩ := handle_badHeader .skipAnyCorruptedRecords
    following following.reader.bufferOffset following.reader.refill.buffer.length
    { following.reader.refill with buffer := [] }
  have stops : readRecordStep GrowingFile.sequentialFile .skipAnyCorruptedRecords
      following = .inr ⟨false, [], { following.reader.refill with
        buffer := [], reporter := reporter' }⟩ := by
    rw [readRecordStep, physical, handled]
  exact ⟨_, .next goesOn (.stop stops rfl)⟩

end Reader
end Log

namespace WritableFileWriter

/-- A writer in buffered mode whose file is empty, because every flush so far has
failed. -/
structure Stalled
    (writer : WritableFileWriter FaultyFile)
    (capacity : Nat)
    (bytes : Bytes)
    (outcomes : List Status) : Prop where
  mode : writer.useOSBuffer = true
  capacityEq : writer.buf.capacity = capacity
  bytesEq : writer.buf.bytes = bytes
  fileEq : writer.writableFile = ⟨[], outcomes⟩

namespace Stalled

variable {traits : FaultyFile.Traits} {writer : WritableFileWriter FaultyFile}
  {capacity : Nat} {bytes data : Bytes} {failed : Status} {outcomes : List Status}

theorem append
    (stalled : writer.Stalled capacity bytes outcomes)
    (room : bytes.length + data.length ≤ capacity) :
    (append traits.writableFile data writer).1.ok = true ∧
      (append traits.writableFile data writer).2.Stalled capacity (bytes ++ data)
        outcomes := by
  obtain ⟨status, mode, file, size, kept⟩ :=
    @append_of_room _ traits.writableFile writer data (by
      rw [AlignedBuffer.currentSize, stalled.bytesEq, stalled.capacityEq]
      exact room)
  refine ⟨by rw [status]; rfl, mode.trans stalled.mode,
    size.trans stalled.capacityEq, ?_, file.trans stalled.fileEq⟩
  rw [kept, stalled.bytesEq]

theorem flush
    (stalled : writer.Stalled capacity bytes (failed :: outcomes))
    (fails : failed.ok = false)
    (nonempty : 0 < bytes.length) :
    (writer.flush traits.writableFile).1.ok = false ∧
      (writer.flush traits.writableFile).2.Stalled capacity bytes outcomes := by
  have file := stalled.fileEq
  have holds : 0 < writer.buf.bytes.length := by
    rw [stalled.bytesEq]
    exact nonempty
  have failing : writer.writableFile.outcome.ok = false := by
    rw [file]
    exact fails
  have flushed : writer.flush traits.writableFile =
      (writer.writableFile.outcome,
        { writer with writableFile := writer.writableFile.pass }) := by
    simp [WritableFileWriter.flush, writeOut, writeBuffered, stalled.mode, holds,
      AlignedBuffer.currentSize, FaultyFile.Traits.writableFile,
      FaultyFile.append, failing]
  rw [flushed]
  refine ⟨failing, stalled.mode, stalled.capacityEq, stalled.bytesEq, ?_⟩
  rw [file]
  rfl

/-- A full buffer refuses the data when the flush fails. -/
theorem refuses
    (stalled : writer.Stalled capacity bytes (failed :: outcomes))
    (fails : failed.ok = false)
    (short : data.length ≤ capacity)
    (full : capacity < bytes.length + data.length) :
    (WritableFileWriter.append traits.writableFile data writer).1.ok = false ∧
      (WritableFileWriter.append traits.writableFile data writer).2.Stalled
        capacity bytes outcomes := by
  have prepared : (writer.prepare traits.writableFile data.length).Stalled capacity
      bytes (failed :: outcomes) :=
    ⟨stalled.mode, stalled.capacityEq, stalled.bytesEq, stalled.fileEq⟩
  obtain ⟨status, after⟩ := @Stalled.flush traits _ _ _ _ _ prepared fails (by omega)
  have refused := (@append_of_full _ traits.writableFile writer data stalled.mode
    (by rw [stalled.capacityEq]; exact short)
    (by
      rw [AlignedBuffer.currentSize, stalled.bytesEq, stalled.capacityEq]
      exact full)).1 status
  rw [refused]
  exact ⟨status, after⟩

end Stalled
end WritableFileWriter

namespace Log
namespace Writer

section Stalling

variable {δ : Type} {D : Destination δ}

theorem dest_switchBlock
    {writer : Writer δ}
    (noGap : writer.format.gap writer.blockOffset = 0) :
    (writer.switchBlock D).dest = writer.dest := by
  have gapEq : writer.format.gap writer.blockOffset =
      if writer.leftover < headerSize writer.recycleLogFiles then writer.leftover
      else 0 := rfl
  unfold switchBlock
  split
  · rename_i switches
    rw [noGap, if_pos switches] at gapEq
    simp [← gapEq]
  · rfl

/-- A call whose first fragment fails is over. -/
theorem addRecord_of_failed
    {writer : Writer δ}
    {record : Bytes}
    (fails : ((writer.switchBlock D).emitFragment D true record).1.ok = false) :
    writer.addRecord D record =
      (writer.switchBlock D).emitFragment D true record := by
  rw [addRecord, addRecordLoop]
  simp [fails]

variable {traits : FaultyFile.Traits}
  {writer : Writer (WritableFileWriter FaultyFile)} {record bytes : Bytes}
  {capacity : Nat} {failed : Status} {outcomes : List Status}

/-- When the flush fails, the fragment stays in the buffer. -/
theorem emitPhysicalRecord_stalled
    (stalled : writer.dest.Stalled capacity bytes (failed :: outcomes))
    (fails : failed.ok = false)
    (t : RecordType)
    (ptr : Bytes)
    (room : bytes.length + (formatHeader writer.logNumber t ptr ++ ptr).length ≤
      capacity) :
    let result := writer.emitPhysicalRecord
      (WritableFileWriter.destination traits.writableFile) t ptr
    result.1.ok = false ∧
      result.2.dest.Stalled capacity
        (bytes ++ (formatHeader writer.logNumber t ptr ++ ptr)) outcomes := by
  have headerLength := length_formatHeader writer.logNumber t ptr
  have bounds := headerSize_bounds (isRecyclable t)
  rw [List.length_append] at room
  obtain ⟨headerOk, withHeader⟩ := @WritableFileWriter.Stalled.append traits _ _ _
    (formatHeader writer.logNumber t ptr) _ stalled (by omega)
  obtain ⟨payloadOk, withPayload⟩ := @WritableFileWriter.Stalled.append traits _ _ _
    ptr _ withHeader (by rw [List.length_append]; omega)
  obtain ⟨status, after⟩ := @WritableFileWriter.Stalled.flush traits _ _ _ _ _
    withPayload fails (by simp only [List.length_append]; omega)
  rw [List.append_assoc] at after
  simp only [emitPhysicalRecord, WritableFileWriter.destination, headerOk,
    payloadOk, if_true]
  exact ⟨status, after⟩

/-- When the header is refused, nothing of the fragment is accepted. -/
theorem emitPhysicalRecord_refused
    (stalled : writer.dest.Stalled capacity bytes (failed :: outcomes))
    (fails : failed.ok = false)
    (t : RecordType)
    (ptr : Bytes)
    (short : headerSize (isRecyclable t) ≤ capacity)
    (full : capacity < bytes.length + headerSize (isRecyclable t)) :
    let result := writer.emitPhysicalRecord
      (WritableFileWriter.destination traits.writableFile) t ptr
    result.1.ok = false ∧ result.2.dest.Stalled capacity bytes outcomes := by
  rw [← length_formatHeader writer.logNumber t ptr] at short full
  obtain ⟨refused, after⟩ := @WritableFileWriter.Stalled.refuses traits _ _ _ _ _ _
    stalled fails short full
  simp only [emitPhysicalRecord, WritableFileWriter.destination, refused,
    Bool.false_eq_true, if_false]
  exact ⟨trivial, after⟩

/-- A call whose flush fails leaves the first fragment of its record in the
buffer. -/
theorem addRecord_stalled
    (stalled : writer.dest.Stalled capacity bytes (failed :: outcomes))
    (fails : failed.ok = false)
    (noGap : writer.format.gap writer.blockOffset = 0)
    (room : bytes.length + (writer.format.encode
      (writer.firstFragment true record)).length ≤ capacity) :
    let result := writer.addRecord
      (WritableFileWriter.destination traits.writableFile) record
    result.1.ok = false ∧
      result.2.dest.Stalled capacity
        (bytes ++ writer.format.encode (writer.firstFragment true record))
        outcomes ∧
      result.2.blockOffset = writer.format.endOffset writer.blockOffset
        (writer.firstLength record) ∧
      result.2.format = writer.format := by
  rw [← @dest_switchBlock _
    (WritableFileWriter.destination traits.writableFile) _ noGap] at stalled
  have emitted := @emitPhysicalRecord_stalled traits _ _ _ _ _ stalled fails
    (writer.format.type (writer.firstFragment true record))
    (writer.firstFragment true record).payload (by
      rw [logNumber_switchBlock]
      exact room)
  rw [← emitFragment_switchBlock, logNumber_switchBlock] at emitted
  rw [addRecord_of_failed emitted.1]
  exact ⟨emitted.1, emitted.2, blockOffset_emitFragment_switchBlock _ _ _ _,
    format_emitFragment_switchBlock _ _ _ _⟩

/-- A call whose header is refused moves the block offset over a fragment that
has not been accepted. -/
theorem addRecord_refused
    (stalled : writer.dest.Stalled capacity bytes (failed :: outcomes))
    (fails : failed.ok = false)
    (noGap : writer.format.gap writer.blockOffset = 0)
    (short : writer.format.header ≤ capacity)
    (full : capacity < bytes.length + writer.format.header) :
    let result := writer.addRecord
      (WritableFileWriter.destination traits.writableFile) record
    result.1.ok = false ∧
      result.2.dest.Stalled capacity bytes outcomes ∧
      result.2.blockOffset = writer.format.endOffset writer.blockOffset
        (writer.firstLength record) ∧
      result.2.format = writer.format := by
  rw [← @dest_switchBlock _
    (WritableFileWriter.destination traits.writableFile) _ noGap] at stalled
  have headerEq : headerSize (isRecyclable
      (writer.format.type (writer.firstFragment true record))) =
        writer.format.header := by
    rw [Format.type, isRecyclable_fragmentType]
    rfl
  have emitted := @emitPhysicalRecord_refused traits _ _ _ _ _ stalled fails
    (writer.format.type (writer.firstFragment true record))
    (writer.firstFragment true record).payload
    (by rw [headerEq]; exact short) (by rw [headerEq]; exact full)
  rw [← emitFragment_switchBlock] at emitted
  rw [addRecord_of_failed emitted.1]
  exact ⟨emitted.1, emitted.2, blockOffset_emitFragment_switchBlock _ _ _ _,
    format_emitFragment_switchBlock _ _ _ _⟩

/-! ## A run that loses an acknowledged record -/

/-- A record that fits in what is left of the block is its own first fragment. -/
theorem firstFragment_of_fits
    (writer : Writer δ)
    (start : Bool)
    {left : Bytes}
    (fits : left.length ≤ kBlockSize -
      writer.format.startOffset writer.blockOffset - writer.format.header) :
    writer.firstLength left = left.length ∧
      writer.firstFragment start left = ⟨start, true, left⟩ := by
  have all : writer.firstLength left = left.length := by
    unfold firstLength
    omega
  simp [firstFragment, all]

theorem length_encode_block
    {format : Format}
    (header : format.header = 7)
    {big : Bytes}
    (bigLength : big.length = 32761) :
    (format.encode ⟨true, true, big⟩).length = 32768 := by
  rw [Format.length_encode, header, bigLength]

/-- A call whose record fills a block puts the block into the buffer. -/
theorem addRecord_fills_block
    {big : Bytes}
    (bigLength : big.length = 32761)
    (fails : failed.ok = false)
    (stalled : writer.dest.Stalled 65536 bytes (failed :: outcomes))
    (header : writer.format.header = 7)
    (offset : writer.blockOffset = 0 ∨ writer.blockOffset = kBlockSize)
    (room : bytes.length ≤ 32768) :
    let result := writer.addRecord
      (WritableFileWriter.destination traits.writableFile) big
    result.1.ok = false ∧
      result.2.dest.Stalled 65536
        (bytes ++ writer.format.encode ⟨true, true, big⟩) outcomes ∧
      result.2.blockOffset = kBlockSize ∧
      result.2.format = writer.format := by
  have atStart : writer.format.gap writer.blockOffset = 0 ∧
      writer.format.startOffset writer.blockOffset = 0 := by
    rcases offset with zero | full
    · simp [zero]
    · simp [full]
  obtain ⟨length, fragment⟩ := @firstFragment_of_fits _ writer true big (by
    rw [bigLength, atStart.2, header, kBlockSize_eq])
  have block := length_encode_block header bigLength
  obtain ⟨status, after, offset', format'⟩ := @addRecord_stalled traits writer big
    bytes 65536 failed outcomes stalled fails atStart.1
    (by rw [fragment, block]; omega)
  rw [fragment] at after
  rw [length, bigLength, Format.endOffset, atStart.2, header] at offset'
  exact ⟨status, after, offset'.trans kBlockSize_eq.symm, format'⟩

/-- Two calls fill the buffer with a block each, and a third one finds it full.
It moves the block offset over a header that has not been accepted. -/
theorem addRecords_out_of_step
    {big : Bytes}
    (bigLength : big.length = 32761)
    (fails : failed.ok = false)
    (stalled : writer.dest.Stalled 65536 [] [failed, failed, failed])
    (header : writer.format.header = 7)
    (offset : writer.blockOffset = 0) :
    let D := WritableFileWriter.destination traits.writableFile
    let after := writer.addRecords D [big, big, []]
    (∀ rest, acknowledged D writer (big :: big :: [] :: rest) =
        acknowledged D after rest) ∧
      after.dest.Stalled 65536 (writer.format.encode ⟨true, true, big⟩ ++
        writer.format.encode ⟨true, true, big⟩) [] ∧
      after.blockOffset = 7 ∧
      after.format = writer.format := by
  intro D after
  have block := length_encode_block header bigLength
  obtain ⟨ok₁, stalled₁, offset₁, format₁⟩ := @addRecord_fills_block traits writer _
    _ _ _ bigLength fails stalled header (.inl offset) (by simp)
  rw [List.nil_append] at stalled₁
  obtain ⟨ok₂, stalled₂, offset₂, format₂⟩ := @addRecord_fills_block traits _ _ _ _ _
    bigLength fails stalled₁ (by rw [format₁, header]) (.inr offset₁) block.le
  rw [format₁] at stalled₂ format₂
  obtain ⟨ok₃, stalled₃, offset₃, format₃⟩ := @addRecord_refused traits _ [] _ _ _ _
    stalled₂ fails (by rw [format₂, offset₂, Format.gap_kBlockSize])
    (by rw [format₂, header]; decide)
    (by rw [format₂, List.length_append, block, header]; decide)
  have empty : firstLength (addRecord D (addRecord D writer big).2 big).2 [] = 0 :=
    Nat.zero_min _
  rw [format₂, offset₂, empty] at offset₃
  refine ⟨fun rest => ?_, stalled₃, offset₃.trans ?_, format₃.trans format₂⟩
  · simp only [acknowledged, ok₁, ok₂, ok₃, D]
    rfl
  · simp [Format.endOffset, header]

/-- A call for a record that fits in what is left of the block appends one
fragment, when nothing fails any more. -/
theorem addRecord_quiet
    (buffered : writer.dest.Buffered)
    (quiet : writer.dest.writableFile.outcomes = [])
    (noGap : writer.format.gap writer.blockOffset = 0)
    (fits : record.length ≤ kBlockSize -
      writer.format.startOffset writer.blockOffset - writer.format.header) :
    let result := writer.addRecord
      (WritableFileWriter.destination traits.writableFile) record
    result.1.ok = true ∧
      result.2.dest.accepted FaultyFile.contents =
        writer.dest.accepted FaultyFile.contents ++
          writer.format.encode ⟨true, true, record⟩ ∧
      result.2.blockOffset =
        writer.format.endOffset writer.blockOffset record.length ∧
      result.2.format = writer.format ∧
      result.2.dest.Buffered ∧
      result.2.dest.writableFile.outcomes = [] := by
  obtain ⟨length, fragment⟩ := writer.firstFragment_of_fits true fits
  obtain ⟨written, others, split, -, bytes, offset, format, valid, whole, always⟩ :=
    addRecord_accepts (WritableFileWriter.destination_accepts_quiet traits) writer
      record ⟨buffered, quiet⟩
  have ok := always fun dest valid =>
    WritableFileWriter.flush_ok_quiet valid.1.mode valid.2
  rw [whole ok, List.append_nil, fragments_eq, length, fragment, if_neg (by simp)]
    at split
  rw [← split] at bytes offset
  simp only [Format.place_cons, noGap, List.replicate_zero, List.nil_append,
    Format.place_nil, List.append_nil] at bytes
  exact ⟨ok, bytes, offset, format, valid.1, valid.2⟩

end Stalling
end Writer

namespace Reader

/-- The reader finds three records, and drops a fourth one that straddles the end
of the third block. -/
theorem readRecords_out_of_step
    {format : Format}
    (header : format.header = 7)
    {big kept lost : Bytes}
    (bigLength : big.length = 32761)
    (keptLength : kept.length = 32754)
    (lostLength : lost.length = 1)
    (reporter : Option (List Report))
    (checksum : Bool)
    (logNumber : UInt64)
    (sameLog : ∀ file : GrowingFile,
      (Reader.new file reporter checksum 0 logNumber).Accepts format) :
    let contents := format.encode ⟨true, true, big⟩ ++
      (format.encode ⟨true, true, big⟩ ++
        (format.encode ⟨true, true, kept⟩ ++
          format.encode ⟨true, true, lost⟩))
    ∃ final enough, ∀ fuel, enough ≤ fuel →
      (Reader.new (GrowingFile.atRest contents) reporter checksum 0 logNumber).readRecords
        GrowingFile.sequentialFile .skipAnyCorruptedRecords fuel =
          some ([big, big, kept], final) := by
  intro contents
  have block := kBlockSize_eq
  have afterBig : format.endOffset kBlockSize big.length = kBlockSize := by
    rw [Format.endOffset, Format.startOffset_kBlockSize, header, bigLength, block]
  have afterKept : format.endOffset kBlockSize kept.length = 32761 := by
    rw [Format.endOffset, Format.startOffset_kBlockSize, header, keptLength]
  have noGap : format.gap 32761 = 0 := by
    simp [Format.gap, header, block]
  have placed : contents = format.place kBlockSize
      ([⟨true, true, big⟩, ⟨true, true, big⟩, ⟨true, true, kept⟩] ++
        [⟨true, true, lost⟩]) :=
    (Format.place_blocks format.gap_kBlockSize afterBig afterKept noGap).symm
  have fits : format.Fits kBlockSize
      [⟨true, true, big⟩, ⟨true, true, big⟩, ⟨true, true, kept⟩] := by
    simp [Format.Fits, afterBig, afterKept, block.symm.le.trans' (by decide :
      32761 ≤ 32768)]
  have accepts := sameLog (GrowingFile.atRest contents)
  have isWhole : contents <+: format.place kBlockSize
      ([⟨true, true, big⟩, ⟨true, true, big⟩, ⟨true, true, kept⟩] ++
        [⟨true, true, lost⟩]) := by
    rw [placed]
  have positioned := positioned_new isWhole reporter checksum logNumber
  rw [Format.place_append] at positioned
  have reaches := reach_new contents reporter checksum logNumber
  have size : contents.length = (format.place kBlockSize
      [⟨true, true, big⟩, ⟨true, true, big⟩, ⟨true, true, kept⟩]).length +
        (format.encode ⟨true, true, lost⟩).length := by
    rw [placed, Format.place_append, List.length_append]
    simp only [Format.advance, afterBig, afterKept]
    rw [Format.place_of_noGap noGap, Format.place_nil, List.append_nil]
  obtain ⟨next, steps, moved, consumed, -, -, -⟩ :=
    @steps_fragments .skipAnyCorruptedRecords (startAssembly (Reader.new
      (GrowingFile.atRest contents) reporter checksum 0 logNumber)) _ _ _ _ positioned fits
      (by rw [Assembly.reader_startAssembly, reaches]; omega) accepts rfl Bool.false_ne_true.elim
  obtain ⟨reached, atRest⟩ := consumed.reach_eq rfl
  rw [Assembly.reader_startAssembly, reaches] at reached
  simp only [Format.advance, afterBig, afterKept] at moved
  rw [Format.place_of_noGap noGap, Format.place_nil, List.append_nil] at moved
  have length := format.length_encode ⟨true, true, lost⟩
  rw [header, lostLength] at length
  obtain ⟨final, reads⟩ := reads_straddling moved (by rw [header, block])
    (by rw [length, block]; decide) (by rw [length, block]; decide) (by omega)
    atRest (consumed.accepts accepts)
  exact ⟨final, (steps.reads reads).readRecords rfl⟩

end Reader

namespace Writer

/-- Two records fill the buffer while flushes fail, and an empty one is refused.
Of the next two, which are acknowledged, the second is lost. -/
theorem addRecords_loses_record
    {traits : FaultyFile.Traits}
    {writer : Writer (WritableFileWriter FaultyFile)}
    {failed : Status}
    {big kept lost : Bytes}
    (bigLength : big.length = 32761)
    (keptLength : kept.length = 32754)
    (lostLength : lost.length = 1)
    (fails : failed.ok = false)
    (stalled : writer.dest.Stalled 65536 [] [failed, failed, failed])
    (header : writer.format.header = 7)
    (offset : writer.blockOffset = 0)
    (reporter : Option (List Report))
    (checksum : Bool)
    (logNumber : UInt64)
    (sameLog : ∀ file : GrowingFile,
      (Reader.new file reporter checksum 0 logNumber).Accepts writer.format) :
    let D := WritableFileWriter.destination traits.writableFile
    let middle := writer.addRecords D [big, big, []]
    let flushed := (writer.addRecords D [big, big, [], kept, lost]).dest.flush
      traits.writableFile
    middle.blockOffset = 7 ∧
      (middle.dest.accepted FaultyFile.contents).length = 65536 ∧
      acknowledged D writer [big, big, [], kept, lost] = [kept, lost] ∧
      flushed.1.ok = true ∧
      ∃ final enough, ∀ fuel, enough ≤ fuel →
        (Reader.new (GrowingFile.atRest flushed.2.writableFile.contents) reporter
          checksum 0 logNumber).readRecords GrowingFile.sequentialFile
            .skipAnyCorruptedRecords fuel = some ([big, big, kept], final) := by
  intro D middle flushed
  have block := kBlockSize_eq
  obtain ⟨acked, full, offset₃, format₃⟩ := @addRecords_out_of_step traits writer
    failed big bigLength fails stalled header offset
  have noGap : writer.format.gap 7 = 0 := by
    simp [Format.gap, header, block]
  have starts : writer.format.startOffset 7 = 7 := by
    simp [Format.startOffset, header, block]
  have accepted₃ : middle.dest.accepted FaultyFile.contents =
      writer.format.encode ⟨true, true, big⟩ ++
        writer.format.encode ⟨true, true, big⟩ := by
    rw [WritableFileWriter.accepted, full.bytesEq, full.fileEq, List.nil_append]
  obtain ⟨ok₄, accepted₄, offset₄, format₄, buffered₄, quiet₄⟩ :=
    @addRecord_quiet traits middle kept ⟨full.mode, full.capacityEq.ge⟩
      (by rw [full.fileEq]) (by rw [format₃, offset₃, noGap])
      (by rw [format₃, offset₃, starts, header, keptLength, block])
  rw [format₃, offset₃, Format.endOffset, starts, header, keptLength] at offset₄
  have atEnd : (middle.addRecord D kept).2.blockOffset = kBlockSize :=
    offset₄.trans block.symm
  rw [format₃] at format₄ accepted₄
  obtain ⟨ok₅, accepted₅, -, -, buffered₅, quiet₅⟩ :=
    @addRecord_quiet traits (middle.addRecord D kept).2 lost buffered₄ quiet₄
      (by rw [format₄, atEnd, Format.gap_kBlockSize])
      (by
        rw [format₄, atEnd, Format.startOffset_kBlockSize, header, lostLength, block]
        decide)
  have flushOk : flushed.1.ok = true :=
    WritableFileWriter.flush_ok_quiet buffered₅.mode quiet₅
  have contents : flushed.2.writableFile.contents =
      writer.format.encode ⟨true, true, big⟩ ++
        (writer.format.encode ⟨true, true, big⟩ ++
          (writer.format.encode ⟨true, true, kept⟩ ++
            writer.format.encode ⟨true, true, lost⟩)) := by
    refine (WritableFileWriter.contents_flush traits.keeps buffered₅.mode
      flushOk).trans ?_
    rw [accepted₅, accepted₄, format₄, accepted₃]
    simp only [List.append_assoc]
  refine ⟨offset₃, ?_, ?_, flushOk, ?_⟩
  · rw [accepted₃, List.length_append, length_encode_block header bigLength]
  · rw [acked]
    simp only [acknowledged, middle, D] at ok₄ ok₅ ⊢
    simp [ok₄, ok₅]
  · rw [contents]
    exact Reader.readRecords_out_of_step header bigLength keptLength lostLength
      reporter checksum logNumber sameLog

/-- A log whose first three flushes fail. -/
def stalledLog : Writer (WritableFileWriter FaultyFile) :=
  onFaultyFile .default [.IOError "", .IOError "", .IOError ""] 65536 0 7 false

/-- A record that fills a block. -/
def blockRecord : Bytes := List.replicate 32761 1

/-- A record that leaves room for one more header in a block. -/
def keptRecord : Bytes := List.replicate 32754 2

theorem acknowledged_record_lost :
    let D := WritableFileWriter.destination
      FaultyFile.Traits.default.writableFile
    let middle := stalledLog.addRecords D [blockRecord, blockRecord, []]
    let final := stalledLog.addRecords D
      [blockRecord, blockRecord, [], keptRecord, [3]]
    let flushed := final.dest.flush FaultyFile.Traits.default.writableFile
    middle.blockOffset % kBlockSize ≠
        (middle.dest.accepted FaultyFile.contents).length % kBlockSize ∧
      acknowledged D stalledLog [blockRecord, blockRecord, [], keptRecord, [3]] =
        [keptRecord, [3]] ∧
      flushed.1.ok = true ∧
      ∃ final enough, ∀ fuel, enough ≤ fuel →
        (Reader.new (GrowingFile.atRest flushed.2.writableFile.contents) none
          true 0 7).readRecords GrowingFile.sequentialFile
            .skipAnyCorruptedRecords fuel =
              some ([blockRecord, blockRecord, keptRecord], final) := by
  have stalled : stalledLog.dest.Stalled 65536 []
      [.IOError "", .IOError "", .IOError ""] :=
    ⟨rfl, by decide +kernel, rfl, rfl⟩
  have run := @addRecords_loses_record .default stalledLog (.IOError "") blockRecord
    keptRecord [3] List.length_replicate List.length_replicate rfl rfl stalled rfl rfl
    none true 7 (fun _ => @Reader.accepts_new _ false 7 Bool.false_ne_true.elim none true)
  refine ⟨?_, run.2.2⟩
  rw [run.1, run.2.1]
  decide

end Writer
end Log
end RocksUtil
