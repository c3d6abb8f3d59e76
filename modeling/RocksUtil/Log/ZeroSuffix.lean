import RocksUtil.Log.Outcomes
import RocksUtil.Log.Writing

/-!
# Zeros behind a log

A file that is allocated in regions is longer than the log in it, and reads as
zeros behind the log.  Outside of `kAbsoluteConsistency` a reader passes over any
number of zeros without a report: they are the trailer of a block, empty records of
type zero, or a header that the end of the file cuts off.
-/

namespace RocksUtil
namespace Log
namespace Reader

/-- Only `count` zeros are ahead of the reader. -/
structure InZeros (reader : Reader GrowingFile) (offset count : Nat) : Prop where
  positioned : reader.Positioned offset (List.replicate count 0)
  atRest : reader.file.arrivals = []
  whole : reader.reach = count

section Zeros

variable {mode : WALRecoveryMode} {assembly : Assembly GrowingFile}
  {reader next there : Reader GrowingFile} {offset count : Nat}

theorem InZeros.move
    (zeros : InZeros reader offset count)
    {taken offset' : Nat}
    (consumed : Consumes reader next taken)
    (positioned : next.Positioned offset' ((List.replicate count 0).drop taken))
    (inFront : taken ≤ count) :
    InZeros next offset' (count - taken) := by
  obtain ⟨reached, atRest⟩ := consumed.reach_eq zeros.atRest
  have whole := zeros.whole
  rw [List.drop_replicate] at positioned
  exact ⟨positioned, atRest, by omega⟩

theorem InZeros.length_buffer (zeros : InZeros reader offset count) :
    reader.buffer.length = min (kBlockSize - offset) count := by
  have length := zeros.positioned.length_buffer
    (by rw [List.length_replicate]; exact zeros.whole)
  rw [List.length_replicate] at length
  exact length

theorem InZeros.buffer_eq (zeros : InZeros reader offset count) :
    reader.buffer = List.replicate reader.buffer.length 0 := by
  have length := zeros.length_buffer
  have buffer := zeros.positioned.buffer_eq
  rw [List.take_replicate, Nat.min_eq_left (by omega)] at buffer
  exact buffer

/-- Dropping the rest of the block. -/
theorem InZeros.clear (zeros : InZeros reader offset count) :
    InZeros { reader with buffer := [], recycled := reader.recycled }
      (offset + reader.buffer.length) (count - reader.buffer.length) := by
  have length := zeros.length_buffer
  obtain ⟨moved, consumed⟩ := zeros.positioned.advance
    (List.append_nil reader.buffer).symm reader.recycled
  exact zeros.move consumed moved (by omega)

/-- Fetching the next block. -/
theorem InZeros.refill
    (zeros : InZeros reader offset count)
    (live : reader.eof = false) :
    InZeros reader.refill 0 (count - reader.buffer.length) := by
  have length := zeros.length_buffer
  obtain ⟨moved, consumed⟩ := zeros.positioned.refill live
  exact zeros.move consumed moved (by omega)

/-- From `assembly` on nothing is returned or reported, and reading ends where the zeros
do, which is at `finish` in its block. -/
def PassesZeros
    (mode : WALRecoveryMode)
    (assembly : Assembly GrowingFile)
    (finish : Nat) : Prop :=
  ∃ (there : Reader GrowingFile) (offset count : Nat),
    Reads GrowingFile.sequentialFile mode assembly []
        { there with buffer := [], reporter := assembly.reader.reporter } ∧
      there.eof = true ∧ InZeros there offset count ∧
      (offset + count) % kBlockSize = finish % kBlockSize

/-- With the end of the file or a whole header in the buffer, reading ends or goes
on with fewer zeros. -/
theorem InZeros.passes_filled
    (tolerant : mode ≠ .absoluteConsistency)
    (sees : Sees assembly there)
    (zeros : InZeros there offset count)
    {finish : Nat}
    (ends : (offset + count) % kBlockSize = finish % kBlockSize)
    (between : assembly.pending = none)
    (filled : kHeaderSize ≤ there.buffer.length ∨ there.eof = true)
    (rest : ∀ (next : Assembly GrowingFile) (offset' count' : Nat),
      count' < count → InZeros next.reader offset' count' →
        (offset' + count') % kBlockSize = finish % kBlockSize → next.pending = none →
          PassesZeros mode next finish) :
    PassesZeros mode assembly finish := by
  have seven := kHeaderSize_eq
  have length := zeros.length_buffer
  by_cases enough : kHeaderSize ≤ there.buffer.length
  · have physical := @readPhysicalRecord_zeros _ GrowingFile.sequentialFile there 0 _
      zeros.buffer_eq enough
    have step := readRecordStep_badRecord mode (sees.same.trans physical) between
    have sameEnd : offset + there.buffer.length + (count - there.buffer.length) =
        offset + count := by omega
    obtain ⟨last, offset', count', reads, rest⟩ := rest
      { assembly with reader := { there with buffer := [] } } _ _
      (by omega) zeros.clear (by rw [sameEnd, ends]) between
    have all : Reads GrowingFile.sequentialFile mode assembly []
        { last with buffer := [], reporter := there.reporter } := .next step reads
    rw [sees.silent] at all
    exact ⟨last, offset', count', all, rest⟩
  · have ended : there.eof = true := filled.resolve_left enough
    have physical := @readPhysicalRecord_short _ GrowingFile.sequentialFile there 0
      ended (Nat.lt_of_not_le enough)
    refine ⟨there, offset, count, ?_, ended, zeros, ends⟩
    split at physical
    · obtain ⟨reporter, finished, quiet, -⟩ := finish_eq
        { assembly with reader := { there with buffer := [] } } mode
      have step : readRecordStep GrowingFile.sequentialFile mode assembly =
          .inr ⟨false, [], { there with buffer := [], reporter := reporter }⟩ := by
        rw [readRecordStep, sees.same, physical, handle_eof, finished]
      rw [← (quiet (.inl tolerant)).trans sees.silent]
      exact .stop step rfl
    · obtain ⟨reporter, handled, quiet, -⟩ := handle_badHeader mode assembly
        assembly.reader.bufferOffset there.buffer.length { there with buffer := [] }
      have step : readRecordStep GrowingFile.sequentialFile mode assembly =
          .inr ⟨false, [], { there with buffer := [], reporter := reporter }⟩ := by
        rw [readRecordStep, sees.same, physical, handled]
      rw [← (quiet tolerant).trans sees.silent]
      exact .stop step rfl

/-- Zeros are passed over, whatever their number. -/
theorem InZeros.passes
    (tolerant : mode ≠ .absoluteConsistency)
    (zeros : InZeros assembly.reader offset count)
    {finish : Nat}
    (ends : (offset + count) % kBlockSize = finish % kBlockSize)
    (between : assembly.pending = none) :
    PassesZeros mode assembly finish := by
  induction count using Nat.strongRecOn generalizing assembly offset with
  | ind count inductionHypothesis =>
      have seven := kHeaderSize_eq
      have block := kBlockSize_eq
      have rest (next : Assembly GrowingFile) (offset' count' : Nat)
          (fewer : count' < count) (zeros' : InZeros next.reader offset' count')
          (ends' : (offset' + count') % kBlockSize = finish % kBlockSize)
          (between' : next.pending = none) : PassesZeros mode next finish :=
        inductionHypothesis count' fewer zeros' ends' between'
      by_cases filled : kHeaderSize ≤ assembly.reader.buffer.length ∨
          assembly.reader.eof = true
      · exact zeros.passes_filled tolerant (Sees.refl assembly) ends between filled rest
      · -- The bytes left in the block are too few for a header, and the next block
        -- is fetched.
        rw [not_or, Nat.not_le, Bool.not_eq_true] at filled
        obtain ⟨short, live⟩ := filled
        have same := readPhysicalRecord_refill assembly.reader 0 live
          zeros.positioned.noError short
        have before := zeros.length_buffer
        have atEnd := (zeros.positioned.live live).1
        have refilled := zeros.refill live
        have length := refilled.length_buffer
        refine refilled.passes_filled tolerant ⟨same, rfl⟩ ?_ between ?_ ?_
        · have split : offset + count =
              kBlockSize + (0 + (count - assembly.reader.buffer.length)) := by omega
          rw [← ends, split, Nat.add_mod_left]
        · cases ended : assembly.reader.refill.eof with
          | true => exact .inr rfl
          | false =>
              have full := refilled.positioned.live ended
              exact .inl (by omega)
        · intro next offset' count' fewer
          exact rest next offset' count' (by omega)

end Zeros

section Logs

variable {mode : WALRecoveryMode} {format : Format} {records : List Bytes}

/-- Reading a log with zeros behind it. -/
theorem readRecords_zeroSuffix
    (tolerant : mode ≠ .absoluteConsistency)
    {written : Bytes}
    (log : written = format.logBytes 0 records)
    (count : Nat)
    (checksum : Bool)
    (logNumber : UInt64)
    (accepts : format.recycle = true →
      format.logNumber.toUInt32.toUInt64 = logNumber) :
    ∃ final,
      (∃ enough, ∀ fuel, enough ≤ fuel →
        (Reader.new (GrowingFile.atRest (written ++ List.replicate count 0))
          (some []) checksum 0 logNumber).readRecords GrowingFile.sequentialFile
            mode fuel = some (records, final)) ∧
        final.reporter = some [] := by
  subst log
  obtain ⟨next, steps, moved, consumed, reached, atRest, pending, quiet⟩ :=
    steps_log format records mode (List.replicate count 0) (some []) checksum
      logNumber accepts
  rw [List.length_replicate] at reached
  have zeros : InZeros next.reader
      (format.advance kBlockSize (format.fragmentsOf kBlockSize records)) count :=
    ⟨moved, atRest, reached⟩
  obtain ⟨there, offset, left, reads, -⟩ := zeros.passes tolerant rfl pending
  have all := steps.reads reads
  rw [List.append_nil] at all
  exact ⟨_, all.readRecords rfl, quiet⟩

variable {δ : Type} {D : Destination δ} {contents : δ → Bytes} {dest : δ}

/-- Zeros behind a log are harmless outside of `kAbsoluteConsistency`. -/
theorem zero_suffix_harmless
    (succeeds : D.Succeeds contents)
    (fresh : contents dest = [])
    (recycle : Bool)
    (logNumber : UInt64)
    (small : logNumber.toNat < 2 ^ 32)
    (records : List Bytes)
    (count : Nat)
    (checksum : Bool)
    (tolerant : mode = .tolerateCorruptedTailRecords ∨
      mode = .pointInTimeRecovery ∨ mode = .skipAnyCorruptedRecords) :
    let written := contents ((Writer.new dest logNumber recycle).addRecords D
      records).dest
    ∃ final,
      (∃ enough, ∀ fuel, enough ≤ fuel →
        (Reader.new (GrowingFile.atRest (written ++ List.replicate count 0))
          (some []) checksum 0 logNumber).readRecords GrowingFile.sequentialFile
            mode fuel = some (records, final)) ∧
        final.reporter = some [] := by
  have notAbsolute : mode ≠ .absoluteConsistency := by
    rcases tolerant with rfl | rfl | rfl <;> decide
  exact readRecords_zeroSuffix notAbsolute
    (Writer.contents_addRecords_new succeeds fresh recycle logNumber records) count
    checksum logNumber (fun _ => toUInt32_toUInt64_of_lt small)

theorem zero_suffix_harmless_sample :
    ∃ final,
      (∃ enough, ∀ fuel, enough ≤ fuel →
        (Reader.new (GrowingFile.atRest (id ((Writer.new [] 7 true).addRecords
          Destination.memory [[1], [2]]).dest ++ List.replicate 70000 0))
          (some []) true 0 7).readRecords GrowingFile.sequentialFile
            .pointInTimeRecovery fuel = some ([[1], [2]], final)) ∧
        final.reporter = some [] :=
  zero_suffix_harmless Destination.memory_succeeds (rfl : id ([] : Bytes) = []) true
    7 (by decide) [[1], [2]] 70000 true (.inr (.inl rfl))

end Logs

end Reader
end Log
end RocksUtil
