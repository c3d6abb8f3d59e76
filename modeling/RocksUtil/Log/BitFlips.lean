import RocksUtil.Crc32c.Detection
import RocksUtil.Log.Isolation
import RocksUtil.Log.Outcomes

/-!
# Flipped bits

A log of the legacy format in which one bit of one physical record is flipped, in
its checksum, its type or its payload, read in `kAbsoluteConsistency`.  The
checksum notices every such flip, but the type byte is looked at first: a flip
can turn the record into one of type zero, or into one of the recyclable format.
-/

namespace RocksUtil
namespace Log

open Coding

/-- Flip one bit of a byte. -/
def flipBit (bit : Fin 8) (byte : UInt8) : UInt8 :=
  byte ^^^ UInt8.ofNat (2 ^ bit.val)

theorem flipBit_ne (bit : Fin 8) (byte : UInt8) : byte ≠ flipBit bit byte := by
  intro same
  have nonzero : ∀ bit : Fin 8, 0 ≠ UInt8.ofNat (2 ^ bit.val) := by decide
  have cancel : byte ^^^ 0 = byte ^^^ UInt8.ofNat (2 ^ bit.val) := by
    rw [UInt8.xor_zero]
    exact same
  exact nonzero bit ((UInt8.xor_right_inj byte).mp cancel)

/-- The byte at `index` of a physical record belongs to its checksum, its type or
its payload. -/
def Covered (length index : Nat) : Prop :=
  index < 4 ∨ 6 ≤ index ∧ index < length

namespace Reader

/-- The checksum notices every flip of a bit it covers, and every flip of a bit of
the stored checksum. -/
theorem crcMatches_flipped
    {bytes : Bytes}
    {length index : Nat}
    (whole : bytes.length = kHeaderSize + length)
    (matching : crcMatches bytes kHeaderSize length = true)
    (covered : Covered bytes.length index)
    (bit : Fin 8) :
    crcMatches (bytes.modify index (flipBit bit)) kHeaderSize length = false := by
  rw [kHeaderSize_eq] at whole
  have inside : index < bytes.length := by
    unfold Covered at covered
    omega
  have flippedLength : (bytes.modify index (flipBit bit)).length =
      bytes.length := List.length_modify _ _ _
  have all (other : Bytes) (same : other.length = bytes.length) :
      (other.drop 6).take (length + kHeaderSize - 6) = other.drop 6 := by
    apply List.take_of_length_le
    rw [List.length_drop, kHeaderSize_eq]
    omega
  obtain ⟨left, byte, right, split, size, flipped⟩ :=
    List.exists_of_modify (flipBit bit) inside
  have different := flipBit_ne bit byte
  rw [crcMatches, beq_iff_eq, all bytes rfl] at matching
  rw [crcMatches, beq_eq_false_iff_ne, all _ flippedLength]
  intro stillMatches
  rcases covered with inCrc | ⟨behind, -⟩
  · -- What is covered is the same, so the stored checksums would have to be.
    have sameCovered : (bytes.modify index (flipBit bit)).drop 6 =
        bytes.drop 6 := by
      rw [flipped]
      conv_rhs => rw [split]
      rw [List.drop_append, List.drop_append, List.drop_of_length_le (by omega)]
      have positive : 6 - left.length = (6 - left.length - 1) + 1 := by omega
      rw [positive, List.drop_succ_cons, List.drop_succ_cons]
    rw [sameCovered, matching] at stillMatches
    have stored := take_four_of_decodeFixed32 (by omega) (by omega)
      (Crc32c.unmask_injective stillMatches)
    have bytesAt := congrArg (fun other : Bytes => other[index]?) stored
    simp only [List.getElem?_take, if_pos inCrc] at bytesAt
    rw [flipped, ← size] at bytesAt
    conv_lhs at bytesAt => rw [split]
    simp only [List.getElem?_append_right (Nat.le_refl _), Nat.sub_self,
      List.getElem?_cons_zero, Option.some.injEq] at bytesAt
    exact different bytesAt
  · -- The stored checksum is the same, so the covered bytes would have to have
    -- the same checksum.
    have sameStored : decodeFixed32 (bytes.modify index (flipBit bit)) =
        decodeFixed32 bytes := by
      rw [flipped]
      conv_rhs => rw [split]
      rw [decodeFixed32_append _ (by omega), decodeFixed32_append _ (by omega)]
    rw [sameStored, ← matching, flipped] at stillMatches
    conv_rhs at stillMatches => rw [split]
    rw [List.drop_append_of_le_length (by omega),
      List.drop_append_of_le_length (by omega)] at stillMatches
    exact Crc32c.value_ne _ right different stillMatches.symm

/-! ## All outcomes -/

/-- The bytes found from a damaged record on. -/
def damagedBody
    (format : Format)
    (start : Nat)
    (stored : Bytes)
    (after : List Piece) : Bytes :=
  stored ++ format.place (start + stored.length) (after.map Piece.fragment)

/-- `ReadRecord` is about to read a record of which the bytes are `stored`, with
the intact pieces `after` behind it.  `prior` would be pending there if the record
had not been damaged. -/
structure Meets
    (format : Format)
    (assembly : Assembly GrowingFile)
    (there : Reader GrowingFile)
    (start position : Nat)
    (stored : Bytes)
    (after : List Piece)
    (prior : Option Bytes) : Prop where
  legacy : format.recycle = false
  sees : Sees assembly there
  facing : Standing format there start (damagedBody format start stored after)
  located : format.Located position (start + stored.length) after
  fits : format.Fits (start + stored.length) (after.map Piece.fragment)
  inBlock : Format.InBlock position (start + stored.length)
  begun : 0 < position
  chained : Chained prior.isSome (after.map Piece.fragment)
  complete : pendingAfter prior (after.map Piece.fragment) = none
  heard : assembly.reader.reporter.isSome
  whole : kHeaderSize + headerLength stored = stored.length
  joined : assembly.pending.isSome → start = 0

/-- The next block, if there is one, starts with the beginning of a record. -/
def NextBlockStarts (position : Nat) (after : List Piece) : Prop :=
  ∀ piece ∈ after,
    piece.position = ((position - 1) / kBlockSize + 1) * kBlockSize →
      piece.fragment.start = true

/-- From `assembly` on everything is read without a report. -/
def ReadsQuietly (assembly : Assembly GrowingFile) : Prop :=
  ∃ records final,
    Reads GrowingFile.sequentialFile .absoluteConsistency assembly records
        final ∧
      final.reporter = assembly.reader.reporter

/-- From `assembly` on everything is read, with a report. -/
def ReadsLoudly (assembly : Assembly GrowingFile) : Prop :=
  ∃ records final,
    Reads GrowingFile.sequentialFile .absoluteConsistency assembly records
        final ∧
      assembly.reader.reports.length < final.reports.length

section Meeting

variable {format : Format} {assembly next : Assembly GrowingFile}
  {there : Reader GrowingFile} {start position : Nat} {stored : Bytes}
  {after : List Piece} {prior : Option Bytes}

/-- Reading goes on behind the block of the damaged record. -/
theorem Meets.goes_on
    (meets : Meets format assembly there start position stored after prior)
    {behind : Reader GrowingFile}
    (sees : Sees next behind)
    (dropped : Behind format behind start (damagedBody format start stored after))
    (between : next.pending = none)
    (heard : next.reader.reporter.isSome) :
    (NextBlockStarts position after → ReadsQuietly next) ∧
      (¬NextBlockStarts position after → ReadsLoudly next) ∧
      ∃ records final, Reads GrowingFile.sequentialFile .absoluteConsistency next
        records final := by
  have passed := dropped.pass meets.inBlock.inside
  obtain ⟨records, final, reads, quiet, loud⟩ := passed.reads sees
    .absoluteConsistency meets.legacy meets.located meets.fits meets.inBlock
    meets.begun between meets.chained meets.complete heard
  refine ⟨fun begins => ⟨records, final, reads, quiet begins⟩, ?_,
    records, final, reads⟩
  intro interrupted
  refine ⟨records, final, reads, loud ?_⟩
  simp only [NextBlockStarts, not_forall] at interrupted
  obtain ⟨piece, isPiece, there', continued⟩ := interrupted
  exact ⟨piece, isPiece, there', by simpa using continued⟩

theorem ReadsQuietly.of_step
    (step : readRecordStep GrowingFile.sequentialFile .absoluteConsistency
      assembly = .inl next)
    (silent : next.reader.reporter = assembly.reader.reporter)
    (quietly : ReadsQuietly next) : ReadsQuietly assembly := by
  obtain ⟨records, final, reads, quiet⟩ := quietly
  exact ⟨records, final, .next step reads, quiet.trans silent⟩

theorem ReadsLoudly.of_step
    (step : readRecordStep GrowingFile.sequentialFile .absoluteConsistency
      assembly = .inl next)
    (loudly : ReadsLoudly next) : ReadsLoudly assembly := by
  obtain ⟨records, final, reads, loud⟩ := loudly
  have kept := (readRecordStep_reported step).reports.length_le
  change assembly.reader.reports.length ≤ next.reader.reports.length at kept
  exact ⟨records, final, .next step reads, by omega⟩

/-- A step that reports is enough, when reading gets to its end. -/
theorem ReadsLoudly.of_report
    (step : readRecordStep GrowingFile.sequentialFile .absoluteConsistency
      assembly = .inl next)
    (said : assembly.reader.reports.length < next.reader.reports.length)
    {records : List Bytes}
    {final : Reader GrowingFile}
    (reads : Reads GrowingFile.sequentialFile .absoluteConsistency next records
      final) : ReadsLoudly assembly := by
  have kept := reads.reported.reports.length_le
  change next.reader.reports.length ≤ final.reports.length at kept
  exact ⟨records, final, .next step reads, by omega⟩

theorem ReadsLoudly.of_stop
    {final : Reader GrowingFile}
    (step : readRecordStep GrowingFile.sequentialFile .absoluteConsistency
      assembly = .inr ⟨false, [], final⟩)
    (said : assembly.reader.reports.length < final.reports.length) :
    ReadsLoudly assembly :=
  ⟨[], final, .stop step rfl, said⟩

/-- A record that is dropped with a report. -/
theorem Meets.drops
    (meets : Meets format assembly there start position stored after prior)
    {code dropSize : Nat}
    (isDrop : code = kBadRecordLen ∨ code = kBadRecordChecksum)
    {recycled : Bool}
    (physical : there.readPhysicalRecord GrowingFile.sequentialFile 0 =
      ⟨code, [], dropSize, { there with buffer := [], recycled := recycled }⟩) :
    ReadsLoudly assembly := by
  obtain ⟨next, step, dropped, between, said⟩ := meets.sees.step_drop meets.facing
    (show WALRecoveryMode.absoluteConsistency ≠ .tolerateCorruptedTailRecords by
      decide) isDrop physical meets.heard
  have stillHeard : next.reader.reporter.isSome := by
    have kept := (readRecordStep_reported step).isSome
    exact kept.trans meets.heard
  obtain ⟨-, -, records, final, reads⟩ := meets.goes_on (Sees.refl next) dropped
    between stillHeard
  exact .of_report step said reads

/-- The header of the damaged record is in the buffer. -/
theorem Meets.header
    (meets : Meets format assembly there start position stored after prior) :
    kHeaderSize ≤ there.buffer.length ∧
      stored.length ≤ there.buffer.length ∧
      headerType (damagedBody format start stored after) = headerType stored ∧
      headerLength (damagedBody format start stored after) =
        headerLength stored := by
  have whole := meets.whole
  have inside := meets.inBlock.inside
  have header := kHeaderSize_eq
  have enough : kHeaderSize ≤ stored.length := by omega
  have inBuffer : stored.length ≤ there.buffer.length := by
    rw [meets.facing.length_buffer, damagedBody, List.length_append]
    omega
  rw [damagedBody, headerType_append _ enough, headerLength_append _ enough]
  exact ⟨enough.trans inBuffer, inBuffer, rfl, rfl⟩

/-- The flip left the record in the legacy format. -/
theorem Meets.reads_legacy
    (meets : Meets format assembly there start position stored after prior)
    (type : isRecyclableType (headerType stored) = false)
    (mismatch : crcMatches stored kHeaderSize (headerLength stored) = false) :
    let zeroed := headerType stored = RecordType.zero.code ∧
      headerLength stored = 0
    let overlooked := assembly.pending = none ∧ zeroed ∧
      NextBlockStarts position after
    (overlooked → ReadsQuietly assembly) ∧
      (¬overlooked → ReadsLoudly assembly) := by
  intro zeroed overlooked
  obtain ⟨enough, inBuffer, typeEq, lengthEq⟩ := meets.header
  by_cases isZero : zeroed
  · obtain ⟨next, step, dropped, between, quiet, loud⟩ := meets.sees.step_zero
      meets.facing .absoluteConsistency enough (typeEq.trans isZero.1)
      (lengthEq.trans isZero.2)
    have stillHeard : next.reader.reporter.isSome :=
      (readRecordStep_reported step).isSome.trans meets.heard
    obtain ⟨goesQuietly, goesLoudly, records, final, reads⟩ := meets.goes_on
      (Sees.refl next) dropped between stillHeard
    refine ⟨?_, ?_⟩
    · rintro ⟨whole, -, begins⟩
      exact .of_step step (quiet whole) (goesQuietly begins)
    · intro noticed
      cases pending : assembly.pending with
      | some scratch =>
          have said := loud (by simp [pending]) meets.heard
          exact .of_report step said reads
      | none =>
          refine .of_step step (goesLoudly ?_)
          exact fun begins => noticed ⟨pending, isZero, begins⟩
  · refine ⟨fun quietly => absurd quietly.2.1 isZero, fun _ => ?_⟩
    have rejected : Rejected stored := ⟨type, meets.whole, isZero, mismatch⟩
    have split := meets.facing.positioned.buffer_split inBuffer
    exact meets.drops (.inr rfl)
      (readPhysicalRecord_rejected 0 split rejected meets.facing.checked)

/-- The flip made a header of the recyclable format out of it, which is cut off by
the end of the block. -/
theorem Meets.reads_incomplete
    (meets : Meets format assembly there start position stored after prior)
    (type : isRecyclableType (headerType stored) = true)
    (short : there.buffer.length < kRecyclableHeaderSize) :
    let overlooked := assembly.pending = none ∧
      there.buffer.length = kBlockSize - start ∧ NextBlockStarts position after
    (overlooked → ReadsQuietly assembly) ∧
      (¬overlooked → ReadsLoudly assembly) := by
  intro overlooked
  obtain ⟨enough, -, typeEq, -⟩ := meets.header
  have length := meets.facing.length_buffer
  have inside := meets.facing.positioned.offset_le
  have block := kBlockSize_eq
  have recyclableHeader := kRecyclableHeaderSize_eq
  have recyclable : isRecyclableType (headerType there.buffer) = true := by
    rw [(meets.facing.header_eq enough).1, typeEq]
    exact type
  cases ended : there.eof with
  | true =>
      have atEnd := meets.facing.eof_iff.mp ended
      refine ⟨fun quietly => ?_, fun _ => ?_⟩
      · have full := quietly.2.1
        omega
      · obtain ⟨next, physical, fromStart, silent⟩ :=
          meets.facing.incomplete_eof enough recyclable short ended
        obtain ⟨final, step, -, said⟩ := meets.sees.step_badHeader
          .absoluteConsistency physical fromStart silent
        exact .of_stop step (said rfl meets.heard)
  | false =>
      obtain ⟨full, -⟩ := meets.facing.positioned.live ended
      obtain ⟨behind, sees, dropped⟩ := meets.sees.of_incomplete meets.facing enough
        recyclable short ended
      have between : assembly.pending = none := by
        cases pending : assembly.pending with
        | none => rfl
        | some scratch =>
            have := meets.joined (by simp [pending])
            omega
      obtain ⟨goesQuietly, goesLoudly, -⟩ := meets.goes_on sees dropped between
        meets.heard
      refine ⟨fun quietly => goesQuietly quietly.2.2, fun noticed => ?_⟩
      apply goesLoudly
      exact fun begins => noticed ⟨between, by omega, begins⟩

/-- The flip made a complete header of the recyclable format out of it. -/
theorem Meets.reads_complete
    (meets : Meets format assembly there start position stored after prior)
    (type : isRecyclableType (headerType stored) = true)
    (enough : kRecyclableHeaderSize ≤ there.buffer.length) :
    let body := damagedBody format start stored after
    let other := (decodeFixed32 (body.drop 7)).toUInt64 ≠ there.logNumber
    let accident := kRecyclableHeaderSize + headerLength stored ≤
        there.buffer.length ∧
      crcMatches body kRecyclableHeaderSize (headerLength stored) = true
    (assembly.pending = none → other → ReadsQuietly assembly) ∧
      (¬(assembly.pending = none ∧ other) → ¬(¬other ∧ accident) →
        ReadsLoudly assembly) := by
  intro body other accident
  obtain ⟨hasHeader, -, typeEq, lengthEq⟩ := meets.header
  obtain ⟨bufferType, bufferLength⟩ := meets.facing.header_eq hasHeader
  have header := kHeaderSize_eq
  have recyclable : isRecyclableType (headerType there.buffer) = true := by
    rw [bufferType, typeEq]
    exact type
  obtain ⟨recycled, -, physical⟩ := meets.facing.complete_header enough recyclable
  by_cases isOther : other
  · rw [if_pos isOther] at physical
    obtain ⟨final, step, quiet, loud⟩ := meets.sees.step_old
      (show WALRecoveryMode.absoluteConsistency ≠ .skipAnyCorruptedRecords by decide)
      physical meets.facing.fromStart rfl
    refine ⟨fun between _ => ⟨[], final, .stop step rfl, quiet between⟩, ?_⟩
    intro noticed _
    refine .of_stop step (loud rfl ?_ meets.heard)
    rw [Option.isSome_iff_ne_none]
    exact fun between => noticed ⟨between, isOther⟩
  · rw [if_neg isOther, bufferLength, lengthEq] at physical
    refine ⟨fun _ isOther' => absurd isOther' isOther, fun _ noAccident => ?_⟩
    by_cases overlong : there.buffer.length <
        kRecyclableHeaderSize + headerLength stored
    · have taken := @takeRecord_overlong { there with recycled := recycled } _
        (headerType there.buffer) _ overlong (by dsimp only; omega)
      rw [taken] at physical
      cases ended : there.eof with
      | true =>
          simp only [ended, if_true] at physical
          obtain ⟨final, step, -, said⟩ := meets.sees.step_badHeader
            .absoluteConsistency physical meets.facing.fromStart rfl
          exact .of_stop step (said rfl meets.heard)
      | false =>
          simp only [ended, Bool.false_eq_true, if_false] at physical
          rw [← ended] at physical
          exact meets.drops (.inl rfl) physical
    · have fits : kRecyclableHeaderSize + headerLength stored ≤
          there.buffer.length := by omega
      have notZero : ¬(headerType there.buffer = RecordType.zero.code ∧
          headerLength stored = 0) := by
        rintro ⟨isZero, -⟩
        rw [isZero] at recyclable
        cases recyclable
      have mismatch : crcMatches there.buffer kRecyclableHeaderSize
          (headerLength stored) = false := by
        rw [Bool.eq_false_iff]
        intro matching
        apply noAccident
        refine ⟨isOther, fits, ?_⟩
        simp only [body]
        rw [meets.facing.body_eq, crcMatches_append _ (by omega) fits]
        exact matching
      have taken := takeRecord_mismatch { there with recycled := recycled } fits
        notZero meets.facing.checked mismatch
      rw [taken] at physical
      exact meets.drops (.inr rfl) physical

end Meeting

end Reader

/-! ## One flipped bit in a log -/

namespace Piece

/-- Number of bytes from the header of the piece to the end of its block, or to the
end of the file. -/
def room (file : Bytes) (piece : Piece) : Nat :=
  min (kBlockSize - piece.position % kBlockSize) (file.length - piece.position)

/-- A damaged header that `kAbsoluteConsistency` passes over in silence.  The piece
begins a record, and its type reads as that of an empty preallocated record or of
a recyclable header that the end of the block cuts off, with no record going on
in the next block; or its type reads as recyclable and its payload as the number
of another log. -/
def Overlooked (pieces : List Piece) (file : Bytes) (piece : Piece) : Prop :=
  let header := file.drop piece.position
  let type := Reader.headerType header
  piece.fragment.start = true ∧
    ((type = RecordType.zero.code ∧ piece.fragment.payload = [] ∨
        Reader.isRecyclableType type = true ∧
          piece.room file < kRecyclableHeaderSize ∧
          piece.room file = kBlockSize - piece.position % kBlockSize) ∧
        (∀ other ∈ pieces, other.position = (piece.block + 1) * kBlockSize →
          other.fragment.start = true) ∨
      Reader.isRecyclableType type = true ∧
        kRecyclableHeaderSize ≤ piece.room file ∧
        decodeFixed32 (header.drop 7) ≠ 0)

/-- A damaged header that by accident is that of a complete record of the
recyclable format with a matching checksum. -/
def Accidental (file : Bytes) (piece : Piece) : Prop :=
  let header := file.drop piece.position
  Reader.isRecyclableType (Reader.headerType header) = true ∧
    kRecyclableHeaderSize + piece.fragment.payload.length ≤ piece.room file ∧
    decodeFixed32 (header.drop 7) = 0 ∧
    Reader.crcMatches header kRecyclableHeaderSize
      piece.fragment.payload.length = true

end Piece

theorem modify_middle
    (left middle right : Bytes)
    {index : Nat}
    (inside : index < middle.length)
    (change : UInt8 → UInt8) :
    (left ++ (middle ++ right)).modify (left.length + index) change =
      left ++ (middle.modify index change ++ right) := by
  apply List.ext_getElem?
  intro position
  rw [List.getElem?_modify]
  simp only [List.getElem?_append, List.length_modify, List.getElem?_modify]
  split_ifs <;> first | omega | simp_all

/-- Behind an incomplete record the block is full. -/
theorem Format.Fits.advance_of_pending
    {format : Format}
    {offset : Nat}
    {fragments : List Fragment}
    (fits : format.Fits offset fragments)
    {pending : Option Bytes}
    (partly : (pendingAfter pending fragments).isSome)
    (nonempty : fragments ≠ []) :
    format.advance offset fragments = kBlockSize := by
  induction fragments generalizing offset pending with
  | nil => exact absurd rfl nonempty
  | cons fragment fragments inductionHypothesis =>
      cases fragments with
      | nil =>
          cases finish : fragment.finish with
          | false => exact fits.2.1 finish
          | true =>
              rw [pendingAfter, pendingAfter, pendingNext_of_finish _ finish] at partly
              cases partly
      | cons next rest =>
          exact inductionHypothesis fits.2.2 partly (by simp)

section BitFlip

variable {format : Format} {records : List Bytes} {piece : Piece}
  {before after : List Piece}

/-- Where a piece of a log lies. -/
structure Placed
    (format : Format)
    (records : List Bytes)
    (before : List Piece)
    (piece : Piece)
    (after : List Piece) : Prop where
  split : format.pieces 0 0 kBlockSize records = before ++ piece :: after

namespace Placed

/-- The block offset in front of the piece. -/
def offset (format : Format) (before : List Piece) : Nat :=
  format.advance kBlockSize (before.map Piece.fragment)

variable (placed : Placed format records before piece after)

include placed

theorem fits :
    format.Fits kBlockSize (before.map Piece.fragment) ∧
      format.Fits (offset format before)
        (piece.fragment :: after.map Piece.fragment) := by
  have all := format.fits_fragmentsOf kBlockSize records (Nat.le_refl _)
  rw [← format.map_fragment_pieces 0 0, placed.split, List.map_append,
    Format.fits_append] at all
  exact all

theorem located :
    piece.position =
        (format.place kBlockSize (before.map Piece.fragment)).length +
          format.gap (offset format before) ∧
      format.Located
        (piece.position + (format.header + piece.fragment.payload.length))
        (format.endOffset (offset format before) piece.fragment.payload.length)
        after := by
  have all := format.located_pieces 0 0 kBlockSize records
  rw [placed.split, Format.located_append] at all
  obtain ⟨-, isNext, rest⟩ := all
  rw [Nat.zero_add] at isNext rest
  refine ⟨isNext, ?_⟩
  rw [isNext]
  exact rest

theorem inBlock :
    Format.InBlock
      (format.place kBlockSize (before.map Piece.fragment)).length
      (offset format before) := by
  have start : Format.InBlock 0 kBlockSize :=
    ⟨by decide, Nat.le_refl _, by rw [Nat.mod_self, Nat.zero_mod]⟩
  have advanced := start.advance placed.fits.1
  rw [Nat.zero_add] at advanced
  exact advanced

theorem chained :
    Chained false (before.map Piece.fragment) ∧
      piece.fragment.start =
        !(pendingAfter none (before.map Piece.fragment)).isSome ∧
      Chained (pendingAfter none
          ((before ++ [piece]).map Piece.fragment)).isSome
        (after.map Piece.fragment) ∧
      pendingAfter (pendingAfter none ((before ++ [piece]).map Piece.fragment))
        (after.map Piece.fragment) = none := by
  obtain ⟨-, complete, all⟩ := format.assemble_fragmentsOf kBlockSize records
  rw [← format.map_fragment_pieces 0 0, placed.split, List.append_cons,
    List.map_append] at complete all
  obtain ⟨front, rest⟩ := (chained_append none _ _).mp all
  rw [pendingAfter_append] at complete
  rw [List.map_append] at front
  obtain ⟨first, second⟩ := (chained_append none _ _).mp front
  exact ⟨first, second.1, rest, complete⟩

/-- The log in front of the piece, the piece, and the log behind it. -/
theorem logBytes_eq :
    format.logBytes 0 records =
      format.place kBlockSize (before.map Piece.fragment) ++
        (List.replicate (format.gap (offset format before)) 0 ++
          (format.encode piece.fragment ++
            format.place (format.endOffset (offset format before)
              piece.fragment.payload.length) (after.map Piece.fragment))) := by
  rw [← Format.logBytes_kBlockSize, Format.logBytes,
    ← format.map_fragment_pieces 0 0, placed.split, List.map_append,
    Format.place_append]
  rfl

end Placed

/-- The stored bytes of a piece with one flipped bit. -/
def flipped (format : Format) (piece : Piece) (index : Nat) (bit : Fin 8) : Bytes :=
  (format.encode piece.fragment).modify index (flipBit bit)

/-- The flip leaves the length of the record alone, and the checksum notices it. -/
theorem flipped_fields
    (legacy : format.recycle = false)
    (small : piece.fragment.payload.length < 65536)
    {index : Nat}
    (covered : Covered (kHeaderSize + piece.fragment.payload.length) index)
    (bit : Fin 8) :
    let stored := flipped format piece index bit
    stored.length = kHeaderSize + piece.fragment.payload.length ∧
      Reader.headerLength stored = piece.fragment.payload.length ∧
      Reader.crcMatches stored kHeaderSize piece.fragment.payload.length =
        false := by
  intro stored
  have header : format.header = kHeaderSize := by
    simp [Format.header, headerSize, legacy]
  have whole : (format.encode piece.fragment).length =
      kHeaderSize + piece.fragment.payload.length := by
    rw [format.length_encode, header]
  have matching := Reader.crcMatches_formatHeader format.logNumber
    (format.type piece.fragment) piece.fragment.payload []
  have notRecyclable : Writer.isRecyclable (format.type piece.fragment) = false := by
    rw [Format.type, Writer.isRecyclable_fragmentType, legacy]
  rw [List.append_nil, notRecyclable] at matching
  have field : Reader.headerLength (format.encode piece.fragment) =
      piece.fragment.payload.length := by
    rw [Format.encode, Writer.formatHeader_eq, List.append_assoc,
      Reader.headerLength_headerStart _ _ _ _ small]
  have outside : index ≠ 4 ∧ index ≠ 5 := by
    unfold Covered at covered
    omega
  refine ⟨?_, ?_, ?_⟩
  · exact (List.length_modify _ _ _).trans whole
  · rw [← field]
    simp only [stored, flipped, Reader.headerLength, List.getD_eq_getElem?_getD,
      List.getElem?_modify_ne _ _ outside.1, List.getElem?_modify_ne _ _ outside.2]
  · rw [← whole] at covered
    exact Reader.crcMatches_flipped whole matching covered bit

namespace Placed

variable (placed : Placed format records before piece after)

include placed

theorem start_eq :
    piece.position % kBlockSize = format.startOffset (offset format before) := by
  rw [placed.located.1]
  exact placed.inBlock.start_eq

/-- The log in which one bit of the piece is flipped. -/
theorem modify_eq
    {index : Nat}
    (inside : index < (format.encode piece.fragment).length)
    (bit : Fin 8) :
    (format.logBytes 0 records).modify (piece.position + index) (flipBit bit) =
      format.place kBlockSize (before.map Piece.fragment) ++
        (List.replicate (format.gap (offset format before)) 0 ++
          Reader.damagedBody format (piece.position % kBlockSize)
            (flipped format piece index bit) after) := by
  have length : (flipped format piece index bit).length =
      (format.encode piece.fragment).length := List.length_modify _ _ _
  have position : piece.position =
      (format.place kBlockSize (before.map Piece.fragment) ++
        List.replicate (format.gap (offset format before)) 0).length := by
    rw [placed.located.1, List.length_append, List.length_replicate]
  have ends : piece.position % kBlockSize + (flipped format piece index bit).length =
      format.endOffset (offset format before) piece.fragment.payload.length := by
    rw [placed.start_eq, length, format.length_encode, Format.endOffset]
  rw [Reader.damagedBody, ends, placed.logBytes_eq, ← List.append_assoc, position,
    modify_middle _ _ _ inside, List.append_assoc]
  rfl

/-- The reader gets to the damaged record without a report. -/
theorem steps_to_damaged
    (legacy : format.recycle = false)
    {index : Nat}
    (covered : Covered (kHeaderSize + piece.fragment.payload.length) index)
    (bit : Fin 8) :
    let damaged := (format.logBytes 0 records).modify (piece.position + index)
      (flipBit bit)
    let stored := flipped format piece index bit
    let start := piece.position % kBlockSize
    ∃ returned assembly there prior,
      Reader.Steps GrowingFile.sequentialFile .absoluteConsistency
          (Reader.startAssembly
            (Reader.new (GrowingFile.atRest damaged) (some []) true 0 0))
          returned assembly ∧
        assembly.reader.reporter = some [] ∧
        (assembly.pending = none ↔ piece.fragment.start = true) ∧
        there.logNumber = 0 ∧
        damaged.drop piece.position =
          Reader.damagedBody format start stored after ∧
        Reader.Meets format assembly there start (piece.position + stored.length)
          stored after prior := by
  intro damaged stored start
  have header : format.header = kHeaderSize := by
    simp [Format.header, headerSize, legacy]
  obtain ⟨fitsBefore, fitsPiece⟩ := placed.fits
  obtain ⟨position, located⟩ := placed.located
  obtain ⟨quietBefore, starts, chained, complete⟩ := placed.chained
  have small := fitsPiece.small piece.fragment List.mem_cons_self
  obtain ⟨length, field, -⟩ := flipped_fields legacy small covered bit
  have inside : index < (format.encode piece.fragment).length := by
    rw [format.length_encode, header]
    unfold Covered at covered
    rw [kHeaderSize_eq] at covered ⊢
    omega
  have split := placed.modify_eq inside bit
  have nonempty : 0 < stored.length := by
    simp only [stored]
    rw [length, kHeaderSize_eq]
    omega
  have ends : start + stored.length = format.endOffset (offset format before)
      piece.fragment.payload.length := by
    simp only [start, stored]
    rw [placed.start_eq, length, ← header, Format.endOffset]
  have standing : Reader.Standing format
      (Reader.new (GrowingFile.atRest damaged) (some []) true 0 0) kBlockSize
      (format.place kBlockSize (before.map Piece.fragment) ++
        (List.replicate (format.gap (offset format before)) 0 ++
          Reader.damagedBody format start stored after)) := by
    have new := Reader.standing_new format damaged (some []) 0
      (fun recycle => by rw [legacy] at recycle; cases recycle)
    rw [← split]
    exact new
  -- The pieces in front of the damaged one are read without a report.
  obtain ⟨assembly, steps, moved, consumed, pending, joined, quiet⟩ :=
    @Reader.steps_fragments .absoluteConsistency
      (Reader.startAssembly
        (Reader.new (GrowingFile.atRest damaged) (some []) true 0 0))
      format kBlockSize (before.map Piece.fragment) _ standing.positioned fitsBefore
      (by
        have whole := standing.whole
        rw [List.length_append] at whole
        exact Nat.le.intro whole.symm)
      standing.accepts rfl Bool.false_ne_true.elim
  have arrived : Reader.Standing format assembly.reader (offset format before)
      (List.replicate (format.gap (offset format before)) 0 ++
        Reader.damagedBody format start stored after) :=
    standing.move consumed moved (by simp only [List.length_append]; omega)
  have beyond : format.gap (offset format before) < assembly.reader.reach := by
    rw [arrived.whole, List.length_append, List.length_replicate,
      Reader.damagedBody, List.length_append]
    omega
  have narrow := format.gap_lt_header (offset format before)
  rw [header] at narrow
  obtain ⟨there, same, facing, approached, silent, -⟩ := Reader.approach 0
    arrived.positioned narrow beyond
  have standing' := arrived.move approached facing (by
    rw [List.length_append, List.length_replicate, Nat.add_comm])
  rw [← placed.start_eq] at standing'
  have begun : assembly.pending = none ↔ piece.fragment.start = true := by
    rw [pending, starts, Reader.Assembly.pending_startAssembly]
    simp
  have quietly := quiet (by
    rw [Reader.Assembly.pending_startAssembly]
    exact quietBefore)
  refine ⟨_, assembly, there, _, steps, quietly, begun, ?_, ?_,
    ⟨legacy, ⟨same, silent⟩, standing', ?_, ?_, ?_, ?_, chained, complete, ?_, ?_,
      ?_⟩⟩
  · exact approached.settings.2.1.trans consumed.settings.2.1
  · simp only [damaged]
    rw [split, ← List.append_assoc]
    apply List.drop_left'
    rw [List.length_append, List.length_replicate, position]
  · rw [ends, length, ← header]
    exact located
  · rw [ends]
    exact fitsPiece.2.2
  · rw [ends, length, ← header, position]
    exact (placed.inBlock.next fitsPiece.endOffset_le).1
  · omega
  · rw [quietly]
    rfl
  · rw [field, length]
  · intro partly
    rw [pending, Reader.Assembly.pending_startAssembly] at partly
    have isBehind : before.map Piece.fragment ≠ [] := by
      intro isFirst
      rw [isFirst] at partly
      cases partly
    have full := fitsBefore.advance_of_pending partly isBehind
    simp only [start]
    rw [placed.start_eq, offset, full, Format.startOffset_kBlockSize]

/-- Whether a record goes on in the next block, read off all pieces of the log. -/
theorem nextBlockStarts_iff :
    Reader.NextBlockStarts
        (piece.position + (format.header + piece.fragment.payload.length)) after ↔
      ∀ other ∈ format.pieces 0 0 0 records,
        other.position = (piece.block + 1) * kBlockSize →
          other.fragment.start = true := by
  obtain ⟨-, here⟩ := placed.inBlock.next placed.fits.2.endOffset_le
  rw [← placed.located.1] at here
  have inBlock : piece.position < (piece.block + 1) * kBlockSize := by
    rw [Piece.block, Nat.add_mul, Nat.one_mul]
    exact Nat.lt_div_mul_add (by decide)
  have located := format.located_pieces 0 0 kBlockSize records
  rw [← format.pieces_kBlockSize, placed.split]
  rw [placed.split] at located
  rw [Reader.NextBlockStarts, ← here]
  constructor
  · intro begins other isOther there
    rcases List.mem_append.mp isOther with isEarlier | isHereOrLater
    · have earlier := located.position_lt_of_append other isEarlier piece
        List.mem_cons_self
      omega
    · rcases List.mem_cons.mp isHereOrLater with rfl | isLater
      · omega
      · exact begins other isLater there
  · intro begins other isLater there
    exact begins other (by simp [isLater]) there

/-- From the damaged record on everything is read in silence if the record is
overlooked, and with a report if it is neither overlooked nor accidental. -/
theorem readsQuietly_or_readsLoudly
    (legacy : format.recycle = false)
    {index : Nat}
    (covered : Covered (kHeaderSize + piece.fragment.payload.length) index)
    (bit : Fin 8)
    {damaged : Bytes}
    {assembly : Reader.Assembly GrowingFile}
    {there : Reader GrowingFile}
    {prior : Option Bytes}
    (begun : assembly.pending = none ↔ piece.fragment.start = true)
    (number : there.logNumber = 0)
    (found : damaged.drop piece.position =
      Reader.damagedBody format (piece.position % kBlockSize)
        (flipped format piece index bit) after)
    (meets : Reader.Meets format assembly there (piece.position % kBlockSize)
      (piece.position + (flipped format piece index bit).length)
      (flipped format piece index bit) after prior) :
    let overlooked := piece.Overlooked (format.pieces 0 0 0 records) damaged
    (overlooked → Reader.ReadsQuietly assembly) ∧
      (¬overlooked → ¬piece.Accidental damaged →
        Reader.ReadsLoudly assembly) := by
  intro overlooked
  have small := placed.fits.2.small piece.fragment List.mem_cons_self
  obtain ⟨length, field, mismatch⟩ := flipped_fields legacy small covered bit
  have header : format.header = kHeaderSize := by
    simp [Format.header, headerSize, legacy]
  have nextBlock := placed.nextBlockStarts_iff
  rw [header, ← length] at nextBlock
  obtain ⟨-, -, type, -⟩ := meets.header
  have room : piece.room damaged = there.buffer.length := by
    rw [meets.facing.length_buffer, ← found, List.length_drop, Piece.room]
  have empty : piece.fragment.payload = [] ↔
      Reader.headerLength (flipped format piece index bit) = 0 := by
    rw [field, List.length_eq_zero_iff]
  cases recyclable :
      Reader.isRecyclableType (Reader.headerType (flipped format piece index bit))
      with
  | false =>
      obtain ⟨quietly, loudly⟩ := meets.reads_legacy recyclable
        (by rw [field]; exact mismatch)
      have same : overlooked ↔ assembly.pending = none ∧
          (Reader.headerType (flipped format piece index bit) =
              RecordType.zero.code ∧
            Reader.headerLength (flipped format piece index bit) = 0) ∧
          Reader.NextBlockStarts
            (piece.position + (flipped format piece index bit).length) after := by
        simp only [overlooked, Piece.Overlooked, found, type, recyclable, empty,
          begun, nextBlock]
        simp
      rw [same]
      exact ⟨quietly, fun noticed _ => loudly noticed⟩
  | true =>
      have notZero : Reader.headerType (flipped format piece index bit) ≠
          RecordType.zero.code := by
        intro isZero
        rw [isZero] at recyclable
        cases recyclable
      by_cases short : there.buffer.length < kRecyclableHeaderSize
      · obtain ⟨quietly, loudly⟩ := meets.reads_incomplete recyclable short
        have same : overlooked ↔ assembly.pending = none ∧
            there.buffer.length = kBlockSize - piece.position % kBlockSize ∧
            Reader.NextBlockStarts
              (piece.position + (flipped format piece index bit).length) after := by
          simp only [overlooked, Piece.Overlooked, found, type, recyclable, room,
            notZero, short, begun, nextBlock, Nat.not_le.mpr short]
          simp
        rw [same]
        exact ⟨quietly, fun noticed _ => loudly noticed⟩
      · have enough := Nat.le_of_not_lt short
        obtain ⟨quietly, loudly⟩ := meets.reads_complete recyclable enough
        have otherLog : ∀ bytes : Bytes,
            (decodeFixed32 bytes).toUInt64 = there.logNumber ↔
              decodeFixed32 bytes = 0 := by
          intro bytes
          rw [number, ← UInt32.toUInt64_inj]
          rfl
        have same : overlooked ↔ assembly.pending = none ∧
            (decodeFixed32 ((Reader.damagedBody format
              (piece.position % kBlockSize) (flipped format piece index bit)
                after).drop 7)).toUInt64 ≠ there.logNumber := by
          simp only [overlooked, Piece.Overlooked, found, type, recyclable, room,
            notZero, short, enough, begun, ne_eq, otherLog]
          simp
        rw [same]
        refine ⟨fun quiet => quietly quiet.1 quiet.2, fun noticed regular => ?_⟩
        apply loudly noticed
        rintro ⟨sameLog, fits, matching⟩
        apply regular
        rw [field] at fits matching
        rw [Piece.Accidental, found, type, room]
        exact ⟨recyclable, fits, (otherLog _).mp (not_not.mp sameLog), matching⟩

end Placed

end BitFlip

namespace Reader

/-- Reading a whole log of the legacy format in which one bit is flipped. -/
theorem readRecords_bitFlip
    {format : Format}
    (legacy : format.recycle = false)
    {records : List Bytes}
    {written : Bytes}
    (log : written = format.logBytes 0 records)
    {piece : Piece}
    (isPiece : piece ∈ format.pieces 0 0 0 records)
    {index : Nat}
    (covered : Covered (kHeaderSize + piece.fragment.payload.length) index)
    (bit : Fin 8) :
    let pieces := format.pieces 0 0 0 records
    let damaged := written.modify (piece.position + index) (flipBit bit)
    let reader := Reader.new (GrowingFile.atRest damaged) (some []) true 0 0
    (piece.Overlooked pieces damaged →
        ∃ returned final,
          (∃ enough, ∀ fuel, enough ≤ fuel →
            reader.readRecords GrowingFile.sequentialFile .absoluteConsistency
              fuel = some (returned, final)) ∧
            final.reporter = some []) ∧
      (¬piece.Overlooked pieces damaged → ¬piece.Accidental damaged →
        ∃ returned final calls,
          (∃ enough, ∀ fuel, enough ≤ fuel →
            reader.readRecords GrowingFile.sequentialFile .absoluteConsistency
              fuel = some (returned, final)) ∧
            final.reporter = some calls ∧ calls ≠ []) := by
  intro pieces damaged reader
  rw [← format.pieces_kBlockSize] at isPiece
  obtain ⟨before, after, split⟩ := List.append_of_mem isPiece
  have placed : Placed format records before piece after := ⟨split⟩
  obtain ⟨front, assembly, there, prior, steps, silent, begun, number, found,
    meets⟩ := placed.steps_to_damaged legacy covered bit
  rw [← log] at steps found
  obtain ⟨quietly, loudly⟩ := placed.readsQuietly_or_readsLoudly legacy covered bit
    begun number found meets
  refine ⟨fun overlooked => ?_, fun noticed regular => ?_⟩
  · obtain ⟨records, final, reads, quiet⟩ := quietly overlooked
    exact ⟨_, final, (steps.reads reads).readRecords rfl, quiet.trans silent⟩
  · obtain ⟨records, final, reads, more⟩ := loudly noticed regular
    have heard := reads.reported.isSome
    rw [silent] at heard
    obtain ⟨calls, reporter⟩ := Option.isSome_iff_exists.mp heard
    refine ⟨_, final, calls, (steps.reads reads).readRecords rfl, reporter, ?_⟩
    intro none
    rw [Reader.reports, Reader.reports, reporter, none] at more
    exact absurd more (Nat.not_lt_zero _)

section Modes

variable {δ : Type} {D : Destination δ} {contents : δ → Bytes} {dest : δ}

/-- `kAbsoluteConsistency` reports a flipped bit of a log of the legacy format,
unless the flip makes a header out of it that is passed over before its checksum
is looked at. -/
theorem bitFlip_reported
    (succeeds : D.Succeeds contents)
    (fresh : contents dest = [])
    (logNumber : UInt64)
    (records : List Bytes)
    {piece : Piece}
    (isPiece : piece ∈ Format.pieces ⟨false, logNumber⟩ 0 0 0 records)
    {index : Nat}
    (covered : Covered (kHeaderSize + piece.fragment.payload.length) index)
    (bit : Fin 8) :
    let written := contents ((Writer.new dest logNumber false).addRecords D
      records).dest
    let pieces := Format.pieces ⟨false, logNumber⟩ 0 0 0 records
    let damaged := written.modify (piece.position + index) (flipBit bit)
    let reader := Reader.new (GrowingFile.atRest damaged) (some []) true 0 0
    (piece.Overlooked pieces damaged →
        ∃ returned final,
          (∃ enough, ∀ fuel, enough ≤ fuel →
            reader.readRecords GrowingFile.sequentialFile .absoluteConsistency
              fuel = some (returned, final)) ∧
            final.reporter = some []) ∧
      (¬piece.Overlooked pieces damaged → ¬piece.Accidental damaged →
        ∃ returned final calls,
          (∃ enough, ∀ fuel, enough ≤ fuel →
            reader.readRecords GrowingFile.sequentialFile .absoluteConsistency
              fuel = some (returned, final)) ∧
            final.reporter = some calls ∧ calls ≠ []) :=
  readRecords_bitFlip rfl
    (Writer.contents_addRecords_new succeeds fresh false logNumber records) isPiece
    covered bit

end Modes

theorem mem_pieces_single :
    (⟨0, 0, ⟨true, true, [1, 2, 3, 4]⟩⟩ : Piece) ∈
      Format.pieces ⟨false, 7⟩ 0 0 0 [[1, 2, 3, 4]] := by
  have only : Format.fragments ⟨false, 7⟩ 0 true [1, 2, 3, 4] =
      [⟨true, true, [1, 2, 3, 4]⟩] :=
    Format.fragments_of_fits _ true (by decide)
  simp only [Format.pieces, only, Format.locate, Format.gap_zero, Nat.add_zero,
    List.append_nil]
  exact List.mem_cons_self

/-- A flipped bit of the payload of a log of one record is reported. -/
theorem bitFlip_reported_payload :
    let damaged := (memoryLog [[1, 2, 3, 4]]).modify 7 (flipBit 0)
    let reader := Reader.new (GrowingFile.atRest damaged) (some []) true 0 0
    ∃ returned final calls,
      (∃ enough, ∀ fuel, enough ≤ fuel →
        reader.readRecords GrowingFile.sequentialFile .absoluteConsistency
          fuel = some (returned, final)) ∧
        final.reporter = some calls ∧ calls ≠ [] := by
  have legacy : isRecyclableType (headerType (((memoryLog [[1, 2, 3, 4]]).modify 7
      (flipBit 0)).drop 0)) ≠ true := by
    decide +kernel
  have both := bitFlip_reported Destination.memory_succeeds
    (rfl : id ([] : Bytes) = []) 7 [[1, 2, 3, 4]] mem_pieces_single
    (.inr ⟨by decide, by decide⟩ : Covered _ 7) 0
  apply both.2
  · rintro ⟨-, ⟨⟨-, empty⟩ | ⟨recyclable, -⟩, -⟩ | ⟨recyclable, -⟩⟩
    · cases empty
    · exact legacy recyclable
    · exact legacy recyclable
  · rintro ⟨recyclable, -⟩
    exact legacy recyclable

/-- A flipped bit of the type turns the record into one of another log, which is
passed over in silence. -/
theorem bitFlip_overlooked :
    let damaged := (memoryLog [[1, 2, 3, 4]]).modify 6 (flipBit 2)
    let reader := Reader.new (GrowingFile.atRest damaged) (some []) true 0 0
    Covered (memoryLog [[1, 2, 3, 4]]).length 6 ∧
      ∃ returned final,
        (∃ enough, ∀ fuel, enough ≤ fuel →
          reader.readRecords GrowingFile.sequentialFile .absoluteConsistency
            fuel = some (returned, final)) ∧
          final.reporter = some [] := by
  have type : isRecyclableType (headerType (((memoryLog [[1, 2, 3, 4]]).modify 6
      (flipBit 2)).drop 0)) = true := by
    decide +kernel
  have number : decodeFixed32 ((((memoryLog [[1, 2, 3, 4]]).modify 6
      (flipBit 2)).drop 0).drop 7) ≠ 0 := by
    decide +kernel
  have room : kRecyclableHeaderSize ≤ Piece.room ((memoryLog [[1, 2, 3, 4]]).modify 6
      (flipBit 2)) ⟨0, 0, ⟨true, true, [1, 2, 3, 4]⟩⟩ := by
    decide +kernel
  have length : 6 < (memoryLog [[1, 2, 3, 4]]).length := by
    decide +kernel
  have both := readRecords_bitFlip rfl (memoryLog_eq [[1, 2, 3, 4]])
    mem_pieces_single
    (.inr ⟨by decide, by decide⟩ : Covered _ 6) 2
  refine ⟨.inr ⟨Nat.le_refl _, length⟩, ?_⟩
  exact both.1 ⟨rfl, .inr ⟨type, room, number⟩⟩

end Reader

end Log
end RocksUtil
