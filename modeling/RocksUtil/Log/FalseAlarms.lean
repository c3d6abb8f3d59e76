import RocksUtil.Log.Seeking

/-!
# Reports of a reader that starts at an offset

A reader with an initial offset passes over the physical records in front of it.  If the
record that lies across the initial offset goes on behind it, the reader meets a middle
or last fragment whose first one it has passed over, and reports it as corruption, once
for each.  A complete, undamaged log gives rise to no other report
(`silent_from_offset_iff`).
-/

namespace RocksUtil
namespace Log

namespace Format

/-- A record starts in front of `initial` and goes on with a physical record that starts
at `initial` or behind it. -/
def Straddles (pieces : List Piece) (initial : Nat) : Prop :=
  ∃ first ∈ pieces, ∃ later ∈ pieces,
    first.record = later.record ∧ first.fragment.start = true ∧
      first.position < initial ∧ initial ≤ later.position

theorem pieces_append
    (format : Format)
    (number position offset : Nat)
    (left right : List Bytes) :
    format.pieces number position offset (left ++ right) =
      format.pieces number position offset left ++
        format.pieces (number + left.length)
          (position + (format.logBytes offset left).length)
          (format.advance offset (format.fragmentsOf offset left)) right := by
  induction left generalizing number position offset with
  | nil => rfl
  | cons record records inductionHypothesis =>
      have size := Reader.logBytes_cons_length format offset record records
      dsimp only at size
      rw [List.cons_append, pieces, pieces, inductionHypothesis, List.append_assoc, size,
        fragmentsOf, advance_append, List.length_cons, Nat.add_assoc number,
        Nat.add_comm 1, Nat.add_assoc position]

/-- Every physical record belongs to a record that begins in the list. -/
theorem first_of_mem_pieces
    (format : Format)
    (number position offset : Nat)
    (records : List Bytes) :
    ∀ piece ∈ format.pieces number position offset records,
      ∃ first ∈ format.pieces number position offset records,
        first.record = piece.record ∧ first.fragment.start = true := by
  induction records generalizing number position offset with
  | nil => exact nofun
  | cons record records inductionHypothesis =>
      intro piece isPiece
      rw [pieces, List.mem_append] at isPiece
      rcases isPiece with isFirst | isLater
      · have number' := format.record_of_mem_locate _ _ _ _ piece isFirst
        have chained := format.chained_fragments offset true record
        cases split : format.fragments offset true record with
        | nil => exact absurd split (format.fragments_ne_nil offset true record)
        | cons first rest =>
            rw [split] at chained
            refine ⟨⟨number, position + format.gap offset, first⟩, ?_, number'.symm,
              chained.1⟩
            rw [pieces, split, locate]
            exact List.mem_append_left _ List.mem_cons_self
      · obtain ⟨first, isFirst, same, begins⟩ := inductionHypothesis _ _ _ piece isLater
        exact ⟨first, List.mem_append_right _ isFirst, same, begins⟩

/-- The physical records of the records from the initial offset on lie behind it. -/
theorem late_of_mem_pieces
    (format : Format)
    {number position offset initial : Nat}
    {records : List Bytes}
    (late : initial ≤ position + format.gap offset) :
    ∀ piece ∈ format.pieces number position offset records,
      initial ≤ piece.position := by
  have located := format.located_pieces number position offset records
  cases split : format.pieces number position offset records with
  | nil => exact nofun
  | cons first rest =>
      rw [split] at located
      obtain ⟨isNext, located'⟩ := located
      intro piece isPiece
      rcases List.mem_cons.mp isPiece with rfl | isLater
      · omega
      · have bound := located'.position_le piece isLater
        omega

/-- A record lies across the initial offset if one of those that start in front of it has
a physical record behind it. -/
theorem straddles_iff
    (format : Format)
    {records skipped : List Bytes}
    {initial : Nat}
    (split : records =
      skipped ++ recordsFrom (format.extents 0 kBlockSize records) initial) :
    Straddles (format.pieces 0 0 kBlockSize records) initial ↔
      ∃ piece ∈ format.pieces 0 0 kBlockSize skipped, initial ≤ piece.position := by
  obtain ⟨skipped', split', passed, late⟩ :=
    format.split_recordsFrom 0 0 kBlockSize records initial
  obtain rfl : skipped' = skipped := List.append_cancel_right (split'.symm.trans split)
  generalize recordsFrom (format.extents 0 kBlockSize records) initial = kept at *
  have whole := format.pieces_append 0 0 kBlockSize skipped' kept
  rw [← split] at whole
  have behind : ∀ piece ∈ format.pieces (0 + skipped'.length)
      (0 + (format.logBytes kBlockSize skipped').length)
      (format.advance kBlockSize (format.fragmentsOf kBlockSize skipped')) kept,
      initial ≤ piece.position := by
    by_cases none : kept = []
    · rw [none]
      exact nofun
    · exact format.late_of_mem_pieces (late none)
  rw [whole]
  constructor
  · rintro ⟨first, isFirst, later, isLater, same, begins, before, after⟩
    rcases List.mem_append.mp isLater with early | isKept
    · exact ⟨later, early, after⟩
    · rcases List.mem_append.mp isFirst with early | isKept'
      · have bound := format.record_of_mem_pieces _ _ _ _ first early
        have bound' := format.record_of_mem_pieces _ _ _ _ later isKept
        omega
      · have bound := behind first isKept'
        omega
  · rintro ⟨piece, isPiece, after⟩
    obtain ⟨first, isFirst, same, begins⟩ :=
      format.first_of_mem_pieces _ _ _ _ piece isPiece
    exact ⟨first, List.mem_append_left _ isFirst, piece, List.mem_append_left _ isPiece,
      same, begins, passed first isFirst begins, after⟩

section TwoBlocks

variable (format : Format) (legacy : format.recycle = false) {record : Bytes}
  (length : record.length = 32762)
include legacy length

/-- A record that is one byte too long for the first block. -/
theorem fragments_of_two_blocks :
    format.fragments 0 true record =
      [⟨true, false, record.take 32761⟩, ⟨false, true, record.drop 32761⟩] := by
  have header : format.header = 7 := by
    rw [Format.header, legacy]
    rfl
  have rest : (record.drop 32761).length = 1 := by
    rw [List.length_drop, length]
  have last : format.fragments 32768 false (record.drop 32761) =
      [⟨false, true, record.drop 32761⟩] := by
    apply fragments_of_fits
    rw [rest, endOffset, header, ← kBlockSize_eq, startOffset_kBlockSize]
    decide
  rw [fragments]
  simp only [startOffset_zero, header, length, kBlockSize_eq, endOffset]
  rw [if_pos (by rw [List.length_drop, length]; decide)]
  exact congrArg _ last

theorem pieces_of_two_blocks :
    format.pieces 0 0 kBlockSize [record] =
      [⟨0, 0, ⟨true, false, record.take 32761⟩⟩,
        ⟨0, 32768, ⟨false, true, record.drop 32761⟩⟩] := by
  have header : format.header = 7 := by
    rw [Format.header, legacy]
    rfl
  have taken : (record.take 32761).length = 32761 := by
    rw [List.length_take, length]
    rfl
  have ends : format.endOffset 0 32761 = kBlockSize := by
    rw [endOffset, startOffset_zero, header]
    rfl
  rw [pieces_kBlockSize, pieces, pieces, format.fragments_of_two_blocks legacy length,
    locate, locate, locate, gap_zero]
  simp only [taken, ends, gap_kBlockSize, header, List.append_nil]

/-- It lies across every offset in its first block. -/
theorem straddles_of_two_blocks
    {initial : Nat}
    (begun : 0 < initial)
    (inside : initial ≤ 32768) :
    Straddles (format.pieces 0 0 kBlockSize [record]) initial := by
  rw [format.pieces_of_two_blocks legacy length]
  exact ⟨_, List.mem_cons_self, _, List.mem_cons_of_mem _ List.mem_cons_self, rfl, rfl,
    begun, inside⟩

theorem length_logBytes_of_two_blocks :
    (format.logBytes kBlockSize [record]).length = 32776 := by
  have header : format.header = 7 := by
    rw [Format.header, legacy]
    rfl
  have located := format.located_pieces 0 0 kBlockSize [record]
  rw [logBytes, ← format.map_fragment_pieces 0 0]
  rw [format.pieces_of_two_blocks legacy length] at located ⊢
  obtain ⟨-, second, -⟩ := located
  rw [List.map_cons, List.map_cons, List.map_nil, length_place_cons, length_place_cons,
    length_encode, length_encode, header, List.length_take, List.length_drop, length,
    gap_kBlockSize]
  simp only [gap_kBlockSize, header, List.length_take, length] at second ⊢
  simp only [place_nil, List.length_nil]
  omega

end TwoBlocks

end Format

namespace Reader

/-- Over a complete log, the reporter hears of the record across the initial offset, and
of nothing else. -/
theorem silent_logBytes_from_iff
    (mode : WALRecoveryMode)
    (calls : List Report)
    (checksum : Bool)
    (initial logNumber : UInt64)
    (format : Format)
    (records : List Bytes)
    (bounded : (format.logBytes kBlockSize records).length < 2 ^ 64)
    (accepts : format.recycle = true →
      format.logNumber.toUInt32.toUInt64 = logNumber) :
    ∃ final,
      (∃ enough, ∀ fuel, enough ≤ fuel →
        (Reader.new (GrowingFile.atRest (format.logBytes kBlockSize records)) (some calls)
            checksum initial logNumber).readRecords GrowingFile.sequentialFile mode
              fuel =
          some (Format.recordsFrom (format.extents 0 kBlockSize records) initial.toNat,
            final)) ∧
      (final.reporter = some calls ↔
        ¬Format.Straddles (format.pieces 0 0 kBlockSize records) initial.toNat) := by
  obtain ⟨final, lead, run, hears, isLead⟩ := readRecords_logBytes_from mode (some calls)
    checksum initial logNumber format records bounded accepts
  obtain ⟨skipped, split, -⟩ :=
    format.split_recordsFrom 0 0 kBlockSize records initial.toNat
  obtain ⟨more, heard, count⟩ := hears calls rfl
  refine ⟨final, run, ?_⟩
  have quiet : final.reporter = some calls ↔ more = [] := by
    rw [heard, Option.some.injEq, List.append_right_eq_self]
  rw [quiet, ← List.length_eq_zero_iff, count, List.countP_eq_zero,
    format.straddles_iff split]
  constructor
  · rintro none ⟨piece, isPiece, behind⟩
    have isIn := (isLead skipped split piece behind).mpr isPiece
    exact none piece isIn (decide_eq_true behind)
  · intro none piece isPiece behind
    have behind := of_decide_eq_true behind
    exact none ⟨piece, (isLead skipped split piece behind).mp isPiece, behind⟩

/-- Reading a complete, undamaged log from an initial offset calls the reporter exactly if
a record that starts in front of that offset goes on with a physical record at or behind
it, in either format and in every recovery mode. -/
theorem silent_from_offset_iff
    {δ : Type}
    {D : Destination δ}
    {contents : δ → Bytes}
    (succeeds : D.Succeeds contents)
    {dest : δ}
    (fresh : contents dest = [])
    (recycle : Bool)
    (logNumber : UInt64)
    (small : logNumber.toNat < 2 ^ 32)
    (records : List Bytes)
    (mode : WALRecoveryMode)
    (checksum : Bool)
    (calls : List Report)
    (initial : UInt64) :
    let written := contents
      ((Writer.new dest logNumber recycle).addRecords D records).dest
    let format : Format := ⟨recycle, logNumber⟩
    written.length < 2 ^ 64 →
      ∃ returned final,
        (∃ enough, ∀ fuel, enough ≤ fuel →
          (Reader.new (GrowingFile.atRest written) (some calls) checksum initial
              logNumber).readRecords GrowingFile.sequentialFile mode fuel =
            some (returned, final)) ∧
        (final.reporter = some calls ↔
          ¬Format.Straddles (format.pieces 0 0 0 records) initial.toNat) := by
  intro written format bounded
  have log : written = format.logBytes 0 records :=
    Writer.contents_addRecords_new succeeds fresh recycle logNumber records
  rw [← Format.logBytes_kBlockSize] at log
  rw [log] at bounded ⊢
  rw [← Format.pieces_kBlockSize]
  obtain ⟨final, run, quiet⟩ := silent_logBytes_from_iff mode calls checksum initial
    logNumber format records bounded (fun _ => toUInt32_toUInt64_of_lt small)
  exact ⟨_, final, run, quiet⟩

theorem silent_from_offset_iff_five :
    let written := recyclableLog 7 [[1, 2, 3], [4]]
    ∃ returned final,
      (∃ enough, ∀ fuel, enough ≤ fuel →
        (Reader.new (GrowingFile.atRest written) (some []) true 5 7).readRecords
            GrowingFile.sequentialFile .absoluteConsistency fuel =
          some (returned, final)) ∧
      (final.reporter = some [] ↔
        ¬Format.Straddles (Format.pieces ⟨true, 7⟩ 0 0 0 [[1, 2, 3], [4]]) 5) := by
  intro written
  have size : written.length < 2 ^ 64 := by decide +kernel
  exact silent_from_offset_iff Destination.memory_succeeds (rfl : id ([] : Bytes) = [])
    true 7 (by decide) [[1, 2, 3], [4]] .absoluteConsistency true [] 5 size

/-- A record of 32762 bytes that is read from an offset behind its start: its second
physical record is reported. -/
theorem alarms_inside
    {record : Bytes}
    (length : record.length = 32762) :
    let written := ((Writer.new [] 7 false).addRecords Destination.memory [record]).dest
    ∃ final,
      (∃ enough, ∀ fuel, enough ≤ fuel →
        (Reader.new (GrowingFile.atRest written) (some []) true 5 7).readRecords
            GrowingFile.sequentialFile .tolerateCorruptedTailRecords fuel =
          some ([], final)) ∧
      final.reporter ≠ some [] := by
  intro written
  let format : Format := ⟨false, 7⟩
  have log : written = format.logBytes 0 [record] :=
    Writer.contents_addRecords_new Destination.memory_succeeds (rfl : id ([] : Bytes) = [])
      false 7 [record]
  rw [← Format.logBytes_kBlockSize] at log
  obtain ⟨final, run, quiet⟩ := silent_logBytes_from_iff .tolerateCorruptedTailRecords []
    true 5 7 format [record]
    (by rw [format.length_logBytes_of_two_blocks rfl length]; decide) nofun
  have none : Format.recordsFrom (format.extents 0 kBlockSize [record]) 5 = [] := by
    rw [format.recordsFrom_of_early (by rw [Format.gap_kBlockSize]; decide)]
    rfl
  rw [← log] at run
  refine ⟨final, none ▸ run, fun silent => ?_⟩
  exact quiet.mp silent
    (format.straddles_of_two_blocks rfl length (by decide) (by decide))

/-- A log of one record of 32762 bytes, read from the offset 5: its second physical record
is reported. -/
theorem alarm_inside_record :
    let record : Bytes := List.replicate 32762 0
    let written := ((Writer.new [] 7 false).addRecords Destination.memory [record]).dest
    ∃ final,
      (∃ enough, ∀ fuel, enough ≤ fuel →
        (Reader.new (GrowingFile.atRest written) (some []) true 5 7).readRecords
            GrowingFile.sequentialFile .tolerateCorruptedTailRecords fuel =
          some ([], final)) ∧
      final.reporter ≠ some [] :=
  alarms_inside List.length_replicate

end Reader
end Log
end RocksUtil
