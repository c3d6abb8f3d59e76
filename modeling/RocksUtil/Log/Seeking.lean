import RocksUtil.Log.InitialOffset
import RocksUtil.Log.Pieces
import RocksUtil.Log.Boundaries
import RocksUtil.Log.Recycling

/-!
# Seeking to an initial offset

Where `SkipToInitialBlock` takes a reader, and what the reader meets there: the
last physical records of the records that start in front of the initial offset,
each of which it passes over, and behind them the records it returns.
-/

namespace RocksUtil
namespace Log

namespace Format

/-- The records that start at file position `initial` or behind it. -/
def recordsFrom (extents : List Extent) (initial : Nat) : List Bytes :=
  (extents.filter (fun extent => decide (initial ≤ extent.start))).map Extent.record

theorem map_record_extents
    (format : Format)
    (position offset : Nat)
    (records : List Bytes) :
    (format.extents position offset records).map Extent.record = records := by
  induction records generalizing position offset with
  | nil => rfl
  | cons record records inductionHypothesis =>
      rw [extents, List.map_cons, inductionHypothesis]

/-- The only physical record that begins a record is its first one. -/
theorem position_of_start
    (format : Format)
    (number position offset : Nat)
    (record : Bytes) :
    ∀ piece ∈ format.locate number position offset
        (format.fragments offset true record),
      piece.fragment.start = true → piece.position = position + format.gap offset := by
  cases split : format.fragments offset true record with
  | nil => exact absurd split (format.fragments_ne_nil offset true record)
  | cons first rest =>
      intro piece isPiece begins
      rcases List.mem_cons.mp isPiece with rfl | isLater
      · rfl
      · have inRest := List.mem_map_of_mem (f := Piece.fragment) isLater
        rw [map_fragment_locate] at inRest
        have continued := @start_of_split format offset record [first] rest split
          (by simp) piece.fragment inRest
        rw [continued] at begins
        cases begins

/-- A physical record is passed over: it lies in front of the initial offset or does
not begin a record. -/
def PassedOver (initial : Nat) (piece : Piece) : Prop :=
  piece.fragment.start = true → piece.position < initial

/-- Behind the initial offset every record is kept. -/
theorem recordsFrom_of_late
    (format : Format)
    {position offset initial : Nat}
    (late : initial ≤ position + format.gap offset)
    (records : List Bytes) :
    recordsFrom (format.extents position offset records) initial = records := by
  cases records with
  | nil => rfl
  | cons record records =>
      rw [recordsFrom, List.filter_eq_self.mpr, map_record_extents]
      intro extent isExtent
      rw [decide_eq_true_eq]
      rcases List.mem_cons.mp isExtent with rfl | isLater
      · exact late
      · have bounds := format.extents_bounds _ _ _ extent isLater
        have longer := format.gap_lt_length_place_fragments offset true record
        omega

/-- A record in front of the initial offset is not kept. -/
theorem recordsFrom_of_early
    (format : Format)
    {position offset initial : Nat}
    (early : ¬initial ≤ position + format.gap offset)
    (record : Bytes)
    (records : List Bytes) :
    recordsFrom (format.extents position offset (record :: records)) initial =
      recordsFrom (format.extents
        (position + (format.place offset
          (format.fragments offset true record)).length)
        (format.advance offset (format.fragments offset true record)) records)
        initial := by
  rw [extents, recordsFrom, List.filter_cons_of_neg (by simpa using early)]
  rfl

/-- Once a record is kept, all later ones are. -/
theorem recordsFrom_append
    (format : Format)
    (position offset initial : Nat)
    (records more : List Bytes)
    (some : recordsFrom (format.extents position offset records) initial ≠ []) :
    recordsFrom (format.extents position offset (records ++ more)) initial =
      recordsFrom (format.extents position offset records) initial ++ more := by
  induction records generalizing position offset with
  | nil => exact absurd rfl some
  | cons record records inductionHypothesis =>
      by_cases late : initial ≤ position + format.gap offset
      · rw [format.recordsFrom_of_late late, format.recordsFrom_of_late late]
      · rw [List.cons_append, format.recordsFrom_of_early late,
          format.recordsFrom_of_early late]
        rw [format.recordsFrom_of_early late] at some
        exact inductionHypothesis _ _ some

/-- The records that start in front of the initial offset come first. -/
theorem split_recordsFrom
    (format : Format)
    (number position offset : Nat)
    (records : List Bytes)
    (initial : Nat) :
    ∃ skipped,
      records = skipped ++
          recordsFrom (format.extents position offset records) initial ∧
        (∀ piece ∈ format.pieces number position offset skipped,
          PassedOver initial piece) ∧
        (recordsFrom (format.extents position offset records) initial ≠ [] →
          initial ≤ position + (format.logBytes offset skipped).length +
            format.gap (format.advance offset (format.fragmentsOf offset skipped))) := by
  induction records generalizing number position offset with
  | nil => exact ⟨[], rfl, nofun, fun some => absurd rfl some⟩
  | cons record records inductionHypothesis =>
      by_cases late : initial ≤ position + format.gap offset
      · have all := format.recordsFrom_of_late late (record :: records)
        refine ⟨[], by rw [all]; rfl, nofun, fun _ => ?_⟩
        simpa [logBytes, fragmentsOf, advance] using late
      · obtain ⟨skipped, split, passed, start⟩ := inductionHypothesis (number + 1)
          (position + (format.place offset
            (format.fragments offset true record)).length)
          (format.advance offset (format.fragments offset true record))
        have dropped := format.recordsFrom_of_early late record records
        refine ⟨record :: skipped, ?_, ?_, ?_⟩
        · rw [dropped, List.cons_append, ← split]
        · intro piece isPiece
          rw [pieces, List.mem_append] at isPiece
          rcases isPiece with isFirst | isLater
          · intro begins
            rw [format.position_of_start number position offset record piece isFirst
              begins]
            omega
          · exact passed piece isLater
        · intro some
          rw [dropped] at some
          have bound := start some
          rw [logBytes] at bound
          rw [logBytes, fragmentsOf, place_append, List.length_append, advance_append]
          omega

section Blocks

variable {format : Format} {position offset : Nat} {pieces : List Piece}

/-- A physical record lies inside one block. -/
theorem Located.in_block
    (located : format.Located position offset pieces)
    (inBlock : InBlock position offset)
    (fits : format.Fits offset (pieces.map Piece.fragment)) :
    ∀ piece ∈ pieces, piece.position % kBlockSize + kHeaderSize ≤ kBlockSize := by
  induction pieces generalizing position offset with
  | nil => exact nofun
  | cons first pieces inductionHypothesis =>
      obtain ⟨isNext, located⟩ := located
      have ends := fits.endOffset_le
      obtain ⟨inBlock', -⟩ := inBlock.next ends
      intro piece isPiece
      rcases List.mem_cons.mp isPiece with rfl | isLater
      · have bounds := format.header_bounds
        have seven := kHeaderSize_eq
        have start := @InBlock.start_eq format _ _ inBlock
        rw [isNext, start]
        unfold Format.endOffset at ends
        omega
      · exact inductionHypothesis located inBlock' fits.2.2 piece isLater

/-- From the start of a block on, the file holds the physical records that lie
there. -/
theorem Located.from_block
    (located : format.Located position offset pieces)
    (inBlock : InBlock position offset)
    (fits : format.Fits offset (pieces.map Piece.fragment))
    {start : Nat}
    (atBlock : start % kBlockSize = 0)
    (ahead : position ≤ start)
    (inFile : start ≤
      position + (format.place offset (pieces.map Piece.fragment)).length) :
    ∃ before rest,
      pieces = before ++ rest ∧
        (∀ piece ∈ before, piece.position < start) ∧
        format.Located start kBlockSize rest ∧
        format.Fits kBlockSize (rest.map Piece.fragment) ∧
        (format.place offset (pieces.map Piece.fragment)).drop (start - position) =
          format.place kBlockSize (rest.map Piece.fragment) ∧
        ∀ count,
          position +
              (format.place offset ((pieces.map Piece.fragment).take count)).length ≤
            start ∨
          ∃ count',
            position +
                (format.place offset
                  ((pieces.map Piece.fragment).take count)).length =
              start + (format.place kBlockSize
                ((rest.map Piece.fragment).take count')).length := by
  induction pieces generalizing position offset with
  | nil =>
      have same : start = position := by
        rw [List.map_nil, place_nil, List.length_nil] at inFile
        omega
      refine ⟨[], [], rfl, nofun, trivial, Nat.le_refl _, ?_, fun count => .inl ?_⟩
      · rw [List.map_nil, place_nil, place_nil, List.drop_nil]
      · rw [List.map_nil, List.take_nil, place_nil]
        exact ahead
  | cons first pieces inductionHypothesis =>
      obtain ⟨isNext, located'⟩ := located
      have ends := fits.endOffset_le
      obtain ⟨inBlock', here⟩ := inBlock.next ends
      have encoded := format.length_encode first.fragment
      have bounds := format.header_bounds
      have block := kBlockSize_eq
      have length := format.length_place_cons offset first.fragment
        (pieces.map Piece.fragment)
      rw [List.map_cons] at inFile
      by_cases isBefore : position + format.gap offset < start
      · -- The block starts behind the first physical record.
        have beyond : position + format.gap offset +
            (format.header + first.fragment.payload.length) ≤ start := by
          rw [block] at here atBlock
          omega
        obtain ⟨before, rest, split, early, locatedRest, fitsRest, placed, ends'⟩ :=
          inductionHypothesis located' inBlock' fits.2.2 beyond (by omega)
        refine ⟨first :: before, rest, by rw [split, List.cons_append], ?_,
          locatedRest, fitsRest, ?_, ?_⟩
        · intro piece isPiece
          rcases List.mem_cons.mp isPiece with rfl | isLater
          · omega
          · exact early piece isLater
        · rw [← placed, List.map_cons, place_cons, ← List.append_assoc]
          have same : start - position =
              (List.replicate (format.gap offset) (0 : UInt8) ++
                format.encode first.fragment).length +
                (start - (position + format.gap offset +
                  (format.header + first.fragment.payload.length))) := by
            rw [List.length_append, List.length_replicate]
            omega
          rw [same, List.drop_append, List.drop_of_length_le (by omega),
            List.nil_append, Nat.add_sub_cancel_left]
        · intro count
          cases count with
          | zero => exact .inl ahead
          | succ count =>
              rw [List.map_cons, List.take_succ_cons, length_place_cons, encoded]
              have later := ends' count
              rw [Nat.add_assoc position, Nat.add_assoc position] at later
              exact later
      · -- The first physical record starts the block.
        have atStart : position + format.gap offset = start := by
          obtain ⟨positive, inside, congruent⟩ := inBlock
          unfold Format.gap at isBefore ⊢
          rw [block] at inside congruent isBefore atBlock ⊢
          split <;> split at isBefore <;> omega
        have startsBlock : format.startOffset offset = 0 := by
          rw [← @InBlock.start_eq format _ _ inBlock, atStart, atBlock]
        have sameEnd : format.endOffset offset first.fragment.payload.length =
            format.endOffset kBlockSize first.fragment.payload.length := by
          rw [endOffset, endOffset, startsBlock, startOffset_kBlockSize]
        obtain ⟨-, filled, fitsRest⟩ := fits
        rw [sameEnd] at located' filled fitsRest
        refine ⟨[], first :: pieces, rfl, nofun, ⟨?_, ?_⟩,
          ⟨Nat.le_refl _, filled, fitsRest⟩, ?_, ?_⟩
        · rw [gap_kBlockSize, isNext, atStart]
          rfl
        · rw [gap_kBlockSize, Nat.add_zero, ← atStart]
          exact located'
        · have same : start - position = format.gap offset := by omega
          rw [same, List.map_cons, place_cons, place_cons,
            List.drop_left' (by simp), gap_kBlockSize, sameEnd]
          rfl
        · intro count
          cases count with
          | zero => exact .inl ahead
          | succ count =>
              refine .inr ⟨count + 1, ?_⟩
              rw [List.map_cons, List.take_succ_cons, length_place_cons,
                length_place_cons, gap_kBlockSize, sameEnd]
              omega

theorem InBlock.offset_eq
    {offset' : Nat}
    (inBlock : InBlock position offset)
    (inBlock' : InBlock position offset') : offset = offset' := by
  obtain ⟨positive, inside, same⟩ := inBlock
  obtain ⟨positive', inside', same'⟩ := inBlock'
  rw [kBlockSize_eq] at *
  omega

end Blocks

/-- Behind a gap the next block is written as the first one is. -/
theorem logBytes_of_gap
    (format : Format)
    {offset : Nat}
    (positive : 0 < format.gap offset)
    {records : List Bytes}
    (nonempty : records ≠ []) :
    format.logBytes offset records =
      List.replicate (format.gap offset) 0 ++ format.logBytes kBlockSize records := by
  obtain ⟨-, atStart⟩ := format.startOffset_of_gap positive
  have ends (length : Nat) : format.endOffset offset length =
      format.endOffset kBlockSize length := by
    rw [endOffset, endOffset, atStart, startOffset_kBlockSize]
  cases records with
  | nil => exact absurd rfl nonempty
  | cons record records =>
      have same : format.fragments offset true record =
          format.fragments kBlockSize true record := by
        rw [fragments.eq_def format offset, fragments.eq_def format kBlockSize, atStart,
          startOffset_kBlockSize]
        simp only [ends]
      have some := format.fragments_ne_nil kBlockSize true record
      rw [logBytes, logBytes, fragmentsOf, fragmentsOf, same]
      cases split : format.fragments kBlockSize true record with
      | nil => exact absurd split some
      | cons first rest =>
          rw [List.cons_append, List.cons_append, place_cons, place_cons,
            gap_kBlockSize, advance, advance, ends]
          rfl

theorem length_logBytes_ge
    (format : Format)
    (offset : Nat)
    {records : List Bytes}
    (nonempty : records ≠ []) :
    format.gap offset + format.header ≤ (format.logBytes offset records).length := by
  cases records with
  | nil => exact absurd rfl nonempty
  | cons record records =>
      rw [logBytes, fragmentsOf]
      cases split : format.fragments offset true record with
      | nil => exact absurd split (format.fragments_ne_nil offset true record)
      | cons first rest =>
          have length := format.length_encode first
          rw [List.cons_append, length_place_cons]
          omega

/-- Where a record starts behind others. -/
theorem start_bounds
    (format : Format)
    (before : List Bytes)
    {records : List Bytes}
    (nonempty : records ≠ []) :
    let start := (format.logBytes kBlockSize before).length +
      format.gap (format.advance kBlockSize (format.fragmentsOf kBlockSize before))
    start % kBlockSize + kHeaderSize ≤ kBlockSize ∧
      start + kHeaderSize ≤ (format.logBytes kBlockSize (before ++ records)).length := by
  intro start
  have atEnd := Reader.inBlock_log format before
  rw [← logBytes_kBlockSize] at atEnd
  have header := format.header_bounds
  have seven := kHeaderSize_eq
  have startsIn := format.startOffset_le
    (format.advance kBlockSize (format.fragmentsOf kBlockSize before))
  have longer := format.length_logBytes_ge
    (format.advance kBlockSize (format.fragmentsOf kBlockSize before)) nonempty
  refine ⟨?_, ?_⟩
  · rw [@InBlock.start_eq format _ _ atEnd]
    omega
  · rw [logBytes_append, List.length_append]
    omega

/-- The file may end here: behind one of the physical records that are passed over, or
behind one of the records that are kept. -/
def Boundary
    (format : Format)
    (offset : Nat)
    (lead : List Piece)
    (kept : List Bytes)
    (count : Nat) : Prop :=
  (∃ passed, count =
      (format.place offset ((lead.map Piece.fragment).take passed)).length) ∨
    ∃ returned, count = (format.place offset (lead.map Piece.fragment)).length +
      (format.logBytes (format.advance offset (lead.map Piece.fragment))
        (kept.take returned)).length

/-- A log ends behind each of its records. -/
theorem logBytes_take
    (format : Format)
    (offset count : Nat)
    (records : List Bytes) :
    ∃ count', format.logBytes offset (records.take count) =
      format.place offset ((format.fragmentsOf offset records).take count') := by
  refine ⟨(format.fragmentsOf offset (records.take count)).length, ?_⟩
  have split := format.fragmentsOf_append offset (records.take count)
    (records.drop count)
  rw [List.take_append_drop] at split
  rw [split, List.take_left]
  rfl

section FromBlock

variable {format : Format} {skipped kept : List Bytes} {initial start : Nat}
variable {lead : List Piece}

/-- What a log holds from a block on: physical records of the records that are skipped,
and then the records that are kept. -/
structure FromBlock
    (format : Format)
    (skipped kept : List Bytes)
    (initial start : Nat)
    (lead : List Piece) : Prop where
  /-- The physical records stand from the start of the block on. -/
  located : format.Located start kBlockSize lead
  /-- The reader passes over each of them. -/
  passed : ∀ piece ∈ lead, PassedOver initial piece
  /-- They fit into their blocks. -/
  fits : format.Fits kBlockSize (lead.map Piece.fragment)
  /-- The bytes from the start of the block on. -/
  drop_eq : (format.logBytes kBlockSize (skipped ++ kept)).drop start =
    format.place kBlockSize (lead.map Piece.fragment) ++
      format.logBytes (format.advance kBlockSize (lead.map Piece.fragment)) kept
  /-- The first record that is kept starts at the initial offset or later. -/
  late : kept ≠ [] → initial ≤ start +
    (format.place kBlockSize (lead.map Piece.fragment)).length +
    format.gap (format.advance kBlockSize (lead.map Piece.fragment))
  /-- Where the log ends behind each of its records. -/
  ends : ∀ count,
    (format.logBytes kBlockSize ((skipped ++ kept).take count)).length ≤ start ∨
      ∃ behind, format.Boundary kBlockSize lead kept behind ∧
        (format.logBytes kBlockSize ((skipped ++ kept).take count)).length =
          start + behind
  /-- All of the skipped records that stands behind the start of the block is there. -/
  mem_iff : ∀ piece, piece ∈ lead ↔
    piece ∈ format.pieces 0 0 kBlockSize skipped ∧ start ≤ piece.position

/-- Where the log ends, if the block starts in front of the end of the skipped records. -/
theorem ends_of_inside
    (leadEnds : ∀ count,
      (format.place kBlockSize
          ((format.fragmentsOf kBlockSize skipped).take count)).length ≤ start ∨
        ∃ count', (format.place kBlockSize
            ((format.fragmentsOf kBlockSize skipped).take count)).length =
          start + (format.place kBlockSize
            ((lead.map Piece.fragment).take count')).length)
    (same : start + (format.place kBlockSize (lead.map Piece.fragment)).length =
      (format.logBytes kBlockSize skipped).length)
    (offsets : format.advance kBlockSize (lead.map Piece.fragment) =
      format.advance kBlockSize (format.fragmentsOf kBlockSize skipped))
    (count : Nat) :
    (format.logBytes kBlockSize ((skipped ++ kept).take count)).length ≤ start ∨
      ∃ behind, format.Boundary kBlockSize lead kept behind ∧
        (format.logBytes kBlockSize ((skipped ++ kept).take count)).length =
          start + behind := by
  rcases Nat.le_total count skipped.length with early | later
  · obtain ⟨count', prefixOf⟩ := format.logBytes_take kBlockSize count skipped
    rw [List.take_append_of_le_length early, prefixOf]
    rcases leadEnds count' with inFront | ⟨passed, behind⟩
    · exact .inl inFront
    · exact .inr ⟨_, .inl ⟨passed, rfl⟩, behind⟩
  · obtain ⟨more, rfl⟩ := Nat.exists_eq_add_of_le later
    refine .inr ⟨_, .inr ⟨more, rfl⟩, ?_⟩
    rw [List.take_length_add_append, logBytes_append, List.length_append,
      ← Nat.add_assoc, same, offsets]

/-- The block starts in front of the end of the skipped records. -/
theorem exists_fromBlock_of_inside
    (passed : ∀ piece ∈ format.pieces 0 0 kBlockSize skipped, PassedOver initial piece)
    (late : kept ≠ [] → initial ≤ (format.logBytes kBlockSize skipped).length +
      format.gap (format.advance kBlockSize (format.fragmentsOf kBlockSize skipped)))
    (atBlock : start % kBlockSize = 0)
    (inside : start ≤ (format.logBytes kBlockSize skipped).length) :
    ∃ lead, format.FromBlock skipped kept initial start lead := by
  have fragments := format.map_fragment_pieces 0 0 kBlockSize skipped
  have located := format.located_pieces 0 0 kBlockSize skipped
  have fits := format.fits_fragmentsOf kBlockSize skipped (Nat.le_refl _)
  rw [← fragments] at fits
  have first : InBlock 0 kBlockSize :=
    ⟨by decide, Nat.le_refl _, by rw [Nat.mod_self, Nat.zero_mod]⟩
  obtain ⟨before, lead, isSplit, early, locatedLead, fitsLead, placed, ends⟩ :=
    located.from_block first fits atBlock (Nat.zero_le _) (by
      rw [fragments, Nat.zero_add]
      exact inside)
  simp only [fragments, Nat.zero_add, Nat.sub_zero] at placed ends
  change (format.logBytes kBlockSize skipped).drop start = _ at placed
  have size := congrArg List.length placed
  rw [List.length_drop] at size
  have same : start + (format.place kBlockSize (lead.map Piece.fragment)).length =
      (format.logBytes kBlockSize skipped).length := by
    omega
  have atEnd := Reader.inBlock_log format skipped
  rw [← logBytes_kBlockSize] at atEnd
  have atBlock' : InBlock start kBlockSize :=
    ⟨by decide, Nat.le_refl _, by rw [atBlock, Nat.mod_self]⟩
  have leads := atBlock'.advance fitsLead
  rw [same] at leads
  have offsets := leads.offset_eq atEnd
  refine ⟨lead, locatedLead, ?_, fitsLead, ?_, ?_, ends_of_inside ends same offsets, ?_⟩
  · intro piece isPiece
    apply passed
    rw [isSplit]
    exact List.mem_append_right before isPiece
  · rw [logBytes_append, List.drop_append_of_le_length inside, placed, offsets]
  · intro some
    rw [same, offsets]
    exact late some
  · intro piece
    rw [isSplit, List.mem_append]
    refine ⟨fun isLead => ⟨.inr isLead, locatedLead.position_le piece isLead⟩, ?_⟩
    rintro ⟨inFront | isLead, behind⟩
    · have bound := early piece inFront
      omega
    · exact isLead

/-- Where the log ends, if the block starts with the first record that is kept. -/
theorem ends_of_gap
    (positive : 0 < format.gap
      (format.advance kBlockSize (format.fragmentsOf kBlockSize skipped)))
    (isStart : start = (format.logBytes kBlockSize skipped).length + format.gap
      (format.advance kBlockSize (format.fragmentsOf kBlockSize skipped)))
    (count : Nat) :
    (format.logBytes kBlockSize ((skipped ++ kept).take count)).length ≤ start ∨
      ∃ behind, format.Boundary kBlockSize [] kept behind ∧
        (format.logBytes kBlockSize ((skipped ++ kept).take count)).length =
          start + behind := by
  rcases Nat.le_total count skipped.length with early | later
  · left
    have parts := congrArg List.length (format.logBytes_append kBlockSize
      (skipped.take count) (skipped.drop count))
    rw [List.take_append_drop, List.length_append] at parts
    rw [List.take_append_of_le_length early]
    omega
  · obtain ⟨more, rfl⟩ := Nat.exists_eq_add_of_le later
    rw [List.take_length_add_append, logBytes_append, List.length_append]
    by_cases none : kept.take more = []
    · left
      rw [none]
      change _ + 0 ≤ _
      omega
    · refine .inr ⟨_, .inr ⟨more, rfl⟩, ?_⟩
      rw [format.logBytes_of_gap positive none, List.length_append,
        List.length_replicate]
      change _ = start +
        (0 + (format.logBytes kBlockSize (kept.take more)).length)
      omega

/-- The block starts behind the skipped records, but not behind the first record that is
kept: it starts with that record. -/
theorem fromBlock_of_behind
    (late : initial ≤ (format.logBytes kBlockSize skipped).length +
      format.gap (format.advance kBlockSize (format.fragmentsOf kBlockSize skipped)))
    (some : kept ≠ [])
    (atBlock : start % kBlockSize = 0)
    (behind : (format.logBytes kBlockSize skipped).length < start)
    (notLater : start ≤ (format.logBytes kBlockSize skipped).length +
      format.gap (format.advance kBlockSize (format.fragmentsOf kBlockSize skipped))) :
    format.FromBlock skipped kept initial start [] := by
  have located := format.located_pieces 0 0 kBlockSize skipped
  have fragments := format.map_fragment_pieces 0 0 kBlockSize skipped
  have atEnd := Reader.inBlock_log format skipped
  rw [← logBytes_kBlockSize] at atEnd
  have positive : 0 < format.gap
      (format.advance kBlockSize (format.fragmentsOf kBlockSize skipped)) := by
    omega
  have isStart : start = (format.logBytes kBlockSize skipped).length + format.gap
      (format.advance kBlockSize (format.fragmentsOf kBlockSize skipped)) := by
    obtain ⟨isGap, -⟩ := format.startOffset_of_gap positive
    obtain ⟨above, below, congruent⟩ := atEnd
    rw [kBlockSize_eq] at *
    omega
  refine ⟨trivial, List.forall_mem_nil _, Nat.le_refl _, ?_, fun _ => ?_,
    ends_of_gap positive isStart, fun piece => ⟨List.not_mem_nil.elim, ?_⟩⟩
  · rw [logBytes_append, isStart, List.drop_append, List.drop_of_length_le (by omega),
      Nat.add_sub_cancel_left, format.logBytes_of_gap positive some,
      List.drop_left' (by simp)]
    rfl
  · rw [List.map_nil, place_nil, List.length_nil, advance, gap_kBlockSize]
    omega
  · rintro ⟨isPiece, behindStart⟩
    have bound := located.end_le piece isPiece
    rw [fragments, Nat.zero_add] at bound
    change _ ≤ (format.logBytes kBlockSize skipped).length at bound
    omega

end FromBlock

/-- What a log holds from a block on that is not behind the first record that starts
at the initial offset or later. -/
theorem logBytes_from_block
    (format : Format)
    (records : List Bytes)
    {initial start : Nat}
    (atBlock : start % kBlockSize = 0)
    (inFile : start ≤ (format.logBytes kBlockSize records).length)
    (notBehind : ∀ position, initial ≤ position →
      position % kBlockSize + kHeaderSize ≤ kBlockSize →
      position + kHeaderSize ≤ (format.logBytes kBlockSize records).length →
        start ≤ position) :
    let kept := recordsFrom (format.extents 0 kBlockSize records) initial
    ∃ lead,
      format.Located start kBlockSize lead ∧
        (∀ piece ∈ lead, PassedOver initial piece) ∧
        format.Fits kBlockSize (lead.map Piece.fragment) ∧
        (format.logBytes kBlockSize records).drop start =
          format.place kBlockSize (lead.map Piece.fragment) ++ format.logBytes
            (format.advance kBlockSize (lead.map Piece.fragment)) kept ∧
        (kept ≠ [] →
          initial ≤ start +
            (format.place kBlockSize (lead.map Piece.fragment)).length +
            format.gap (format.advance kBlockSize (lead.map Piece.fragment))) ∧
        (∀ count,
          (format.logBytes kBlockSize (records.take count)).length ≤ start ∨
            ∃ behind, format.Boundary kBlockSize lead kept behind ∧
              (format.logBytes kBlockSize (records.take count)).length =
                start + behind) ∧
        ∀ skipped, records = skipped ++ kept →
          ∀ piece, piece ∈ lead ↔
            piece ∈ format.pieces 0 0 kBlockSize skipped ∧ start ≤ piece.position := by
  intro kept
  obtain ⟨skipped, split, passed, late⟩ :=
    format.split_recordsFrom 0 0 kBlockSize records initial
  change records = skipped ++ kept at split
  rw [Nat.zero_add] at late
  change kept ≠ [] → _ at late
  obtain ⟨lead, fromBlock⟩ : ∃ lead, format.FromBlock skipped kept initial start lead := by
    by_cases inside : start ≤ (format.logBytes kBlockSize skipped).length
    · exact exists_fromBlock_of_inside passed late atBlock inside
    · have some : kept ≠ [] := by
        intro none
        rw [split, none, List.append_nil] at inFile
        exact inside inFile
      obtain ⟨inBlock, fitsFile⟩ := format.start_bounds skipped some
      rw [← split] at fitsFile
      exact ⟨[], fromBlock_of_behind (late some) some atBlock (Nat.lt_of_not_le inside)
        (notBehind _ (late some) inBlock fitsFile)⟩
  refine ⟨lead, fromBlock.located, fromBlock.passed, fromBlock.fits, ?_, fromBlock.late,
    ?_, ?_⟩
  · rw [split]
    exact fromBlock.drop_eq
  · rw [split]
    exact fromBlock.ends
  · intro skipped' split'
    obtain rfl : skipped' = skipped :=
      List.append_cancel_right (split'.symm.trans split)
    exact fromBlock.mem_iff

end Format

namespace Reader

/-! ## Where the reader skips to -/

/-- `block_start_location` of `SkipToInitialBlock`. -/
def blockStart (initial : UInt64) : UInt64 :=
  let blockSize := UInt64.ofNat kBlockSize
  if blockSize - 6 < initial % blockSize then
    initial - initial % blockSize + blockSize
  else initial - initial % blockSize

theorem toNat_blockStart (initial : UInt64) :
    (blockStart initial).toNat =
      if 32762 < initial.toNat % 32768 then
        (initial.toNat - initial.toNat % 32768 + 32768) % 2 ^ 64
      else initial.toNat - initial.toNat % 32768 := by
  have size : UInt64.ofNat kBlockSize = 32768 := rfl
  have less : initial % 32768 ≤ initial := by
    rw [UInt64.le_iff_toNat_le, UInt64.toNat_mod]
    exact Nat.mod_le _ _
  have condition : (32768 - 6 : UInt64) < initial % 32768 ↔
      32762 < initial.toNat % 32768 := by
    rw [UInt64.lt_iff_toNat_lt, UInt64.toNat_mod]
    rfl
  unfold blockStart
  dsimp only
  rw [size]
  by_cases trailer : 32762 < initial.toNat % 32768
  · rw [if_pos trailer, if_pos (condition.mpr trailer), UInt64.toNat_add,
      UInt64.toNat_sub_of_le _ _ less, UInt64.toNat_mod]
    rfl
  · rw [if_neg trailer, if_neg (fun less => trailer (condition.mp less)),
      UInt64.toNat_sub_of_le _ _ less, UInt64.toNat_mod]
    rfl

theorem blockStart_mod (initial : UInt64) :
    (blockStart initial).toNat % kBlockSize = 0 := by
  have bound := initial.toNat_lt
  rw [toNat_blockStart, kBlockSize_eq]
  split <;> omega

theorem blockStart_le
    {initial : UInt64}
    {position : Nat}
    (late : initial.toNat ≤ position)
    (inBlock : position % kBlockSize + kHeaderSize ≤ kBlockSize) :
    (blockStart initial).toNat ≤ position := by
  rw [kBlockSize_eq, kHeaderSize_eq] at inBlock
  rw [toNat_blockStart]
  split <;> omega

/-- The zeros at the end of a block that the initial offset lies among, if the reader
has not skipped that block, are at least as many as a header has bytes. -/
theorem wide_of_blockStart
    {initial : UInt64}
    {position gap : Nat}
    (notSkipped : (blockStart initial).toNat ≤ position)
    (before : position < initial.toNat)
    (among : initial.toNat ≤ position + gap)
    (atBlock : (position + gap) % kBlockSize = 0)
    (bounded : position + gap < 2 ^ 64) :
    kHeaderSize ≤ gap := by
  rw [kBlockSize_eq] at atBlock
  rw [toNat_blockStart] at notSkipped
  rw [kHeaderSize_eq]
  split at notSkipped <;> omega

/-- No physical record that starts at the initial offset or behind it is skipped. -/
theorem start_le_position
    (format : Format)
    (records : List Bytes)
    (initial : UInt64)
    {skipped kept : List Bytes}
    (split : records = skipped ++ kept) :
    ∀ piece ∈ format.pieces 0 0 kBlockSize skipped, initial.toNat ≤ piece.position →
      (blockStart initial).toNat ≤ piece.position ∧
        piece.position + kHeaderSize ≤ (format.logBytes kBlockSize records).length := by
  have fragments := format.map_fragment_pieces 0 0 kBlockSize skipped
  have located := format.located_pieces 0 0 kBlockSize skipped
  have fits := format.fits_fragmentsOf kBlockSize skipped (Nat.le_refl _)
  rw [← fragments] at fits
  have first : Format.InBlock 0 kBlockSize :=
    ⟨by decide, Nat.le_refl _, by rw [Nat.mod_self, Nat.zero_mod]⟩
  intro piece isPiece behind
  have header := format.header_bounds
  have seven := kHeaderSize_eq
  have ends := located.end_le piece isPiece
  rw [fragments, Nat.zero_add] at ends
  change _ ≤ (format.logBytes kBlockSize skipped).length at ends
  refine ⟨blockStart_le behind (located.in_block first fits piece isPiece), ?_⟩
  rw [split, Format.logBytes_append, List.length_append]
  omega

/-- The reader behind `SkipToInitialBlock`. -/
def skipped (reader : Reader GrowingFile) : Reader GrowingFile :=
  { reader with
    endOfBufferOffset := blockStart reader.initialOffset
    file := { reader.file with
      pos := reader.file.pos + (blockStart reader.initialOffset).toNat } }

theorem skipToInitialBlock_eq (reader : Reader GrowingFile) :
    reader.skipToInitialBlock GrowingFile.sequentialFile =
      (true, reader.skipped) := by
  have located : (if UInt64.ofNat kBlockSize - 6 <
        reader.initialOffset % UInt64.ofNat kBlockSize then
      reader.initialOffset - reader.initialOffset % UInt64.ofNat kBlockSize +
        UInt64.ofNat kBlockSize
    else reader.initialOffset - reader.initialOffset % UInt64.ofNat kBlockSize) =
      blockStart reader.initialOffset := rfl
  unfold skipToInitialBlock
  dsimp only
  rw [located]
  split
  · rfl
  · rename_i zero
    have isZero : blockStart reader.initialOffset = 0 := by
      by_contra nonzero
      exact zero (UInt64.pos_iff_ne_zero.mpr nonzero)
    rw [skipped, isZero]
    rfl

/-! ## Physical records that are passed over -/

section Passing

variable {mode : WALRecoveryMode} {assembly : Assembly GrowingFile}
  {format : Format} {offset length : Nat} {fragment : Fragment} {body : Bytes}

theorem Counts.of_alike
    {before after : Reader GrowingFile}
    (counts : Counts before length)
    (alike : Alike before after) : Counts after length := by
  obtain ⟨reporter, recordOffset, rfl⟩ := alike
  exact ⟨counts.inFile, counts.total_le, counts.offset_eq⟩

theorem Positioned.of_alike
    {before after : Reader GrowingFile}
    {rest : Bytes}
    (positioned : before.Positioned offset rest)
    (alike : Alike before after) : after.Positioned offset rest := by
  obtain ⟨reporter, recordOffset, rfl⟩ := alike
  exact positioned.of_reports reporter recordOffset

theorem Consumes.of_alike
    {before middle after : Reader GrowingFile}
    {count : Nat}
    (consumes : Consumes before middle count)
    (alike : Alike middle after) : Consumes before after count := by
  obtain ⟨reporter, recordOffset, rfl⟩ := alike
  exact consumes.of_reports reporter recordOffset

theorem Consumes.of_unfiltered
    {before after : Reader GrowingFile}
    {reporter said : Option (List Report)}
    {count : Nat}
    (consumes : Consumes (before.unfiltered reporter) (after.unfiltered said) count)
    (sameOffset : after.initialOffset = before.initialOffset) :
    Consumes before after count :=
  ⟨⟨sameOffset, consumes.settings.2⟩, consumes.ended, consumes.reached,
    consumes.arrived⟩

theorem Positioned.of_unfiltered
    {reader : Reader GrowingFile}
    {reporter : Option (List Report)}
    {rest : Bytes}
    (positioned : (reader.unfiltered reporter).Positioned offset rest) :
    reader.Positioned offset rest :=
  ⟨positioned.noError, positioned.inFile, positioned.consistent, positioned.live,
    positioned.ended⟩

theorem Positioned.unfiltered
    {reader : Reader GrowingFile}
    {rest : Bytes}
    (positioned : reader.Positioned offset rest)
    (reporter : Option (List Report)) :
    (reader.unfiltered reporter).Positioned offset rest :=
  ⟨positioned.noError, positioned.inFile, positioned.consistent, positioned.live,
    positioned.ended⟩

/-- The loop of `ReadRecord` has moved over `count` bytes and is between two
records. -/
structure Passes
    (mode : WALRecoveryMode)
    (before after : Assembly GrowingFile)
    (length offset count : Nat)
    (rest : Bytes) : Prop where
  steps : Steps GrowingFile.sequentialFile mode before [] after
  locals : after = { before with reader := after.reader }
  positioned : after.reader.Positioned offset rest
  consumes : Consumes before.reader after.reader count
  counts : Counts after.reader length
  between : after.pending = none

/-- Drops behind the initial offset are reported. -/
theorem reporter_reportDrop
    {reader : Reader GrowingFile}
    (bounded : length < 2 ^ 64)
    (counts : Counts reader length)
    {bytes : Nat}
    (behind : reader.initialOffset.toNat + bytes ≤ length - reader.total)
    (reason : Status)
    {calls : List Report}
    (heard : reader.reporter = some calls) :
    (reader.reportDrop bytes reason).reporter = some (calls ++ [⟨bytes, reason⟩]) := by
  have offset := counts.offset_eq
  have less : UInt64.ofNat bytes ≤ UInt64.ofNat (length - reader.total) := by
    rw [UInt64.le_iff_toNat_le, UInt64.toNat_ofNat', UInt64.toNat_ofNat',
      Nat.mod_eq_of_lt (by omega), Nat.mod_eq_of_lt (by omega)]
    omega
  have passed : reader.initialOffset ≤ reader.bufferOffset - UInt64.ofNat bytes := by
    rw [offset, UInt64.le_iff_toNat_le, UInt64.toNat_sub_of_le _ _ less,
      UInt64.toNat_ofNat', UInt64.toNat_ofNat', Nat.mod_eq_of_lt (by omega),
      Nat.mod_eq_of_lt (by omega)]
    omega
  simp only [reportDrop, heard, if_pos passed]

/-- From `before` to `after` a reporter received `count` calls. -/
def Hears (before after : Reader GrowingFile) (count : Nat) : Prop :=
  ∀ calls, before.reporter = some calls →
    ∃ more, after.reporter = some (calls ++ more) ∧ more.length = count

theorem Hears.of_silent
    {before after : Reader GrowingFile}
    (silent : after.reporter = before.reporter) : Hears before after 0 :=
  fun calls heard => ⟨[], by rw [silent, heard, List.append_nil], rfl⟩

theorem Hears.trans
    {first second third : Reader GrowingFile}
    {left right : Nat}
    (hears : Hears first second left)
    (more : Hears second third right) : Hears first third (left + right) := by
  intro calls heard
  obtain ⟨earlier, heard', early⟩ := hears calls heard
  obtain ⟨later, heard'', late⟩ := more _ heard'
  refine ⟨earlier ++ later, by rw [heard'', List.append_assoc], ?_⟩
  rw [List.length_append, early, late]

/-- A physical record in this block, or at the start of the next, that is passed over: it
is reported if it lies behind the initial offset. -/
theorem passes_narrow
    (bounded : length < 2 ^ 64)
    (counts : Counts assembly.reader length)
    (between : assembly.pending = none)
    (positioned : assembly.reader.Positioned offset
      (List.replicate (format.gap offset) 0 ++ (format.encode fragment ++ body)))
    (ends : format.endOffset offset fragment.payload.length ≤ kBlockSize)
    (inReach : span format offset fragment ≤ assembly.reader.reach)
    (narrow : format.gap offset < kHeaderSize)
    (accepts : assembly.reader.Accepts format)
    (passedOver : fragment.start = true →
      length - assembly.reader.total + format.gap offset <
        assembly.reader.initialOffset.toNat) :
    ∃ next, Passes mode assembly next length
        (format.endOffset offset fragment.payload.length)
        (span format offset fragment) body ∧
      Hears assembly.reader next.reader
        (if assembly.reader.initialOffset.toNat ≤
            length - assembly.reader.total + format.gap offset then 1 else 0) := by
  have encoded := format.length_encode fragment
  have header := format.header_bounds
  unfold Format.endOffset at ends ⊢
  unfold span at inReach ⊢
  rw [← encoded] at ends ⊢
  obtain ⟨there, same, moved, gap, silent, either⟩ :=
    approach 0 positioned narrow (by omega)
  have reached := gap.reach_le
  have gapTotals := gap.total_eq
  have sameOffset := gap.settings.1
  have atMost := counts.total_le
  have inReachThere : (format.encode fragment).length ≤ there.reach := by omega
  have countsThere : Counts there length := by
    rcases either with rfl | rfl
    · exact counts
    · exact counts.refill
  obtain ⟨whole, physical, moved', consumed, -⟩ :=
    @deliver_inBlock (there.unfiltered none) format _ fragment body 0
      (moved.unfiltered none) ends inReachThere (gap.accepts accepts) rfl
  obtain ⟨next, isNext, sameOffset', silent', counts', -, outcome⟩ :=
    readPhysicalRecord_filtered none bounded countsThere 0
  rw [physical] at isNext outcome
  change whole = next.unfiltered none at isNext
  subst isNext
  have positioned' := moved'.of_unfiltered
  have consumed' := consumed.of_unfiltered sameOffset'
  have totals := consumed'.total_eq
  have consumedAll := gap.trans consumed'
  have silentAll := silent'.trans silent
  rw [sameOffset] at outcome sameOffset'
  rcases outcome with ⟨same', late⟩ | ⟨bad, start, behind, before⟩
  · -- It starts behind the initial offset, so it begins no record.
    have isType : (format.type fragment).code ≤ kMaxRecordType := by
      cases format.type fragment <;> decide
    have size : headerSize (isRecyclableType (format.type fragment).code) =
        format.header := by
      rw [isRecyclableType_code, Format.type, Writer.isRecyclable_fragmentType,
        Format.header]
    obtain ⟨start, behind, starts⟩ := late isType
    dsimp only at starts
    rw [size] at starts
    have continued : fragment.start = false := by
      cases begins : fragment.start with
      | false => rfl
      | true =>
          have before := passedOver begins
          omega
    obtain ⟨reason, handled⟩ := handle_orphan mode assembly
      assembly.reader.bufferOffset format 0 next continued between
    have alike := alike_report { assembly with reader := next }
      fragment.payload.length reason
    refine ⟨_, ⟨.next (by rw [readRecordStep, same, same', handled]) (.refl _), rfl,
      positioned'.of_alike alike, consumedAll.of_alike alike, counts'.of_alike alike,
      between⟩, ?_⟩
    rw [if_pos (by omega)]
    intro calls heard
    have behind : next.initialOffset.toNat + fragment.payload.length ≤
        length - next.total := by
      rw [sameOffset']
      omega
    exact ⟨_, reporter_reportDrop bounded counts' behind (.Corruption reason)
      (silentAll.trans heard), rfl⟩
  · refine ⟨_, ⟨.next (readRecordStep_badRecord mode (same.trans bad) between) (.refl _),
      rfl, positioned', consumedAll, counts', between⟩, ?_⟩
    rw [if_neg (by omega)]
    exact .of_silent silentAll

/-- A gap as long as a header. -/
theorem passes_gap
    (bounded : length < 2 ^ 64)
    (counts : Counts assembly.reader length)
    (between : assembly.pending = none)
    (positioned : assembly.reader.Positioned offset
      (List.replicate (format.gap offset) 0 ++ body))
    (inReach : format.gap offset ≤ assembly.reader.reach)
    (wide : kHeaderSize ≤ format.gap offset) :
    ∃ next, Passes mode assembly next length kBlockSize (format.gap offset) body ∧
      Hears assembly.reader next.reader 0 := by
  obtain ⟨next, physical, moved, consumed, silent⟩ := skipGap 0 positioned inReach wide
  obtain ⟨same, -, -, -, counts', -, outcome⟩ :=
    readPhysicalRecord_filtered none bounded counts 0
  have isNext : same = next := by
    rcases outcome with ⟨isSame, -⟩ | ⟨isSame, -⟩
    · rw [isSame] at physical
      exact congrArg PhysicalRead.reader physical
    · rw [isSame] at physical
      exact congrArg PhysicalRead.reader physical
  rw [isNext] at counts'
  exact ⟨{ assembly with reader := next },
    ⟨.next (readRecordStep_badRecord mode physical between) (.refl _), rfl, moved,
      consumed, counts', between⟩, .of_silent silent⟩

theorem Passes.trans
    {first second third : Assembly GrowingFile}
    {offset' left right : Nat}
    {rest rest' : Bytes}
    (passes : Passes mode first second length offset left rest)
    (more : Passes mode second third length offset' right rest') :
    Passes mode first third length offset' (left + right) rest' :=
  ⟨passes.steps.trans more.steps, by
    rw [more.locals, passes.locals], more.positioned, passes.consumes.trans more.consumes,
    more.counts, more.between⟩

/-- A physical record that is passed over, across the zeros in front of it. -/
theorem passes_fragment
    (bounded : length < 2 ^ 64)
    (counts : Counts assembly.reader length)
    (between : assembly.pending = none)
    (positioned : assembly.reader.Positioned offset
      (List.replicate (format.gap offset) 0 ++ (format.encode fragment ++ body)))
    (ends : format.endOffset offset fragment.payload.length ≤ kBlockSize)
    (inReach : span format offset fragment ≤ assembly.reader.reach)
    (accepts : assembly.reader.Accepts format)
    (passedOver : fragment.start = true →
      length - assembly.reader.total + format.gap offset <
        assembly.reader.initialOffset.toNat) :
    ∃ next, Passes mode assembly next length
        (format.endOffset offset fragment.payload.length)
        (span format offset fragment) body ∧
      Hears assembly.reader next.reader
        (if assembly.reader.initialOffset.toNat ≤
            length - assembly.reader.total + format.gap offset then 1 else 0) := by
  by_cases narrow : format.gap offset < kHeaderSize
  · exact passes_narrow bounded counts between positioned ends inReach narrow accepts
      passedOver
  · have header := kHeaderSize_eq
    have atMost := counts.total_le
    obtain ⟨-, start⟩ :=
      format.startOffset_of_gap (by omega : 0 < format.gap offset)
    have sameEnd : format.endOffset kBlockSize fragment.payload.length =
        format.endOffset offset fragment.payload.length := by
      rw [Format.endOffset, Format.endOffset, start, Format.startOffset_kBlockSize]
    unfold span at inReach
    obtain ⟨middle, gap, silent⟩ := @passes_gap mode assembly format offset length _ bounded
      counts between positioned (by omega) (by omega)
    have reached := gap.consumes.reach_le
    have totals := gap.consumes.total_eq
    have atBlock : middle.reader.Positioned kBlockSize
        (List.replicate (format.gap kBlockSize) 0 ++
          (format.encode fragment ++ body)) := by
      rw [Format.gap_kBlockSize]
      exact gap.positioned
    obtain ⟨next, passes, hears⟩ := @passes_narrow mode middle format kBlockSize length
      fragment body bounded gap.counts gap.between atBlock (by omega)
      (by unfold span; rw [Format.gap_kBlockSize]; omega)
      (by rw [Format.gap_kBlockSize]; omega) (gap.consumes.accepts accepts) (by
        intro begins
        have before := passedOver begins
        rw [Format.gap_kBlockSize, gap.consumes.settings.1]
        omega)
    have passed := gap.trans passes
    have heard := silent.trans hears
    unfold span at passed ⊢
    rw [sameEnd, Format.gap_kBlockSize, Nat.zero_add] at passed
    have here : length - middle.reader.total =
        length - assembly.reader.total + format.gap offset := by
      omega
    rw [here, gap.consumes.settings.1, Format.gap_kBlockSize, Nat.add_zero,
      Nat.zero_add] at heard
    exact ⟨next, passed, heard⟩

/-- A list of physical records that are passed over. -/
theorem passes_pieces
    {pieces : List Piece}
    {position : Nat}
    (bounded : length < 2 ^ 64)
    (counts : Counts assembly.reader length)
    (between : assembly.pending = none)
    (positioned : assembly.reader.Positioned offset
      (format.place offset (pieces.map Piece.fragment) ++ body))
    (fits : format.Fits offset (pieces.map Piece.fragment))
    (inReach : (format.place offset (pieces.map Piece.fragment)).length ≤
      assembly.reader.reach)
    (accepts : assembly.reader.Accepts format)
    (located : format.Located position offset pieces)
    (here : position + assembly.reader.total = length)
    (passed : ∀ piece ∈ pieces,
      Format.PassedOver assembly.reader.initialOffset.toNat piece) :
    ∃ next, Passes mode assembly next length
        (format.advance offset (pieces.map Piece.fragment))
        (format.place offset (pieces.map Piece.fragment)).length body ∧
      Hears assembly.reader next.reader (pieces.countP fun piece =>
        decide (assembly.reader.initialOffset.toNat ≤ piece.position)) := by
  induction pieces generalizing assembly offset position with
  | nil =>
      exact ⟨assembly, ⟨.refl _, rfl, positioned, .refl _, counts, between⟩,
        .of_silent rfl⟩
  | cons piece pieces inductionHypothesis =>
      obtain ⟨isNext, located⟩ := located
      have placed := format.length_place_cons offset piece.fragment
        (pieces.map Piece.fragment)
      have encoded := format.length_encode piece.fragment
      rw [List.map_cons] at positioned fits inReach ⊢
      rw [Format.place_cons, List.append_assoc, List.append_assoc] at positioned
      obtain ⟨middle, first, hears⟩ := @passes_fragment mode assembly format offset length
        piece.fragment _ bounded counts between positioned fits.endOffset_le
        (by unfold span; omega) accepts (by
          intro begins
          have before := passed piece List.mem_cons_self begins
          omega)
      have reached := first.consumes.reach_le
      have totals := first.consumes.total_eq
      unfold span at reached totals
      obtain ⟨next, rest, hears'⟩ := @inductionHypothesis middle _ _ first.counts
        first.between first.positioned fits.2.2 (by omega)
        (first.consumes.accepts accepts) located (by omega) (by
          rw [first.consumes.settings.1]
          exact fun other isOther => passed other (List.mem_cons_of_mem _ isOther))
      have whole := first.trans rest
      unfold span at whole
      have here' : length - assembly.reader.total + format.gap offset = piece.position := by
        omega
      rw [first.consumes.settings.1] at hears'
      rw [here'] at hears
      rw [placed, List.countP_cons, Nat.add_comm (List.countP _ _)]
      refine ⟨next, whole, ?_⟩
      have heard := hears.trans hears'
      simpa using heard

/-- To the first record that is kept: where the initial offset lies among the zeros in
front of it, these are passed over, too. -/
theorem passes_to_record
    {position : Nat}
    {records : List Bytes}
    (bounded : length < 2 ^ 64)
    (counts : Counts assembly.reader length)
    (between : assembly.pending = none)
    (positioned : assembly.reader.Positioned offset (format.logBytes offset records))
    (some : records ≠ [])
    (inReach : format.gap offset ≤ assembly.reader.reach)
    (inBlock : Format.InBlock position offset)
    (here : position + assembly.reader.total = length)
    (notSkipped : (blockStart assembly.reader.initialOffset).toNat ≤ position)
    (late : assembly.reader.initialOffset.toNat ≤ position + format.gap offset) :
    ∃ next offset' count,
      Passes mode assembly next length offset' count
          (format.logBytes offset' records) ∧
        (∀ others, others ≠ [] →
          count + (format.logBytes offset' others).length =
            (format.logBytes offset others).length) ∧
        assembly.reader.initialOffset.toNat ≤ length - next.reader.total ∧
        offset' % kBlockSize = (length - next.reader.total) % kBlockSize ∧
        Hears assembly.reader next.reader 0 := by
  by_cases passed : assembly.reader.initialOffset.toNat ≤ position
  · refine ⟨assembly, offset, 0,
      ⟨.refl _, rfl, positioned, .refl _, counts, between⟩,
      fun _ _ => Nat.zero_add _, by omega, ?_, .of_silent rfl⟩
    rw [← inBlock.same]
    congr 1
    omega
  · have positive : 0 < format.gap offset := by omega
    obtain ⟨isGap, atStart⟩ := format.startOffset_of_gap positive
    have aligned := @Format.InBlock.start_eq format _ _ inBlock
    rw [atStart] at aligned
    have short := format.gap_lt_header offset
    have header := format.header_bounds
    have rest := format.logBytes_of_gap positive some
    have inFile : format.gap offset ≤ assembly.reader.total := by
      unfold reach at inReach
      unfold total
      split at inReach <;> omega
    have wide := wide_of_blockStart notSkipped (by omega) late aligned (by omega)
    rw [rest] at positioned
    obtain ⟨next, passes, silent⟩ := @passes_gap mode assembly format offset length _
      bounded counts between positioned inReach wide
    have totals := passes.consumes.total_eq
    refine ⟨next, kBlockSize, format.gap offset, passes, ?_, by omega, ?_, silent⟩
    · intro others some
      rw [format.logBytes_of_gap positive some, List.length_append,
        List.length_replicate]
    · have same : length - next.reader.total = position + format.gap offset := by
        omega
      rw [same, aligned, Nat.mod_self]

end Passing

theorem Steps.resume_eq
    {mode : WALRecoveryMode}
    {first second : Assembly GrowingFile}
    (steps : Steps GrowingFile.sequentialFile mode first [] second)
    {outcome : List Bytes × Reader GrowingFile}
    {enough : Nat}
    (run : ∀ calls fuel, enough ≤ calls → enough ≤ fuel →
      resume GrowingFile.sequentialFile mode calls fuel second = some outcome) :
    ∃ enough, ∀ calls fuel, enough ≤ calls → enough ≤ fuel →
      resume GrowingFile.sequentialFile mode calls fuel first = some outcome := by
  generalize none : ([] : List Bytes) = records at steps
  induction steps with
  | refl => exact ⟨enough, run⟩
  | record => cases none
  | next step _ inductionHypothesis =>
      obtain ⟨enough, run⟩ := inductionHypothesis run none
      refine ⟨enough + 1, fun calls fuel callsBound bound => ?_⟩
      obtain ⟨fuel, rfl⟩ : ∃ less, fuel = less + 1 := ⟨fuel - 1, by omega⟩
      have rest := run calls fuel (by omega) (by omega)
      simpa [Reader.resume, Reader.readRecordLoop, step] using rest

/-! ## Reading a log from an initial offset -/

section Logs

variable (mode : WALRecoveryMode) (reporter : Option (List Report))
  (checksum : Bool) (initial logNumber : UInt64)

/-- The first call of a new reader skips; with the initial offset zero there is
nothing to skip. -/
theorem readRecords_new (calls : Nat) (file : GrowingFile) :
    (Reader.new file reporter checksum initial logNumber).readRecords
        GrowingFile.sequentialFile mode (calls + 1) =
      resume GrowingFile.sequentialFile mode calls (calls + 1) (startAssembly
        (Reader.new file reporter checksum initial logNumber).skipped) := by
  by_cases skips : 0 < initial
  · have before : (Reader.new file reporter checksum initial logNumber).lastRecordOffset
        < (Reader.new file reporter checksum initial logNumber).initialOffset := skips
    simp only [readRecords, resume, readRecord, if_pos before, skipToInitialBlock_eq,
      Bool.not_true, Bool.false_eq_true, if_false]
  · have isZero : initial = 0 := by
      by_contra nonzero
      exact skips (UInt64.pos_iff_ne_zero.mpr nonzero)
    have same : (Reader.new file reporter checksum initial logNumber).skipped =
        Reader.new file reporter checksum initial logNumber := by
      have nothing : blockStart 0 = 0 := by decide
      have offset : (Reader.new file reporter checksum 0 logNumber).initialOffset = 0 :=
        rfl
      rw [isZero, skipped, offset, nothing]
      rfl
    rw [same, readRecords_settled]
    rw [isZero]
    exact UInt64.zero_le

/-- Where there is nothing to read, `ReadRecord` returns `false`. -/
theorem readRecordStep_nothing
    {assembly : Assembly GrowingFile}
    (buffer : assembly.reader.buffer = [])
    (live : assembly.reader.eof = false)
    (noError : assembly.reader.readError = false)
    (between : assembly.pending = none)
    (nothing : assembly.reader.file.arrive.unread = []) :
    readRecordStep GrowingFile.sequentialFile mode assembly =
      .inr ⟨false, [], assembly.reader.refill⟩ := by
  have seven := kHeaderSize_eq
  have refilled : assembly.reader.refill.buffer = [] ∧
      assembly.reader.refill.eof = true := by
    unfold Reader.refill
    rw [nothing]
    exact ⟨rfl, rfl⟩
  have same : { assembly.reader.refill with buffer := [] } = assembly.reader.refill := by
    rw [← refilled.1]
  have physical := readPhysicalRecord_refill assembly.reader 0 live noError
    (by rw [buffer, List.length_nil]; omega)
  rw [readPhysicalRecord_short 0 refilled.2 (by rw [refilled.1, List.length_nil]; omega),
    if_pos refilled.1, same] at physical
  obtain ⟨said, finished, quiet, -⟩ := finish_eq
    { assembly with reader := assembly.reader.refill } mode
  have isSaid : said = assembly.reader.refill.reporter := quiet (.inr between)
  rw [isSaid] at finished
  rw [readRecordStep, physical, handle_eof, finished]

theorem positioned_skipped
    {written : Bytes}
    (inFile : (blockStart initial).toNat ≤ written.length) :
    let reader :=
      (Reader.new (GrowingFile.atRest written) reporter checksum initial
        logNumber).skipped
    reader.Positioned kBlockSize (written.drop (blockStart initial).toNat) ∧
      Counts reader written.length ∧
      (blockStart initial).toNat + reader.total = written.length ∧
      reader.reach = (written.drop (blockStart initial).toNat).length := by
  intro reader
  have pos : reader.file.pos = (blockStart initial).toNat := Nat.zero_add _
  have unread : reader.file.unread = written.drop (blockStart initial).toNat := by
    rw [GrowingFile.unread, pos]
    rfl
  have total : reader.total = written.length - (blockStart initial).toNat := by
    have counted : reader.total = 0 + reader.file.unread.length + 0 := rfl
    rw [counted, unread, List.length_drop]
    omega
  refine ⟨⟨rfl, ?_, ?_, fun _ => ⟨rfl, rfl⟩, Bool.false_ne_true.elim⟩, ⟨?_, ?_, ?_⟩, ?_, ?_⟩
  · rw [pos]
    exact inFile
  · have ahead : reader.buffer ++
        (reader.file.unread ++ reader.file.arrivals.flatten) =
          reader.file.unread ++ [] := rfl
    rw [ahead, unread, List.append_nil]
  · rw [pos]
    exact inFile
  · omega
  · have offset : reader.bufferOffset = blockStart initial - UInt64.ofNat 0 := rfl
    have start : written.length - reader.total = (blockStart initial).toNat := by
      omega
    rw [offset, start, UInt64.ofNat_toNat]
    exact UInt64.sub_zero _
  · omega
  · have reached : reader.reach = 0 + reader.file.unread.length := rfl
    rw [reached, unread, Nat.zero_add]

/-- What is left to read once the physical records in front of the first kept record
are passed over. -/
theorem resumes_behind
    {assembly : Assembly GrowingFile}
    {format : Format}
    {offset length : Nat}
    {records : List Bytes}
    (bounded : length < 2 ^ 64)
    (counts : Counts assembly.reader length)
    (between : assembly.pending = none)
    (positioned : assembly.reader.Positioned offset (format.logBytes offset records))
    (atRest : assembly.reader.file.arrivals = [])
    (whole : assembly.reader.reach = (format.logBytes offset records).length)
    (accepts : assembly.reader.Accepts format)
    (passed : records ≠ [] →
      assembly.reader.initialOffset.toNat ≤ length - assembly.reader.total) :
    ∃ final,
      (∃ enough, ∀ calls fuel, enough ≤ calls → enough ≤ fuel →
        resume GrowingFile.sequentialFile mode calls fuel assembly =
          some (records, final)) ∧
      final.reporter = assembly.reader.reporter := by
  by_cases empty : records = []
  · rw [empty] at positioned whole
    obtain ⟨final, -, step, -, -, -, -, -, silent, -⟩ :=
      readRecordStep_end mode positioned whole
        (.inr (by rw [GrowingFile.nextArrival, atRest]; rfl))
    refine ⟨final, ⟨1, fun calls fuel _ bound => ?_⟩, silent (.inr between)⟩
    obtain ⟨fuel, rfl⟩ : ∃ less, fuel = less + 1 := ⟨fuel - 1, by omega⟩
    simp [Reader.resume, Reader.readRecordLoop, step, empty]
  · obtain ⟨assembled, ended, chained⟩ := format.assemble_fragmentsOf offset records
    obtain ⟨last, reads, quiet⟩ := @reads_visible mode (assembly.unfiltered (some []))
      format offset (format.fragmentsOf offset records) (positioned.unfiltered (some []))
      (format.fits_fragmentsOf offset records positioned.offset_le) atRest accepts rfl
      (by
        intro isSome
        change assembly.pending.isSome = true at isSome
        rw [between] at isSome
        cases isSome)
    have same : (assembly.unfiltered (some [])).reader.reach =
        (format.logBytes offset records).length := whole
    have pending : (assembly.unfiltered (some [])).pending = none := between
    have visible := format.visible_eq_self offset
      (format.logBytes offset records).length (format.fragmentsOf offset records)
      (Nat.le_refl _)
    rw [same, visible, pending] at reads quiet
    rw [assembled] at reads
    obtain ⟨silent, -⟩ := quiet chained
    have nothing : last.reporter = some [] := silent (.inr ⟨ended, Nat.sub_self _⟩)
    have notIn : assembly.inFragmentedRecord = false := by
      rw [← assembly.isSome_pending, between]
      rfl
    obtain ⟨final, run, reported, fewer⟩ := reads.filtered bounded rfl
      ⟨counts, passed empty⟩ (by rw [notIn]; exact Bool.false_ne_true.elim)
    refine ⟨final, run, reported.eq_of_length_le ?_⟩
    have bound := fewer [] rfl
    have none : last.reports = [] := by
      rw [reports, nothing]
      rfl
    rw [none, List.length_nil, Nat.zero_add] at bound
    exact bound

/-- Reading a complete log from an initial offset: the records that start there or
behind are returned, in order.  What is reported are the physical records behind the
initial offset that belong to a record in front of it. -/
theorem readRecords_logBytes_from
    (format : Format)
    (records : List Bytes)
    (bounded : (format.logBytes kBlockSize records).length < 2 ^ 64)
    (accepts : format.recycle = true →
      format.logNumber.toUInt32.toUInt64 = logNumber) :
    ∃ final, ∃ lead : List Piece,
      (∃ enough, ∀ fuel, enough ≤ fuel →
        (Reader.new (GrowingFile.atRest (format.logBytes kBlockSize records)) reporter
            checksum initial logNumber).readRecords GrowingFile.sequentialFile mode
              fuel =
          some (Format.recordsFrom (format.extents 0 kBlockSize records) initial.toNat,
            final)) ∧
      Hears (Reader.new (GrowingFile.atRest (format.logBytes kBlockSize records)) reporter
          checksum initial logNumber) final
        (lead.countP fun piece => decide (initial.toNat ≤ piece.position)) ∧
      ∀ skipped,
        records = skipped ++
            Format.recordsFrom (format.extents 0 kBlockSize records) initial.toNat →
          ∀ piece, initial.toNat ≤ piece.position → (piece ∈ lead ↔
            piece ∈ format.pieces 0 0 kBlockSize skipped) := by
  have behindStart := @start_le_position format records initial
  generalize isWritten : format.logBytes kBlockSize records = written at *
  generalize isKept : Format.recordsFrom (format.extents 0 kBlockSize records)
    initial.toNat = kept at *
  let reader :=
    (Reader.new (GrowingFile.atRest written) reporter checksum initial logNumber).skipped
  have seven := kHeaderSize_eq
  suffices resumes : ∃ final, ∃ lead : List Piece,
      (∃ enough, ∀ calls fuel, enough ≤ calls → enough ≤ fuel →
        resume GrowingFile.sequentialFile mode calls fuel (startAssembly reader) =
          some (kept, final)) ∧
      Hears reader final (lead.countP fun piece =>
        decide (initial.toNat ≤ piece.position)) ∧
      ∀ skipped, records = skipped ++ kept →
        ∀ piece, initial.toNat ≤ piece.position →
          (piece ∈ lead ↔ piece ∈ format.pieces 0 0 kBlockSize skipped) by
    obtain ⟨final, lead, ⟨enough, run⟩, hears, isLead⟩ := resumes
    refine ⟨final, lead, ⟨enough + 1, fun fuel bound => ?_⟩, hears, isLead⟩
    obtain ⟨fuel, rfl⟩ : ∃ less, fuel = less + 1 := ⟨fuel - 1, by omega⟩
    rw [readRecords_new]
    exact run fuel (fuel + 1) (by omega) (by omega)
  by_cases inFile : (blockStart initial).toNat ≤ written.length
  · obtain ⟨positioned, counts, here, reached⟩ :=
      positioned_skipped reporter checksum initial logNumber inFile
    obtain ⟨lead, located, passed, fits, placed, late, -, isLead⟩ :=
      format.logBytes_from_block records (blockStart_mod initial)
        (by rw [isWritten]; exact inFile)
        (fun position behind inBlock _ => blockStart_le behind inBlock)
    rw [isWritten, isKept] at placed
    rw [isKept] at late isLead
    rw [placed] at positioned reached
    rw [List.length_append] at reached
    obtain ⟨next, passes, hears⟩ := @passes_pieces mode (startAssembly reader) format
      kBlockSize written.length _ lead _ bounded counts rfl positioned fits
      (Nat.le.intro reached.symm) accepts located here passed
    have totals := passes.consumes.total_eq
    have sameOffset := passes.consumes.settings.1
    obtain ⟨reach, atRest⟩ := passes.consumes.reach_eq rfl
    change next.reader.total + _ = reader.total at totals
    change next.reader.initialOffset = initial at sameOffset
    change next.reader.reach + _ = reader.reach at reach
    change _ + reader.total = _ at here
    change reader.reach = _ at reached
    suffices resumes : ∃ final,
        (∃ enough, ∀ calls fuel, enough ≤ calls → enough ≤ fuel →
          resume GrowingFile.sequentialFile mode calls fuel next =
            some (kept, final)) ∧
        Hears next.reader final 0 by
      obtain ⟨final, ⟨enough, run⟩, silent⟩ := resumes
      refine ⟨final, lead, passes.steps.resume_eq run, hears.trans silent, ?_⟩
      intro skipped split piece behind
      rw [isLead skipped split]
      exact and_iff_left_of_imp
        (fun isPiece => (behindStart split piece isPiece behind).1)
    by_cases empty : kept = []
    · obtain ⟨final, run, silent⟩ := resumes_behind mode bounded passes.counts
        passes.between passes.positioned atRest (by omega)
        (passes.consumes.accepts accepts) (fun some => absurd empty some)
      exact ⟨final, run, .of_silent silent⟩
    · have atBlock : Format.InBlock (blockStart initial).toNat kBlockSize :=
        ⟨by decide, Nat.le_refl _, by rw [blockStart_mod, Nat.mod_self]⟩
      have longer := format.length_logBytes_ge
        (format.advance kBlockSize (lead.map Piece.fragment)) empty
      obtain ⟨middle, offset, count, across, left, behind, -, silent⟩ :=
        @passes_to_record mode _ _ _ _ _ _ bounded passes.counts passes.between
          passes.positioned empty (by omega) (atBlock.advance fits) (by omega)
          (by rw [sameOffset]; exact Nat.le_add_right _ _)
          (by rw [sameOffset]; exact late empty)
      obtain ⟨reach', atRest'⟩ := across.consumes.reach_eq atRest
      have left := left kept empty
      obtain ⟨final, ⟨enough, run⟩, silent'⟩ := resumes_behind mode bounded across.counts
        across.between across.positioned atRest' (by omega)
        ((passes.consumes.trans across.consumes).accepts accepts)
        (fun _ => by rw [across.consumes.settings.1]; exact behind)
      exact ⟨final, across.steps.resume_eq run, silent.trans (.of_silent silent')⟩
  · have none : kept = [] := by
      by_contra some
      obtain ⟨before, split, -, late⟩ :=
        format.split_recordsFrom 0 0 kBlockSize records initial.toNat
      rw [isKept] at split late
      obtain ⟨inBlock, inside⟩ := format.start_bounds before some
      rw [← split, isWritten] at inside
      have bound := late some
      have start := @blockStart_le initial _ (by omega) inBlock
      omega
    have nothing : reader.file.arrive.unread = [] := by
      have pos : reader.file.pos = (blockStart initial).toNat := Nat.zero_add _
      rw [GrowingFile.arrive_of_atRest rfl, GrowingFile.unread, pos]
      exact List.drop_of_length_le (Nat.le_of_not_le inFile)
    have step := @readRecordStep_nothing mode (startAssembly reader) rfl rfl rfl rfl
      nothing
    refine ⟨reader.refill, [], ⟨1, fun calls fuel _ bound => ?_⟩, .of_silent rfl, ?_⟩
    · obtain ⟨fuel, rfl⟩ : ∃ less, fuel = less + 1 := ⟨fuel - 1, by omega⟩
      simp [Reader.resume, Reader.readRecordLoop, step, none]
    · intro skipped split piece behind
      refine ⟨List.not_mem_nil.elim, fun isPiece => ?_⟩
      have bounds := behindStart split piece isPiece behind
      omega

end Logs

/-- A reader with an initial offset over a complete log, in either format and in every
recovery mode: it returns the records whose first physical record starts at the
initial offset or behind it, in order, and then `false`.  Offsets in a file are 64-bit
numbers. -/
theorem readRecords_from_offset
    {δ : Type}
    {D : Destination δ}
    {contents : δ → Bytes}
    (succeeds : D.Succeeds contents)
    {dest : δ}
    (fresh : contents dest = [])
    (recycle : Bool)
    (logNumber : UInt64)
    (small : logNumber.toNat < 2 ^ 32)
    (records : List Bytes)
    (mode : WALRecoveryMode)
    (checksum : Bool)
    (reporter : Option (List Report))
    (initial : UInt64) :
    let written := contents
      ((Writer.new dest logNumber recycle).addRecords D records).dest
    let format : Format := ⟨recycle, logNumber⟩
    written.length < 2 ^ 64 →
      ∃ final enough, ∀ fuel, enough ≤ fuel →
        (Reader.new (GrowingFile.atRest written) reporter checksum initial
            logNumber).readRecords GrowingFile.sequentialFile mode fuel =
          some (Format.recordsFrom (format.extents 0 0 records) initial.toNat,
            final) := by
  intro written format bounded
  have log : written = format.logBytes 0 records :=
    Writer.contents_addRecords_new succeeds fresh recycle logNumber records
  rw [← Format.logBytes_kBlockSize] at log
  rw [log] at bounded ⊢
  rw [← Format.extents_kBlockSize]
  obtain ⟨final, -, ⟨enough, run⟩, -⟩ := readRecords_logBytes_from mode reporter checksum
    initial logNumber format records bounded (fun _ => toUInt32_toUInt64_of_lt small)
  exact ⟨final, enough, run⟩

theorem readRecords_from_offset_five :
    let written := recyclableLog 7 [[1, 2, 3], [4]]
    Format.recordsFrom (Format.extents ⟨true, 7⟩ 0 0 [[1, 2, 3], [4]]) 5 = [[4]] ∧
      ∃ final enough, ∀ fuel, enough ≤ fuel →
        (Reader.new (GrowingFile.atRest written) none true 5 7).readRecords
            GrowingFile.sequentialFile .absoluteConsistency fuel =
          some (Format.recordsFrom
            (Format.extents ⟨true, 7⟩ 0 0 [[1, 2, 3], [4]]) 5, final) := by
  intro written
  have size : written.length < 2 ^ 64 := by decide +kernel
  have kept : Format.recordsFrom (Format.extents ⟨true, 7⟩ 0 0 [[1, 2, 3], [4]]) 5 =
      [[4]] := by
    decide +kernel
  exact ⟨kept, readRecords_from_offset Destination.memory_succeeds
    (rfl : id ([] : Bytes) = []) true 7 (by decide) [[1, 2, 3], [4]]
    .absoluteConsistency true none 5 size⟩

end Reader
end Log
end RocksUtil
