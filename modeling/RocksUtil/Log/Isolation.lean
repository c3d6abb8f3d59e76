import RocksUtil.Log.Pieces
import RocksUtil.Log.Writing

/-!
# Damage and what is read behind it

A log of the legacy format some of whose payloads were overwritten.  A changed
record takes the rest of its block with it, and a logical record is lost with
any of its pieces; all other records are read, in `kSkipAnyCorruptedRecords` and
in `kPointInTimeRecovery` alike (`readRecords_overwritten`).
-/

namespace RocksUtil
namespace Log

/-! ## Salvaging the fragments of a record -/

theorem salvage_append
    (pending : Option Bytes)
    (left right : List (Fragment × Bool)) :
    salvage pending (left ++ right) =
        salvage pending left ++ salvage (salvagePending pending left) right ∧
      salvagePending pending (left ++ right) =
        salvagePending (salvagePending pending left) right := by
  induction left generalizing pending with
  | nil => exact ⟨rfl, rfl⟩
  | cons mark marks inductionHypothesis =>
      obtain ⟨fragment, isLost⟩ := mark
      cases isLost with
      | true => exact inductionHypothesis none
      | false =>
          obtain ⟨records, after⟩ :=
            inductionHypothesis (pendingNext pending fragment)
          exact ⟨by simp [salvage, salvagePending, records], after⟩

/-- Nothing is lost. -/
theorem salvage_of_kept
    (pending : Option Bytes)
    (marks : List (Fragment × Bool))
    (kept : ∀ mark ∈ marks, mark.2 = false) :
    salvage pending marks = assemble pending (marks.map Prod.fst) ∧
      salvagePending pending marks = pendingAfter pending (marks.map Prod.fst) := by
  induction marks generalizing pending with
  | nil => exact ⟨rfl, rfl⟩
  | cons mark marks inductionHypothesis =>
      obtain ⟨fragment, isLost⟩ := mark
      have here : isLost = false := kept _ List.mem_cons_self
      obtain ⟨records, after⟩ := inductionHypothesis
        (pendingNext pending fragment)
        (fun other isOther => kept other (List.mem_cons_of_mem _ isOther))
      rw [here]
      exact ⟨congrArg _ records, after⟩

/-- Fragments that end no record complete none, whether they are lost or not. -/
theorem salvage_of_open
    (pending : Option Bytes)
    (marks : List (Fragment × Bool))
    (open' : ∀ mark ∈ marks, mark.1.finish = false) :
    salvage pending marks = [] := by
  induction marks generalizing pending with
  | nil => rfl
  | cons mark marks inductionHypothesis =>
      obtain ⟨fragment, isLost⟩ := mark
      have continues : fragment.finish = false := open' _ List.mem_cons_self
      have rest (pending : Option Bytes) := inductionHypothesis pending
        (fun other isOther => open' other (List.mem_cons_of_mem _ isOther))
      cases isLost with
      | true => exact rest none
      | false => simp [salvage, completed, continues, rest]

/-- Without its beginning nothing of a record is salvaged. -/
theorem salvage_of_continued
    (marks : List (Fragment × Bool))
    (continued : ∀ mark ∈ marks, mark.1.start = false) :
    salvage none marks = [] ∧ salvagePending none marks = none := by
  induction marks with
  | nil => exact ⟨rfl, rfl⟩
  | cons mark marks inductionHypothesis =>
      obtain ⟨fragment, isLost⟩ := mark
      have notStart : fragment.start = false := continued _ List.mem_cons_self
      obtain ⟨records, after⟩ := inductionHypothesis
        (fun other isOther => continued other (List.mem_cons_of_mem _ isOther))
      cases isLost with
      | true => exact ⟨records, after⟩
      | false =>
          have nothing : completed none fragment = none ∧
              pendingNext none fragment = none := by
            simp [completed, pendingNext, notStart]
          simp only [salvage, salvagePending, nothing]
          exact ⟨by simpa using records, after⟩

/-- A record is salvaged exactly if none of its fragments is lost. -/
theorem salvage_record
    (format : Format)
    (offset : Nat)
    (record : Bytes)
    {marks : List (Fragment × Bool)}
    (fragments : marks.map Prod.fst = format.fragments offset true record) :
    salvage none marks =
        (if marks.all fun mark => !mark.2 then [record] else []) ∧
      salvagePending none marks = none := by
  by_cases kept : ∀ mark ∈ marks, mark.2 = false
  · have all : (marks.all fun mark => !mark.2) = true := by
      simpa using kept
    obtain ⟨records, after⟩ := salvage_of_kept none marks kept
    have whole := format.assemble_record offset record
    rw [all, if_pos rfl, records, after, fragments]
    exact whole
  · have notAll : (marks.all fun mark => !mark.2) = false := by
      simpa using kept
    -- The fragments in front of a lost one end no record, those behind it begin
    -- none.
    have someLost : ∃ mark ∈ marks, mark.2 = true := by
      simpa using kept
    obtain ⟨⟨fragment, isLost⟩, isMark, rfl⟩ := someLost
    obtain ⟨before, behind, split⟩ := List.append_of_mem isMark
    rw [split, List.map_append, List.map_cons] at fragments
    have open' : ∀ mark ∈ before, mark.1.finish = false := by
      intro mark isBefore
      exact format.finish_of_split fragments.symm (by simp) mark.1
        (List.mem_map_of_mem isBefore)
    have splitBehind : format.fragments offset true record =
        (before.map Prod.fst ++ [fragment]) ++ behind.map Prod.fst := by
      rw [List.append_assoc]
      exact fragments.symm
    have continued : ∀ mark ∈ behind, mark.1.start = false := by
      intro mark isBehind
      exact format.start_of_split splitBehind (by simp) mark.1
        (List.mem_map_of_mem isBehind)
    obtain ⟨records, after⟩ := salvage_append none before ((fragment, true) :: behind)
    obtain ⟨nothing, none'⟩ := salvage_of_continued behind continued
    rw [notAll, if_neg Bool.false_ne_true, split, records, after]
    refine ⟨?_, none'⟩
    rw [salvage_of_open none before open']
    exact nothing

/-! ## Records none of whose pieces is lost -/

/-- The records, numbered from `first` on, none of whose pieces is lost. -/
def unlost
    (lost : Piece → Bool)
    (pieces : List Piece)
    (first : Nat)
    (records : List Bytes) : List Bytes :=
  ((records.zipIdx first).filter fun entry =>
    pieces.all fun piece =>
      !(decide (piece.record = entry.2) && lost piece)).map Prod.fst

/-- The records that can be salvaged are those none of whose pieces is lost. -/
theorem salvage_pieces
    (format : Format)
    (lost : Piece → Bool)
    (first position offset : Nat)
    (records : List Bytes) :
    let pieces := format.pieces first position offset records
    salvage none (pieces.map fun piece => (piece.fragment, lost piece)) =
      unlost lost pieces first records := by
  induction records generalizing first position offset with
  | nil => rfl
  | cons record records inductionHypothesis =>
      intro pieces
      let fragments := format.fragments offset true record
      let own := format.locate first position offset fragments
      let others := format.pieces (first + 1)
        (position + (format.place offset fragments).length)
        (format.advance offset fragments) records
      have split : pieces = own ++ others := rfl
      have ownNumber : ∀ piece ∈ own, piece.record = first :=
        format.record_of_mem_locate first position offset fragments
      have otherNumber : ∀ piece ∈ others, first + 1 ≤ piece.record :=
        fun piece isOther => (format.record_of_mem_pieces (first + 1) _ _ records
          piece isOther).1
      have marksOwn : (own.map fun piece =>
          (piece.fragment, lost piece)).map Prod.fst = fragments := by
        rw [List.map_map]
        exact format.map_fragment_locate first position offset fragments
      obtain ⟨recordsEq, pendingEq⟩ := salvage_record format offset record marksOwn
      have rest := inductionHypothesis (first + 1)
        (position + (format.place offset fragments).length)
        (format.advance offset fragments)
      -- The first record depends on its own pieces only.
      have here : (pieces.all fun piece =>
          !(decide (piece.record = first) && lost piece)) =
            ((own.map fun piece => (piece.fragment, lost piece)).all
              fun mark => !mark.2) := by
        rw [split, List.all_append, List.all_map, Bool.eq_iff_iff]
        simp only [Bool.and_eq_true, List.all_eq_true, Function.comp_apply,
          Bool.not_eq_true', Bool.and_eq_false_iff, decide_eq_false_iff_not]
        constructor
        · rintro ⟨ofOwn, -⟩ piece isOwn
          exact (ofOwn piece isOwn).resolve_left (· (ownNumber piece isOwn))
        · intro ofOwn
          refine ⟨fun piece isOwn => .inr (ofOwn piece isOwn), ?_⟩
          intro piece isOther
          have number := otherNumber piece isOther
          exact .inl (by omega)
      -- The others depend on the pieces behind it only.
      have behind : ((records.zipIdx (first + 1)).filter fun entry =>
          pieces.all fun piece =>
            !(decide (piece.record = entry.2) && lost piece)) =
          ((records.zipIdx (first + 1)).filter fun entry =>
            others.all fun piece =>
              !(decide (piece.record = entry.2) && lost piece)) := by
        apply List.filter_congr
        intro entry isEntry
        have number := List.le_snd_of_mem_zipIdx isEntry
        rw [split, List.all_append]
        have nothing : (own.all fun piece =>
            !(decide (piece.record = entry.2) && lost piece)) = true := by
          rw [List.all_eq_true]
          intro piece isOwn
          have ownFirst := ownNumber piece isOwn
          have different : ¬piece.record = entry.2 := by omega
          simp [different]
        rw [nothing, Bool.true_and]
      rw [unlost, List.zipIdx_cons, List.filter_cons, here, behind, split,
        List.map_append, (salvage_append none _ _).1, recordsEq, pendingEq]
      change _ ++ salvage none (others.map _) = _
      rw [rest]
      split <;> rfl

/-! ## Reading an overwritten log -/

/-- Payload bytes of a log of the legacy format were replaced, such that the
stored checksum of every changed record no longer matches. -/
structure Damages
    (format : Format)
    (records : List Bytes)
    (written damaged : Bytes) : Prop where
  overwrites : format.Overwrites (format.pieces 0 0 0 records) written damaged
  mismatch : ∀ piece ∈ format.pieces 0 0 0 records,
    piece.changedIn format damaged = true →
      Reader.crcMatches (damaged.drop piece.position) kHeaderSize
        piece.fragment.payload.length = false

/-- The records of a log none of whose pieces lies at or behind a changed piece of
its block. -/
def Format.unaffected (format : Format) (damaged : Bytes) (records : List Bytes) :
    List Bytes :=
  let pieces := format.pieces 0 0 0 records
  unlost (Piece.lostIn format pieces damaged) pieces 0 records

namespace Reader

section Overwritten

variable {format : Format} {records : List Bytes} {written damaged : Bytes}

/-- The damaged log as a sequence of slots. -/
theorem Damages.slots
    (legacy : format.recycle = false)
    (log : written = format.logBytes 0 records)
    (damages : Damages format records written damaged) :
    let slots := (format.pieces 0 0 kBlockSize records).map
      (Piece.slotIn format damaged)
    damaged = format.placeSlots kBlockSize slots ∧
      (∀ slot ∈ slots, Sound format slot) ∧
      slots.map Slot.fragment = format.fragmentsOf kBlockSize records := by
  intro slots
  obtain ⟨⟨length, outside⟩, mismatch⟩ := damages
  rw [← format.pieces_kBlockSize] at outside mismatch
  have fragments := format.map_fragment_pieces 0 0 kBlockSize records
  have fits := format.fits_fragmentsOf kBlockSize records (Nat.le_refl _)
  have placed : written.drop 0 = format.place kBlockSize
      ((format.pieces 0 0 kBlockSize records).map Piece.fragment) := by
    rw [List.drop_zero, fragments, log, ← Format.logBytes_kBlockSize]
    rfl
  obtain ⟨slotsEq, headers⟩ := Format.drop_eq_placeSlots
    (format.located_pieces 0 0 kBlockSize records) placed length
    (fun index _ => outside index)
  refine ⟨slotsEq, ?_, ?_⟩
  · intro slot isSlot
    obtain ⟨piece, isPiece, rfl⟩ := List.mem_map.mp isSlot
    obtain ⟨header, inFile⟩ := headers piece isPiece
    refine Format.sound_slotIn legacy header inFile ?_ (mismatch piece isPiece)
    apply fits.small
    rw [← fragments]
    exact List.mem_map_of_mem isPiece
  · rw [List.map_map, ← fragments]
    rfl

/-- In the modes that go on behind damage, exactly the unaffected records are
read, and every damaged block is reported. -/
theorem readRecords_overwritten
    {mode : WALRecoveryMode}
    (goesOn : mode = .skipAnyCorruptedRecords ∨ mode = .pointInTimeRecovery)
    (legacy : format.recycle = false)
    (log : written = format.logBytes 0 records)
    (damages : Damages format records written damaged)
    (logNumber : UInt64) :
    ∃ final,
      (∃ enough, ∀ fuel, enough ≤ fuel →
        (Reader.new (GrowingFile.atRest damaged) (some []) true 0
          logNumber).readRecords GrowingFile.sequentialFile mode fuel =
            some (format.unaffected damaged records, final)) ∧
        final.reporter.isSome ∧
        (format.damagedBlocks damaged (format.pieces 0 0 0 records)).card ≤
          final.mismatches := by
  obtain ⟨slotsEq, sound, fragments⟩ := Damages.slots legacy log damages
  have fits := format.fits_fragmentsOf kBlockSize records (Nat.le_refl _)
  have accepts (file : GrowingFile) :
      (Reader.new file (some []) true 0 logNumber).Accepts format := by
    intro recycle
    rw [legacy] at recycle
    cases recycle
  obtain ⟨final, reads, heard, dropped⟩ := readRecords_slots goesOn sound
    (by rw [fragments]; exact fits) logNumber (accepts _)
  have inBlock : Format.InBlock 0 kBlockSize :=
    ⟨by decide, Nat.le_refl _, by rw [Nat.mod_self, Nat.zero_mod]⟩
  have located := format.located_pieces 0 0 kBlockSize records
  have fitsPieces : format.Fits kBlockSize
      ((format.pieces 0 0 kBlockSize records).map Piece.fragment) := by
    rw [format.map_fragment_pieces]
    exact fits
  have none : ∀ other ∈ ([] : List Piece), other.position < 0 := by simp
  have marks := @Format.marks_slotIn format damaged _ _ _ _ inBlock located
    fitsPieces none
  have blocks := @Format.card_damagedBlocks_le format damaged _ _ _ _ inBlock
    located fitsPieces none
  have intact : Format.brokenAt format damaged [] 0 = false := rfl
  rw [intact, List.nil_append] at marks
  rw [intact, if_neg Bool.false_ne_true, Finset.sdiff_empty] at blocks
  rw [← slotsEq, marks, salvage_pieces] at reads
  rw [format.pieces_kBlockSize] at reads blocks
  rw [format.pieces_kBlockSize] at dropped
  exact ⟨final, reads, heard, blocks.trans dropped⟩

end Overwritten

end Reader

/-! ## One changed byte -/

section OneByte

variable {format : Format} {records : List Bytes} {written : Bytes}
  {piece : Piece} {index : Nat} {value : UInt8}

/-- Replacing a byte of a payload changes that payload and no other. -/
theorem changedIn_set
    (log : written = format.logBytes 0 records)
    (isPiece : piece ∈ format.pieces 0 0 0 records)
    (held : piece.Holds format index)
    (different : written[index]? ≠ some value) :
    ∀ other ∈ format.pieces 0 0 0 records,
      other.changedIn format (written.set index value) = true ↔
        other = piece := by
  rw [← format.pieces_kBlockSize] at isPiece ⊢
  have located := format.located_pieces 0 0 kBlockSize records
  have placed : written.drop 0 = format.place kBlockSize
      ((format.pieces 0 0 kBlockSize records).map Piece.fragment) := by
    rw [List.drop_zero, format.map_fragment_pieces, log,
      ← Format.logBytes_kBlockSize]
    rfl
  intro other isOther
  have payload := Format.payloadIn_written located placed other isOther
  rw [Piece.changedIn, decide_eq_true_iff, ← payload]
  constructor
  · intro changed
    by_contra isDistinct
    apply changed
    apply Format.slice_eq
    intro index' from' before
    apply List.getElem?_set_ne
    rintro rfl
    exact isDistinct (located.unique isPiece isOther held ⟨from', before⟩)
  · rintro rfl same
    have inPayload := congrArg
      (fun bytes : Bytes => bytes[index - (other.position + format.header)]?) same
    have inside : index - (other.position + format.header) <
        other.fragment.payload.length := by
      unfold Piece.Holds at held
      omega
    have shift : other.position + format.header +
        (index - (other.position + format.header)) = index := by
      unfold Piece.Holds at held
      omega
    simp only [Piece.payloadIn, List.getElem?_take, if_pos inside,
      List.getElem?_drop, shift] at inPayload
    rw [List.getElem?_set_self'] at inPayload
    cases before : written[index]? with
    | none =>
        have payloadLength := congrArg List.length payload
        rw [Piece.payloadIn, List.length_take, List.length_drop] at payloadLength
        rw [List.getElem?_eq_none_iff] at before
        unfold Piece.Holds at held
        omega
    | some byte =>
        rw [before] at inPayload different
        exact different inPayload.symm

/-- Replacing a byte of a payload damages the log, when the checksum notices. -/
theorem damages_set
    (log : written = format.logBytes 0 records)
    (isPiece : piece ∈ format.pieces 0 0 0 records)
    (held : piece.Holds format index)
    (different : written[index]? ≠ some value)
    (mismatch : Reader.crcMatches ((written.set index value).drop piece.position)
      kHeaderSize piece.fragment.payload.length = false) :
    Damages format records written (written.set index value) where
  overwrites := by
    refine ⟨List.length_set, ?_⟩
    intro index' none
    apply List.getElem?_set_ne
    rintro rfl
    exact none piece isPiece held
  mismatch := by
    intro other isOther changed
    rw [(changedIn_set log isPiece held different other isOther).mp changed]
    exact mismatch

end OneByte

/-! ## Records behind the damage -/

/-- Filtering a list by position gives its first elements exactly if the others
are filtered out. -/
theorem filter_zipIdx_eq_take_iff
    {records : List Bytes}
    {keep : Nat → Bool}
    {first count : Nat}
    (below : ∀ number, first ≤ number → number < first + count →
      number < first + records.length → keep number = true) :
    ((records.zipIdx first).filter fun entry => keep entry.2).map Prod.fst =
        records.take count ↔
      ∀ number, first + count ≤ number → number < first + records.length →
        keep number = false := by
  induction records generalizing first count with
  | nil =>
      simp only [List.zipIdx_nil, List.filter_nil, List.map_nil, List.take_nil,
        true_iff, List.length_nil]
      intro number above before
      omega
  | cons record records inductionHypothesis =>
      cases count with
      | zero =>
          rw [List.take_zero, List.map_eq_nil_iff, List.filter_eq_nil_iff]
          constructor
          · intro none number above before
            have inside : number - first < (record :: records).length := by
              rw [List.length_cons] at before ⊢
              omega
            obtain ⟨element, isElement⟩ : ∃ element,
                (record :: records)[number - first]? = some element :=
              ⟨_, List.getElem?_eq_getElem inside⟩
            have isEntry : (element, number) ∈ (record :: records).zipIdx first := by
              rw [List.mk_mem_zipIdx_iff_le_and_getElem?_sub]
              exact ⟨by omega, isElement⟩
            simpa using none _ isEntry
          · intro above entry isEntry
            have from' := List.le_snd_of_mem_zipIdx isEntry
            have before := List.snd_lt_of_mem_zipIdx isEntry
            simpa using above entry.2 (by omega) (by omega)
      | succ count =>
          have here : keep first = true := below first (Nat.le_refl _) (by omega)
            (by rw [List.length_cons]; omega)
          have rest := @inductionHypothesis (first + 1) count (by
            intro number from' before inside
            exact below number (by omega) (by omega)
              (by rw [List.length_cons]; omega))
          rw [List.zipIdx_cons, List.filter_cons, if_pos here, List.map_cons,
            List.take_succ_cons, List.cons.injEq, rest]
          simp only [true_and, List.length_cons]
          constructor
          · intro above number from' before
            exact above number (by omega) (by omega)
          · intro above number from' before
            exact above number (by omega) (by omega)

/-- A piece of an earlier record lies in front of those of later ones. -/
theorem record_le_of_position_le
    (format : Format)
    (first position offset : Nat)
    (records : List Bytes) :
    ∀ piece ∈ format.pieces first position offset records,
      ∀ other ∈ format.pieces first position offset records,
        other.position ≤ piece.position → other.record ≤ piece.record := by
  induction records generalizing first position offset with
  | nil => simp [Format.pieces]
  | cons record records inductionHypothesis =>
      intro piece isPiece other isOther order
      have located := format.located_pieces first position offset
        (record :: records)
      rw [Format.pieces] at isPiece isOther located
      rcases List.mem_append.mp isOther with otherFirst | otherLater
      · rw [format.record_of_mem_locate _ _ _ _ other otherFirst]
        rcases List.mem_append.mp isPiece with pieceFirst | pieceLater
        · exact (format.record_of_mem_locate _ _ _ _ piece pieceFirst).ge
        · have bounds := format.record_of_mem_pieces _ _ _ _ piece pieceLater
          omega
      · rcases List.mem_append.mp isPiece with pieceFirst | pieceLater
        · have before := located.position_lt_of_append piece pieceFirst other
            otherLater
          omega
        · exact inductionHypothesis _ _ _ piece pieceLater other otherLater order

/-- The unaffected records are the first ones of the log, none of them changed,
exactly if every record behind a changed one is affected itself. -/
theorem unaffected_eq_take_iff
    (format : Format)
    (damaged : Bytes)
    (records : List Bytes) :
    let pieces := format.pieces 0 0 0 records
    (∃ count, format.unaffected damaged records = records.take count ∧
        ∀ piece ∈ pieces, piece.record < count →
          piece.changedIn format damaged = false) ↔
      ∀ piece ∈ pieces, piece.changedIn format damaged = true →
        ∀ number, piece.record < number → number < records.length →
          ∃ other ∈ pieces, other.record = number ∧
            other.lostIn format pieces damaged = true := by
  intro pieces
  let keep (number : Nat) : Bool := pieces.all fun piece =>
    !(decide (piece.record = number) && piece.lostIn format pieces damaged)
  have keepIff (number : Nat) : keep number = false ↔
      ∃ other ∈ pieces, other.record = number ∧
        other.lostIn format pieces damaged = true := by
    simp [keep]
  -- Records in front of all changed ones are kept.
  have below {count : Nat}
      (unchanged : ∀ piece ∈ pieces, piece.record < count →
        piece.changedIn format damaged = false)
      (number : Nat) (before : number < 0 + count) : keep number = true := by
    by_contra notKept
    obtain ⟨piece, isPiece, rfl, isLost⟩ :=
      (keepIff number).mp (Bool.eq_false_iff.mpr notKept)
    simp only [Piece.lostIn, List.any_eq_true, Bool.and_eq_true,
      decide_eq_true_eq] at isLost
    obtain ⟨other, isOther, changed, -, order⟩ := isLost
    have earlier := record_le_of_position_le format 0 0 0 records piece isPiece
      other isOther order
    rw [unchanged other isOther (by omega)] at changed
    cases changed
  have takeIff {count : Nat}
      (unchanged : ∀ piece ∈ pieces, piece.record < count →
        piece.changedIn format damaged = false) :
      format.unaffected damaged records = records.take count ↔
        ∀ number, 0 + count ≤ number → number < 0 + records.length →
          keep number = false :=
    filter_zipIdx_eq_take_iff fun number _ before _ => below unchanged number before
  constructor
  · rintro ⟨count, same, unchanged⟩ piece isPiece changed number behind inside
    apply (keepIff number).mp
    apply (takeIff unchanged).mp same number ?_ (by omega)
    by_contra before
    rw [unchanged piece isPiece (by omega)] at changed
    cases changed
  · intro affected
    by_cases someChanged : ∃ number, ∃ piece ∈ pieces,
        piece.changedIn format damaged = true ∧ piece.record = number
    · -- The first changed record ends what is read.
      classical
      let count := Nat.find someChanged
      obtain ⟨piece, isPiece, changed, number⟩ := Nat.find_spec someChanged
      have unchanged : ∀ other ∈ pieces, other.record < count →
          other.changedIn format damaged = false := by
        intro other isOther before
        by_contra changedOther
        exact Nat.find_min someChanged before
          ⟨other, isOther, by simpa using changedOther, rfl⟩
      refine ⟨count, (takeIff unchanged).mpr ?_, unchanged⟩
      intro other behind inside
      apply (keepIff other).mpr
      by_cases isFirst : other = count
      · refine ⟨piece, isPiece, number.trans isFirst.symm, ?_⟩
        rw [Piece.lostIn, List.any_eq_true]
        exact ⟨piece, isPiece, by simp [changed]⟩
      · exact affected piece isPiece changed other (by omega) (by omega)
    · have unchanged : ∀ piece ∈ pieces, piece.record < records.length →
          piece.changedIn format damaged = false := by
        intro piece isPiece _
        by_contra changed
        exact someChanged ⟨piece.record, piece, isPiece, by simpa using changed, rfl⟩
      refine ⟨records.length, (takeIff unchanged).mpr ?_, unchanged⟩
      intro number behind inside
      omega

/-! ## The two modes -/

namespace Reader

section Modes

variable {δ : Type} {D : Destination δ} {contents : δ → Bytes} {dest : δ}

/-- In `kSkipAnyCorruptedRecords` damage is isolated: exactly the records none of
whose pieces lies at or behind a changed piece of its block are returned, and
every block with a changed piece is reported. -/
theorem damage_isolated
    (succeeds : D.Succeeds contents)
    (fresh : contents dest = [])
    (logNumber readerNumber : UInt64)
    (records : List Bytes)
    {damaged : Bytes}
    (damages : Damages ⟨false, logNumber⟩ records
      (contents ((Writer.new dest logNumber false).addRecords D records).dest)
      damaged) :
    let format : Format := ⟨false, logNumber⟩
    let pieces := format.pieces 0 0 0 records
    ∃ final calls,
      (∃ enough, ∀ fuel, enough ≤ fuel →
        (Reader.new (GrowingFile.atRest damaged) (some []) true 0
          readerNumber).readRecords GrowingFile.sequentialFile
            .skipAnyCorruptedRecords fuel =
              some (unlost (Piece.lostIn format pieces damaged) pieces 0 records,
                final)) ∧
        final.reporter = some calls ∧
        (format.damagedBlocks damaged pieces).card ≤
          calls.countP fun call =>
            call.status == .Corruption "checksum mismatch" := by
  intro format pieces
  have log := Writer.contents_addRecords_new succeeds fresh false logNumber records
  obtain ⟨final, reads, heard, reported⟩ := readRecords_overwritten (.inl rfl) rfl log
    damages readerNumber
  obtain ⟨calls, reporter⟩ := Option.isSome_iff_exists.mp heard
  refine ⟨final, calls, reads, reporter, ?_⟩
  rw [mismatches, reports, reporter] at reported
  exact reported

/-- What `kPointInTimeRecovery` returns is a part of the log in front of all
damage exactly if nothing that can still be read lies behind the damage. -/
theorem pointInTimeRecovery_prefix_iff
    (succeeds : D.Succeeds contents)
    (fresh : contents dest = [])
    (logNumber readerNumber : UInt64)
    (records : List Bytes)
    {damaged : Bytes}
    (damages : Damages ⟨false, logNumber⟩ records
      (contents ((Writer.new dest logNumber false).addRecords D records).dest)
      damaged) :
    let format : Format := ⟨false, logNumber⟩
    let pieces := format.pieces 0 0 0 records
    ∃ returned final,
      (∃ enough, ∀ fuel, enough ≤ fuel →
        (Reader.new (GrowingFile.atRest damaged) (some []) true 0
          readerNumber).readRecords GrowingFile.sequentialFile
            .pointInTimeRecovery fuel = some (returned, final)) ∧
        ((∃ count, returned = records.take count ∧
            ∀ piece ∈ pieces, piece.record < count →
              piece.changedIn format damaged = false) ↔
          ∀ piece ∈ pieces, piece.changedIn format damaged = true →
            ∀ number, piece.record < number → number < records.length →
              ∃ other ∈ pieces, other.record = number ∧
                other.lostIn format pieces damaged = true) := by
  intro format pieces
  have log := Writer.contents_addRecords_new succeeds fresh false logNumber records
  obtain ⟨final, reads, -⟩ := readRecords_overwritten (.inr rfl) rfl log damages
    readerNumber
  exact ⟨_, final, reads, unaffected_eq_take_iff format damaged records⟩

end Modes

/-! ## A damaged log of two blocks -/

/-- The log a writer of the legacy format keeps in memory. -/
def memoryLog (records : List Bytes) : Bytes :=
  id ((Writer.new [] 7 false).addRecords Destination.memory records).dest

theorem memoryLog_eq (records : List Bytes) :
    memoryLog records = Format.logBytes ⟨false, 7⟩ 0 records :=
  Writer.contents_addRecords_new Destination.memory_succeeds rfl false 7 records

section TwoBlocks

variable {filler : Bytes} (long : filler.length = 32753)

include long

/-- Two records fill a block, and a third one starts the next. -/
theorem pieces_twoBlocks :
    Format.pieces ⟨false, 7⟩ 0 0 0 [[1], filler, [2]] =
      [⟨0, 0, ⟨true, true, [1]⟩⟩, ⟨1, 8, ⟨true, true, filler⟩⟩,
        ⟨2, 32768, ⟨true, true, [2]⟩⟩] := by
  have header : (⟨false, 7⟩ : Format).header = 7 := rfl
  have behindFirst : Format.endOffset ⟨false, 7⟩ 0 1 = 8 := by decide
  have behindSecond : Format.endOffset ⟨false, 7⟩ 8 32753 = kBlockSize := by decide
  have behindThird : Format.endOffset ⟨false, 7⟩ kBlockSize 1 = 8 := by decide
  have noGap : Format.gap ⟨false, 7⟩ 8 = 0 := by decide
  have first : Format.fragments ⟨false, 7⟩ 0 true [1] = [⟨true, true, [1]⟩] :=
    Format.fragments_of_fits _ true (behindFirst.trans_le (by decide))
  have second : Format.fragments ⟨false, 7⟩ 8 true filler =
      [⟨true, true, filler⟩] := by
    apply Format.fragments_of_fits
    rw [long, behindSecond]
  have third : Format.fragments ⟨false, 7⟩ kBlockSize true [2] =
      [⟨true, true, [2]⟩] :=
    Format.fragments_of_fits _ true (behindThird.trans_le (by decide))
  simp only [Format.pieces, first, second, third, Format.locate,
    Format.advance, Format.place_cons, Format.place_nil, Format.gap_zero,
    List.length_cons, List.length_nil, long, Nat.zero_add, behindFirst,
    behindSecond, noGap, Format.gap_kBlockSize, List.replicate_zero,
    List.nil_append, List.append_nil, Format.length_encode, header,
    List.singleton_append, Nat.add_zero]

/-- The first record lies at the start of the file. -/
theorem logBytes_twoBlocks :
    ∃ rest, Format.logBytes ⟨false, 7⟩ 0 [[1], filler, [2]] =
      Format.encode ⟨false, 7⟩ ⟨true, true, [1]⟩ ++ rest := by
  rw [Format.logBytes, ← Format.map_fragment_pieces _ 0 0, pieces_twoBlocks long,
    List.map_cons, Format.place_cons, Format.gap_zero, List.replicate_zero,
    List.nil_append]
  exact ⟨_, rfl⟩

/-- Overwriting the payload of the first record damages the log there. -/
theorem damages_twoBlocks :
    let written := memoryLog [[1], filler, [2]]
    Damages ⟨false, 7⟩ [[1], filler, [2]] written (written.set 7 9) ∧
      ∀ piece ∈ Format.pieces ⟨false, 7⟩ 0 0 0 [[1], filler, [2]],
        piece.changedIn ⟨false, 7⟩ (written.set 7 9) = true ↔
          piece = ⟨0, 0, ⟨true, true, [1]⟩⟩ := by
  intro written
  have log : written = Format.logBytes ⟨false, 7⟩ 0 [[1], filler, [2]] :=
    memoryLog_eq _
  obtain ⟨rest, split⟩ := logBytes_twoBlocks long
  rw [← log] at split
  have inFirst : 7 < (Format.encode ⟨false, 7⟩ ⟨true, true, [1]⟩).length := by
    decide +kernel
  have isPiece : (⟨0, 0, ⟨true, true, [1]⟩⟩ : Piece) ∈
      Format.pieces ⟨false, 7⟩ 0 0 0 [[1], filler, [2]] := by
    rw [pieces_twoBlocks long]
    exact List.mem_cons_self
  have held : (⟨0, 0, ⟨true, true, [1]⟩⟩ : Piece).Holds ⟨false, 7⟩ 7 :=
    ⟨by decide, by decide⟩
  have different : written[7]? ≠ some 9 := by
    rw [split, List.getElem?_append_left inFirst]
    decide +kernel
  refine ⟨damages_set log isPiece held different ?_,
    changedIn_set log isPiece held different⟩
  rw [split, List.set_append_left _ _ inFirst, List.drop_zero,
    crcMatches_append rest (by decide +kernel) (by decide +kernel)]
  decide +kernel

/-- Of the damaged log only the record in the second block is unaffected. -/
theorem unaffected_twoBlocks :
    let written := memoryLog [[1], filler, [2]]
    Format.unaffected ⟨false, 7⟩ (written.set 7 9) [[1], filler, [2]] =
      [[2]] := by
  intro written
  have changed := (damages_twoBlocks long).2
  have pieces := pieces_twoBlocks long
  rw [pieces] at changed
  have first := (changed ⟨0, 0, ⟨true, true, [1]⟩⟩ (by simp)).mpr rfl
  have second : Piece.changedIn ⟨false, 7⟩ (written.set 7 9)
      ⟨1, 8, ⟨true, true, filler⟩⟩ = false := by
    rw [Bool.eq_false_iff]
    intro isChanged
    have same := (changed _ (by simp)).mp isChanged
    simp at same
  have third : Piece.changedIn ⟨false, 7⟩ (written.set 7 9)
      ⟨2, 32768, ⟨true, true, [2]⟩⟩ = false := by
    rw [Bool.eq_false_iff]
    intro isChanged
    have same := (changed _ (by simp)).mp isChanged
    simp at same
  change Piece.changedIn ⟨false, 7⟩ (written.set 7 9) _ = true at first
  simp [Format.unaffected, unlost, pieces, Piece.lostIn, first, second, third,
    Piece.block, kBlockSize]

end TwoBlocks

/-- A record that leaves no room behind itself and a record of one byte. -/
def filler : Bytes := List.replicate 32753 0

theorem length_filler : filler.length = 32753 := List.length_replicate

theorem damage_isolated_twoBlocks :
    let records : List Bytes := [[1], filler, [2]]
    let written := memoryLog records
    let pieces := Format.pieces ⟨false, 7⟩ 0 0 0 records
    ∃ final calls,
      (∃ enough, ∀ fuel, enough ≤ fuel →
        (Reader.new (GrowingFile.atRest (written.set 7 9)) (some []) true 0
          7).readRecords GrowingFile.sequentialFile
            .skipAnyCorruptedRecords fuel = some ([[2]], final)) ∧
        final.reporter = some calls ∧
        (Format.damagedBlocks ⟨false, 7⟩ (written.set 7 9) pieces).card ≤
          calls.countP fun call =>
            call.status == .Corruption "checksum mismatch" := by
  have isolated := damage_isolated Destination.memory_succeeds
    (rfl : id ([] : Bytes) = []) 7 7 [[1], filler, [2]]
    (damages_twoBlocks length_filler).1
  have unaffected := unaffected_twoBlocks length_filler
  intro records written pieces
  rw [← unaffected]
  exact isolated

/-- A record behind the damage is returned in `kPointInTimeRecovery`. -/
theorem pointInTimeRecovery_goes_on :
    let records : List Bytes := [[1], filler, [2]]
    let written := memoryLog records
    Damages ⟨false, 7⟩ records written (written.set 7 9) ∧
      (∃ final enough, ∀ fuel, enough ≤ fuel →
        (Reader.new (GrowingFile.atRest (written.set 7 9)) (some []) true 0
          7).readRecords GrowingFile.sequentialFile
            .pointInTimeRecovery fuel = some ([[2]], final)) ∧
      ¬[[2]] <+: records := by
  have log := memoryLog_eq [[1], filler, [2]]
  have damages := (damages_twoBlocks length_filler).1
  obtain ⟨final, reads, -⟩ := readRecords_overwritten (.inr rfl) rfl log damages 7
  have unaffected := unaffected_twoBlocks length_filler
  intro records written
  refine ⟨damages, ⟨final, ?_⟩, ?_⟩
  · rw [← unaffected]
    exact reads
  · intro isPrefix
    rw [List.cons_prefix_cons] at isPrefix
    exact absurd isPrefix.1 (by decide)

theorem pointInTimeRecovery_prefix_iff_twoBlocks :
    let records : List Bytes := [[1], filler, [2]]
    let format : Format := ⟨false, 7⟩
    let damaged := (memoryLog records).set 7 9
    let pieces := format.pieces 0 0 0 records
    ∃ returned final,
      (∃ enough, ∀ fuel, enough ≤ fuel →
        (Reader.new (GrowingFile.atRest damaged) (some []) true 0
          7).readRecords GrowingFile.sequentialFile
            .pointInTimeRecovery fuel = some (returned, final)) ∧
        ((∃ count, returned = records.take count ∧
            ∀ piece ∈ pieces, piece.record < count →
              piece.changedIn format damaged = false) ↔
          ∀ piece ∈ pieces, piece.changedIn format damaged = true →
            ∀ number, piece.record < number → number < records.length →
              ∃ other ∈ pieces, other.record = number ∧
                other.lostIn format pieces damaged = true) :=
  pointInTimeRecovery_prefix_iff Destination.memory_succeeds
    (rfl : id ([] : Bytes) = []) 7 7 [[1], filler, [2]]
    (damages_twoBlocks length_filler).1

end Reader

end Log
end RocksUtil
