import RocksUtil.Log.Damage

/-!
# Physical records and their positions

The physical records of a log with the positions of their headers in the file,
and what overwriting payload bytes in place does to them.  `lostIn` says which
physical records a reader loses in terms of positions and blocks alone; it is
what the layout of `Log.Damage` marks as lost (`marks_slotIn`).
-/

namespace RocksUtil
namespace Log

/-- A physical record of a log. -/
structure Piece where
  /-- The number of the logical record it belongs to. -/
  record : Nat
  /-- The position of its header in the file. -/
  position : Nat
  /-- What it holds. -/
  fragment : Fragment

namespace Piece

/-- The number of the block that contains a physical record. -/
def block (piece : Piece) : Nat := piece.position / kBlockSize

/-- The byte at `index` of the file belongs to the payload. -/
def Holds (format : Format) (piece : Piece) (index : Nat) : Prop :=
  piece.position + format.header ≤ index ∧
    index < piece.position + format.header + piece.fragment.payload.length

/-- The payload as it is found in a file. -/
def payloadIn (format : Format) (file : Bytes) (piece : Piece) : Bytes :=
  (file.drop (piece.position + format.header)).take piece.fragment.payload.length

/-- The payload found in a file is not the one that was written. -/
def changedIn (format : Format) (file : Bytes) (piece : Piece) : Bool :=
  decide (piece.payloadIn format file ≠ piece.fragment.payload)

/-- The physical record lies at or behind a changed one of its block. -/
def lostIn
    (format : Format)
    (pieces : List Piece)
    (file : Bytes)
    (piece : Piece) : Bool :=
  pieces.any fun other =>
    other.changedIn format file &&
      (decide (other.block = piece.block) &&
        decide (other.position ≤ piece.position))

/-- The slot of a physical record in a file. -/
def slotIn (format : Format) (file : Bytes) (piece : Piece) : Slot where
  fragment := piece.fragment
  stored := (file.drop piece.position).take (format.encode piece.fragment).length
  changed := piece.changedIn format file

end Piece

namespace Format

/-- The physical records of fragments of one record. -/
def locate (format : Format) (record : Nat) :
    Nat → Nat → List Fragment → List Piece
  | _, _, [] => []
  | position, offset, fragment :: fragments =>
      ⟨record, position + format.gap offset, fragment⟩ ::
        format.locate record
          (position + format.gap offset +
            (format.header + fragment.payload.length))
          (format.endOffset offset fragment.payload.length) fragments

/-- The physical records of a list of records, the first of which has the number
`record` and is written at `position`, which has block offset `offset`. -/
def pieces (format : Format) : Nat → Nat → Nat → List Bytes → List Piece
  | _, _, _, [] => []
  | record, position, offset, slice :: slices =>
      let fragments := format.fragments offset true slice
      format.locate record position offset fragments ++
        format.pieces (record + 1)
          (position + (format.place offset fragments).length)
          (format.advance offset fragments) slices

/-- The physical records lie one behind the other from `position` on. -/
def Located (format : Format) : Nat → Nat → List Piece → Prop
  | _, _, [] => True
  | position, offset, piece :: pieces =>
      piece.position = position + format.gap offset ∧
        format.Located
          (position + format.gap offset +
            (format.header + piece.fragment.payload.length))
          (format.endOffset offset piece.fragment.payload.length) pieces

theorem located_locate
    (format : Format)
    (record position offset : Nat)
    (fragments : List Fragment) :
    format.Located position offset
      (format.locate record position offset fragments) := by
  induction fragments generalizing position offset with
  | nil => trivial
  | cons fragment fragments inductionHypothesis =>
      exact ⟨rfl, inductionHypothesis _ _⟩

@[simp] theorem map_fragment_locate
    (format : Format)
    (record position offset : Nat)
    (fragments : List Fragment) :
    (format.locate record position offset fragments).map Piece.fragment =
      fragments := by
  induction fragments generalizing position offset with
  | nil => rfl
  | cons fragment fragments inductionHypothesis =>
      rw [locate, List.map_cons, inductionHypothesis]

theorem record_of_mem_locate
    (format : Format)
    (record position offset : Nat)
    (fragments : List Fragment) :
    ∀ piece ∈ format.locate record position offset fragments,
      piece.record = record := by
  induction fragments generalizing position offset with
  | nil => simp [locate]
  | cons fragment fragments inductionHypothesis =>
      intro piece isPiece
      rcases List.mem_cons.mp isPiece with rfl | isLater
      · rfl
      · exact inductionHypothesis _ _ piece isLater

theorem located_append
    (format : Format)
    (position offset : Nat)
    (left right : List Piece) :
    format.Located position offset (left ++ right) ↔
      format.Located position offset left ∧
        format.Located
          (position + (format.place offset (left.map Piece.fragment)).length)
          (format.advance offset (left.map Piece.fragment)) right := by
  induction left generalizing position offset with
  | nil => simp [Located, advance]
  | cons piece pieces inductionHypothesis =>
      have length := format.length_encode piece.fragment
      have same : position + (format.place offset
          ((piece :: pieces).map Piece.fragment)).length =
            position + format.gap offset +
              (format.header + piece.fragment.payload.length) +
              (format.place
                (format.endOffset offset piece.fragment.payload.length)
                (pieces.map Piece.fragment)).length := by
        rw [List.map_cons, place_cons]
        simp only [List.length_append, List.length_replicate]
        omega
      rw [List.cons_append, Located, inductionHypothesis, Located, same,
        List.map_cons, advance]
      tauto

theorem map_fragment_pieces
    (format : Format)
    (record position offset : Nat)
    (slices : List Bytes) :
    (format.pieces record position offset slices).map Piece.fragment =
      format.fragmentsOf offset slices := by
  induction slices generalizing record position offset with
  | nil => rfl
  | cons slice slices inductionHypothesis =>
      rw [pieces, List.map_append, map_fragment_locate, inductionHypothesis,
        fragmentsOf]

theorem located_pieces
    (format : Format)
    (record position offset : Nat)
    (slices : List Bytes) :
    format.Located position offset
      (format.pieces record position offset slices) := by
  induction slices generalizing record position offset with
  | nil => trivial
  | cons slice slices inductionHypothesis =>
      rw [pieces, located_append, map_fragment_locate]
      exact ⟨format.located_locate _ _ _ _, inductionHypothesis _ _ _⟩

/-- The number of a physical record's logical record is in range. -/
theorem record_of_mem_pieces
    (format : Format)
    (record position offset : Nat)
    (slices : List Bytes) :
    ∀ piece ∈ format.pieces record position offset slices,
      record ≤ piece.record ∧ piece.record < record + slices.length := by
  induction slices generalizing record position offset with
  | nil => simp [pieces]
  | cons slice slices inductionHypothesis =>
      intro piece isPiece
      rw [List.length_cons]
      rcases List.mem_append.mp isPiece with isFirst | isLater
      · have number := format.record_of_mem_locate _ _ _ _ piece isFirst
        omega
      · have bounds := inductionHypothesis _ _ _ piece isLater
        omega

theorem pieces_kBlockSize
    (format : Format)
    (record position : Nat)
    (slices : List Bytes) :
    format.pieces record position kBlockSize slices =
      format.pieces record position 0 slices := by
  cases slices with
  | nil => rfl
  | cons slice slices =>
      have nonempty := format.fragments_ne_nil 0 true slice
      have sameFirst : format.locate record position kBlockSize
          (format.fragments 0 true slice) =
            format.locate record position 0 (format.fragments 0 true slice) := by
        cases format.fragments 0 true slice with
        | nil => rfl
        | cons fragment fragments =>
            rw [locate, locate, gap_kBlockSize, gap_zero, endOffset_kBlockSize]
      simp only [pieces, fragments_kBlockSize, sameFirst, place_kBlockSize,
        format.advance_kBlockSize nonempty]

section Order

variable {format : Format} {position offset : Nat} {piece : Piece}
  {pieces : List Piece}

theorem Located.position_le
    (located : format.Located position offset pieces) :
    ∀ piece ∈ pieces, position ≤ piece.position := by
  induction pieces generalizing position offset with
  | nil => simp
  | cons first pieces inductionHypothesis =>
      intro piece isPiece
      rcases List.mem_cons.mp isPiece with rfl | isLater
      · rw [located.1]
        exact Nat.le_add_right _ _
      · have later := inductionHypothesis located.2 piece isLater
        omega

/-- A physical record ends in front of the end of the list. -/
theorem Located.end_le
    (located : format.Located position offset pieces) :
    ∀ piece ∈ pieces,
      piece.position + (format.header + piece.fragment.payload.length) ≤
        position + (format.place offset (pieces.map Piece.fragment)).length := by
  induction pieces generalizing position offset with
  | nil => exact nofun
  | cons first pieces inductionHypothesis =>
      obtain ⟨isNext, located⟩ := located
      have placed := format.length_place_cons offset first.fragment
        (pieces.map Piece.fragment)
      have encoded := format.length_encode first.fragment
      intro piece isPiece
      rw [List.map_cons]
      rcases List.mem_cons.mp isPiece with rfl | isLater
      · omega
      · have later := inductionHypothesis located piece isLater
        omega

/-- Pieces later in the list lie further behind. -/
theorem Located.position_lt_of_append
    {left right : List Piece}
    (located : format.Located position offset (left ++ right)) :
    ∀ piece ∈ left, ∀ other ∈ right, piece.position < other.position := by
  induction left generalizing position offset with
  | nil => simp
  | cons first left inductionHypothesis =>
      obtain ⟨isNext, located⟩ := located
      intro piece isPiece other isOther
      rcases List.mem_cons.mp isPiece with rfl | isLater
      · have bounds := format.header_bounds
        have behind := located.position_le other
          (List.mem_append_right left isOther)
        omega
      · exact inductionHypothesis located piece isLater other isOther

/-- No byte belongs to two payloads. -/
theorem Located.unique
    {other : Piece}
    {index : Nat}
    (located : format.Located position offset pieces)
    (isPiece : piece ∈ pieces)
    (isOther : other ∈ pieces)
    (held : piece.Holds format index)
    (heldOther : other.Holds format index) : other = piece := by
  induction pieces generalizing position offset with
  | nil => cases isPiece
  | cons first pieces inductionHypothesis =>
      obtain ⟨isNext, located⟩ := located
      have behind (later : Piece) (isLater : later ∈ pieces)
          (heldFirst : first.Holds format index)
          (heldLater : later.Holds format index) : False := by
        have bound := located.position_le later isLater
        unfold Piece.Holds at heldFirst heldLater
        omega
      rcases List.mem_cons.mp isPiece with rfl | pieceLater
      · rcases List.mem_cons.mp isOther with rfl | otherLater
        · rfl
        · exact (behind other otherLater held heldOther).elim
      · rcases List.mem_cons.mp isOther with rfl | otherLater
        · exact (behind piece pieceLater heldOther held).elim
        · exact inductionHypothesis located pieceLater otherLater

/-- The block offset of a position, counting the end of a block as its last
offset. -/
structure InBlock (position offset : Nat) : Prop where
  positive : 0 < offset
  inside : offset ≤ kBlockSize
  same : position % kBlockSize = offset % kBlockSize

/-- Where the block offset is behind the piece, given where it was in front. -/
theorem InBlock.next
    (inBlock : InBlock position offset)
    {length : Nat}
    (ends : format.endOffset offset length ≤ kBlockSize) :
    InBlock (position + format.gap offset + (format.header + length))
        (format.endOffset offset length) ∧
      (position + format.gap offset) / kBlockSize =
        (position + format.gap offset + (format.header + length) - 1) /
          kBlockSize := by
  have block := kBlockSize_eq
  have bounds := format.header_bounds
  obtain ⟨positive, inside, same⟩ := inBlock
  unfold Format.endOffset Format.startOffset at ends ⊢
  unfold Format.gap
  rw [block] at inside same ends ⊢
  split at ends
  · rename_i switches
    simp only [if_pos switches]
    refine ⟨⟨by omega, by omega, ?_⟩, by omega⟩
    rw [block]
    omega
  · rename_i stays
    simp only [if_neg stays]
    refine ⟨⟨by omega, by omega, ?_⟩, by omega⟩
    rw [block]
    omega

/-- Where the block offset is behind a list of fragments. -/
theorem InBlock.advance
    (inBlock : InBlock position offset)
    {fragments : List Fragment}
    (fits : format.Fits offset fragments) :
    InBlock (position + (format.place offset fragments).length)
      (format.advance offset fragments) := by
  induction fragments generalizing position offset with
  | nil => exact inBlock
  | cons fragment fragments inductionHypothesis =>
      have rest := inductionHypothesis (inBlock.next fits.endOffset_le).1 fits.2.2
      have length := format.length_encode fragment
      have same : position + (format.place offset (fragment :: fragments)).length =
          position + format.gap offset +
            (format.header + fragment.payload.length) +
            (format.place (format.endOffset offset fragment.payload.length)
              fragments).length := by
        rw [place_cons]
        simp only [List.length_append, List.length_replicate]
        omega
      rw [same]
      exact rest

/-- The block offset of a piece. -/
theorem InBlock.start_eq (inBlock : InBlock position offset) :
    (position + format.gap offset) % kBlockSize = format.startOffset offset := by
  have block := kBlockSize_eq
  have bounds := format.header_bounds
  obtain ⟨positive, inside, same⟩ := inBlock
  unfold Format.startOffset Format.gap
  rw [block] at inside same ⊢
  split <;> omega

/-- A piece lies in the block in front of it exactly if it does not start a new
one. -/
theorem InBlock.block_eq_iff
    (inBlock : InBlock position offset)
    (begun : 0 < position) :
    (position + format.gap offset) / kBlockSize = (position - 1) / kBlockSize ↔
      0 < format.startOffset offset := by
  have block := kBlockSize_eq
  have bounds := format.header_bounds
  obtain ⟨positive, inside, same⟩ := inBlock
  unfold Format.startOffset Format.gap
  rw [block] at inside same ⊢
  split
  · constructor <;> intro <;> omega
  · constructor <;> intro <;> omega

end Order

/-! ## Blocks that are dropped -/

section Blocks

variable {format : Format} {file : Bytes}

/-- The reader has dropped the rest of the block that ends in front of
`position`: one of the pieces in front of it is changed and lies in that
block. -/
def brokenAt
    (format : Format)
    (file : Bytes)
    (before : List Piece)
    (position : Nat) : Bool :=
  before.any fun other =>
    other.changedIn format file &&
      decide (other.block = (position - 1) / kBlockSize)

/-- A piece is lost exactly as its slot is. -/
theorem lost_slotIn
    {position offset : Nat}
    {before after : List Piece}
    {piece : Piece}
    (inBlock : InBlock position offset)
    (earlier : ∀ other ∈ before, other.position < position)
    (later : ∀ other ∈ after, piece.position < other.position)
    (isNext : piece.position = position + format.gap offset) :
    format.lost (brokenAt format file before position) offset
        (piece.slotIn format file) =
      piece.lostIn format (before ++ piece :: after) file := by
  have blockEq (begun : 0 < position) :
      piece.block = (position - 1) / kBlockSize ↔
        0 < format.startOffset offset := by
    rw [Piece.block, isNext]
    exact inBlock.block_eq_iff begun
  have ordered : (position - 1) / kBlockSize ≤ piece.block := by
    rw [Piece.block, isNext]
    exact Nat.div_le_div_right (by omega)
  rw [Bool.eq_iff_iff]
  simp only [lost, brokenAt, Piece.lostIn, Piece.slotIn, Bool.or_eq_true,
    Bool.and_eq_true, List.any_append, List.any_cons, List.any_eq_true,
    decide_eq_true_eq, Nat.le_refl, and_true]
  constructor
  · rintro (changed | ⟨⟨other, isOther, changed, same⟩, stays⟩)
    · exact .inr (.inl changed)
    · have before' := earlier other isOther
      have here := (blockEq (by omega)).mpr stays
      exact .inl ⟨other, isOther, changed, same.trans here.symm, by omega⟩
  · rintro (⟨other, isOther, changed, same, -⟩ | changed |
      ⟨other, isOther, -, -, notLater⟩)
    · have before' := earlier other isOther
      have bound : other.block ≤ (position - 1) / kBlockSize :=
        Nat.div_le_div_right (by omega)
      have here : piece.block = (position - 1) / kBlockSize := by omega
      exact .inr ⟨⟨other, isOther, changed, same.trans here⟩,
        (blockEq (by omega)).mp here⟩
    · exact .inl changed
    · have after' := later other isOther
      omega

/-- Behind a piece the rest of the block is dropped exactly if the piece is
lost. -/
theorem brokenAt_next
    {position offset : Nat}
    {before : List Piece}
    {piece : Piece}
    (inBlock : InBlock position offset)
    (ends : format.endOffset offset piece.fragment.payload.length ≤ kBlockSize)
    (earlier : ∀ other ∈ before, other.position < position)
    (isNext : piece.position = position + format.gap offset) :
    brokenAt format file (before ++ [piece])
        (position + format.gap offset +
          (format.header + piece.fragment.payload.length)) =
      format.lost (brokenAt format file before position) offset
        (piece.slotIn format file) := by
  have here : (position + format.gap offset +
      (format.header + piece.fragment.payload.length) - 1) / kBlockSize =
        piece.block := by
    rw [Piece.block, isNext]
    exact (inBlock.next ends).2.symm
  have none : ∀ other ∈ ([] : List Piece), piece.position < other.position := by
    simp
  rw [lost_slotIn inBlock earlier none isNext, Bool.eq_iff_iff]
  simp only [brokenAt, Piece.lostIn, List.any_eq_true, Bool.and_eq_true,
    decide_eq_true_eq, here]
  constructor
  · rintro ⟨other, isOther, changed, same⟩
    refine ⟨other, isOther, changed, same, ?_⟩
    rcases List.mem_append.mp isOther with isEarlier | isPiece
    · have before' := earlier other isEarlier
      omega
    · rw [List.mem_singleton.mp isPiece]
  · rintro ⟨other, isOther, changed, same, -⟩
    exact ⟨other, isOther, changed, same⟩

/-- The next piece and those before it lie before the place behind it. -/
theorem earlier_next
    {position offset : Nat}
    {before : List Piece}
    {piece : Piece}
    (isNext : piece.position = position + format.gap offset)
    (earlier : ∀ other ∈ before, other.position < position) :
    ∀ other ∈ before ++ [piece],
      other.position < position + format.gap offset +
        (format.header + piece.fragment.payload.length) := by
  have bounds := format.header_bounds
  intro other isOther
  rcases List.mem_append.mp isOther with isEarlier | isPiece
  · have before' := earlier other isEarlier
    omega
  · rw [List.mem_singleton.mp isPiece]
    omega

/-- Pieces are marked as lost exactly if they lie at or behind a changed piece of
their block. -/
theorem marks_slotIn
    {position offset : Nat}
    {before pieces : List Piece}
    (inBlock : InBlock position offset)
    (located : format.Located position offset pieces)
    (fits : format.Fits offset (pieces.map Piece.fragment))
    (earlier : ∀ other ∈ before, other.position < position) :
    format.marks (brokenAt format file before position) offset
        (pieces.map (Piece.slotIn format file)) =
      pieces.map fun piece =>
        (piece.fragment, piece.lostIn format (before ++ pieces) file) := by
  induction pieces generalizing position offset before with
  | nil => rfl
  | cons piece pieces inductionHypothesis =>
      have bounds := format.header_bounds
      obtain ⟨isNext, located⟩ := located
      have ends := fits.endOffset_le
      have later : ∀ other ∈ pieces, piece.position < other.position := by
        intro other isOther
        have behind := located.position_le other isOther
        omega
      have earlier' := earlier_next isNext earlier
      have rest := inductionHypothesis (inBlock.next ends).1 located fits.2.2
        earlier'
      rw [brokenAt_next inBlock ends earlier isNext, List.append_assoc,
        List.singleton_append] at rest
      rw [List.map_cons, marks, List.map_cons,
        ← lost_slotIn inBlock earlier later isNext]
      exact congrArg _ rest

/-- The blocks that contain a changed piece. -/
def damagedBlocks (format : Format) (file : Bytes) (pieces : List Piece) :
    Finset Nat :=
  ((pieces.filter (Piece.changedIn format file)).map Piece.block).toFinset

theorem damagedBlocks_cons
    (format : Format)
    (file : Bytes)
    (piece : Piece)
    (pieces : List Piece) :
    format.damagedBlocks file (piece :: pieces) =
      if piece.changedIn format file then
        insert piece.block (format.damagedBlocks file pieces)
      else format.damagedBlocks file pieces := by
  unfold damagedBlocks
  rw [List.filter_cons]
  split
  · rw [List.map_cons, List.toFinset_cons]
  · rfl

/-- The reader starts to drop at least once in each block that contains a changed
piece, but for a block of which it has dropped the rest already. -/
theorem card_damagedBlocks_le
    {position offset : Nat}
    {before pieces : List Piece}
    (inBlock : InBlock position offset)
    (located : format.Located position offset pieces)
    (fits : format.Fits offset (pieces.map Piece.fragment))
    (earlier : ∀ other ∈ before, other.position < position) :
    (format.damagedBlocks file pieces \
        (if brokenAt format file before position then
          {(position - 1) / kBlockSize} else ∅)).card ≤
      format.drops (brokenAt format file before position) offset
        (pieces.map (Piece.slotIn format file)) := by
  induction pieces generalizing position offset before with
  | nil => simp [damagedBlocks]
  | cons piece pieces inductionHypothesis =>
      have bounds := format.header_bounds
      obtain ⟨isNext, located⟩ := located
      have ends := fits.endOffset_le
      obtain ⟨inBlock', here⟩ := inBlock.next ends
      have earlier' := earlier_next isNext earlier
      have rest := inductionHypothesis inBlock' located fits.2.2 earlier'
      rw [brokenAt_next inBlock ends earlier isNext, ← here, ← isNext] at rest
      change Finset.card (_ \ (if _ then {piece.block} else ∅)) ≤ _ at rest
      generalize isBroken : brokenAt format file before position = broken at rest ⊢
      have blockEq (visible : broken = true)
          (stays : 0 < format.startOffset offset) :
          (position - 1) / kBlockSize = piece.block := by
        rw [← isBroken, brokenAt, List.any_eq_true] at visible
        obtain ⟨other, isOther, -⟩ := visible
        have before' := earlier other isOther
        rw [Piece.block, isNext]
        exact ((inBlock.block_eq_iff (by omega)).mpr stays).symm
      rw [damagedBlocks_cons, List.map_cons, drops]
      change _ ≤ (if piece.changedIn format file && _ then 1 else 0) +
        format.drops _ (format.endOffset offset piece.fragment.payload.length) _
      by_cases hidden : (broken && decide (0 < format.startOffset offset)) = true
      · -- The piece lies in the rest of a block that is dropped already.
        obtain ⟨visible, stays⟩ := Bool.and_eq_true_iff.mp hidden
        have isLost : format.lost broken offset (piece.slotIn format file) = true := by
          rw [lost, hidden, Bool.or_true]
        have sameBlock := blockEq visible (of_decide_eq_true stays)
        rw [isLost, if_pos rfl] at rest
        rw [hidden, isLost, visible, if_pos rfl, sameBlock, Bool.not_true,
          Bool.and_false, if_neg Bool.false_ne_true, Nat.zero_add]
        split
        · rw [Finset.insert_sdiff_of_mem _ (Finset.mem_singleton_self _)]
          exact rest
        · exact rest
      · have seen : (broken && decide (0 < format.startOffset offset)) = false := by
          simpa using hidden
        cases changed : piece.changedIn format file with
        | true =>
            have isLost : format.lost broken offset (piece.slotIn format file) =
                true := by
              rw [lost, Piece.slotIn, changed, Bool.true_or]
            rw [isLost, if_pos rfl] at rest
            rw [isLost, seen, if_pos rfl]
            simp only [Bool.not_false, Bool.and_self, if_true]
            calc (insert piece.block (format.damagedBlocks file pieces) \ _).card
                ≤ (insert piece.block
                    (format.damagedBlocks file pieces \ {piece.block})).card := by
                  apply Finset.card_le_card
                  intro block isDamaged
                  rw [Finset.mem_insert, Finset.mem_sdiff, Finset.mem_singleton]
                  have inAll := Finset.mem_insert.mp
                    (Finset.mem_sdiff.mp isDamaged).1
                  tauto
              _ ≤ (format.damagedBlocks file pieces \ {piece.block}).card + 1 :=
                  Finset.card_insert_le _ _
              _ ≤ _ := by omega
        | false =>
            have isLost : format.lost broken offset (piece.slotIn format file) =
                false := by
              rw [lost, Piece.slotIn, changed, seen, Bool.or_self]
            rw [isLost, if_neg Bool.false_ne_true, Finset.sdiff_empty] at rest
            rw [isLost, if_neg Bool.false_ne_true]
            simp only [Bool.false_and, Bool.false_eq_true, if_false, Nat.zero_add]
            exact (Finset.card_le_card Finset.sdiff_subset).trans rest

end Blocks

/-! ## Overwritten payloads -/

/-- A file that differs from what was written in the payloads of its physical
records only. -/
structure Overwrites
    (format : Format)
    (pieces : List Piece)
    (written damaged : Bytes) : Prop where
  length : damaged.length = written.length
  outside : ∀ index, (∀ piece ∈ pieces, ¬piece.Holds format index) →
    damaged[index]? = written[index]?

theorem slice_eq
    {left right : Bytes}
    {start count : Nat}
    (same : ∀ index, start ≤ index → index < start + count →
      left[index]? = right[index]?) :
    (left.drop start).take count = (right.drop start).take count := by
  apply List.ext_getElem?
  intro index
  rw [List.getElem?_take, List.getElem?_take]
  split
  · rw [List.getElem?_drop, List.getElem?_drop]
    exact same (start + index) (by omega) (by omega)
  · rfl

section Overwritten

variable {format : Format} {position offset : Nat} {pieces : List Piece}
  {written damaged : Bytes}

/-- An overwritten file is a sequence of slots, each with the header that was
written. -/
theorem drop_eq_placeSlots
    (located : format.Located position offset pieces)
    (placed : written.drop position =
      format.place offset (pieces.map Piece.fragment))
    (length : damaged.length = written.length)
    (outside : ∀ index, position ≤ index →
      (∀ piece ∈ pieces, ¬piece.Holds format index) →
        damaged[index]? = written[index]?) :
    damaged.drop position =
        format.placeSlots offset (pieces.map (Piece.slotIn format damaged)) ∧
      ∀ piece ∈ pieces,
        (damaged.drop piece.position).take format.header =
            Writer.formatHeader format.logNumber (format.type piece.fragment)
              piece.fragment.payload ∧
          piece.position + (format.encode piece.fragment).length ≤
            damaged.length := by
  induction pieces generalizing position offset with
  | nil =>
      have behind : damaged.length ≤ position := by
        rw [length]
        exact List.drop_eq_nil_iff.mp placed
      refine ⟨?_, by simp⟩
      rw [List.drop_of_length_le behind]
      rfl
  | cons piece pieces inductionHypothesis =>
      obtain ⟨isNext, located⟩ := located
      have encoded := format.length_encode piece.fragment
      have headerSize : (Writer.formatHeader format.logNumber
          (format.type piece.fragment) piece.fragment.payload).length =
            format.header := by
        simp [Writer.length_formatHeader, Format.type, Format.header]
      rw [List.map_cons, place_cons] at placed
      -- The written file from the header of the piece on, and behind the piece.
      have fromHeader : written.drop piece.position =
          format.encode piece.fragment ++ format.place
            (format.endOffset offset piece.fragment.payload.length)
            (pieces.map Piece.fragment) := by
        rw [isNext, ← List.drop_drop, placed, List.drop_left' (by simp)]
      have behind : written.drop
          (piece.position + (format.encode piece.fragment).length) =
            format.place (format.endOffset offset piece.fragment.payload.length)
              (pieces.map Piece.fragment) := by
        rw [← List.drop_drop, fromHeader, List.drop_left]
      have inFile : piece.position + (format.encode piece.fragment).length ≤
          written.length := by
        have size := congrArg List.length fromHeader
        rw [List.length_append, List.length_drop] at size
        have bounds := format.header_bounds
        omega
      have notHeld (other : Piece) (isOther : other ∈ pieces) (index : Nat)
          (before : index < piece.position + (format.encode piece.fragment).length) :
          ¬other.Holds format index := by
        have later := located.position_le other isOther
        unfold Piece.Holds
        omega
      rw [encoded, isNext] at behind
      obtain ⟨rest, headers⟩ := inductionHypothesis located behind (by
        intro index isBehind none
        apply outside index (by omega)
        intro other isOther
        rcases List.mem_cons.mp isOther with rfl | isLater
        · unfold Piece.Holds
          omega
        · exact none other isLater)
      -- The zeros in front of the header, and the header, are as written.
      have zeros : (damaged.drop position).take (format.gap offset) =
          List.replicate (format.gap offset) 0 := by
        refine Eq.trans (slice_eq ?_ : _ = (written.drop position).take _)
          (by rw [placed, List.take_left' (by simp)])
        intro index isBehind before
        apply outside index isBehind
        intro other isOther
        rcases List.mem_cons.mp isOther with rfl | isLater
        · unfold Piece.Holds
          omega
        · exact notHeld other isLater index (by omega)
      have header : (damaged.drop piece.position).take format.header =
          Writer.formatHeader format.logNumber (format.type piece.fragment)
            piece.fragment.payload := by
        refine Eq.trans (slice_eq ?_ : _ = (written.drop piece.position).take _)
          (by rw [fromHeader, Format.encode, List.append_assoc,
            List.take_left' headerSize])
        intro index isBehind before
        apply outside index (by omega)
        intro other isOther
        rcases List.mem_cons.mp isOther with rfl | isLater
        · unfold Piece.Holds
          omega
        · exact notHeld other isLater index (by omega)
      refine ⟨?_, ?_⟩
      · rw [List.map_cons, placeSlots_cons, ← zeros]
        change _ = _ ++ ((damaged.drop piece.position).take
          (format.encode piece.fragment).length ++ format.placeSlots
            (format.endOffset offset piece.fragment.payload.length) _)
        rw [← rest, ← encoded, ← isNext, ← List.drop_drop, List.take_append_drop,
          isNext, ← List.drop_drop, List.take_append_drop]
      · intro other isOther
        rcases List.mem_cons.mp isOther with rfl | isLater
        · exact ⟨header, by omega⟩
        · exact headers other isLater

/-- What was written holds the payloads of its pieces. -/
theorem payloadIn_written
    (located : format.Located position offset pieces)
    (placed : written.drop position =
      format.place offset (pieces.map Piece.fragment)) :
    ∀ piece ∈ pieces,
      piece.payloadIn format written = piece.fragment.payload := by
  induction pieces generalizing position offset with
  | nil => simp
  | cons first pieces inductionHypothesis =>
      obtain ⟨isNext, located⟩ := located
      have encoded := format.length_encode first.fragment
      have headerSize : (Writer.formatHeader format.logNumber
          (format.type first.fragment) first.fragment.payload).length =
            format.header := by
        simp [Writer.length_formatHeader, Format.type, Format.header]
      rw [List.map_cons, place_cons] at placed
      have fromHeader : written.drop first.position =
          format.encode first.fragment ++ format.place
            (format.endOffset offset first.fragment.payload.length)
            (pieces.map Piece.fragment) := by
        rw [isNext, ← List.drop_drop, placed, List.drop_left' (by simp)]
      intro piece isPiece
      rcases List.mem_cons.mp isPiece with rfl | isLater
      · rw [Piece.payloadIn, ← List.drop_drop, fromHeader, Format.encode,
          List.append_assoc, List.drop_left' headerSize, List.take_left]
      · refine inductionHypothesis located ?_ piece isLater
        rw [← encoded, ← isNext, ← List.drop_drop, fromHeader, List.drop_left]

/-- The bytes found in the place of a piece whose header is as it was written. -/
theorem stored_slotIn
    {piece : Piece}
    (header : (damaged.drop piece.position).take format.header =
      Writer.formatHeader format.logNumber (format.type piece.fragment)
        piece.fragment.payload) :
    (piece.slotIn format damaged).stored =
      Writer.formatHeader format.logNumber (format.type piece.fragment)
          piece.fragment.payload ++ piece.payloadIn format damaged := by
  rw [Piece.slotIn, Piece.payloadIn, format.length_encode, List.take_add, header,
    List.drop_drop]

/-- The slots of an overwritten log of the legacy format are sound, when the
checksum of every changed record fails. -/
theorem sound_slotIn
    {piece : Piece}
    (legacy : format.recycle = false)
    (header : (damaged.drop piece.position).take format.header =
      Writer.formatHeader format.logNumber (format.type piece.fragment)
        piece.fragment.payload)
    (inFile : piece.position + (format.encode piece.fragment).length ≤
      damaged.length)
    (small : piece.fragment.payload.length < 65536)
    (mismatch : piece.changedIn format damaged = true →
      Reader.crcMatches (damaged.drop piece.position) kHeaderSize
        piece.fragment.payload.length = false) :
    Reader.Sound format (piece.slotIn format damaged) := by
  have sevenBytes : format.header = kHeaderSize := by
    simp [Format.header, headerSize, legacy]
  have stored := stored_slotIn header
  have length : (piece.slotIn format damaged).stored.length =
      (format.encode piece.fragment).length := by
    rw [Piece.slotIn, List.length_take, List.length_drop]
    omega
  refine ⟨length, ?_, ?_⟩
  · intro unchanged
    have same : piece.payloadIn format damaged = piece.fragment.payload := by
      simpa [Piece.slotIn, Piece.changedIn] using unchanged
    rw [stored, same]
    rfl
  · intro changed
    rw [Writer.formatHeader_eq, List.append_assoc] at stored
    have type : Reader.headerType (piece.slotIn format damaged).stored =
        (format.type piece.fragment).code := by
      rw [stored, Reader.headerType_headerStart]
    have lengthField : Reader.headerLength (piece.slotIn format damaged).stored =
        piece.fragment.payload.length := by
      rw [stored, Reader.headerLength_headerStart _ _ _ _ small]
    have enough : kHeaderSize + piece.fragment.payload.length =
        (piece.slotIn format damaged).stored.length := by
      rw [length, format.length_encode, sevenBytes]
    refine ⟨?_, ?_, ?_, ?_⟩
    · rw [type, Reader.isRecyclableType_code, Format.type,
        Writer.isRecyclable_fragmentType, legacy]
    · rw [lengthField, enough]
    · rw [type]
      intro both
      have different := both.1
      revert different
      unfold Format.type Writer.fragmentType
      rw [legacy]
      cases piece.fragment.start <;> cases piece.fragment.finish <;> decide
    · rw [lengthField, ← Reader.crcMatches_append
        (damaged.drop (piece.position + (format.encode piece.fragment).length))
        (by omega) enough.le]
      rw [Piece.slotIn, ← List.drop_drop, List.take_append_drop]
      exact mismatch changed

end Overwritten

end Format
end Log
end RocksUtil
