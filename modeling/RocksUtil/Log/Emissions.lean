import RocksUtil.Log.AssertingWriter
import RocksUtil.Log.Pieces

/-!
# Where the writer puts its records

What every call of `EmitPhysicalRecord` leaves behind, in a run of `AddRecord` calls over a
destination whose operations succeed: the assertions hold, each physical record lies in
one block, and what lies between two of them are fewer zeros than a header has bytes, up
to the end of the block.
-/

namespace RocksUtil
namespace Log

/-- A physical record in the file. -/
structure PhysicalRecord where
  /-- The number of bytes emitted before its header. -/
  position : Nat
  type : RecordType
  payload : Bytes
  /-- The number of bytes emitted with it. -/
  stop : Nat
  /-- `block_offset_` behind it. -/
  blockOffset : Nat

/-- What a call of `EmitPhysicalRecord` has emitted. -/
def Emission.physical
    {δ : Type}
    (contents : δ → Bytes)
    (emission : Emission δ) : PhysicalRecord where
  position := (contents emission.before).length
  type := emission.type
  payload := emission.payload
  stop := (contents emission.after).length
  blockOffset := emission.blockOffset.toNat

/-- The physical record of a piece of the layout. -/
def Piece.physical (format : Format) (piece : Piece) : PhysicalRecord where
  position := piece.position
  type := format.type piece.fragment
  payload := piece.fragment.payload
  stop := piece.position + (format.header + piece.fragment.payload.length)
  blockOffset := piece.position % kBlockSize +
    (format.header + piece.fragment.payload.length)

/-- The block offset of a position. -/
structure AtOffset (position offset : Nat) : Prop where
  inside : offset ≤ kBlockSize
  same : position % kBlockSize = offset % kBlockSize

section Offsets

variable {format : Format} {position offset : Nat}

/-- The block offset of the next record. -/
theorem AtOffset.start_eq (here : AtOffset position offset) :
    (position + format.gap offset) % kBlockSize = format.startOffset offset := by
  have block := kBlockSize_eq
  have bounds := format.header_bounds
  obtain ⟨inside, same⟩ := here
  unfold Format.startOffset Format.gap
  rw [block] at inside same ⊢
  split <;> omega

theorem AtOffset.next
    (here : AtOffset position offset)
    {length : Nat}
    (ends : format.endOffset offset length ≤ kBlockSize) :
    AtOffset (position + format.gap offset + (format.header + length))
      (format.endOffset offset length) := by
  refine ⟨ends, ?_⟩
  rw [Nat.add_mod, here.start_eq, Format.endOffset, Nat.add_mod_mod]

theorem AtOffset.advance
    (here : AtOffset position offset)
    {fragments : List Fragment}
    (fits : format.Fits offset fragments) :
    AtOffset (position + (format.place offset fragments).length)
      (format.advance offset fragments) := by
  induction fragments generalizing position offset with
  | nil => exact here
  | cons fragment fragments inductionHypothesis =>
      have rest := inductionHypothesis (here.next fits.endOffset_le) fits.2.2
      have same : position + (format.place offset (fragment :: fragments)).length =
          position + format.gap offset +
            (format.header + fragment.payload.length) +
            (format.place (format.endOffset offset fragment.payload.length)
              fragments).length := by
        rw [Format.place_cons, List.length_append, List.length_replicate,
          List.length_append, format.length_encode]
        omega
      rw [same]
      exact rest

end Offsets

/-! ## Runs of the writer -/

namespace AssertingWriter

section Runs

variable {δ : Type} {D : Destination δ} {contents : δ → Bytes}

/-- The format a writer produces. -/
def format (asserting : AssertingWriter δ) : Format := asserting.writer.format

/-- The block offset is that of the bytes emitted so far. -/
def Even (contents : δ → Bytes) (asserting : AssertingWriter δ) : Prop :=
  AtOffset (contents asserting.dest).length asserting.blockOffset.toNat

/-- One turn of the loop of `AddRecord`. -/
theorem turn_spec
    (succeeds : D.Succeeds contents)
    {asserting : AssertingWriter δ}
    (even : asserting.Even contents)
    (start : Bool)
    {ptr : Bytes}
    (sized : ptr.length < 2 ^ 64)
    (number : Nat) :
    let result := (asserting.writer.switchBlock D).emitFragment D start ptr
    ∃ switched fragmentLength emission emitted,
      asserting.switchBlock D = some switched ∧
      switched.emitFragment D start ptr (UInt64.ofNat ptr.length) =
        some (fragmentLength, result.1, emission, emitted) ∧
      fragmentLength.toNat = asserting.writer.firstLength ptr ∧
      emitted.writer = result.2 ∧
      emitted.Even contents ∧
      (contents emitted.dest).length = (contents asserting.dest).length +
        asserting.format.gap asserting.blockOffset.toNat +
          (asserting.format.header + asserting.writer.firstLength ptr) ∧
      emitted.blockOffset.toNat = asserting.format.endOffset asserting.blockOffset.toNat
        (asserting.writer.firstLength ptr) ∧
      emission.physical contents =
        Piece.physical asserting.format ⟨number,
          (contents asserting.dest).length +
            asserting.format.gap asserting.blockOffset.toNat,
          asserting.writer.firstFragment start ptr⟩ := by
  intro result
  have accepts := succeeds.accepts
  obtain ⟨switched, switches, sameSwitched⟩ := switchBlock_eq D even.inside
  have offset := Writer.blockOffset_switchBlock_eq D asserting.writer
  have recycle := Writer.recycleLogFiles_switchBlock D asserting.writer
  obtain ⟨switchedTo, -⟩ := Writer.switchBlock_accepts accepts asserting.writer
    (show _ + 0 ≤ _ by
      have short := asserting.writer.firstSpan_le []
      unfold Writer.firstSpan at short
      omega)
    trivial
  obtain ⟨written, -⟩ := Writer.emitFragment_accepts accepts asserting.writer start ptr
    trivial
  rw [← sameSwitched] at offset recycle switchedTo
  have switchedTo : contents switched.dest = contents asserting.dest ++
      List.replicate (asserting.format.gap asserting.blockOffset.toNat) 0 := switchedTo
  have offset : switched.blockOffset.toNat =
      asserting.format.startOffset asserting.blockOffset.toNat := offset
  have recycle : switched.recycleLogFiles = asserting.recycleLogFiles := recycle
  obtain ⟨fragmentLength, emission, emitted, emits, length, sameEmitted, recorded⟩ :=
    emitFragment_eq D switched start sized
      (by
        rw [offset, recycle]
        exact asserting.format.startOffset_le _)
  rw [sameSwitched, Writer.fragmentLength_switchBlock] at length recorded
  rw [sameSwitched] at emits sameEmitted
  have emittedTo : contents emitted.dest = contents asserting.dest ++
      (List.replicate (asserting.format.gap asserting.blockOffset.toNat) 0 ++
        asserting.format.encode (asserting.writer.firstFragment start ptr)) := by
    have dest : emitted.dest = result.2.dest := congrArg Writer.dest sameEmitted
    rw [dest]
    exact written
  have behind : emitted.blockOffset.toNat = asserting.format.endOffset
      asserting.blockOffset.toNat (asserting.writer.firstLength ptr) := by
    have after := Writer.blockOffset_emitFragment_switchBlock D asserting.writer start ptr
    rw [← sameEmitted] at after
    exact after
  have payload := asserting.writer.length_firstFragment start ptr
  have encoded := asserting.format.length_encode (asserting.writer.firstFragment start ptr)
  have reached : (contents emitted.dest).length = (contents asserting.dest).length +
      asserting.format.gap asserting.blockOffset.toNat +
        (asserting.format.header + asserting.writer.firstLength ptr) := by
    rw [emittedTo, List.length_append, List.length_append, List.length_replicate, encoded,
      payload, Nat.add_assoc]
  refine ⟨switched, fragmentLength, emission, emitted, switches, emits, length, sameEmitted,
    ?_, reached, behind, ?_⟩
  · unfold Even
    rw [reached, behind]
    apply AtOffset.next even
    have starts := asserting.format.startOffset_le asserting.blockOffset.toNat
    have first : asserting.writer.firstLength ptr = min ptr.length (kBlockSize -
      asserting.format.startOffset asserting.blockOffset.toNat -
        asserting.format.header) := rfl
    unfold Format.endOffset
    omega
  · have position : (contents switched.dest).length = (contents asserting.dest).length +
        asserting.format.gap asserting.blockOffset.toNat := by
      rw [switchedTo, List.length_append, List.length_replicate]
    rw [recorded, Emission.physical, Piece.physical]
    dsimp only
    rw [position, reached, behind, payload, even.start_eq, recycle]
    rfl

/-- The loop of `AddRecord`, one turn at a time. -/
theorem addRecordLoop_succ
    {asserting switched emitted : AssertingWriter δ}
    {start : Bool}
    {ptr : Bytes}
    {left fragmentLength : UInt64}
    {status : Status}
    {emission : Emission δ}
    (fuel : Nat)
    (switches : asserting.switchBlock D = some switched)
    (emits : switched.emitFragment D start ptr left =
      some (fragmentLength, status, emission, emitted)) :
    addRecordLoop D (fuel + 1) asserting start ptr left =
      if status.ok && 0 < left - fragmentLength then
        (addRecordLoop D fuel emitted false (ptr.drop fragmentLength.toNat)
          (left - fragmentLength)).map
            (fun result => (result.1, emission :: result.2.1, result.2.2))
      else some (status, [emission], emitted) := by
  rw [addRecordLoop, switches, Option.bind_eq_bind, Option.bind_some, emits,
    Option.bind_eq_bind, Option.bind_some]
  dsimp only
  split
  · cases addRecordLoop D fuel emitted false (ptr.drop fragmentLength.toNat)
      (left - fragmentLength) <;> rfl
  · rfl

theorem sub_fragmentLength
    {ptr : Bytes}
    {fragmentLength : UInt64}
    (sized : ptr.length < 2 ^ 64)
    (fits : fragmentLength.toNat ≤ ptr.length) :
    UInt64.ofNat ptr.length - fragmentLength =
      UInt64.ofNat (ptr.drop fragmentLength.toNat).length := by
  have length : (UInt64.ofNat ptr.length).toNat = ptr.length :=
    UInt64.toNat_ofNat_of_lt' sized
  apply UInt64.toNat_inj.mp
  rw [UInt64.toNat_sub_of_le _ _ (UInt64.le_iff_toNat_le.mpr (by omega)), length,
    List.length_drop, UInt64.toNat_ofNat_of_lt' (Nat.lt_of_le_of_lt (Nat.sub_le _ _) sized)]

/-- The loop of `AddRecord`: no assertion fails, and each fragment of the layout is
emitted in its place. -/
theorem addRecordLoop_spec
    (succeeds : D.Succeeds contents)
    {asserting : AssertingWriter δ}
    (even : asserting.Even contents)
    (start : Bool)
    {ptr : Bytes}
    (sized : ptr.length < 2 ^ 64)
    (number : Nat) :
    let result := asserting.writer.addRecordLoop D start ptr
    ∃ emissions final,
      (∀ fuel, asserting.writer.loopMeasure ptr < fuel →
        addRecordLoop D fuel asserting start ptr (UInt64.ofNat ptr.length) =
          some (result.1, emissions, final)) ∧
      final.writer = result.2 ∧
      emissions.map (Emission.physical contents) =
        (asserting.format.locate number (contents asserting.dest).length
          asserting.blockOffset.toNat (asserting.format.fragments
            asserting.blockOffset.toNat start ptr)).map
          (Piece.physical asserting.format) := by
  generalize same : asserting.writer = model
  fun_induction model.addRecordLoop D start ptr generalizing asserting with
  | case1 =>
      rename_i model start ptr rest result continues inductionHypothesis
      subst same
      obtain ⟨switched, fragmentLength, emission, emitted, switches, emits, length,
        sameEmitted, evenAfter, reached, behind, recorded⟩ :=
          turn_spec succeeds even start sized number
      have fits : asserting.writer.firstLength ptr ≤ ptr.length := Nat.min_le_left _ _
      have restEq : rest = ptr.drop (asserting.writer.firstLength ptr) := by
        rw [← Writer.fragmentLength_switchBlock D]
      have shorter : rest.length < 2 ^ 64 := by
        rw [restEq, List.length_drop]
        omega
      have left : UInt64.ofNat ptr.length - fragmentLength = UInt64.ofNat rest.length := by
        rw [sub_fragmentLength sized (by omega), length, restEq]
      have more : 0 < UInt64.ofNat rest.length := by
        rw [UInt64.lt_iff_toNat_lt, UInt64.toNat_ofNat_of_lt' shorter]
        exact continues.2
      obtain ⟨emissions, final, loops, sameFinal, described⟩ :=
        inductionHypothesis evenAfter shorter sameEmitted
      refine ⟨emission :: emissions, final, fun fuel enough => ?_, sameFinal, ?_⟩
      · have descends : result.2.loopMeasure rest < asserting.writer.loopMeasure ptr :=
          Writer.loopMeasure_emitFragment_lt D asserting.writer start ptr continues.2
        have proceeds : (result.1.ok && 0 < UInt64.ofNat rest.length) = true :=
          Bool.and_eq_true_iff.mpr ⟨continues.1, decide_eq_true more⟩
        obtain ⟨fuel, rfl⟩ := Nat.exists_eq_add_one_of_ne_zero (by omega : fuel ≠ 0)
        rw [addRecordLoop_succ fuel switches emits, left, length, ← restEq,
          if_pos proceeds, loops fuel (by omega)]
        rfl
      · have sameFormat : emitted.format = asserting.format := by
          rw [format, sameEmitted]
          exact Writer.format_emitFragment_switchBlock D _ start ptr
        have fragments := asserting.writer.fragments_eq start ptr
        rw [if_pos (restEq ▸ continues.2)] at fragments
        have fragments : asserting.format.fragments asserting.blockOffset.toNat start ptr =
          asserting.writer.firstFragment start ptr ::
            asserting.format.fragments (asserting.format.endOffset
              asserting.blockOffset.toNat (asserting.writer.firstLength ptr)) false
              (ptr.drop (asserting.writer.firstLength ptr)) := fragments
        rw [List.map_cons, described, recorded, sameFormat, reached, behind, fragments,
          Format.locate, List.map_cons, Writer.length_firstFragment, restEq]
  | case2 =>
      rename_i model start ptr rest result stops
      subst same
      obtain ⟨switched, fragmentLength, emission, emitted, switches, emits, length,
        sameEmitted, evenAfter, reached, behind, recorded⟩ :=
          turn_spec succeeds even start sized number
      have fits : asserting.writer.firstLength ptr ≤ ptr.length := Nat.min_le_left _ _
      have restEq : rest = ptr.drop (asserting.writer.firstLength ptr) := by
        rw [← Writer.fragmentLength_switchBlock D]
      have ok : result.1.ok = true :=
        (Writer.emitFragment_accepts succeeds.accepts asserting.writer start ptr
          trivial).2.2.2 (fun dest _ => succeeds.flush_ok dest)
      have none : rest.length = 0 :=
        Nat.eq_zero_of_not_pos (fun more => stops ⟨ok, more⟩)
      have left : UInt64.ofNat ptr.length - fragmentLength = 0 := by
        rw [sub_fragmentLength sized (by omega), length, ← restEq, none]
        rfl
      refine ⟨[emission], emitted, fun fuel enough => ?_, sameEmitted, ?_⟩
      · obtain ⟨fuel, rfl⟩ := Nat.exists_eq_add_one_of_ne_zero (by omega : fuel ≠ 0)
        rw [addRecordLoop_succ fuel switches emits, left, if_neg (by simp)]
      · have fragments := asserting.writer.fragments_eq start ptr
        rw [← restEq, none, if_neg (Nat.lt_irrefl 0)] at fragments
        have fragments : asserting.format.fragments asserting.blockOffset.toNat start ptr =
          [asserting.writer.firstFragment start ptr] := fragments
        rw [List.map_singleton, recorded, fragments]
        rfl

/-- A run of `AddRecord` calls: no assertion fails, and the pieces of the layout are
emitted one after the other. -/
theorem addRecords_spec
    (succeeds : D.Succeeds contents)
    {asserting : AssertingWriter δ}
    (even : asserting.Even contents)
    {records : List Bytes}
    (sized : ∀ record ∈ records, record.length < 2 ^ 64)
    (number : Nat) :
    ∃ emissions final,
      (∃ enough, ∀ fuel, enough ≤ fuel →
        asserting.addRecords D fuel records = some (emissions, final)) ∧
      final.writer = asserting.writer.addRecords D records ∧
      emissions.map (Emission.physical contents) =
        (asserting.format.pieces number (contents asserting.dest).length
          asserting.blockOffset.toNat records).map
          (Piece.physical asserting.format) := by
  induction records generalizing asserting number with
  | nil => exact ⟨[], asserting, ⟨0, fun _ _ => rfl⟩, rfl, rfl⟩
  | cons record records inductionHypothesis =>
      obtain ⟨emissions, next, loops, sameNext, described⟩ :=
        addRecordLoop_spec succeeds even true (sized record List.mem_cons_self) number
      obtain ⟨-, written, offset, sameFormat⟩ :=
        Writer.addRecord_spec succeeds asserting.writer record
      have sameNext : next.writer = (asserting.writer.addRecord D record).2 := sameNext
      rw [← sameNext] at written offset sameFormat
      have reached : (contents next.dest).length = (contents asserting.dest).length +
          (asserting.format.place asserting.blockOffset.toNat
            (asserting.format.fragments asserting.blockOffset.toNat true record)).length := by
        rw [← List.length_append]
        exact congrArg List.length written
      have behind : next.blockOffset.toNat =
          asserting.format.advance asserting.blockOffset.toNat
            (asserting.format.fragments asserting.blockOffset.toNat true record) := offset
      have evenNext : next.Even contents := by
        unfold Even
        rw [reached, behind]
        exact AtOffset.advance even
          (asserting.format.fits_fragments _ true record even.inside)
      obtain ⟨others, final, ⟨enough, runs⟩, sameFinal, rest⟩ :=
        inductionHypothesis evenNext
          (fun other isOther => sized other (List.mem_cons_of_mem _ isOther)) (number + 1)
      refine ⟨emissions ++ others, final,
        ⟨max enough (asserting.writer.loopMeasure record + 1), fun fuel isEnough => ?_⟩,
        ?_, ?_⟩
      · rw [addRecords, addRecord, loops fuel (by omega), Option.bind_eq_bind,
          Option.bind_some]
        dsimp only
        rw [runs fuel (by omega)]
        rfl
      · rw [sameFinal, sameNext]
        rfl
      · have sameFormat : next.format = asserting.format := sameFormat
        rw [List.map_append, described, rest, sameFormat, reached, behind, Format.pieces,
          List.map_append]

end Runs

end AssertingWriter

/-! ## The layout of the file -/

/-- What lies between two physical records: a few zeros, up to the end of the block. -/
structure Padding (header : Nat) (file : Bytes) (stop position : Nat) : Prop where
  le : stop ≤ position
  short : position - stop < header
  zeros : ∀ index, stop ≤ index → index < position → file[index]? = some 0
  boundary : stop < position → position % kBlockSize = 0

/-- A physical record stands in the file, inside one block. -/
structure PhysicalRecord.Stands
    (format : Format)
    (file : Bytes)
    (record : PhysicalRecord) : Prop where
  stop_eq : record.stop = record.position + (format.header + record.payload.length)
  bytes : (file.drop record.position).take (record.stop - record.position) =
    Writer.formatHeader format.logNumber record.type record.payload ++ record.payload
  oneBlock : record.position / kBlockSize = (record.stop - 1) / kBlockSize
  small : record.payload.length ≤ 0xffff
  offset_le : record.blockOffset ≤ kBlockSize
  offset_eq : record.stop % kBlockSize = record.blockOffset % kBlockSize
  fills : record.type ∈
      [RecordType.first, .middle, .recyclableFirst, .recyclableMiddle] →
    record.stop % kBlockSize = 0

/-- The file holds these pieces from `position` on, and nothing else. -/
structure LaidOut
    (format : Format)
    (file : Bytes)
    (position offset : Nat)
    (pieces : List Piece) : Prop where
  here : AtOffset position offset
  located : format.Located position offset pieces
  fits : format.Fits offset (pieces.map Piece.fragment)
  tail : file.drop position = format.place offset (pieces.map Piece.fragment)

theorem finish_of_type
    {format : Format}
    {fragment : Fragment}
    (isOpen : format.type fragment ∈
      [RecordType.first, .middle, .recyclableFirst, .recyclableMiddle]) :
    fragment.finish = false := by
  revert isOpen
  unfold Format.type Writer.fragmentType
  cases format.recycle <;> cases fragment.start <;> cases fragment.finish <;> decide

section Layout

variable {format : Format} {file : Bytes} {position offset : Nat} {piece : Piece}
  {pieces : List Piece}

theorem LaidOut.tail_cons (laid : LaidOut format file position offset (piece :: pieces)) :
    file.drop position =
      List.replicate (format.gap offset) 0 ++ (format.encode piece.fragment ++
        format.place (format.endOffset offset piece.fragment.payload.length)
          (pieces.map Piece.fragment)) :=
  laid.tail

theorem LaidOut.drop_position
    (laid : LaidOut format file position offset (piece :: pieces)) :
    file.drop piece.position = format.encode piece.fragment ++
      format.place (format.endOffset offset piece.fragment.payload.length)
        (pieces.map Piece.fragment) := by
  rw [laid.located.1, ← List.drop_drop, laid.tail_cons,
    List.drop_left' List.length_replicate]

/-- Behind the first piece. -/
theorem LaidOut.next
    (laid : LaidOut format file position offset (piece :: pieces)) :
    LaidOut format file (piece.physical format).stop
      (format.endOffset offset piece.fragment.payload.length) pieces := by
  have stop : (piece.physical format).stop = position + format.gap offset +
      (format.header + piece.fragment.payload.length) := by
    rw [← laid.located.1]
    rfl
  refine ⟨?_, ?_, laid.fits.2.2, ?_⟩
  · rw [stop]
    exact laid.here.next laid.fits.endOffset_le
  · rw [stop]
    exact laid.located.2
  · rw [Piece.physical]
    dsimp only
    rw [← List.drop_drop, laid.drop_position, List.drop_left' (format.length_encode _)]

theorem LaidOut.stands
    (laid : LaidOut format file position offset (piece :: pieces)) :
    (piece.physical format).Stands format file := by
  have block := kBlockSize_eq
  have bounds := format.header_bounds
  have starts : piece.position % kBlockSize = format.startOffset offset := by
    rw [laid.located.1]
    exact laid.here.start_eq
  have ends := laid.fits.endOffset_le
  unfold Format.endOffset at ends
  refine ⟨rfl, ?_, ?_, ?_, ?_, ?_, fun isOpen => ?_⟩
  · unfold Piece.physical
    dsimp only
    rw [Nat.add_sub_cancel_left, laid.drop_position,
      List.take_left' (format.length_encode _)]
    rfl
  · unfold Piece.physical
    dsimp only
    rw [block] at starts ends ⊢
    omega
  · exact Nat.le_of_lt_succ (laid.fits.small piece.fragment List.mem_cons_self)
  · unfold Piece.physical
    dsimp only
    omega
  · unfold Piece.physical
    dsimp only
    rw [Nat.mod_add_mod]
  · have full := laid.fits.2.1 (finish_of_type isOpen)
    unfold Format.endOffset at full
    unfold Piece.physical
    dsimp only
    rw [Nat.add_mod, starts, Nat.add_mod_mod, full, Nat.mod_self]

/-- What lies in front of the first piece. -/
theorem LaidOut.padding
    (laid : LaidOut format file position offset (piece :: pieces)) :
    Padding format.header file position piece.position := by
  have place := laid.located.1
  have narrow := format.gap_lt_header offset
  refine ⟨by omega, by omega, fun index behind before => ?_, fun gap => ?_⟩
  · have inTail : file[index]? = (file.drop position)[index - position]? := by
      rw [List.getElem?_drop, Nat.add_sub_cancel' behind]
    rw [inTail, laid.tail_cons, List.getElem?_append_left
      (by rw [List.length_replicate]; omega), List.getElem?_replicate, if_pos (by omega)]
  · have positive : 0 < format.gap offset := by omega
    have switched := format.startOffset_of_gap positive
    rw [place, laid.here.start_eq]
    exact switched.2

theorem LaidOut.length_eq
    (laid : LaidOut format file position offset (piece :: pieces)) :
    (piece.physical format).stop ≤ file.length := by
  have whole := congrArg List.length laid.drop_position
  have encoded := format.length_encode piece.fragment
  have bounds := format.header_bounds
  rw [List.length_drop, List.length_append] at whole
  unfold Piece.physical
  dsimp only
  omega

theorem LaidOut.all_stand
    (laid : LaidOut format file position offset pieces) :
    ∀ record ∈ pieces.map (Piece.physical format), record.Stands format file := by
  induction pieces generalizing position offset with
  | nil => exact nofun
  | cons piece pieces inductionHypothesis =>
      intro record isRecord
      rcases List.mem_cons.mp isRecord with rfl | isLater
      · exact laid.stands
      · exact inductionHypothesis laid.next record isLater

theorem LaidOut.head_padding
    (laid : LaidOut format file position offset pieces) :
    ∀ record ∈ (pieces.map (Piece.physical format)).head?,
      Padding format.header file position record.position := by
  cases pieces with
  | nil => exact nofun
  | cons piece pieces =>
      intro record isFirst
      cases isFirst
      exact laid.padding

theorem LaidOut.chain
    (laid : LaidOut format file position offset pieces) :
    (pieces.map (Piece.physical format)).IsChain fun record next =>
      Padding format.header file record.stop next.position := by
  induction pieces generalizing position offset with
  | nil => exact .nil
  | cons piece pieces inductionHypothesis =>
      rw [List.map_cons, List.isChain_cons]
      exact ⟨laid.next.head_padding, inductionHypothesis laid.next⟩

theorem LaidOut.last_stop
    (laid : LaidOut format file position offset pieces) :
    ∀ record ∈ (pieces.map (Piece.physical format)).getLast?,
      record.stop = file.length := by
  induction pieces generalizing position offset with
  | nil => exact nofun
  | cons piece pieces inductionHypothesis =>
      cases pieces with
      | nil =>
          intro record isLast
          cases isLast
          have inside := laid.length_eq
          have nothing := laid.next.tail
          rw [List.map_nil, Format.place_nil, List.drop_eq_nil_iff] at nothing
          exact Nat.le_antisymm inside nothing
      | cons next pieces =>
          rw [List.map_cons, List.map_cons, List.getLast?_cons_cons]
          exact inductionHypothesis laid.next

/-- Every block that the file reaches into begins with a physical record. -/
theorem LaidOut.block_begins
    (laid : LaidOut format file position offset pieces)
    {block : Nat}
    (behind : position ≤ block * kBlockSize)
    (reached : block * kBlockSize < file.length) :
    ∃ record ∈ pieces.map (Piece.physical format),
      record.position = block * kBlockSize := by
  induction pieces generalizing position offset with
  | nil =>
      have nothing := laid.tail
      rw [List.map_nil, Format.place_nil, List.drop_eq_nil_iff] at nothing
      omega
  | cons piece pieces inductionHypothesis =>
      have padding := laid.padding
      have stands := laid.stands
      have bounds := format.header_bounds
      by_cases further : (piece.physical format).stop ≤ block * kBlockSize
      · obtain ⟨record, isRecord, there⟩ := inductionHypothesis laid.next further
        exact ⟨record, List.mem_cons_of_mem _ isRecord, there⟩
      · refine ⟨_, List.mem_cons_self, ?_⟩
        have oneBlock := stands.oneBlock
        have stop := stands.stop_eq
        have boundary := padding.boundary
        have short := padding.short
        change piece.position / kBlockSize = _ at oneBlock
        change _ = piece.position + _ at stop
        change piece.position = _
        rw [kBlockSize_eq] at *
        omega

end Layout

/-- For every sequence of `AddRecord` calls of a fresh writer over a destination whose
operations succeed: no assertion fails and the loops end; every physical record stands
inside one block, with the block offset of its end, and one that does not end its record
ends with its block; between two of them lie fewer zeros than a header has bytes, up to
the end of a block, and nothing in front of the first or behind the last; every block
begins with one. -/
theorem records_laid_out
    {δ : Type}
    {D : Destination δ}
    {contents : δ → Bytes}
    (succeeds : D.Succeeds contents)
    {dest : δ}
    (fresh : contents dest = [])
    (logNumber : UInt64)
    (recycle : Bool)
    {records : List Bytes}
    (sized : ∀ record ∈ records, record.length < 2 ^ 64) :
    ∃ emissions final,
      (∃ enough, ∀ fuel, enough ≤ fuel →
        (AssertingWriter.new dest logNumber recycle).addRecords D fuel records =
          some (emissions, final)) ∧
      final.writer = (Writer.new dest logNumber recycle).addRecords D records ∧
      let format : Format := ⟨recycle, logNumber⟩
      let file := contents final.dest
      let physical := emissions.map (Emission.physical contents)
      (∀ record ∈ physical, record.Stands format file) ∧
      (physical.IsChain fun record next =>
        Padding format.header file record.stop next.position) ∧
      (∀ record ∈ physical.head?, record.position = 0) ∧
      (∀ record ∈ physical.getLast?, record.stop = file.length) ∧
      ∀ block, block * kBlockSize < file.length →
        ∃ record ∈ physical, record.position = block * kBlockSize := by
  have even : (AssertingWriter.new dest logNumber recycle).Even contents := by
    refine ⟨Nat.zero_le _, ?_⟩
    change (contents dest).length % _ = _
    rw [fresh]
    rfl
  obtain ⟨emissions, final, runs, sameFinal, described⟩ :=
    AssertingWriter.addRecords_spec succeeds even sized 0
  refine ⟨emissions, final, runs, sameFinal, ?_⟩
  have written := Writer.contents_addRecords_new succeeds fresh recycle logNumber records
  have file : contents final.dest =
      (⟨recycle, logNumber⟩ : Format).logBytes 0 records := by
    rw [← written]
    exact congrArg (fun writer => contents writer.dest) sameFinal
  have start : (contents (AssertingWriter.new dest logNumber recycle).dest).length = 0 := by
    change (contents dest).length = 0
    rw [fresh]
    rfl
  rw [start] at described
  have described : emissions.map (Emission.physical contents) =
      (Format.pieces ⟨recycle, logNumber⟩ 0 0 0 records).map
        (Piece.physical ⟨recycle, logNumber⟩) := described
  have laid : LaidOut ⟨recycle, logNumber⟩ (contents final.dest) 0 0
      (Format.pieces ⟨recycle, logNumber⟩ 0 0 0 records) := by
    refine ⟨⟨Nat.zero_le _, rfl⟩, Format.located_pieces _ 0 0 0 records, ?_, ?_⟩
    · rw [Format.map_fragment_pieces]
      exact Format.fits_fragmentsOf _ 0 records (Nat.zero_le _)
    · rw [Format.map_fragment_pieces, file]
      rfl
  dsimp only
  rw [described]
  refine ⟨laid.all_stand, laid.chain, fun record isFirst => ?_, laid.last_stop,
    fun block => laid.block_begins (Nat.zero_le _)⟩
  have padding := laid.head_padding record isFirst
  have bounds := Format.header_bounds ⟨recycle, logNumber⟩
  have boundary := padding.boundary
  have short := padding.short
  rw [kBlockSize_eq] at boundary
  omega

/-- A log of two records, the second of which begins behind a trailer of six zeros. -/
theorem records_laid_out_memory :
    ∃ emissions final,
      (∃ enough, ∀ fuel, enough ≤ fuel →
        (AssertingWriter.new ([] : Bytes) 7 false).addRecords Destination.memory fuel
          [List.replicate 32755 1, [2]] = some (emissions, final)) ∧
      ∀ record ∈ emissions.map (Emission.physical id),
        record.Stands ⟨false, 7⟩ final.dest := by
  have sized : ∀ record ∈ [List.replicate 32755 1, [2]],
      (record : Bytes).length < 2 ^ 64 := by
    intro record isRecord
    rcases List.mem_pair.mp isRecord with rfl | rfl
    · rw [List.length_replicate]
      omega
    · decide
  obtain ⟨emissions, final, runs, -, stand, -⟩ :=
    records_laid_out Destination.memory_succeeds (rfl : id ([] : Bytes) = []) 7 false sized
  exact ⟨emissions, final, runs, stand⟩

end Log
end RocksUtil
