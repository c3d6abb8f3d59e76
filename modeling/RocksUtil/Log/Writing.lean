import RocksUtil.Log.Layout

/-!
# The writer and the layout

`AddRecord` appends fragments as the layout places them, as long as no `Append`
of the destination is refused (`addRecord_accepts`).  It stops at the first flush
that fails, so the destination has then accepted the first fragments of the
record.  Over a destination whose operations succeed it appends them all
(`addRecord_spec`).
-/

namespace RocksUtil
namespace Log

/-- What `AddRecord` needs of its destination.  Where there is room for some
bytes `Append` accepts them, a flush neither accepts nor loses any, and one that
succeeds makes room for two blocks. -/
structure Destination.Accepts
    {δ : Type}
    (D : Destination δ)
    (contents : δ → Bytes)
    (Room : Nat → δ → Prop) : Prop where
  append : ∀ data rest dest, data.length + rest ≤ 2 * kBlockSize →
    Room (data.length + rest) dest →
    (D.append data dest).1.ok = true ∧
      contents (D.append data dest).2 = contents dest ++ data ∧
      Room rest (D.append data dest).2
  flush : ∀ dest, Room 0 dest →
    contents (D.flush dest).2 = contents dest ∧ Room 0 (D.flush dest).2
  flush_ok : ∀ dest, Room 0 dest → (D.flush dest).1.ok = true →
    ∀ count, count ≤ 2 * kBlockSize → Room count (D.flush dest).2

/-- A destination that has just been flushed with success. -/
def Destination.JustFlushed
    {δ : Type}
    (D : Destination δ)
    (Room : Nat → δ → Prop)
    (dest : δ) : Prop :=
  ∃ before, Room 0 before ∧ (D.flush before).1.ok = true ∧ dest = (D.flush before).2

/-- Every operation of the destination succeeds, and `contents` follows the
bytes appended. -/
structure Destination.Succeeds
    {δ : Type}
    (D : Destination δ)
    (contents : δ → Bytes) : Prop where
  append_ok : ∀ data dest, (D.append data dest).1.ok = true
  append_contents : ∀ data dest,
    contents (D.append data dest).2 = contents dest ++ data
  flush_ok : ∀ dest, (D.flush dest).1.ok = true
  flush_contents : ∀ dest, contents (D.flush dest).2 = contents dest

theorem Destination.Succeeds.accepts
    {δ : Type}
    {D : Destination δ}
    {contents : δ → Bytes}
    (succeeds : D.Succeeds contents) :
    D.Accepts contents fun _ _ => True where
  append := fun data _ dest _ _ =>
    ⟨succeeds.append_ok data dest, succeeds.append_contents data dest, trivial⟩
  flush := fun dest _ => ⟨succeeds.flush_contents dest, trivial⟩
  flush_ok := fun _ _ _ _ _ => trivial

/-- A destination that keeps the bytes in memory. -/
def Destination.memory : Destination Bytes where
  append := fun data contents => (.OK, contents ++ data)
  flush := fun contents => (.OK, contents)

theorem Destination.memory_succeeds : Destination.memory.Succeeds id where
  append_ok := fun _ _ => rfl
  append_contents := fun _ _ => rfl
  flush_ok := fun _ => rfl
  flush_contents := fun _ => rfl

namespace Writer

variable {δ : Type}

/-- The format a writer produces. -/
def format (writer : Writer δ) : Format :=
  ⟨writer.recycleLogFiles, writer.logNumber⟩

@[simp] theorem format_switchBlock (D : Destination δ) (writer : Writer δ) :
    (writer.switchBlock D).format = writer.format := by
  simp [format]

theorem blockOffset_switchBlock_eq (D : Destination δ) (writer : Writer δ) :
    (writer.switchBlock D).blockOffset =
      writer.format.startOffset writer.blockOffset :=
  blockOffset_switchBlock D writer

/-- Length of the first fragment of a record written at the current offset. -/
def firstLength (writer : Writer δ) (left : Bytes) : Nat :=
  min left.length (kBlockSize - writer.format.startOffset writer.blockOffset -
    writer.format.header)

/-- The first fragment of a record written at the current offset. -/
def firstFragment (writer : Writer δ) (start : Bool) (left : Bytes) : Fragment :=
  ⟨start, decide (left.length = writer.firstLength left),
    left.take (writer.firstLength left)⟩

/-- Number of bytes of the first fragment, its header and the trailer in front of
it. -/
def firstSpan (writer : Writer δ) (left : Bytes) : Nat :=
  writer.format.gap writer.blockOffset +
    (writer.format.header + writer.firstLength left)

theorem fragments_eq (writer : Writer δ) (start : Bool) (left : Bytes) :
    writer.format.fragments writer.blockOffset start left =
      if 0 < (left.drop (writer.firstLength left)).length then
        writer.firstFragment start left ::
          writer.format.fragments
            (writer.format.endOffset writer.blockOffset (writer.firstLength left))
            false (left.drop (writer.firstLength left))
      else [writer.firstFragment start left] := by
  rw [Format.fragments]
  rfl

theorem length_firstFragment (writer : Writer δ) (start : Bool) (left : Bytes) :
    (writer.firstFragment start left).payload.length = writer.firstLength left := by
  simp only [firstFragment, firstLength, List.length_take]
  omega

theorem size_firstFragment (writer : Writer δ) (start : Bool) (left : Bytes) :
    headerSize (isRecyclable (writer.format.type (writer.firstFragment start left))) +
        (writer.firstFragment start left).payload.length =
      writer.format.header + writer.firstLength left := by
  rw [length_firstFragment, Format.type, isRecyclable_fragmentType]
  rfl

/-- A fragment stays inside a block, and the trailer is shorter than a header. -/
theorem firstSpan_le (writer : Writer δ) (left : Bytes) :
    writer.firstSpan left ≤ 2 * kBlockSize := by
  have starts := writer.format.startOffset_le writer.blockOffset
  have short := writer.format.gap_lt_header writer.blockOffset
  have bounds := writer.format.header_bounds
  have block := kBlockSize_eq
  unfold firstSpan firstLength
  omega

theorem fragmentLength_switchBlock
    (D : Destination δ)
    (writer : Writer δ)
    (left : Bytes) :
    (writer.switchBlock D).fragmentLength left = writer.firstLength left := by
  rw [fragmentLength_eq_min, avail, blockOffset_switchBlock_eq,
    recycleLogFiles_switchBlock]
  rfl

/-- The fragment the loop emits next is the one the layout puts first. -/
theorem emitFragment_switchBlock
    (D : Destination δ)
    (writer : Writer δ)
    (start : Bool)
    (left : Bytes) :
    (writer.switchBlock D).emitFragment D start left =
      (writer.switchBlock D).emitPhysicalRecord D
        (writer.format.type (writer.firstFragment start left))
        (writer.firstFragment start left).payload := by
  rw [emitFragment, fragmentLength_switchBlock, recycleLogFiles_switchBlock]
  rfl

theorem blockOffset_emitFragment_switchBlock
    (D : Destination δ)
    (writer : Writer δ)
    (start : Bool)
    (left : Bytes) :
    ((writer.switchBlock D).emitFragment D start left).2.blockOffset =
      writer.format.endOffset writer.blockOffset (writer.firstLength left) := by
  rw [blockOffset_emitFragment, fragmentLength_switchBlock,
    blockOffset_switchBlock_eq, recycleLogFiles_switchBlock]
  rfl

@[simp] theorem format_emitFragment_switchBlock
    (D : Destination δ)
    (writer : Writer δ)
    (start : Bool)
    (left : Bytes) :
    ((writer.switchBlock D).emitFragment D start left).2.format =
      writer.format := by
  simp [format]

section Accepting

variable {D : Destination δ} {contents : δ → Bytes} {Room : Nat → δ → Prop}

theorem switchBlock_accepts
    (accepts : D.Accepts contents Room)
    (writer : Writer δ)
    {rest : Nat}
    (short : writer.format.gap writer.blockOffset + rest ≤ 2 * kBlockSize)
    (room : Room (writer.format.gap writer.blockOffset + rest) writer.dest) :
    contents (writer.switchBlock D).dest =
        contents writer.dest ++
          List.replicate (writer.format.gap writer.blockOffset) 0 ∧
      Room rest (writer.switchBlock D).dest := by
  have gapEq : writer.format.gap writer.blockOffset =
      if writer.leftover < headerSize writer.recycleLogFiles then writer.leftover
      else 0 := rfl
  unfold switchBlock
  rw [gapEq] at short room ⊢
  by_cases switches : writer.leftover < headerSize writer.recycleLogFiles
  · rw [if_pos switches] at short room
    simp only [if_pos switches]
    by_cases positive : 0 < writer.leftover
    · obtain ⟨-, written, left⟩ :=
        accepts.append (List.replicate writer.leftover 0) rest writer.dest
          (by simpa using short) (by simpa using room)
      simp only [if_pos positive]
      exact ⟨written, left⟩
    · have none : writer.leftover = 0 := by omega
      simp only [none, Nat.zero_add] at room
      simpa [none] using room
  · simpa [switches] using room

theorem emitPhysicalRecord_accepts
    (accepts : D.Accepts contents Room)
    (writer : Writer δ)
    (t : RecordType)
    (ptr : Bytes)
    (short : headerSize (isRecyclable t) + ptr.length ≤ 2 * kBlockSize)
    (room : Room (headerSize (isRecyclable t) + ptr.length) writer.dest) :
    let result := writer.emitPhysicalRecord D t ptr
    contents result.2.dest =
        contents writer.dest ++ (formatHeader writer.logNumber t ptr ++ ptr) ∧
      Room 0 result.2.dest ∧
      (result.1.ok = true → ∀ count, count ≤ 2 * kBlockSize →
        Room count result.2.dest) ∧
      ((∀ dest, Room 0 dest → (D.flush dest).1.ok = true) →
        result.1.ok = true) := by
  rw [← length_formatHeader writer.logNumber t ptr] at short room
  obtain ⟨headerOk, headerWritten, roomPayload⟩ :=
    accepts.append (formatHeader writer.logNumber t ptr) ptr.length writer.dest
      short room
  obtain ⟨payloadOk, payloadWritten, roomNone⟩ :=
    accepts.append ptr 0 _ (by omega) roomPayload
  obtain ⟨flushed, after⟩ := accepts.flush _ roomNone
  simp only [emitPhysicalRecord, headerOk, payloadOk, if_true]
  refine ⟨?_, after, accepts.flush_ok _ roomNone, fun always => always _ roomNone⟩
  rw [flushed, payloadWritten, headerWritten, List.append_assoc]

/-- The next fragment is appended as the layout places it. -/
theorem emitFragment_accepts
    (accepts : D.Accepts contents Room)
    (writer : Writer δ)
    (start : Bool)
    (left : Bytes)
    (room : Room (writer.firstSpan left) writer.dest) :
    let result := (writer.switchBlock D).emitFragment D start left
    contents result.2.dest =
        contents writer.dest ++
          (List.replicate (writer.format.gap writer.blockOffset) 0 ++
            writer.format.encode (writer.firstFragment start left)) ∧
      Room 0 result.2.dest ∧
      (result.1.ok = true → ∀ count, count ≤ 2 * kBlockSize →
        Room count result.2.dest) ∧
      ((∀ dest, Room 0 dest → (D.flush dest).1.ok = true) →
        result.1.ok = true) := by
  have short := writer.firstSpan_le left
  obtain ⟨switched, roomFragment⟩ :=
    switchBlock_accepts accepts writer short room
  have size := size_firstFragment writer start left
  rw [emitFragment_switchBlock]
  obtain ⟨written, after⟩ := emitPhysicalRecord_accepts accepts
    (writer.switchBlock D)
    (writer.format.type (writer.firstFragment start left))
    (writer.firstFragment start left).payload
    (by rw [size]; unfold firstSpan at short; omega)
    (by rw [size]; exact roomFragment)
  refine ⟨?_, after⟩
  rw [written, switched, logNumber_switchBlock, List.append_assoc]
  rfl

/-- The loop of `AddRecord` appends the first fragments of what is left, up to
the one at which a flush fails. -/
theorem addRecordLoop_accepts
    (accepts : D.Accepts contents Room)
    (writer : Writer δ)
    (start : Bool)
    (left : Bytes)
    (room : Room (writer.firstSpan left) writer.dest) :
    let pieces := writer.format.fragments writer.blockOffset start left
    let result := writer.addRecordLoop D start left
    ∃ written others,
      pieces = written ++ others ∧
        written ≠ [] ∧
        contents result.2.dest =
          contents writer.dest ++
            writer.format.place writer.blockOffset written ∧
        result.2.blockOffset =
          writer.format.advance writer.blockOffset written ∧
        result.2.format = writer.format ∧
        Room 0 result.2.dest ∧
        (result.1.ok = true → others = []) ∧
        ((∀ dest, Room 0 dest → (D.flush dest).1.ok = true) →
          result.1.ok = true) := by
  fun_induction writer.addRecordLoop D start left with
  | case1 writer start left left' result continues inductionHypothesis =>
      obtain ⟨contents', -, makesRoom, -⟩ :=
        emitFragment_accepts accepts writer start left room
      have leftEq : left' = left.drop (writer.firstLength left) := by
        rw [← fragmentLength_switchBlock D]
      have more := continues.2
      rw [leftEq] at more
      have offset : result.2.blockOffset = writer.format.endOffset
          writer.blockOffset (writer.firstLength left) :=
        blockOffset_emitFragment_switchBlock D writer start left
      have sameFormat : result.2.format = writer.format :=
        format_emitFragment_switchBlock D writer start left
      obtain ⟨written, others, split, -, rest⟩ := inductionHypothesis
        (makesRoom continues.1 _ (firstSpan_le _ _))
      rw [sameFormat, offset, leftEq] at split
      rw [sameFormat, offset, show contents result.2.dest = _ from contents']
        at rest
      refine ⟨writer.firstFragment start left :: written, others, ?_,
        List.cons_ne_nil _ _, ?_⟩
      · rw [fragments_eq, if_pos more, split, List.cons_append]
      · simpa [Format.place_cons, Format.advance, length_firstFragment] using rest
  | case2 writer start left left' result stops =>
      obtain ⟨contents', after, -, always⟩ :=
        emitFragment_accepts accepts writer start left room
      have leftEq : left' = left.drop (writer.firstLength left) := by
        rw [← fragmentLength_switchBlock D]
      have offset : result.2.blockOffset = writer.format.endOffset
          writer.blockOffset (writer.firstLength left) :=
        blockOffset_emitFragment_switchBlock D writer start left
      have split : ∃ others,
          writer.format.fragments writer.blockOffset start left =
              [writer.firstFragment start left] ++ others ∧
            (result.1.ok = true → others = []) := by
        rw [fragments_eq]
        split
        · rename_i more
          refine ⟨_, rfl, fun ok => ?_⟩
          rw [← leftEq] at more
          exact absurd ⟨ok, more⟩ stops
        · exact ⟨[], rfl, fun _ => rfl⟩
      obtain ⟨others, split, whole⟩ := split
      refine ⟨[writer.firstFragment start left], others, split,
        List.cons_ne_nil _ _, ?_, ?_, ?_, after, whole, always⟩
      · simpa [Format.place_cons] using contents'
      · simpa [Format.advance, length_firstFragment] using offset
      · exact format_emitFragment_switchBlock D writer start left

/-- `AddRecord` appends the first fragments of the record, and all of them when
it succeeds. -/
theorem addRecord_accepts
    (accepts : D.Accepts contents Room)
    (writer : Writer δ)
    (slice : Bytes)
    (room : Room (writer.firstSpan slice) writer.dest) :
    let pieces := writer.format.fragments writer.blockOffset true slice
    let result := writer.addRecord D slice
    ∃ written others,
      pieces = written ++ others ∧
        written ≠ [] ∧
        contents result.2.dest =
          contents writer.dest ++
            writer.format.place writer.blockOffset written ∧
        result.2.blockOffset =
          writer.format.advance writer.blockOffset written ∧
        result.2.format = writer.format ∧
        Room 0 result.2.dest ∧
        (result.1.ok = true → others = []) ∧
        ((∀ dest, Room 0 dest → (D.flush dest).1.ok = true) →
          result.1.ok = true) :=
  addRecordLoop_accepts accepts writer true slice room

/-! ### The last thing that is done -/

/-- A fragment that is emitted has been flushed last. -/
theorem emitPhysicalRecord_flushes
    (accepts : D.Accepts contents Room)
    (writer : Writer δ)
    (t : RecordType)
    (ptr : Bytes)
    (short : headerSize (isRecyclable t) + ptr.length ≤ 2 * kBlockSize)
    (room : Room (headerSize (isRecyclable t) + ptr.length) writer.dest) :
    let result := writer.emitPhysicalRecord D t ptr
    result.1.ok = true → D.JustFlushed Room result.2.dest := by
  rw [← length_formatHeader writer.logNumber t ptr] at short room
  obtain ⟨headerOk, -, roomPayload⟩ :=
    accepts.append (formatHeader writer.logNumber t ptr) ptr.length writer.dest
      short room
  obtain ⟨payloadOk, -, roomNone⟩ := accepts.append ptr 0 _ (by omega) roomPayload
  simp only [emitPhysicalRecord, headerOk, payloadOk, if_true]
  exact fun succeeds => ⟨_, roomNone, succeeds, rfl⟩

theorem addRecordLoop_flushes
    (accepts : D.Accepts contents Room)
    (writer : Writer δ)
    (start : Bool)
    (left : Bytes)
    (room : Room (writer.firstSpan left) writer.dest) :
    let result := writer.addRecordLoop D start left
    result.1.ok = true → D.JustFlushed Room result.2.dest := by
  fun_induction writer.addRecordLoop D start left with
  | case1 writer start left left' result continues inductionHypothesis =>
      obtain ⟨-, -, makesRoom, -⟩ := emitFragment_accepts accepts writer start left room
      exact inductionHypothesis (makesRoom continues.1 _ (firstSpan_le _ _))
  | case2 writer start left left' result stops =>
      have short := writer.firstSpan_le left
      have size := size_firstFragment writer start left
      obtain ⟨-, roomFragment⟩ := switchBlock_accepts accepts writer short room
      have flushed := emitPhysicalRecord_flushes accepts (writer.switchBlock D)
        (writer.format.type (writer.firstFragment start left))
        (writer.firstFragment start left).payload
        (by rw [size]; unfold firstSpan at short; omega)
        (by rw [size]; exact roomFragment)
      rw [← emitFragment_switchBlock] at flushed
      exact flushed

/-- Behind a record that has been added, nothing has happened since a flush. -/
theorem addRecord_flushes
    (accepts : D.Accepts contents Room)
    (writer : Writer δ)
    (slice : Bytes)
    (room : Room (writer.firstSpan slice) writer.dest) :
    let result := writer.addRecord D slice
    result.1.ok = true → D.JustFlushed Room result.2.dest :=
  addRecordLoop_flushes accepts writer true slice room

end Accepting

/-- Run `AddRecord` on each record in turn. -/
def addRecords (D : Destination δ) (writer : Writer δ) (records : List Bytes) :
    Writer δ :=
  records.foldl (fun writer record => (writer.addRecord D record).2) writer

section Succeeding

variable {D : Destination δ} {contents : δ → Bytes}

/-- `AddRecord` appends the placed fragments of the record. -/
theorem addRecord_spec
    (succeeds : D.Succeeds contents)
    (writer : Writer δ)
    (slice : Bytes) :
    let pieces := writer.format.fragments writer.blockOffset true slice
    let result := writer.addRecord D slice
    result.1.ok = true ∧
      contents result.2.dest =
        contents writer.dest ++ writer.format.place writer.blockOffset pieces ∧
      result.2.blockOffset = writer.format.advance writer.blockOffset pieces ∧
      result.2.format = writer.format := by
  intro pieces result
  obtain ⟨written, others, split, -, contents', offset, sameFormat, -, whole,
    always⟩ := addRecord_accepts succeeds.accepts writer slice trivial
  have ok := always fun dest _ => succeeds.flush_ok dest
  rw [whole ok, List.append_nil] at split
  rw [← split] at contents' offset
  exact ⟨ok, contents', offset, sameFormat⟩

/-- A run of `AddRecord` calls appends the layout of the records. -/
theorem addRecords_spec
    (succeeds : D.Succeeds contents)
    (writer : Writer δ)
    (records : List Bytes) :
    let pieces := writer.format.fragmentsOf writer.blockOffset records
    let final := writer.addRecords D records
    contents final.dest =
        contents writer.dest ++ writer.format.logBytes writer.blockOffset records ∧
      final.blockOffset = writer.format.advance writer.blockOffset pieces ∧
      final.format = writer.format := by
  induction records generalizing writer with
  | nil => simp [addRecords, Format.logBytes, Format.fragmentsOf, Format.advance]
  | cons record records inductionHypothesis =>
      obtain ⟨_, written, offset, sameFormat⟩ :=
        addRecord_spec succeeds writer record
      have rest := inductionHypothesis (writer.addRecord D record).2
      simp only [sameFormat, offset, written] at rest
      refine ⟨?_, ?_, rest.2.2⟩
      · rw [Format.logBytes, Format.fragmentsOf, Format.place_append,
          ← List.append_assoc]
        exact rest.1
      · rw [Format.fragmentsOf, Format.advance_append]
        exact rest.2.1

/-- A new writer over an empty destination writes the layout of the records. -/
theorem contents_addRecords_new
    (succeeds : D.Succeeds contents)
    {dest : δ}
    (fresh : contents dest = [])
    (recycle : Bool)
    (logNumber : UInt64)
    (records : List Bytes) :
    contents ((Writer.new dest logNumber recycle).addRecords D records).dest =
      (⟨recycle, logNumber⟩ : Format).logBytes 0 records := by
  obtain ⟨written, -, -⟩ :=
    addRecords_spec succeeds (Writer.new dest logNumber recycle) records
  rw [written]
  simp only [Writer.new, fresh, List.nil_append]
  rfl

end Succeeding

end Writer
end Log
end RocksUtil
