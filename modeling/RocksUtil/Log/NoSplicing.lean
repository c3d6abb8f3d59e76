import RocksUtil.Log.ZeroSuffix

/-!
# Reading arbitrary bytes

Whatever a file holds, each record `ReadRecord` returns is the payload of one
physical record with a matching checksum, or is put together from such records that
follow one another in the file; pieces of different records are never joined.
-/

namespace RocksUtil
namespace Log

open Coding

namespace Reader

/-! ## Physical records of a file -/

/-- Size of a physical record. -/
def recordSize (type : RecordType) (payload : Bytes) : Nat :=
  headerSize (Writer.isRecyclable type) + payload.length

/-- A physical record with a matching checksum lies at `position`, inside one
block; if it carries a log number, it is `number`. -/
structure ValidAt
    (file : Bytes)
    (number : UInt64)
    (position : Nat)
    (type : RecordType)
    (payload : Bytes) : Prop where
  inBlock : position % kBlockSize + recordSize type payload ≤ kBlockSize
  inFile : position + recordSize type payload ≤ file.length
  type_eq : headerType (file.drop position) = type.code
  length_eq : headerLength (file.drop position) = payload.length
  payload_eq : ((file.drop position).drop
    (headerSize (Writer.isRecyclable type))).take payload.length = payload
  checksum_eq : crcMatches (file.drop position)
    (headerSize (Writer.isRecyclable type)) payload.length = true
  number_eq : Writer.isRecyclable type = true →
    (decodeFixed32 ((file.drop position).drop 7)).toUInt64 = number

/-- The second position is the first one, or the start of the next block with too
few bytes for a header of the recyclable format in front of it. -/
def Adjacent (ended starts : Nat) : Prop :=
  starts = ended ∨
    ended < starts ∧ starts % kBlockSize = 0 ∧
      starts - ended < kRecyclableHeaderSize

theorem Adjacent.le {ended starts : Nat} (adjacent : Adjacent ended starts) :
    ended ≤ starts := by
  rcases adjacent with rfl | ⟨further, -⟩
  · exact Nat.le_refl _
  · omega

/-- The physical records from `start` to `ended` are adjacent, the first one begins
a record, the others continue one; `payload` is what they hold. -/
inductive Fragmented (file : Bytes) (number : UInt64) (start : Nat) :
    Nat → Bytes → Prop
  | first {type : RecordType} {payload : Bytes}
      (isFirst : type = .first ∨ type = .recyclableFirst)
      (valid : ValidAt file number start type payload) :
      Fragmented file number start (start + recordSize type payload) payload
  | middle {ended position : Nat} {before payload : Bytes} {type : RecordType}
      (begun : Fragmented file number start ended before)
      (adjacent : Adjacent ended position)
      (isMiddle : type = .middle ∨ type = .recyclableMiddle)
      (valid : ValidAt file number position type payload) :
      Fragmented file number start (position + recordSize type payload)
        (before ++ payload)

/-- The record lies in the file from `start` to `ended`, in one piece or in
several. -/
inductive Stored (file : Bytes) (number : UInt64) (start : Nat) :
    Nat → Bytes → Prop
  | full {type : RecordType} {payload : Bytes}
      (isFull : type = .full ∨ type = .recyclableFull)
      (valid : ValidAt file number start type payload) :
      Stored file number start (start + recordSize type payload) payload
  | last {ended position : Nat} {before payload : Bytes} {type : RecordType}
      (begun : Fragmented file number start ended before)
      (adjacent : Adjacent ended position)
      (isLast : type = .last ∨ type = .recyclableLast)
      (valid : ValidAt file number position type payload) :
      Stored file number start (position + recordSize type payload)
        (before ++ payload)

/-! ## Where a reader is in a file -/

/-- The reader is at `position` of a file at rest, which is at `offset` of its
block. -/
structure Within
    (file : Bytes)
    (number : UInt64)
    (reader : Reader GrowingFile)
    (position offset : Nat) : Prop where
  standing : Standing ⟨false, 0⟩ reader offset (file.drop position)
  inFile : position ≤ file.length
  aligned : position % kBlockSize = offset % kBlockSize
  number_eq : reader.logNumber = number

section Moves

variable {file : Bytes} {number : UInt64} {reader : Reader GrowingFile}
  {position offset : Nat}

theorem within_new
    (file : Bytes)
    (number : UInt64)
    (reporter : Option (List Report)) :
    Within file number
      (Reader.new (GrowingFile.atRest file) reporter true 0 number) 0
      kBlockSize where
  standing := standing_new ⟨false, 0⟩ file reporter number nofun
  inFile := Nat.zero_le _
  aligned := by rw [Nat.mod_self, Nat.zero_mod]
  number_eq := rfl

theorem Within.length_le (within : Within file number reader position offset) :
    position + reader.buffer.length ≤ file.length := by
  have length := within.standing.length_buffer
  have inFile := within.inFile
  rw [List.length_drop] at length
  omega

/-- Taking bytes out of the buffer. -/
theorem Within.take
    (within : Within file number reader position offset)
    {taken remaining : Bytes}
    (buffered : reader.buffer = taken ++ remaining)
    (recycled : Bool) :
    Within file number { reader with buffer := remaining, recycled := recycled }
      (position + taken.length) (offset + taken.length) := by
  have inFile := within.length_le
  rw [buffered, List.length_append] at inFile
  obtain ⟨moved, consumed⟩ := within.standing.positioned.advance buffered recycled
  rw [List.drop_drop] at moved
  refine ⟨within.standing.move consumed moved ?_, by omega, ?_, within.number_eq⟩
  · rw [List.length_drop, List.length_drop]
    omega
  · rw [Nat.add_mod, within.aligned, ← Nat.add_mod]

/-- Dropping the rest of the buffer. -/
theorem Within.clear
    (within : Within file number reader position offset)
    (recycled : Bool) :
    Within file number { reader with buffer := [], recycled := recycled }
      (position + reader.buffer.length) (offset + reader.buffer.length) :=
  within.take (List.append_nil reader.buffer).symm recycled

/-- Fetching the next block. -/
theorem Within.refill
    (within : Within file number reader position offset)
    (live : reader.eof = false) :
    Within file number reader.refill (position + reader.buffer.length) 0 := by
  have inFile := within.length_le
  obtain ⟨full, -⟩ := within.standing.positioned.live live
  obtain ⟨moved, consumed⟩ := within.standing.positioned.refill live
  rw [List.drop_drop] at moved
  refine ⟨within.standing.move consumed moved ?_, inFile, ?_,
    consumed.settings.2.1.trans within.number_eq⟩
  · rw [List.length_drop, List.length_drop]
    omega
  · rw [Nat.add_mod, within.aligned, ← Nat.add_mod, full, Nat.mod_self,
      Nat.zero_mod]

end Moves

/-! ## Reading one physical record -/

theorem code_le (type : RecordType) : type.code ≤ kMaxRecordType := by
  cases type <;> decide

/-- A physical read moves on in the file, and if it delivers a piece of a record
that piece is next. -/
def Delivers
    (file : Bytes)
    (number : UInt64)
    (position : Nat)
    (physical : PhysicalRead GrowingFile) : Prop :=
  ∃ position' offset',
    position ≤ position' ∧
      Within file number physical.reader position' offset' ∧
      ∀ type : RecordType, type ≠ .zero → physical.code = type.code →
        ∃ start,
          Adjacent position start ∧
            ValidAt file number start type physical.fragment ∧
            position' = start + recordSize type physical.fragment

section Physical

variable {file : Bytes} {number : UInt64} {reader : Reader GrowingFile}
  {position offset : Nat}

/-- A read that returns one of the reader's own codes delivers nothing. -/
theorem delivers_nothing
    {code : Nat}
    (own : kMaxRecordType < code)
    {next : Reader GrowingFile}
    {position' offset' : Nat}
    (later : position ≤ position')
    (within : Within file number next position' offset')
    (dropSize : Nat) :
    Delivers file number position ⟨code, [], dropSize, next⟩ := by
  refine ⟨position', offset', later, within, ?_⟩
  intro type _ isType
  have bound := code_le type
  dsimp only at isType
  omega

/-- A complete record with a matching checksum. -/
theorem Within.validAt
    (within : Within file number reader position offset)
    {type : RecordType}
    (isType : headerType reader.buffer = type.code)
    {length : Nat}
    (isLength : headerLength reader.buffer = length)
    (fits : headerSize (Writer.isRecyclable type) + length ≤ reader.buffer.length)
    (matching : crcMatches reader.buffer (headerSize (Writer.isRecyclable type))
      length = true)
    (own : Writer.isRecyclable type = true →
      (decodeFixed32 (reader.buffer.drop 7)).toUInt64 = number) :
    ValidAt file number position type
      ((reader.buffer.drop (headerSize (Writer.isRecyclable type))).take length) := by
  have bounds := headerSize_bounds (Writer.isRecyclable type)
  have seven := kHeaderSize_eq
  have inFile := within.length_le
  have lengthEq : ((reader.buffer.drop (headerSize
      (Writer.isRecyclable type))).take length).length = length := by
    rw [List.length_take, List.length_drop]
    omega
  have size : recordSize type ((reader.buffer.drop (headerSize
      (Writer.isRecyclable type))).take length) =
        headerSize (Writer.isRecyclable type) + length := by
    rw [recordSize, lengthEq]
  have body := within.standing.body_eq
  obtain ⟨typeEq, lengthField⟩ := within.standing.header_eq (by omega)
  refine ⟨?_, ?_, typeEq.symm.trans isType, ?_, ?_, ?_, ?_⟩
  · have inBlock := within.standing.length_buffer
    have inside := within.standing.positioned.offset_le
    rw [size, within.aligned]
    have less := Nat.mod_le offset kBlockSize
    omega
  · rw [size]
    omega
  · rw [← lengthField, isLength, lengthEq]
  · rw [lengthEq, body, List.drop_append_of_le_length (by omega),
      List.take_append_of_le_length (by rw [List.length_drop]; omega)]
  · rw [lengthEq, body, crcMatches_append _ (by omega) fits]
    exact matching
  · intro recyclable
    have eleven : headerSize (Writer.isRecyclable type) = 11 := by
      rw [recyclable]
      rfl
    rw [body, List.drop_append_of_le_length (by omega),
      decodeFixed32_append _ (by rw [List.length_drop]; omega)]
    exact own recyclable

/-- Behind a parsed header. -/
theorem Within.takeRecord_delivers
    (within : Within file number reader position offset)
    {recyclable : Bool}
    (isRecyclable : isRecyclableType (headerType reader.buffer) = recyclable)
    (own : recyclable = true →
      (decodeFixed32 (reader.buffer.drop 7)).toUInt64 = number)
    (dropSize : Nat) :
    Delivers file number position
      (reader.takeRecord (headerSize recyclable) (headerType reader.buffer)
        (headerLength reader.buffer) dropSize) := by
  have cleared := within.clear reader.recycled
  have later : position ≤ position + reader.buffer.length := Nat.le_add_right _ _
  rw [takeRecord]
  dsimp only
  split_ifs with overlong live nonempty zero mismatch filtered
  · exact delivers_nothing (by decide) later cleared _
  · exact delivers_nothing (by decide) later cleared _
  · exact delivers_nothing (by decide) later cleared _
  · exact delivers_nothing (by decide) later cleared _
  · exact delivers_nothing (by decide) later cleared _
  · rw [within.standing.fromStart] at filtered
    exact absurd filtered (UInt64.not_lt_zero)
  · have split := (List.take_append_drop
      (headerSize recyclable + headerLength reader.buffer) reader.buffer).symm
    have taken : (reader.buffer.take (headerSize recyclable +
        headerLength reader.buffer)).length =
          headerSize recyclable + headerLength reader.buffer := by
      rw [List.length_take]
      omega
    have moved := within.take split reader.recycled
    rw [taken] at moved
    refine ⟨_, _, Nat.le_add_right _ _, moved, ?_⟩
    intro type _ isType
    have same : Writer.isRecyclable type = recyclable := by
      rw [← isRecyclableType_code, ← isType]
      exact isRecyclable
    have matching : crcMatches reader.buffer (headerSize recyclable)
        (headerLength reader.buffer) = true := by
      simpa [within.standing.checked] using mismatch
    refine ⟨position, .inl rfl, ?_, ?_⟩
    · have valid := @Within.validAt _ _ _ _ _ within type isType _ rfl
        (by rw [same]; omega) (by rw [same]; exact matching)
        (by rw [same]; exact own)
      rw [same] at valid
      exact valid
    · rw [recordSize, same, List.length_take, List.length_drop]
      omega

theorem Within.noteRecycled (within : Within file number reader position offset) :
    Within file number reader.noteRecycled position offset := by
  obtain ⟨recycled, noted⟩ := noteRecycled_eq reader
  rw [noted]
  exact within.take (List.nil_append reader.buffer).symm recycled

/-- Too few bytes for a header at the end of a block are passed over. -/
theorem Delivers.of_skipped
    {skipped : Nat}
    {physical : PhysicalRead GrowingFile}
    (delivers : Delivers file number (position + skipped) physical)
    (few : skipped < kRecyclableHeaderSize)
    (atBlock : (position + skipped) % kBlockSize = 0) :
    Delivers file number position physical := by
  have block := kBlockSize_eq
  have eleven := kRecyclableHeaderSize_eq
  obtain ⟨position', offset', later, within, pieces⟩ := delivers
  refine ⟨position', offset', by omega, within, ?_⟩
  intro type notZero isType
  obtain ⟨start, adjacent, valid, behind⟩ := pieces type notZero isType
  refine ⟨start, ?_, valid, behind⟩
  unfold Adjacent at adjacent ⊢
  rw [block] at adjacent atBlock ⊢
  omega

/-- Whatever lies ahead, a read moves on and delivers nothing but the next piece. -/
theorem Within.readPhysicalRecord_delivers
    (within : Within file number reader position offset)
    (dropSize : Nat) :
    Delivers file number position
      (reader.readPhysicalRecord GrowingFile.sequentialFile dropSize) := by
  have seven := kHeaderSize_eq
  have eleven := kRecyclableHeaderSize_eq
  fun_induction readPhysicalRecord GrowingFile.sequentialFile reader dropSize
    generalizing position offset with
  | case1 reader short error dropped next more =>
      obtain ⟨own, isNext⟩ := of_readMore_stop more
      rw [isNext]
      exact delivers_nothing own (Nat.le_add_right _ _)
        (within.clear reader.recycled) _
  | case2 reader short next more inductionHypothesis =>
      obtain ⟨live, isNext⟩ := of_readMore_more more
      have refilled := within.refill live
      rw [← isNext] at refilled
      exact (inductionHypothesis refilled).of_skipped (by omega)
        (refilled.aligned.trans (Nat.zero_mod _))
  | case3 =>
      rename_i more
      obtain ⟨own, isNext⟩ := of_readMore_stop more
      rw [isNext]
      exact delivers_nothing own (Nat.le_add_right _ _)
        (within.noteRecycled.clear _) _
  | case4 =>
      rename_i cut _ more inductionHypothesis
      obtain ⟨live, isNext⟩ := of_readMore_more more
      have refilled := within.noteRecycled.refill live
      rw [← isNext] at refilled
      exact (inductionHypothesis refilled).of_skipped cut
        (refilled.aligned.trans (Nat.zero_mod _))
  | case5 reader =>
      exact delivers_nothing (by decide) (Nat.le_refl _) within.noteRecycled _
  | case6 reader =>
      rename_i recyclable _ _ sameLog
      have sameBuffer := buffer_noteRecycled reader
      have delivers := within.noteRecycled.takeRecord_delivers
        (show isRecyclableType (headerType reader.noteRecycled.buffer) = true by
          rw [sameBuffer]
          exact recyclable)
        (fun _ => (not_not.mp sameLog).trans within.noteRecycled.number_eq) dropSize
      rw [sameBuffer] at delivers
      exact delivers
  | case7 =>
      rename_i legacy
      exact within.takeRecord_delivers (Bool.eq_false_iff.mpr legacy)
        Bool.false_ne_true.elim dropSize

end Physical

/-! ## Putting records together -/

/-- The reader is at or behind `low`, and what is under assembly are the pieces
right in front of it. -/
def Assembles
    (file : Bytes)
    (number : UInt64)
    (low : Nat)
    (assembly : Assembly GrowingFile) : Prop :=
  ∃ position offset,
    low ≤ position ∧
      Within file number assembly.reader position offset ∧
      (assembly.inFragmentedRecord = true →
        ∃ start, low ≤ start ∧
          Fragmented file number start position assembly.scratch)

/-- A returned record lies in the file between `low` and the reader. -/
def ReturnsStored
    (file : Bytes)
    (number : UInt64)
    (low : Nat)
    (result : ReadResult GrowingFile) : Prop :=
  ∃ position offset,
    low ≤ position ∧
      Within file number result.reader position offset ∧
      (result.found = true →
        ∃ start, low ≤ start ∧
          Stored file number start position result.record)

/-- What holds behind a step of the loop of `ReadRecord`. -/
def Outcome (file : Bytes) (number : UInt64) (low : Nat) :
    Assembly GrowingFile ⊕ ReadResult GrowingFile → Prop :=
  Sum.elim (Assembles file number low) (ReturnsStored file number low)

section Assembling

variable {file : Bytes} {number : UInt64} {low position offset : Nat}

theorem Within.of_alike
    {before after : Reader GrowingFile}
    (within : Within file number before position offset)
    (alike : Alike before after) : Within file number after position offset := by
  obtain ⟨reporter, recordOffset, rfl⟩ := alike
  exact ⟨within.standing.of_reports reporter recordOffset, within.inFile,
    within.aligned, within.number_eq⟩

theorem outcome_ite
    {condition : Prop}
    [Decidable condition]
    {yes no : Assembly GrowingFile ⊕ ReadResult GrowingFile}
    (ifYes : condition → Outcome file number low yes)
    (ifNo : ¬condition → Outcome file number low no) :
    Outcome file number low (if condition then yes else no) := by
  split
  · exact ifYes ‹_›
  · exact ifNo ‹_›

/-- Nothing is under assembly. -/
theorem outcome_between
    {reader : Reader GrowingFile}
    (within : Within file number reader position offset)
    (later : low ≤ position)
    {next : Assembly GrowingFile}
    (alike : Alike reader next.reader)
    (between : next.inFragmentedRecord = false) :
    Outcome file number low (.inl next) := by
  refine ⟨position, offset, later, within.of_alike alike, ?_⟩
  rw [between]
  exact Bool.false_ne_true.elim

/-- `ReadRecord` returns `false`. -/
theorem outcome_finish
    {assembly : Assembly GrowingFile}
    (within : Within file number assembly.reader position offset)
    (later : low ≤ position)
    (mode : WALRecoveryMode) :
    Outcome file number low (.inr (assembly.finish mode)) :=
  ⟨position, offset, later, within.of_alike (alike_finish assembly mode), nofun⟩

theorem inFragmentedRecord_interrupt (assembly : Assembly GrowingFile) :
    assembly.interrupt.inFragmentedRecord = false := by
  unfold Assembly.interrupt
  cases inFragment : assembly.inFragmentedRecord with
  | false => exact inFragment
  | true => rfl

theorem outcome_interrupt
    {reader : Reader GrowingFile}
    (within : Within file number reader position offset)
    (later : low ≤ position)
    {assembly : Assembly GrowingFile}
    (alike : Alike reader assembly.reader) :
    Outcome file number low (.inl assembly.interrupt) :=
  outcome_between within later (alike.trans (alike_interrupt assembly))
    (inFragmentedRecord_interrupt assembly)

theorem exists_type
    {code : Nat}
    {legacy recyclable : RecordType}
    (isEither : code = legacy.code ∨ code = recyclable.code) :
    ∃ type : RecordType, code = type.code ∧ (type = legacy ∨ type = recyclable) := by
  rcases isEither with isLegacy | isRecyclable
  · exact ⟨legacy, isLegacy, .inl rfl⟩
  · exact ⟨recyclable, isRecyclable, .inr rfl⟩

/-- Each branch of `ReadRecord` keeps the pieces under assembly together, completes
them or forgets them. -/
theorem handle_outcome
    (mode : WALRecoveryMode)
    {assembly : Assembly GrowingFile}
    (begun : assembly.inFragmentedRecord = true →
      ∃ start, low ≤ start ∧
        Fragmented file number start position assembly.scratch)
    (later : low ≤ position)
    {physical : PhysicalRead GrowingFile}
    (delivers : Delivers file number position physical)
    (recordOffset : UInt64) :
    Outcome file number low (handle mode assembly recordOffset physical) := by
  obtain ⟨position', offset', ahead, within, pieces⟩ := delivers
  have later' : low ≤ position' := later.trans ahead
  have adjacent {start : Nat} (isAdjacent : Adjacent position start) :
      low ≤ start := later.trans isAdjacent.le
  unfold handle
  generalize taken : ({ assembly with reader := physical.reader } :
    Assembly GrowingFile) = started
  have reader : physical.reader = started.reader := by rw [← taken]
  have inFragment : started.inFragmentedRecord = assembly.inFragmentedRecord := by
    rw [← taken]
  have scratch : started.scratch = assembly.scratch := by rw [← taken]
  rw [reader] at within
  dsimp only
  refine outcome_ite (fun isFull => ?_) fun _ => ?_
  · obtain ⟨type, isType, isFull⟩ := exists_type isFull
    obtain ⟨start, next, valid, rfl⟩ := pieces type (by rintro rfl; simp at isFull)
      isType
    refine ⟨_, offset', later',
      within.of_alike (alike_complete (alike_reportIf started _ _ _) _ _), ?_⟩
    exact fun _ => ⟨start, adjacent next, .full isFull valid⟩
  refine outcome_ite (fun isFirst => ?_) fun _ => ?_
  · obtain ⟨type, isType, isFirst⟩ := exists_type isFirst
    obtain ⟨start, next, valid, rfl⟩ := pieces type (by rintro rfl; simp at isFirst)
      isType
    refine ⟨_, offset', later', within.of_alike (alike_reportIf started _ _ _), ?_⟩
    exact fun _ => ⟨start, adjacent next, .first isFirst valid⟩
  refine outcome_ite (fun isMiddle => ?_) fun _ => ?_
  · refine outcome_ite (fun between => ?_) fun partly => ?_
    · have notIn : started.inFragmentedRecord = false := by simpa using between
      exact outcome_between within later' (alike_report started _ _) notIn
    · obtain ⟨type, isType, isMiddle⟩ := exists_type isMiddle
      obtain ⟨start, next, valid, rfl⟩ := pieces type
        (by rintro rfl; simp at isMiddle) isType
      obtain ⟨first, isLater, fragmented⟩ := begun (by simpa [inFragment] using partly)
      refine ⟨_, offset', later', within, fun _ => ⟨first, isLater, ?_⟩⟩
      rw [scratch]
      exact .middle fragmented next isMiddle valid
  refine outcome_ite (fun isLast => ?_) fun _ => ?_
  · refine outcome_ite (fun between => ?_) fun partly => ?_
    · have notIn : started.inFragmentedRecord = false := by simpa using between
      exact outcome_between within later' (alike_report started _ _) notIn
    · obtain ⟨type, isType, isLast⟩ := exists_type isLast
      obtain ⟨start, next, valid, rfl⟩ := pieces type (by rintro rfl; simp at isLast)
        isType
      obtain ⟨first, isLater, fragmented⟩ := begun (by simpa [inFragment] using partly)
      refine ⟨_, offset', later', within.of_alike (alike_complete (.refl _) _ _),
        fun _ => ⟨first, isLater, ?_⟩⟩
      rw [scratch]
      exact .last fragmented next isLast valid
  refine outcome_ite (fun _ => ?_) fun _ => ?_
  · exact outcome_finish (within.of_alike (alike_reportIf started _ _ _)) later' mode
  refine outcome_ite (fun _ => outcome_finish within later' mode) fun _ => ?_
  refine outcome_ite (fun _ => ?_) fun _ => ?_
  · exact outcome_ite (fun _ => outcome_finish within later' mode)
      fun _ => outcome_interrupt within later' (.refl _)
  refine outcome_ite (fun _ => outcome_interrupt within later' (.refl _)) fun _ => ?_
  refine outcome_ite (fun _ => ?_) fun _ => ?_
  · refine outcome_ite (fun _ => ?_) fun _ => ?_
    · exact ⟨position', offset', later', within, nofun⟩
    · exact outcome_interrupt within later' (alike_report started _ _)
  · exact outcome_between within later' (alike_report started _ _) rfl

theorem Assembles.step
    {mode : WALRecoveryMode}
    {assembly : Assembly GrowingFile}
    (assembles : Assembles file number low assembly) :
    Outcome file number low
      (readRecordStep GrowingFile.sequentialFile mode assembly) := by
  obtain ⟨position, offset, later, within, begun⟩ := assembles
  exact handle_outcome mode begun later (within.readPhysicalRecord_delivers 0)
    assembly.reader.bufferOffset

theorem Assembles.loop
    {mode : WALRecoveryMode}
    {fuel : Nat}
    {assembly : Assembly GrowingFile}
    (assembles : Assembles file number low assembly)
    {result : ReadResult GrowingFile}
    (returned : readRecordLoop GrowingFile.sequentialFile mode fuel assembly =
      some result) :
    ReturnsStored file number low result := by
  induction fuel generalizing assembly with
  | zero => cases returned
  | succ fuel inductionHypothesis =>
      have outcome := @Assembles.step _ _ _ mode _ assembles
      rw [readRecordLoop] at returned
      cases step : readRecordStep GrowingFile.sequentialFile mode assembly with
      | inl next =>
          rw [step] at returned outcome
          exact inductionHypothesis outcome returned
      | inr last =>
          rw [step] at returned outcome
          cases returned
          exact outcome

/-- One call of `ReadRecord`. -/
theorem Within.readRecord
    {mode : WALRecoveryMode}
    {fuel : Nat}
    {reader : Reader GrowingFile}
    (within : Within file number reader position offset)
    {result : ReadResult GrowingFile}
    (returned : reader.readRecord GrowingFile.sequentialFile mode fuel =
      some result) :
    ReturnsStored file number position result := by
  have fromStart := within.standing.fromStart
  rw [Reader.readRecord, if_neg (by rw [fromStart]; exact UInt64.not_lt_zero)]
    at returned
  have between : (startAssembly reader).inFragmentedRecord ≠ true := by
    simp [startAssembly]
  exact Assembles.loop ⟨position, offset, Nat.le_refl _, within,
    fun partly => absurd partly between⟩ returned

end Assembling

/-- Successive calls of `ReadRecord`, with the records they return. -/
inductive Calls {φ : Type} (F : SequentialFile φ) (mode : WALRecoveryMode) :
    Reader φ → List Bytes → Reader φ → Prop
  | none (reader : Reader φ) : Calls F mode reader [] reader
  | found {fuel : Nat} {reader : Reader φ} {result : ReadResult φ}
      {records : List Bytes} {final : Reader φ}
      (returned : reader.readRecord F mode fuel = some result)
      (isFound : result.found = true)
      (calls : Calls F mode result.reader records final) :
      Calls F mode reader (result.record :: records) final
  | missed {fuel : Nat} {reader : Reader φ} {result : ReadResult φ}
      {records : List Bytes} {final : Reader φ}
      (returned : reader.readRecord F mode fuel = some result)
      (isMissed : result.found = false)
      (calls : Calls F mode result.reader records final) :
      Calls F mode reader records final

/-- Where a list of records lies in a file: one behind the other, from `low` on. -/
inductive StoredFrom (file : Bytes) (number : UInt64) : Nat → List Bytes → Prop
  | nil (low : Nat) : StoredFrom file number low []
  | cons {low start ended : Nat} {record : Bytes} {records : List Bytes}
      (later : low ≤ start)
      (proper : start < ended)
      (stored : Stored file number start ended record)
      (rest : StoredFrom file number ended records) :
      StoredFrom file number low (record :: records)

theorem StoredFrom.of_le
    {file : Bytes}
    {number : UInt64}
    {low high : Nat}
    {records : List Bytes}
    (storedFrom : StoredFrom file number high records)
    (isLower : low ≤ high) : StoredFrom file number low records := by
  cases storedFrom with
  | nil => exact .nil low
  | cons later proper stored rest =>
      exact .cons (isLower.trans later) proper stored rest

theorem recordSize_pos (type : RecordType) (payload : Bytes) :
    0 < recordSize type payload := by
  have bounds := headerSize_bounds (Writer.isRecyclable type)
  unfold recordSize
  omega

section Ranges

variable {file : Bytes} {number : UInt64} {start ended : Nat} {payload : Bytes}

theorem Fragmented.lt (fragmented : Fragmented file number start ended payload) :
    start < ended := by
  induction fragmented with
  | first isFirst valid => exact Nat.lt_add_of_pos_right (recordSize_pos _ _)
  | middle begun adjacent isMiddle valid inductionHypothesis =>
      have next := adjacent.le
      omega

theorem Stored.lt (stored : Stored file number start ended payload) :
    start < ended := by
  cases stored with
  | full isFull valid => exact Nat.lt_add_of_pos_right (recordSize_pos _ _)
  | last begun adjacent isLast valid =>
      have first := begun.lt
      have next := adjacent.le
      omega

end Ranges

theorem Within.calls
    {file : Bytes}
    {number : UInt64}
    {mode : WALRecoveryMode}
    {reader final : Reader GrowingFile}
    {position offset : Nat}
    (within : Within file number reader position offset)
    {records : List Bytes}
    (calls : Calls GrowingFile.sequentialFile mode reader records final) :
    StoredFrom file number position records := by
  induction calls generalizing position offset with
  | none => exact .nil position
  | found returned isFound _ inductionHypothesis =>
      obtain ⟨ended, offset', later, within', stored⟩ := within.readRecord returned
      obtain ⟨start, isLater, stored⟩ := stored isFound
      exact .cons isLater stored.lt stored (inductionHypothesis within')
  | missed returned _ _ inductionHypothesis =>
      obtain ⟨ended, offset', later, within', -⟩ := within.readRecord returned
      exact (inductionHypothesis within').of_le later

/-- Whatever the file holds, the records returned by any number of calls lie in it
one behind the other, each in one piece or in adjacent pieces from first to
last. -/
theorem no_splicing
    {file : Bytes}
    {number : UInt64}
    {mode : WALRecoveryMode}
    {reporter : Option (List Report)}
    {records : List Bytes}
    {final : Reader GrowingFile}
    (calls : Calls GrowingFile.sequentialFile mode
      (Reader.new (GrowingFile.atRest file) reporter true 0 number) records final) :
    StoredFrom file number 0 records :=
  (within_new file number reporter).calls calls

/-- Calling `ReadRecord` until it returns `false` is one such run of calls. -/
theorem calls_of_readRecords
    {φ : Type}
    {F : SequentialFile φ}
    {mode : WALRecoveryMode}
    {fuel : Nat}
    {reader final : Reader φ}
    {records : List Bytes}
    (run : readRecords F mode fuel reader = some (records, final)) :
    Calls F mode reader records final := by
  induction fuel generalizing reader records with
  | zero => cases run
  | succ fuel inductionHypothesis =>
      simp only [readRecords, Option.bind_eq_bind, Option.bind_eq_some_iff] at run
      obtain ⟨result, returned, run⟩ := run
      cases isFound : result.found with
      | false =>
          simp only [isFound, Bool.false_eq_true, if_false, Option.some.injEq,
            Prod.mk.injEq] at run
          obtain ⟨rfl, rfl⟩ := run
          exact .missed returned isFound (.none _)
      | true =>
          simp only [isFound, if_true, Option.bind_eq_some_iff, Option.some.injEq,
            Prod.mk.injEq, Prod.exists] at run
          obtain ⟨later, last, run, rfl, rfl⟩ := run
          exact .found returned isFound (inductionHypothesis run)

theorem no_splicing_sample :
    let file := Format.logBytes ⟨false, 7⟩ 0 [[1, 2, 3, 4]] ++ List.replicate 9 0
    ∃ final,
      Calls GrowingFile.sequentialFile .tolerateCorruptedTailRecords
          (Reader.new (GrowingFile.atRest file) (some []) true 0 7) [[1, 2, 3, 4]]
          final ∧
        StoredFrom file 7 0 [[1, 2, 3, 4]] := by
  obtain ⟨final, ⟨enough, run⟩, -⟩ := readRecords_zeroSuffix
    (show WALRecoveryMode.tolerateCorruptedTailRecords ≠ .absoluteConsistency by
      decide) (rfl : Format.logBytes ⟨false, 7⟩ 0 [[1, 2, 3, 4]] = _) 9 true 7 nofun
  have calls := calls_of_readRecords (run enough (Nat.le_refl _))
  exact ⟨final, calls, no_splicing calls⟩

end Reader
end Log
end RocksUtil
