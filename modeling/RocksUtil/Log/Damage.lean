import RocksUtil.Log.Reports

/-!
# Damaged logs

A log whose physical records may have been overwritten in place.  A `Slot` is
the place of one physical record: the fragment that was written there and the
bytes that are found there now.  A reader that rejects the checksum of a record
drops the rest of its block, so the records behind a changed one are lost up to
the next block; `salvage` is what can still be assembled from the others.

The main result is that `ReadRecord` returns exactly that (`steps_slots`), with
a report for every place where it started to drop.
-/

namespace RocksUtil
namespace Log

/-- The place of a physical record in a log that may be damaged. -/
structure Slot where
  /-- The fragment that was written. -/
  fragment : Fragment
  /-- The bytes found in the place of its physical record. -/
  stored : Bytes
  /-- The bytes are not those that were written. -/
  changed : Bool

namespace Format

/-- The bytes of a list of slots from block offset `offset` on. -/
def placeSlots (format : Format) : Nat → List Slot → Bytes
  | _, [] => []
  | offset, slot :: slots =>
      List.replicate (format.gap offset) 0 ++ (slot.stored ++
        format.placeSlots (format.endOffset offset slot.fragment.payload.length)
          slots)

/-- The reader does not get to see a slot at `offset`: it is changed, or it lies
in the rest of a block that was dropped. -/
def lost (format : Format) (broken : Bool) (offset : Nat) (slot : Slot) : Bool :=
  slot.changed || (broken && decide (0 < format.startOffset offset))

/-- The fragments of slots, each with whether the reader loses it.  `broken` says
that the rest of the block in front of the slots was dropped. -/
def marks (format : Format) : Bool → Nat → List Slot → List (Fragment × Bool)
  | _, _, [] => []
  | broken, offset, slot :: slots =>
      (slot.fragment, format.lost broken offset slot) ::
        format.marks (format.lost broken offset slot)
          (format.endOffset offset slot.fragment.payload.length) slots

/-- Whether the rest of the block behind slots is dropped. -/
def brokenAfter (format : Format) : Bool → Nat → List Slot → Bool
  | broken, _, [] => broken
  | broken, offset, slot :: slots =>
      format.brokenAfter (format.lost broken offset slot)
        (format.endOffset offset slot.fragment.payload.length) slots

/-- Number of slots at which the reader starts to drop. -/
def drops (format : Format) : Bool → Nat → List Slot → Nat
  | _, _, [] => 0
  | broken, offset, slot :: slots =>
      (if slot.changed && !(broken && decide (0 < format.startOffset offset))
        then 1 else 0) +
        format.drops (format.lost broken offset slot)
          (format.endOffset offset slot.fragment.payload.length) slots

@[simp] theorem placeSlots_nil (format : Format) (offset : Nat) :
    format.placeSlots offset [] = [] := rfl

theorem placeSlots_cons
    (format : Format)
    (offset : Nat)
    (slot : Slot)
    (slots : List Slot) :
    format.placeSlots offset (slot :: slots) =
      List.replicate (format.gap offset) 0 ++ (slot.stored ++
        format.placeSlots (format.endOffset offset slot.fragment.payload.length)
          slots) := rfl

end Format

/-- The records that can be assembled from the fragments that are not lost.  A
lost fragment takes the record under assembly with it. -/
def salvage : Option Bytes → List (Fragment × Bool) → List Bytes
  | _, [] => []
  | pending, (fragment, isLost) :: marks =>
      if isLost then salvage none marks
      else
        (completed pending fragment).toList ++
          salvage (pendingNext pending fragment) marks

/-- What is pending behind fragments some of which are lost. -/
def salvagePending : Option Bytes → List (Fragment × Bool) → Option Bytes
  | pending, [] => pending
  | pending, (fragment, isLost) :: marks =>
      if isLost then salvagePending none marks
      else salvagePending (pendingNext pending fragment) marks

namespace Reader

/-! ## Rejected records -/

/-- A physical record that `ReadPhysicalRecord` rejects for its checksum. -/
structure Rejected (bytes : Bytes) : Prop where
  legacy : isRecyclableType (headerType bytes) = false
  length : kHeaderSize + headerLength bytes = bytes.length
  notZero : ¬(headerType bytes = RecordType.zero.code ∧ headerLength bytes = 0)
  mismatch : crcMatches bytes kHeaderSize (headerLength bytes) = false

section Headers

variable {bytes : Bytes} (rest : Bytes)

theorem getD_append_of_lt
    {index : Nat}
    (inside : index < bytes.length) :
    (bytes ++ rest).getD index 0 = bytes.getD index 0 := by
  rw [List.getD_eq_getElem?_getD, List.getElem?_append_left inside,
    ← List.getD_eq_getElem?_getD]

theorem headerType_append (enough : kHeaderSize ≤ bytes.length) :
    headerType (bytes ++ rest) = headerType bytes := by
  rw [kHeaderSize_eq] at enough
  rw [headerType, getD_append_of_lt rest (by omega), headerType]

theorem headerLength_append (enough : kHeaderSize ≤ bytes.length) :
    headerLength (bytes ++ rest) = headerLength bytes := by
  rw [kHeaderSize_eq] at enough
  rw [headerLength, getD_append_of_lt rest (by omega),
    getD_append_of_lt rest (by omega), headerLength]

theorem decodeFixed32_append (enough : 4 ≤ bytes.length) :
    Coding.decodeFixed32 (bytes ++ rest) = Coding.decodeFixed32 bytes := by
  match bytes, enough with
  | _ :: _ :: _ :: _ :: _, _ => rfl

/-- The checksum of a record does not depend on what lies behind it. -/
theorem crcMatches_append
    {header length : Nat}
    (enough : kHeaderSize ≤ bytes.length)
    (inside : header + length ≤ bytes.length) :
    crcMatches (bytes ++ rest) header length =
      crcMatches bytes header length := by
  rw [kHeaderSize_eq] at enough
  rw [crcMatches, crcMatches, decodeFixed32_append rest (by omega),
    List.drop_append_of_le_length (by omega),
    List.take_append_of_le_length (by simp only [List.length_drop]; omega)]

end Headers

/-- A rejected record takes the rest of the block with it. -/
theorem readPhysicalRecord_rejected
    {φ : Type}
    {F : SequentialFile φ}
    {reader : Reader φ}
    {bytes rest : Bytes}
    (dropSize : Nat)
    (buffered : reader.buffer = bytes ++ rest)
    (rejected : Rejected bytes)
    (checked : reader.checksum = true) :
    reader.readPhysicalRecord F dropSize =
      ⟨kBadRecordChecksum, [], reader.buffer.length,
        { reader with buffer := [] }⟩ := by
  have enough : kHeaderSize ≤ bytes.length := by
    rw [← rejected.length]
    exact Nat.le_add_right _ _
  have type : headerType reader.buffer = headerType bytes := by
    rw [buffered, headerType_append rest enough]
  have length : headerLength reader.buffer = headerLength bytes := by
    rw [buffered, headerLength_append rest enough]
  have mismatch : crcMatches reader.buffer kHeaderSize (headerLength bytes) =
      false := by
    rw [buffered, crcMatches_append rest enough rejected.length.le]
    exact rejected.mismatch
  have inBuffer : bytes.length ≤ reader.buffer.length := by
    rw [buffered, List.length_append]
    exact Nat.le_add_right _ _
  rw [readPhysicalRecord_of_legacy (enough.trans inBuffer)
    (by rw [type]; exact rejected.legacy), type, length, takeRecord]
  dsimp only
  rw [if_neg (by rw [rejected.length]; omega), if_neg rejected.notZero,
    if_pos (by simp [checked, mismatch])]

/-- A record with a wrong length or checksum is reported, and nothing is pending
behind it. -/
theorem handle_drop
    {φ : Type}
    {mode : WALRecoveryMode}
    (goesOn : mode ≠ .tolerateCorruptedTailRecords)
    (assembly : Assembly φ)
    (offset : UInt64)
    {code : Nat}
    (isDrop : code = kBadRecordLen ∨ code = kBadRecordChecksum)
    (dropSize : Nat)
    {reader : Reader φ}
    (fromStart : reader.initialOffset = 0) :
    let reason := if code = kBadRecordLen then "bad record length"
      else "checksum mismatch"
    ∃ following reporter,
      handle mode assembly offset ⟨code, [], dropSize, reader⟩ =
          .inl following ∧
        following.reader = { reader with reporter := reporter } ∧
        following.pending = none ∧
        (reader.reporter.isSome → ∃ more,
          reporter.getD [] = reader.reports ++
            ⟨dropSize, .Corruption reason⟩ :: more) := by
  intro reason
  let reported := Assembly.report { assembly with reader := reader } dropSize reason
  have handled : handle mode assembly offset ⟨code, [], dropSize, reader⟩ =
      .inl reported.interrupt := by
    rcases isDrop with rfl | rfl <;>
      simp [handle, RecordType.code, kBadRecordChecksum, kBadRecordLen,
        kBadRecord, kBadHeader, kEof, kOldRecord, kMaxRecordType, goesOn,
        reported, reason]
  obtain ⟨reporter, first⟩ := reportDrop_eq reader dropSize (.Corruption reason)
  have readerEq : reported.reader = { reader with reporter := reporter } := first
  have said (heard : reader.reporter.isSome) : reporter.getD [] =
      reader.reports ++ [⟨dropSize, .Corruption reason⟩] := by
    have drop := reports_reportDrop fromStart heard dropSize (.Corruption reason)
    rw [first] at drop
    exact drop
  obtain ⟨reporter', interrupted, pending, -, -⟩ := interrupt_eq reported
  rw [readerEq] at interrupted
  refine ⟨reported.interrupt, reporter', handled, interrupted, pending, ?_⟩
  intro heard
  obtain ⟨more, further⟩ := (interrupt_reported reported).reports
  rw [interrupted, readerEq] at further
  change reporter.getD [] ++ more = reporter'.getD [] at further
  refine ⟨more, ?_⟩
  rw [← further, said heard, List.append_assoc]
  rfl

/-! ## A reader of a file at rest -/

/-- The file is at rest, and the reader, which looks at checksums, stands at block
offset `offset` in front of exactly the bytes `rest`. -/
structure Standing
    (format : Format)
    (reader : Reader GrowingFile)
    (offset : Nat)
    (rest : Bytes) : Prop where
  positioned : reader.Positioned offset rest
  atRest : reader.file.arrivals = []
  whole : reader.reach = rest.length
  fromStart : reader.initialOffset = 0
  checked : reader.checksum = true
  accepts : reader.Accepts format

/-- The rest of the block at `offset` was dropped, and the reader stands behind
it. -/
def Behind
    (format : Format)
    (reader : Reader GrowingFile)
    (offset : Nat)
    (rest : Bytes) : Prop :=
  Standing format reader (min kBlockSize (offset + rest.length))
    (rest.drop (kBlockSize - offset))

/-- Where a reader stands in a log, depending on whether it dropped the rest of
the block. -/
def Facing
    (format : Format)
    (broken : Bool)
    (reader : Reader GrowingFile)
    (offset : Nat)
    (rest : Bytes) : Prop :=
  if broken then 0 < offset ∧ Behind format reader offset rest
  else Standing format reader offset rest

section Standing

variable {format : Format} {reader next : Reader GrowingFile} {offset : Nat}
  {rest : Bytes}

theorem Standing.move
    (standing : Standing format reader offset rest)
    {count offset' : Nat}
    {rest' : Bytes}
    (consumed : Consumes reader next count)
    (positioned : next.Positioned offset' rest')
    (counted : rest'.length + count = rest.length) :
    Standing format next offset' rest' := by
  obtain ⟨reached, atRest⟩ := consumed.reach_eq standing.atRest
  have whole := standing.whole
  exact ⟨positioned, atRest, by omega,
    consumed.settings.1.trans standing.fromStart,
    consumed.settings.2.2.trans standing.checked,
    consumed.accepts standing.accepts⟩

theorem Standing.of_reports
    (standing : Standing format reader offset rest)
    (reporter : Option (List Report))
    (recordOffset : UInt64) :
    Standing format { reader with
      reporter := reporter, lastRecordOffset := recordOffset } offset rest :=
  ⟨standing.positioned.of_reports reporter recordOffset, standing.atRest,
    standing.whole, standing.fromStart, standing.checked, standing.accepts⟩

/-- The buffer holds what is left of the block. -/
theorem Standing.length_buffer (standing : Standing format reader offset rest) :
    reader.buffer.length = min (kBlockSize - offset) rest.length :=
  standing.positioned.length_buffer standing.whole

/-- The end of the file has been met exactly if it lies in this block. -/
theorem Standing.eof_iff (standing : Standing format reader offset rest) :
    reader.eof = true ↔ offset + rest.length < kBlockSize := by
  have length := standing.length_buffer
  have inside := standing.positioned.offset_le
  cases ended : reader.eof with
  | false =>
      have facts := standing.positioned.live ended
      simp only [Bool.false_eq_true, false_iff]
      omega
  | true =>
      have facts := standing.positioned.ended ended
      simp only [true_iff]
      omega

/-- Dropping the rest of the block. -/
theorem Standing.clear
    (standing : Standing format reader offset rest)
    (recycled : Bool) :
    Behind format { reader with buffer := [], recycled := recycled } offset
      rest := by
  have length := standing.length_buffer
  have inside := standing.positioned.offset_le
  obtain ⟨moved, consumed⟩ := standing.positioned.advance
    (List.append_nil reader.buffer).symm recycled
  have behind : offset + reader.buffer.length =
      min kBlockSize (offset + rest.length) := by
    omega
  have dropped : rest.drop reader.buffer.length =
      rest.drop (kBlockSize - offset) := by
    rcases Nat.le_total (kBlockSize - offset) rest.length with more | less
    · rw [length, Nat.min_eq_left more]
    · rw [length, Nat.min_eq_right less, List.drop_length,
        List.drop_of_length_le less]
  rw [behind, dropped] at moved
  refine standing.move consumed moved ?_
  rw [List.length_drop]
  omega

end Standing

/-! ## Reading slots -/

/-- The bytes of a slot are those that were written, or they are rejected. -/
structure Sound (format : Format) (slot : Slot) : Prop where
  length : slot.stored.length = (format.encode slot.fragment).length
  kept : slot.changed = false → slot.stored = format.encode slot.fragment
  rejected : slot.changed = true → Rejected slot.stored

/-- Number of checksum mismatches reported so far. -/
def mismatches {φ : Type} (reader : Reader φ) : Nat :=
  reader.reports.countP
    fun call => call.status == .Corruption "checksum mismatch"

theorem Reported.mismatches_le
    {φ : Type}
    {before after : Reader φ}
    (reported : Reported before.reporter after.reporter) :
    before.mismatches ≤ after.mismatches :=
  reported.reports.sublist.countP_le

section Slots

variable {mode : WALRecoveryMode} {assembly : Assembly GrowingFile}
  {format : Format} {offset : Nat} {body : Bytes}

/-- A slot in a part of the block that was dropped. -/
theorem Behind.pass
    {reader : Reader GrowingFile}
    {stored : Bytes}
    (behind : Behind format reader offset (stored ++ body))
    (inBlock : offset + stored.length ≤ kBlockSize) :
    Behind format reader (offset + stored.length) body := by
  have sameRest : (stored ++ body).drop (kBlockSize - offset) =
      body.drop (kBlockSize - (offset + stored.length)) := by
    rw [List.drop_append, List.drop_of_length_le (by omega), List.nil_append]
    congr 1
    omega
  unfold Behind at behind ⊢
  rw [sameRest, List.length_append, ← Nat.add_assoc] at behind
  exact behind

/-- A reader that has something left to see stands in front of it, possibly
behind a gap of another length. -/
theorem Facing.ready
    {broken : Bool}
    {reader : Reader GrowingFile}
    (facing : Facing format broken reader offset
      (List.replicate (format.gap offset) 0 ++ body))
    (visible : (broken && decide (0 < format.startOffset offset)) = false)
    (nonempty : 0 < body.length) :
    ∃ from',
      Standing format reader from'
          (List.replicate (format.gap from') 0 ++ body) ∧
        format.startOffset from' = format.startOffset offset ∧
        (broken = false → from' = offset) := by
  cases broken with
  | false => exact ⟨offset, facing, rfl, fun _ => rfl⟩
  | true =>
      obtain ⟨positive, behind⟩ := facing
      have start : format.startOffset offset = 0 := by
        simpa using visible
      have switches : kBlockSize - offset < format.header := by
        by_contra stays
        rw [Format.startOffset, if_neg stays] at start
        omega
      have gap : format.gap offset = kBlockSize - offset := by
        simp [Format.gap, switches]
      have atEnd : min kBlockSize (offset +
          (List.replicate (format.gap offset) (0 : UInt8) ++ body).length) =
            kBlockSize := by
        rw [List.length_append, List.length_replicate]
        omega
      rw [Behind, atEnd, ← gap, List.drop_left' (by simp)] at behind
      refine ⟨kBlockSize, ?_, ?_, Bool.false_ne_true.symm.elim⟩
      · rw [Format.gap_kBlockSize]
        exact behind
      · rw [Format.startOffset_kBlockSize, start]

/-- `ReadRecord` takes a slot that is as it was written. -/
theorem steps_kept
    (mode : WALRecoveryMode)
    {fragment : Fragment}
    (standing : Standing format assembly.reader offset
      (List.replicate (format.gap offset) 0 ++ (format.encode fragment ++ body)))
    (ends : format.endOffset offset fragment.payload.length ≤ kBlockSize)
    (joined : assembly.pending.isSome → format.gap offset = 0) :
    ∃ next,
      Steps GrowingFile.sequentialFile mode assembly
          (completed assembly.pending fragment).toList next ∧
        Standing format next.reader
          (format.endOffset offset fragment.payload.length) body ∧
        next.pending = pendingNext assembly.pending fragment ∧
        (fragment.start = !assembly.pending.isSome →
          next.reader.reporter = assembly.reader.reporter) := by
  have whole := standing.whole
  simp only [List.length_append, List.length_replicate] at whole
  obtain ⟨middle, taken, stepsTo, physical, moved, consumed, silent⟩ :=
    steps_to_fragment mode standing.positioned ends (by unfold span; omega)
      standing.accepts standing.fromStart joined
  obtain ⟨next, reporter, recordOffset, steps, reader, pending, quiet⟩ :=
    Steps.fragment mode { assembly with reader := middle } physical
      (consumed.settings.1.trans standing.fromStart)
  refine ⟨next, stepsTo.trans steps, ?_, pending, ?_⟩
  · rw [reader]
    apply Standing.of_reports
    refine standing.move consumed moved ?_
    simp only [span, List.length_append, List.length_replicate]
    omega
  · intro chained
    rw [reader]
    exact (quiet chained).trans silent

/-- `ReadRecord` rejects a slot and drops the rest of the block. -/
theorem steps_rejected
    (goesOn : mode ≠ .tolerateCorruptedTailRecords)
    {stored : Bytes}
    (standing : Standing format assembly.reader offset
      (List.replicate (format.gap offset) 0 ++ (stored ++ body)))
    (rejected : Rejected stored)
    (inBlock : format.startOffset offset + stored.length ≤ kBlockSize)
    (joined : assembly.pending.isSome → format.gap offset = 0) :
    ∃ next,
      Steps GrowingFile.sequentialFile mode assembly [] next ∧
        Behind format next.reader (format.startOffset offset + stored.length)
          body ∧
        next.pending = none ∧
        (assembly.reader.reporter.isSome →
          assembly.reader.mismatches + 1 ≤ next.reader.mismatches) := by
  have size := rejected.length
  have header := kHeaderSize_eq
  have whole := standing.whole
  simp only [List.length_append, List.length_replicate] at whole
  obtain ⟨middle, there, stepsTo, same, moved, consumed, silent⟩ :=
    steps_to_body mode standing.positioned (by omega) joined
  have facing : Standing format there (format.startOffset offset)
      (stored ++ body) := by
    refine standing.move consumed moved ?_
    simp only [List.length_append, List.length_replicate]
    omega
  have inBuffer : stored.length ≤ there.buffer.length := by
    rw [facing.length_buffer, List.length_append]
    omega
  have physical := readPhysicalRecord_rejected (F := GrowingFile.sequentialFile) 0
    (facing.positioned.buffer_split inBuffer) rejected facing.checked
  obtain ⟨next, reporter, handled, reader, pending, said⟩ := handle_drop goesOn
    { assembly with reader := middle } middle.bufferOffset (.inr rfl)
    there.buffer.length
    (show Reader.initialOffset { there with buffer := [] } = 0 from
      facing.fromStart)
  have step : readRecordStep GrowingFile.sequentialFile mode
      { assembly with reader := middle } = .inl next := by
    rw [readRecordStep, same, physical, handled]
  refine ⟨next, stepsTo.trans (.next step (.refl _)), ?_, pending, ?_⟩
  · rw [reader]
    exact ((facing.clear there.recycled).pass inBlock).of_reports reporter
      there.lastRecordOffset
  · intro heard
    rw [← silent] at heard
    obtain ⟨more, reports⟩ := said heard
    have before : assembly.reader.mismatches = there.mismatches := by
      rw [mismatches, mismatches, Reader.reports, Reader.reports, silent]
    have after : next.reader.reports = there.reports ++
        ⟨there.buffer.length, .Corruption "checksum mismatch"⟩ :: more := by
      rw [reader]
      exact reports
    rw [before, mismatches, mismatches, after, List.countP_append,
      List.countP_cons]
    simp only [beq_self_eq_true, if_true]
    omega

/-- `ReadRecord` gets over one slot. -/
theorem steps_slot
    (goesOn : mode ≠ .tolerateCorruptedTailRecords)
    {broken : Bool}
    {slot : Slot}
    (facing : Facing format broken assembly.reader offset
      (List.replicate (format.gap offset) 0 ++ (slot.stored ++ body)))
    (sound : Sound format slot)
    (ends : format.endOffset offset slot.fragment.payload.length ≤ kBlockSize)
    (dropped : broken = true → assembly.pending = none)
    (joined : assembly.pending.isSome → format.gap offset = 0) :
    let lost := format.lost broken offset slot
    ∃ next,
      Steps GrowingFile.sequentialFile mode assembly
          (if lost then []
            else (completed assembly.pending slot.fragment).toList) next ∧
        Facing format lost next.reader
          (format.endOffset offset slot.fragment.payload.length) body ∧
        next.pending = (if lost then none
          else pendingNext assembly.pending slot.fragment) ∧
        (assembly.reader.reporter.isSome →
          assembly.reader.mismatches +
              (if slot.changed &&
                !(broken && decide (0 < format.startOffset offset)) then 1
                else 0) ≤
            next.reader.mismatches) := by
  have bounds := format.header_bounds
  have size := sound.length
  have endEq : format.endOffset offset slot.fragment.payload.length =
      format.startOffset offset + slot.stored.length := by
    rw [size, format.length_encode, Format.endOffset]
  rw [format.length_encode] at size
  by_cases hidden : (broken && decide (0 < format.startOffset offset)) = true
  · -- The slot lies in the part of the block that was dropped before.
    obtain ⟨isBroken, inside⟩ := Bool.and_eq_true_iff.mp hidden
    cases isBroken
    obtain ⟨positive, behind⟩ := facing
    have stays : ¬kBlockSize - offset < format.header := by
      intro switches
      simp [Format.startOffset, switches] at inside
    have gap : format.gap offset = 0 := by simp [Format.gap, stays]
    have start : format.startOffset offset = offset := by
      simp [Format.startOffset, stays]
    rw [gap, List.replicate_zero, List.nil_append] at behind
    have passed := behind.pass (by omega)
    rw [← start, ← endEq] at passed
    have isLost : format.lost true offset slot = true := by
      rw [Format.lost, hidden, Bool.or_true]
    rw [isLost, hidden]
    exact ⟨assembly, .refl _, ⟨by omega, passed⟩, dropped rfl, by simp⟩
  · have seen : (broken && decide (0 < format.startOffset offset)) = false := by
      simpa using hidden
    obtain ⟨from', standing, start, sameOffset⟩ :=
      facing.ready seen (by rw [List.length_append]; omega)
    have joined' : assembly.pending.isSome → format.gap from' = 0 := by
      intro partly
      cases isBroken : broken with
      | true => simp [dropped isBroken] at partly
      | false =>
          rw [sameOffset isBroken]
          exact joined partly
    cases changed : slot.changed with
    | true =>
        have isLost : format.lost broken offset slot = true := by
          rw [Format.lost, changed, Bool.true_or]
        obtain ⟨next, steps, behind, between, counted⟩ := steps_rejected
          goesOn standing (sound.rejected changed) (by omega) joined'
        rw [start, ← endEq] at behind
        rw [isLost, seen]
        exact ⟨next, steps, ⟨by omega, behind⟩, between, counted⟩
    | false =>
        have isLost : format.lost broken offset slot = false := by
          rw [Format.lost, changed, seen, Bool.or_self]
        rw [sound.kept changed] at standing
        have endsHere : format.endOffset from' slot.fragment.payload.length =
            format.endOffset offset slot.fragment.payload.length := by
          rw [Format.endOffset, start, Format.endOffset]
        obtain ⟨next, steps, moved, pending, -⟩ := steps_kept mode standing
          (by rw [endsHere]; exact ends) joined'
        rw [endsHere] at moved
        rw [isLost, seen]
        exact ⟨next, steps, moved, pending,
          fun _ => Reported.mismatches_le steps.reported⟩

/-- `ReadRecord` returns what can be salvaged from the slots, and reports every
place where it starts to drop. -/
theorem steps_slots
    (goesOn : mode ≠ .tolerateCorruptedTailRecords)
    {broken : Bool}
    {slots : List Slot}
    (facing : Facing format broken assembly.reader offset
      (format.placeSlots offset slots ++ body))
    (sound : ∀ slot ∈ slots, Sound format slot)
    (fits : format.Fits offset (slots.map Slot.fragment))
    (dropped : broken = true → assembly.pending = none)
    (joined : assembly.pending.isSome → format.gap offset = 0) :
    ∃ next,
      Steps GrowingFile.sequentialFile mode assembly
          (salvage assembly.pending (format.marks broken offset slots)) next ∧
        Facing format (format.brokenAfter broken offset slots) next.reader
          (format.advance offset (slots.map Slot.fragment)) body ∧
        next.pending =
          salvagePending assembly.pending (format.marks broken offset slots) ∧
        (assembly.reader.reporter.isSome →
          assembly.reader.mismatches + format.drops broken offset slots ≤
            next.reader.mismatches) := by
  induction slots generalizing assembly offset broken with
  | nil =>
      exact ⟨assembly, .refl _, facing, rfl, fun _ => Nat.le_refl _⟩
  | cons slot slots inductionHypothesis =>
      rw [Format.placeSlots_cons, List.append_assoc, List.append_assoc] at facing
      obtain ⟨middle, steps, facing', pending, counted⟩ := steps_slot goesOn facing
        (sound slot (by simp)) fits.endOffset_le dropped joined
      obtain ⟨next, more, after, pending', counted'⟩ := inductionHypothesis facing'
        (fun other isOther => sound other (by simp [isOther])) fits.2.2
        (by
          intro isLost
          rw [pending, if_pos isLost])
        (by
          -- A record goes on only behind a fragment that fills its block.
          intro partly
          have continues : slot.fragment.finish = false := by
            cases finish : slot.fragment.finish with
            | false => rfl
            | true =>
                rw [pending, pendingNext_of_finish _ finish, ite_self] at partly
                cases partly
          rw [fits.2.1 continues, Format.gap_kBlockSize])
      have counted'' (heard : assembly.reader.reporter.isSome) :
          assembly.reader.mismatches +
            format.drops broken offset (slot :: slots) ≤
              next.reader.mismatches := by
        have first := counted heard
        have second := counted' (steps.reported.isSome.trans heard)
        rw [Format.drops]
        omega
      refine ⟨next, ?_, after, ?_, counted''⟩
      · rw [pending] at more
        rw [Format.marks, salvage]
        cases isLost : format.lost broken offset slot with
        | true =>
            rw [isLost] at steps more
            exact steps.trans more
        | false =>
            rw [isLost] at steps more
            exact steps.trans more
      · rw [pending', pending, Format.marks, salvagePending]
        cases format.lost broken offset slot <;> rfl

/-- A reader with nothing left to see makes `ReadRecord` return `false`. -/
theorem Standing.reads_end
    (mode : WALRecoveryMode)
    (standing : Standing format assembly.reader offset []) :
    ∃ final,
      Reads GrowingFile.sequentialFile mode assembly [] final ∧
        (mode ≠ .absoluteConsistency ∨ assembly.pending = none →
          final.reporter = assembly.reader.reporter) ∧
        (mode = .absoluteConsistency → assembly.pending.isSome →
          ReportsMore assembly.reader.reporter final.reporter) := by
  have noArrival : assembly.reader.file.nextArrival = [] := by
    rw [GrowingFile.nextArrival, standing.atRest]
    rfl
  obtain ⟨final, -, step, -, -, -, -, -, quiet, more⟩ := readRecordStep_end mode
    standing.positioned standing.whole (.inr noArrival)
  exact ⟨final, .stop step rfl, quiet,
    fun strict partly => more strict partly standing.fromStart⟩

end Slots

/-- A reader that checks checksums, at the start of a file at rest. -/
theorem standing_new
    (format : Format)
    (file : Bytes)
    (reporter : Option (List Report))
    (logNumber : UInt64)
    (accepts : (Reader.new (GrowingFile.atRest file) reporter true 0
      logNumber).Accepts format) :
    Standing format
      (Reader.new (GrowingFile.atRest file) reporter true 0 logNumber)
      kBlockSize file where
  positioned := positioned_new List.prefix_rfl reporter true logNumber
  atRest := rfl
  whole := reach_new file reporter true logNumber
  fromStart := rfl
  checked := rfl
  accepts := accepts

/-- The records a damaged log yields in the modes that go on behind damage. -/
theorem readRecords_slots
    {mode : WALRecoveryMode}
    (goesOn : mode = .skipAnyCorruptedRecords ∨ mode = .pointInTimeRecovery)
    {format : Format}
    {slots : List Slot}
    (sound : ∀ slot ∈ slots, Sound format slot)
    (fits : format.Fits kBlockSize (slots.map Slot.fragment))
    (logNumber : UInt64)
    (accepts : (Reader.new (GrowingFile.atRest (format.placeSlots kBlockSize slots))
      (some []) true 0 logNumber).Accepts format) :
    ∃ final,
      (∃ enough, ∀ fuel, enough ≤ fuel →
        (Reader.new (GrowingFile.atRest (format.placeSlots kBlockSize slots))
          (some []) true 0 logNumber).readRecords GrowingFile.sequentialFile mode
            fuel =
          some (salvage none (format.marks false kBlockSize slots), final)) ∧
        final.reporter.isSome ∧
        format.drops false kBlockSize slots ≤ final.mismatches := by
  have standing := standing_new format _ (some []) logNumber accepts
  rw [← List.append_nil (format.placeSlots kBlockSize slots)] at standing
  obtain ⟨next, steps, facing, -, counted⟩ :=
    @steps_slots mode (startAssembly (Reader.new
        (GrowingFile.atRest (format.placeSlots kBlockSize slots ++ []))
        (some []) true 0 logNumber)) format kBlockSize []
      (by rcases goesOn with rfl | rfl <;> decide) false slots standing
      sound fits Bool.false_ne_true.elim Bool.false_ne_true.elim
  have ended : ∃ offset, Standing format next.reader offset [] := by
    cases broken : format.brokenAfter false kBlockSize slots with
    | false =>
        rw [broken] at facing
        exact ⟨_, facing⟩
    | true =>
        rw [broken] at facing
        have behind := facing.2
        rw [Behind, List.drop_nil] at behind
        exact ⟨_, behind⟩
  obtain ⟨offset, ended⟩ := ended
  obtain ⟨final, reads, quiet, -⟩ := ended.reads_end mode
  have reported := (steps.reads reads).reported
  have silent : final.reporter = next.reader.reporter := by
    apply quiet
    rcases goesOn with rfl | rfl
    · exact .inl (by decide)
    · exact .inl (by decide)
  have all := steps.reads reads
  rw [List.append_nil, Assembly.pending_startAssembly, List.append_nil] at all
  refine ⟨final, all.readRecords rfl, reported.isSome, ?_⟩
  have total := counted rfl
  have same : final.mismatches = next.reader.mismatches := by
    rw [mismatches, mismatches, Reader.reports, Reader.reports, silent]
  rw [same]
  exact Nat.le_of_add_left_le total

end Reader
end Log
end RocksUtil
