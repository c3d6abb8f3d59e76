import RocksUtil.Log.Assembling
import RocksUtil.Log.Writing

/-!
# Reading a log back

What a reader makes of a log that a writer left behind, when the file holds the
whole log or was cut off at an arbitrary byte.  The fragments that lie
completely before the cut are delivered; what is left of the log is less than a
fragment, and the reader stops there, reporting it in `kAbsoluteConsistency`
only.
-/

namespace RocksUtil
namespace Log

namespace Format

/-- The fragments among the first `count` bytes of a log. -/
def visible (format : Format) : Nat → Nat → List Fragment → List Fragment
  | _, _, [] => []
  | offset, count, fragment :: fragments =>
      if format.gap offset + (format.encode fragment).length ≤ count then
        fragment :: format.visible
          (format.endOffset offset fragment.payload.length)
          (count - (format.gap offset + (format.encode fragment).length))
          fragments
      else []

theorem length_place_cons
    (format : Format)
    (offset : Nat)
    (fragment : Fragment)
    (fragments : List Fragment) :
    (format.place offset (fragment :: fragments)).length =
      format.gap offset + (format.encode fragment).length +
        (format.place (format.endOffset offset fragment.payload.length)
          fragments).length := by
  rw [place_cons]
  simp only [List.length_append, List.length_replicate]
  omega

/-- The block offset follows the number of bytes. -/
theorem Fits.advance_mod
    {format : Format}
    {offset : Nat}
    {fragments : List Fragment}
    (fits : format.Fits offset fragments) :
    format.advance offset fragments % kBlockSize =
      (offset + (format.place offset fragments).length) % kBlockSize := by
  induction fragments generalizing offset with
  | nil => rfl
  | cons fragment fragments inductionHypothesis =>
      have inside := fits.offset_le
      rw [advance, inductionHypothesis fits.2.2, length_place_cons, length_encode,
        endOffset]
      by_cases switches : kBlockSize - offset < format.header
      · rw [gap, startOffset, if_pos switches, if_pos switches]
        rw [← Nat.add_mod_left kBlockSize]
        congr 1
        omega
      · rw [gap, startOffset, if_neg switches, if_neg switches]
        congr 1
        omega

/-- The visible fragments come first, they lie before the cut, and the next one
does not. -/
theorem visible_spec
    (format : Format)
    (offset count : Nat)
    (fragments : List Fragment) :
    ∃ hidden,
      fragments = format.visible offset count fragments ++ hidden ∧
        (format.place offset (format.visible offset count fragments)).length ≤
          count ∧
        ∀ fragment ∈ hidden.head?,
          count <
            (format.place offset (format.visible offset count fragments)).length +
              (format.gap (format.advance offset
                  (format.visible offset count fragments)) +
                (format.encode fragment).length) := by
  induction fragments generalizing offset count with
  | nil => exact ⟨[], rfl, Nat.zero_le _, nofun⟩
  | cons fragment fragments inductionHypothesis =>
      rw [visible]
      split
      · rename_i whole
        obtain ⟨hidden, split, before, after⟩ := inductionHypothesis
          (format.endOffset offset fragment.payload.length)
          (count - (format.gap offset + (format.encode fragment).length))
        refine ⟨hidden, ?_, ?_, ?_⟩
        · rw [List.cons_append, ← split]
        · rw [length_place_cons]
          omega
        · intro next isNext
          have cut := after next isNext
          rw [length_place_cons, advance]
          omega
      · rename_i cut
        refine ⟨fragment :: fragments, rfl, Nat.zero_le _, ?_⟩
        intro next isNext
        cases isNext
        simp only [place_nil, List.length_nil, advance]
        omega

/-- Fragments that lie before the cut are all visible. -/
theorem visible_append
    (format : Format)
    (offset count : Nat)
    (left right : List Fragment)
    (before : (format.place offset left).length ≤ count) :
    format.visible offset count (left ++ right) =
      left ++ format.visible (format.advance offset left)
        (count - (format.place offset left).length) right := by
  induction left generalizing offset count with
  | nil => rfl
  | cons fragment fragments inductionHypothesis =>
      rw [length_place_cons] at before
      rw [List.cons_append, visible, if_pos (by omega),
        inductionHypothesis _ _ (by omega), length_place_cons, Nat.sub_sub,
        List.cons_append]
      rfl

/-- Behind a fragment that is cut off nothing is visible. -/
theorem visible_append_of_lt
    (format : Format)
    (offset count : Nat)
    (left right : List Fragment)
    (cut : count < (format.place offset left).length) :
    format.visible offset count (left ++ right) =
      format.visible offset count left := by
  induction left generalizing offset count with
  | nil => exact absurd cut (by simp)
  | cons fragment fragments inductionHypothesis =>
      rw [length_place_cons] at cut
      rw [List.cons_append, visible, visible]
      by_cases whole :
          format.gap offset + (format.encode fragment).length ≤ count
      · rw [if_pos whole, if_pos whole, inductionHypothesis _ _ (by omega)]
      · rw [if_neg whole, if_neg whole]

theorem visible_eq_self
    (format : Format)
    (offset count : Nat)
    (fragments : List Fragment)
    (before : (format.place offset fragments).length ≤ count) :
    format.visible offset count fragments = fragments := by
  have whole := format.visible_append offset count fragments [] before
  simpa [visible] using whole

theorem visible_zero
    (format : Format)
    (offset : Nat)
    (fragments : List Fragment) :
    format.visible offset 0 fragments = [] := by
  cases fragments with
  | nil => rfl
  | cons fragment fragments =>
      have bounds := format.header_bounds
      have length := format.length_encode fragment
      rw [visible, if_neg (by omega)]

/-! ## Where the records of a log lie -/

/-- A record and the place of its physical bytes in the file. -/
structure Extent where
  /-- The record. -/
  record : Bytes
  /-- Offset of its first header. -/
  start : Nat
  /-- Offset behind its last byte. -/
  finish : Nat
  deriving DecidableEq

/-- The extents of records written from file position `position` on, which is
block offset `offset`. -/
def extents (format : Format) : Nat → Nat → List Bytes → List Extent
  | _, _, [] => []
  | position, offset, record :: records =>
      let pieces := format.fragments offset true record
      let finish := position + (format.place offset pieces).length
      ⟨record, position + format.gap offset, finish⟩ ::
        format.extents finish (format.advance offset pieces) records

/-- The records that lie completely before file position `cut`. -/
def survivors (extents : List Extent) (cut : Nat) : List Bytes :=
  (extents.filter (fun extent => decide (extent.finish ≤ cut))).map Extent.record

theorem gap_lt_length_place_fragments
    (format : Format)
    (offset : Nat)
    (start : Bool)
    (left : Bytes) :
    format.gap offset <
      (format.place offset (format.fragments offset start left)).length := by
  have bounds := format.header_bounds
  cases pieces : format.fragments offset start left with
  | nil => exact absurd pieces (format.fragments_ne_nil offset start left)
  | cons fragment fragments =>
      have length := format.length_encode fragment
      rw [length_place_cons]
      omega

theorem extents_kBlockSize
    (format : Format)
    (position : Nat)
    (records : List Bytes) :
    format.extents position kBlockSize records =
      format.extents position 0 records := by
  cases records with
  | nil => rfl
  | cons record records =>
      simp only [extents, fragments_kBlockSize, place_kBlockSize, gap_kBlockSize,
        gap_zero, format.advance_kBlockSize (format.fragments_ne_nil 0 true record)]

theorem extents_bounds
    (format : Format)
    (position offset : Nat)
    (records : List Bytes) :
    ∀ extent ∈ format.extents position offset records,
      position ≤ extent.start ∧ extent.start < extent.finish := by
  induction records generalizing position offset with
  | nil => exact nofun
  | cons record records inductionHypothesis =>
      intro extent isExtent
      have longer := format.gap_lt_length_place_fragments offset true record
      rcases List.mem_cons.mp isExtent with rfl | later
      · exact ⟨by simp, by simpa using longer⟩
      · have bounds := inductionHypothesis _ _ extent later
        exact ⟨by omega, bounds.2⟩

/-- The fragments of a record before a cut inside it. -/
theorem visible_fragments_of_lt
    (format : Format)
    (offset count : Nat)
    (record : Bytes)
    (cut : count <
      (format.place offset (format.fragments offset true record)).length) :
    let whole := format.visible offset count
      (format.fragments offset true record)
    assemble none whole = [] ∧
      (whole ≠ [] → (pendingAfter none whole).isSome) := by
  intro whole
  obtain ⟨hidden, split, before, -⟩ :=
    format.visible_spec offset count (format.fragments offset true record)
  have chained := format.chained_fragments offset true record
  have isHidden : hidden ≠ [] := by
    intro none
    rw [none, List.append_nil] at split
    rw [← split] at before
    omega
  have openWhole := format.finish_of_split split isHidden
  refine ⟨assemble_of_open none whole openWhole, fun nonempty => ?_⟩
  rw [split] at chained
  have chainedWhole := ((chained_append none _ _).mp chained).1
  exact isSome_pendingAfter_of_open none whole openWhole chainedWhole
    (.inr nonempty)

/-- A cut through a log leaves the records that lie before it; it is seen to go
through a record exactly when a fragment is pending or cut off. -/
theorem visible_fragmentsOf
    (format : Format)
    (position offset count : Nat)
    (records : List Bytes) :
    let whole := format.visible offset count (format.fragmentsOf offset records)
    let left := count - (format.place offset whole).length
    let extents := format.extents position offset records
    assemble none whole = survivors extents (position + count) ∧
      survivors extents (position + count) <+: records ∧
      ((∃ extent ∈ extents, extent.start < position + count ∧
          position + count < extent.finish) →
        (pendingAfter none whole).isSome ∨
          format.gap (format.advance offset whole) < left) ∧
      ((∃ extent ∈ extents, extent.finish = position + count) →
        pendingAfter none whole = none ∧ left = 0) := by
  induction records generalizing position offset count with
  | nil => simp [fragmentsOf, visible, extents, survivors, assemble]
  | cons record records inductionHypothesis =>
      obtain ⟨assembled, pending⟩ := format.assemble_record offset record
      have later := format.extents_bounds
        (position + (format.place offset
          (format.fragments offset true record)).length)
        (format.advance offset (format.fragments offset true record)) records
      simp only [fragmentsOf, extents]
      generalize pieces : format.fragments offset true record = fragments at *
      generalize size : (format.place offset fragments).length = length at *
      by_cases before : length ≤ count
      · obtain ⟨rest, isInitial, cutInside, cutAtEnd⟩ := inductionHypothesis
          (position + length) (format.advance offset fragments) (count - length)
        have sameCut : position + length + (count - length) = position + count := by
          omega
        rw [sameCut] at rest isInitial cutInside cutAtEnd
        rw [visible_append _ _ _ _ _ (by omega), size, place_append,
          List.length_append, size, ← Nat.sub_sub, advance_append,
          pendingAfter_append, pending, assemble_append, assembled, pending]
        have survives : survivors
            (⟨record, position + format.gap offset, position + length⟩ ::
              format.extents (position + length)
                (format.advance offset fragments) records) (position + count) =
            record :: survivors (format.extents (position + length)
              (format.advance offset fragments) records) (position + count) := by
          simp [survivors, before]
        refine ⟨?_, ?_, ?_, ?_⟩
        · rw [survives, rest]
          rfl
        · rw [survives]
          exact (List.prefix_cons_inj record).mpr isInitial
        · rintro ⟨extent, isExtent, inside⟩
          rcases List.mem_cons.mp isExtent with rfl | isLater
          · exact absurd inside.2 (by simp; omega)
          · exact cutInside ⟨extent, isLater, inside⟩
        · rintro ⟨extent, isExtent, atEnd⟩
          rcases List.mem_cons.mp isExtent with rfl | isLater
          · have nothing : count - length = 0 := by
              simp only at atEnd
              omega
            rw [nothing, visible_zero]
            exact ⟨rfl, rfl⟩
          · exact cutAtEnd ⟨extent, isLater, atEnd⟩
      · have cut : count < (format.place offset
            (format.fragments offset true record)).length := by
          rw [pieces]
          omega
        obtain ⟨nothing, partly⟩ :=
          format.visible_fragments_of_lt offset count record cut
        rw [pieces] at nothing partly
        rw [visible_append_of_lt _ _ _ _ _ (by omega), nothing]
        have none : survivors
            (⟨record, position + format.gap offset, position + length⟩ ::
              format.extents (position + length)
                (format.advance offset fragments) records) (position + count) =
            [] := by
          simp only [survivors, List.map_eq_nil_iff, List.filter_eq_nil_iff,
            decide_eq_true_eq]
          intro extent isExtent
          rcases List.mem_cons.mp isExtent with rfl | isLater
          · simp only
            omega
          · have bounds := later extent isLater
            omega
        rw [none]
        refine ⟨rfl, List.nil_prefix, ?_, ?_⟩
        · rintro ⟨extent, isExtent, inside⟩
          rcases List.mem_cons.mp isExtent with rfl | isLater
          · by_cases empty : format.visible offset count fragments = []
            · right
              rw [empty]
              simp only at inside
              simp only [advance, place_nil, List.length_nil]
              omega
            · exact .inl (partly empty)
          · have bounds := later extent isLater
            omega
        · rintro ⟨extent, isExtent, atEnd⟩
          rcases List.mem_cons.mp isExtent with rfl | isLater
          · simp only at atEnd
            omega
          · have bounds := later extent isLater
            omega

end Format

namespace Reader

section Cut

variable {reader : Reader GrowingFile} {format : Format} {offset : Nat}
  {fragment : Fragment} {fragments : List Fragment}

/-- The end of the file cuts off a record in the current block. -/
theorem truncated_inBlock
    {remaining : Bytes}
    (dropSize : Nat)
    (positioned :
      reader.Positioned offset (format.encode fragment ++ remaining))
    (inBlock : offset + (format.encode fragment).length ≤ kBlockSize)
    (positive : 0 < reader.reach)
    (cut : reader.reach < (format.encode fragment).length)
    (accepts : reader.Accepts format) :
    ∃ next,
      reader.readPhysicalRecord GrowingFile.sequentialFile dropSize =
          ⟨kBadHeader, [], reader.reach, next⟩ ∧
        next.initialOffset = reader.initialOffset ∧
        next.reporter = reader.reporter := by
  have length := format.length_encode fragment
  have small : fragment.payload.length < 65536 := by
    have block := kBlockSize_eq
    omega
  have ended : reader.eof = true := by
    cases ended : reader.eof with
    | true => rfl
    | false =>
        have full := (positioned.live ended).1
        have all : reader.reach =
            reader.buffer.length + reader.file.unread.length := by
          simp [reach, ended]
        omega
  have buffer : reader.buffer = (format.encode fragment).take reader.reach := by
    have size : reader.reach = reader.buffer.length := by simp [reach, ended]
    rw [size] at cut ⊢
    have whole := positioned.buffer_eq
    rw [List.take_append_of_le_length (Nat.le_of_lt cut)] at whole
    exact whole
  obtain ⟨recycled, result⟩ := readPhysicalRecord_truncated
    (F := GrowingFile.sequentialFile) dropSize ended buffer positive cut small
    accepts
  exact ⟨_, result, rfl, rfl⟩

/-- `ReadRecord` returns `false` at a record cut off by the end of the file,
and reports it in `kAbsoluteConsistency` only. -/
theorem handle_badHeader
    (mode : WALRecoveryMode)
    (assembly : Assembly GrowingFile)
    (physicalOffset : UInt64)
    (dropSize : Nat)
    (reader : Reader GrowingFile) :
    ∃ reporter,
      handle mode assembly physicalOffset ⟨kBadHeader, [], dropSize, reader⟩ =
          .inr ⟨false, [], { reader with reporter := reporter }⟩ ∧
        (mode ≠ .absoluteConsistency → reporter = reader.reporter) ∧
        (mode = .absoluteConsistency → reader.initialOffset = 0 →
          ReportsMore reader.reporter reporter) := by
  by_cases strict : mode = .absoluteConsistency
  · obtain ⟨noted, reported⟩ := reportDrop_eq reader dropSize
      (.Corruption "truncated header")
    obtain ⟨reporter, result, quiet, more⟩ := finish_eq
      { assembly with reader := { reader with reporter := noted } } mode
    refine ⟨reporter, ?_, fun tolerant => absurd strict tolerant, ?_⟩
    · simp [handle, RecordType.code, kBadHeader, kMaxRecordType,
        Assembly.reportIf, strict, Assembly.report, reportCorruption, reported,
        ← result]
    · intro _ fromStart calls before
      have first := reportDrop_of_fromStart fromStart dropSize
        (.Corruption "truncated header") before
      rw [reported] at first
      cases pending : assembly.pending with
      | none => exact ⟨_, [], (quiet (.inr pending)).trans first⟩
      | some scratch =>
          have isSome : assembly.pending.isSome := by simp [pending]
          obtain ⟨call, rest, last⟩ := more strict isSome fromStart _ first
          exact ⟨_, call :: rest, by rw [last, List.append_assoc]; rfl⟩
  · obtain ⟨reporter, result, quiet, -⟩ :=
      finish_eq { assembly with reader := reader } mode
    refine ⟨reporter, ?_, fun _ => quiet (.inl strict), fun strict' =>
      absurd strict' strict⟩
    simp [handle, RecordType.code, kBadHeader, kMaxRecordType,
      Assembly.reportIf, strict, ← result]

end Cut

/-! ## Stopping at the end of the file -/

section Stops

variable (mode : WALRecoveryMode) {assembly : Assembly GrowingFile}
  {format : Format} {offset : Nat} {fragment : Fragment}
  {fragments : List Fragment}

/-- The end of the file, right behind a fragment. -/
theorem reads_end
    {rest : Bytes}
    (positioned : assembly.reader.Positioned offset rest)
    (atRest : assembly.reader.file.arrivals = [])
    (nothing : assembly.reader.reach = 0)
    (fromStart : assembly.reader.initialOffset = 0) :
    ∃ final,
      Reads GrowingFile.sequentialFile mode assembly [] final ∧
        (mode ≠ .absoluteConsistency ∨ assembly.pending = none →
          final.reporter = assembly.reader.reporter) ∧
        (mode = .absoluteConsistency → assembly.pending.isSome →
          ReportsMore assembly.reader.reporter final.reporter) := by
  obtain ⟨final, -, step, -, -, -, -, -, quiet, more⟩ := readRecordStep_end mode
    positioned nothing (.inr (by simp [GrowingFile.nextArrival, atRest]))
  exact ⟨final, .stop step rfl, quiet, fun strict isSome =>
    more strict isSome fromStart⟩

/-- The end of the file, among the zeros between two logical records. -/
theorem reads_gap
    (positioned : assembly.reader.Positioned offset
      (format.place offset (fragment :: fragments)))
    (atRest : assembly.reader.file.arrivals = [])
    (positive : 0 < assembly.reader.reach)
    (inGap : assembly.reader.reach ≤ format.gap offset)
    (between : assembly.pending = none)
    (fromStart : assembly.reader.initialOffset = 0) :
    ∃ final,
      Reads GrowingFile.sequentialFile mode assembly [] final ∧
        (mode ≠ .absoluteConsistency →
          final.reporter = assembly.reader.reporter) := by
  have header := kHeaderSize_eq
  obtain ⟨gap, -⟩ :=
    format.startOffset_of_gap (by omega : 0 < format.gap offset)
  rw [Format.place_cons] at positioned
  have inBuffer := positioned.le_buffer (Nat.le_refl _) (by omega)
  by_cases short : assembly.reader.buffer.length < kHeaderSize
  · cases ended : assembly.reader.eof with
    | false =>
        -- The gap reaches to the end of the block, so the next one is fetched.
        have full := (positioned.live ended).1
        obtain ⟨refilled, consumed⟩ := positioned.refill ended
        obtain ⟨reached, stillAtRest⟩ := consumed.reach_eq atRest
        obtain ⟨next, -, physical, -, -, -, -, -, silent⟩ :=
          readPhysicalRecord_end 0 refilled (by omega)
            (.inr (by simp [GrowingFile.nextArrival, stillAtRest]))
        rw [← readPhysicalRecord_refill assembly.reader 0 ended
          positioned.noError short] at physical
        obtain ⟨reporter, result, quiet, -⟩ :=
          finish_eq { assembly with reader := next } mode
        have step : readRecordStep GrowingFile.sequentialFile mode assembly =
            .inr ⟨false, [], { next with reporter := reporter }⟩ := by
          rw [readRecordStep, physical, handle_eof, result]
        exact ⟨_, .stop step rfl, fun _ => (quiet (.inr between)).trans silent⟩
    | true =>
        have nonempty : assembly.reader.buffer ≠ [] := by
          intro empty
          rw [empty, List.length_nil] at inBuffer
          omega
        have physical := readPhysicalRecord_short
          (F := GrowingFile.sequentialFile) 0 ended short
        rw [if_neg nonempty] at physical
        obtain ⟨reporter, handled, quiet, -⟩ := handle_badHeader mode assembly
          assembly.reader.bufferOffset assembly.reader.buffer.length
          { assembly.reader with buffer := [] }
        have step : readRecordStep GrowingFile.sequentialFile mode assembly =
            .inr ⟨false, [], { assembly.reader with
              buffer := [], reporter := reporter }⟩ := by
          rw [readRecordStep, physical, handled]
        exact ⟨_, .stop step rfl, quiet⟩
  · have size : assembly.reader.buffer.length = assembly.reader.reach := by
      cases ended : assembly.reader.eof with
      | true => simp [reach, ended]
      | false =>
          have full := (positioned.live ended).1
          have all : assembly.reader.reach = assembly.reader.buffer.length +
              assembly.reader.file.unread.length := by
            simp [reach, ended]
          omega
    have buffer := positioned.buffer_eq
    rw [List.take_append_of_le_length (by simp; omega), List.take_replicate,
      Nat.min_eq_left (by omega)] at buffer
    have physical := readPhysicalRecord_zeros (F := GrowingFile.sequentialFile) 0
      buffer (by omega)
    obtain ⟨moved, consumed⟩ := positioned.advance
      (List.append_nil assembly.reader.buffer).symm assembly.reader.recycled
    obtain ⟨reached, stillAtRest⟩ := consumed.reach_eq atRest
    have nothing : ({ assembly.reader with buffer := [] } :
        Reader GrowingFile).reach = 0 :=
      Nat.add_right_cancel
        ((reached.trans size.symm).trans (Nat.zero_add _).symm)
    obtain ⟨final, reads, quiet, -⟩ := @reads_end mode
      { assembly with reader := { assembly.reader with buffer := [] } } _ _
      moved stillAtRest nothing fromStart
    exact ⟨final, .next (readRecordStep_badRecord mode physical between) reads,
      fun tolerant => quiet (.inl tolerant)⟩

/-- The end of the file, inside a physical record. -/
theorem reads_cut
    (positioned : assembly.reader.Positioned offset
      (format.place offset (fragment :: fragments)))
    (ends : format.endOffset offset fragment.payload.length ≤ kBlockSize)
    (atRest : assembly.reader.file.arrivals = [])
    (beyondGap : format.gap offset < assembly.reader.reach)
    (cut : assembly.reader.reach < span format offset fragment)
    (accepts : assembly.reader.Accepts format)
    (fromStart : assembly.reader.initialOffset = 0)
    (joined : assembly.pending.isSome → format.gap offset = 0) :
    ∃ final,
      Reads GrowingFile.sequentialFile mode assembly [] final ∧
        (mode ≠ .absoluteConsistency →
          final.reporter = assembly.reader.reporter) ∧
        (mode = .absoluteConsistency →
          ReportsMore assembly.reader.reporter final.reporter) := by
  have toEnd : ∃ middle next dropped,
      Steps GrowingFile.sequentialFile mode assembly []
          { assembly with reader := middle } ∧
        middle.readPhysicalRecord GrowingFile.sequentialFile 0 =
          ⟨kBadHeader, [], dropped, next⟩ ∧
        next.initialOffset = 0 ∧
        next.reporter = assembly.reader.reporter := by
    unfold span at cut
    rw [Format.endOffset, ← format.length_encode fragment] at ends
    rw [Format.place_cons] at positioned
    obtain ⟨middle, there, steps, same, moved, consumed, silent⟩ :=
      steps_to_body mode positioned beyondGap joined
    obtain ⟨reached, -⟩ := consumed.reach_eq atRest
    obtain ⟨next, physical, settings, silent'⟩ := truncated_inBlock 0 moved ends
      (by omega) (by omega) (consumed.accepts accepts)
    exact ⟨middle, next, there.reach, steps, same.trans physical,
      settings.trans (consumed.settings.1.trans fromStart),
      silent'.trans silent⟩
  obtain ⟨middle, next, dropped, steps, physical, fromStart', silent⟩ := toEnd
  obtain ⟨reporter, handled, quiet, more⟩ := handle_badHeader mode
    { assembly with reader := middle } middle.bufferOffset dropped next
  have step : readRecordStep GrowingFile.sequentialFile mode
      { assembly with reader := middle } =
        .inr ⟨false, [], { next with reporter := reporter }⟩ := by
    rw [readRecordStep, physical, handled]
  rw [silent] at quiet more
  exact ⟨_, steps.reads (.stop step rfl), quiet, fun strict =>
    more strict fromStart'⟩

/-- Less than a fragment is left before the end of the file. -/
theorem reads_tail
    (positioned :
      assembly.reader.Positioned offset (format.place offset fragments))
    (fits : format.Fits offset fragments)
    (atRest : assembly.reader.file.arrivals = [])
    (cut : ∀ fragment ∈ fragments.head?,
      assembly.reader.reach < span format offset fragment)
    (accepts : assembly.reader.Accepts format)
    (fromStart : assembly.reader.initialOffset = 0)
    (joined : assembly.pending.isSome → format.gap offset = 0) :
    ∃ final,
      Reads GrowingFile.sequentialFile mode assembly [] final ∧
        (mode ≠ .absoluteConsistency ∨
            assembly.pending = none ∧ assembly.reader.reach = 0 →
          final.reporter = assembly.reader.reporter) ∧
        (mode = .absoluteConsistency →
          assembly.pending.isSome ∨ format.gap offset < assembly.reader.reach →
          ReportsMore assembly.reader.reporter final.reporter) := by
  by_cases nothing : assembly.reader.reach = 0
  · obtain ⟨final, reads, quiet, more⟩ :=
      reads_end mode positioned atRest nothing fromStart
    refine ⟨final, reads, ?_, ?_⟩
    · rintro (tolerant | ⟨between, -⟩)
      · exact quiet (.inl tolerant)
      · exact quiet (.inr between)
    · rintro strict (isSome | beyond)
      · exact more strict isSome
      · omega
  cases fragments with
  | nil =>
      have empty := List.prefix_nil.mp positioned.consistent
      simp only [List.append_eq_nil_iff] at empty
      have none : assembly.reader.reach = 0 := by
        unfold reach
        split <;> simp [empty.1, empty.2.1]
      exact absurd none nothing
  | cons fragment fragments =>
      have cut' := cut fragment rfl
      by_cases inGap : assembly.reader.reach ≤ format.gap offset
      · have between : assembly.pending = none := by
          cases pending : assembly.pending with
          | none => rfl
          | some scratch =>
              have := joined (by simp [pending])
              omega
        obtain ⟨final, reads, quiet⟩ := reads_gap mode positioned atRest
          (by omega) inGap between fromStart
        refine ⟨final, reads, ?_, ?_⟩
        · rintro (tolerant | ⟨-, none⟩)
          · exact quiet tolerant
          · omega
        · rintro - (isSome | beyond)
          · rw [between] at isSome
            cases isSome
          · omega
      · obtain ⟨final, reads, quiet, more⟩ := reads_cut mode positioned
          fits.endOffset_le atRest (by omega) cut' accepts fromStart joined
        refine ⟨final, reads, ?_, fun strict _ => more strict⟩
        rintro (tolerant | ⟨-, none⟩)
        · exact quiet tolerant
        · omega

/-- Over a file at rest, `ReadRecord` returns what the fragments before the end
of the file stand for. -/
theorem reads_visible
    (positioned :
      assembly.reader.Positioned offset (format.place offset fragments))
    (fits : format.Fits offset fragments)
    (atRest : assembly.reader.file.arrivals = [])
    (accepts : assembly.reader.Accepts format)
    (fromStart : assembly.reader.initialOffset = 0)
    (joined : assembly.pending.isSome → format.gap offset = 0) :
    let whole := format.visible offset assembly.reader.reach fragments
    let left := assembly.reader.reach - (format.place offset whole).length
    let pending := pendingAfter assembly.pending whole
    ∃ final,
      Reads GrowingFile.sequentialFile mode assembly
          (assemble assembly.pending whole) final ∧
        (Chained assembly.pending.isSome fragments →
          (mode ≠ .absoluteConsistency ∨ pending = none ∧ left = 0 →
            final.reporter = assembly.reader.reporter) ∧
          (mode = .absoluteConsistency →
            pending.isSome ∨ format.gap (format.advance offset whole) < left →
            ReportsMore assembly.reader.reporter final.reporter)) := by
  intro whole left pending
  obtain ⟨hidden, split, before, after⟩ :=
    format.visible_spec offset assembly.reader.reach fragments
  rw [split] at positioned fits
  rw [Format.place_append] at positioned
  obtain ⟨fitsWhole, fitsHidden⟩ := (format.fits_append _ _ _).mp fits
  obtain ⟨next, steps, moved, consumed, nextPending, nextJoined, quiet⟩ :=
    steps_fragments mode positioned fitsWhole before accepts fromStart joined
  obtain ⟨reached, stillAtRest⟩ := consumed.reach_eq atRest
  have reachEq : next.reader.reach = left := by
    simp only [left, whole]
    omega
  obtain ⟨final, reads, quiet', more⟩ := reads_tail mode moved
    fitsHidden stillAtRest
    (by
      intro fragment isNext
      have cut := after fragment isNext
      unfold span
      omega)
    (consumed.accepts accepts) (consumed.settings.1.trans fromStart) nextJoined
  have run := steps.reads reads
  rw [List.append_nil] at run
  refine ⟨final, run, fun chained => ?_⟩
  rw [split] at chained
  have silent := quiet ((chained_append _ _ _).mp chained).1
  rw [silent, reachEq, nextPending] at quiet' more
  exact ⟨quiet', more⟩

end Stops

/-! ## Logs at rest -/

/-- A new reader stands at the start of its file. -/
theorem positioned_new
    {visible rest : Bytes}
    (isInitial : visible <+: rest)
    (reporter : Option (List Report))
    (checksum : Bool)
    (logNumber : UInt64) :
    (Reader.new (GrowingFile.atRest visible) reporter checksum 0
      logNumber).Positioned kBlockSize rest where
  noError := rfl
  inFile := Nat.zero_le _
  consistent := by simpa [Reader.new, GrowingFile.unread] using isInitial
  live := fun _ => ⟨rfl, rfl⟩
  ended := nofun

theorem reach_new
    (visible : Bytes)
    (reporter : Option (List Report))
    (checksum : Bool)
    (logNumber : UInt64) :
    (Reader.new (GrowingFile.atRest visible) reporter checksum 0
      logNumber).reach = visible.length := by
  simp [reach, Reader.new, GrowingFile.unread]

theorem accepts_new
    {file : GrowingFile}
    {recycle : Bool}
    {logNumber : UInt64}
    (small : recycle = true → logNumber.toNat < 2 ^ 32)
    (reporter : Option (List Report))
    (checksum : Bool) :
    (Reader.new file reporter checksum 0 logNumber).Accepts
      ⟨recycle, logNumber⟩ := by
  intro recycles
  apply UInt64.toNat_inj.mp
  have inRange := small recycles
  simpa [Reader.new] using inRange

/-- A reader over the first bytes of a list of fragments.  The start of the file
counts as the end of a block, as nothing has been read yet. -/
theorem readRecords_placed
    {format : Format}
    {fragments : List Fragment}
    (fits : format.Fits kBlockSize fragments)
    {visible : Bytes}
    (isInitial : visible <+: format.place kBlockSize fragments)
    (mode : WALRecoveryMode)
    (reporter : Option (List Report))
    (checksum : Bool)
    (logNumber : UInt64)
    (accepts : (Reader.new (GrowingFile.atRest visible) reporter checksum 0
      logNumber).Accepts format) :
    let whole := format.visible kBlockSize visible.length fragments
    let left := visible.length - (format.place kBlockSize whole).length
    ∃ final,
      (∃ enough, ∀ fuel, enough ≤ fuel →
        (Reader.new (GrowingFile.atRest visible) reporter checksum 0
          logNumber).readRecords GrowingFile.sequentialFile mode fuel =
            some (assemble none whole, final)) ∧
        (Chained false fragments →
          (mode ≠ .absoluteConsistency ∨
              pendingAfter none whole = none ∧ left = 0 →
            final.reporter = reporter) ∧
          (mode = .absoluteConsistency →
            (pendingAfter none whole).isSome ∨
              format.gap (format.advance kBlockSize whole) < left →
            ReportsMore reporter final.reporter)) := by
  have positioned := positioned_new isInitial reporter checksum logNumber
  obtain ⟨final, reads, reports⟩ := @reads_visible mode
    (startAssembly (Reader.new (GrowingFile.atRest visible) reporter checksum 0
      logNumber)) _ _ _ positioned fits rfl accepts rfl nofun
  simp only [Assembly.reader_startAssembly, reach_new] at reads reports
  exact ⟨final, reads.readRecords rfl, reports⟩

/-- A reader over the first bytes of a log. -/
theorem readRecords_initial
    (format : Format)
    (records : List Bytes)
    {visible : Bytes}
    (isInitial : visible <+: format.logBytes 0 records)
    (mode : WALRecoveryMode)
    (reporter : Option (List Report))
    (checksum : Bool)
    (logNumber : UInt64)
    (accepts : (Reader.new (GrowingFile.atRest visible) reporter checksum 0
      logNumber).Accepts format) :
    let fragments := format.fragmentsOf kBlockSize records
    let whole := format.visible kBlockSize visible.length fragments
    let left := visible.length - (format.place kBlockSize whole).length
    ∃ final,
      (∃ enough, ∀ fuel, enough ≤ fuel →
        (Reader.new (GrowingFile.atRest visible) reporter checksum 0
          logNumber).readRecords GrowingFile.sequentialFile mode fuel =
            some (assemble none whole, final)) ∧
        (mode ≠ .absoluteConsistency ∨
            pendingAfter none whole = none ∧ left = 0 →
          final.reporter = reporter) ∧
        (mode = .absoluteConsistency →
          (pendingAfter none whole).isSome ∨
            format.gap (format.advance kBlockSize whole) < left →
          ReportsMore reporter final.reporter) := by
  rw [← Format.logBytes_kBlockSize] at isInitial
  have fits := format.fits_fragmentsOf kBlockSize records (le_refl _)
  obtain ⟨-, -, chained⟩ := format.assemble_fragmentsOf kBlockSize records
  obtain ⟨final, reads, reports⟩ :=
    readRecords_placed fits isInitial mode reporter checksum logNumber accepts
  exact ⟨final, reads, reports chained⟩

/-- A log that was written completely is read back completely, in both formats
and in every recovery mode, and nothing is reported. -/
theorem readRecords_addRecords
    {δ : Type}
    {D : Destination δ}
    {contents : δ → Bytes}
    (succeeds : D.Succeeds contents)
    {dest : δ}
    (fresh : contents dest = [])
    (recycle : Bool)
    (logNumber : UInt64)
    (small : recycle = true → logNumber.toNat < 2 ^ 32)
    (records : List Bytes)
    (mode : WALRecoveryMode)
    (checksum : Bool)
    (reporter : Option (List Report)) :
    let written := contents
      ((Writer.new dest logNumber recycle).addRecords D records).dest
    ∃ final,
      final.reporter = reporter ∧
        ∃ enough, ∀ fuel, enough ≤ fuel →
          (Reader.new (GrowingFile.atRest written) reporter checksum 0
            logNumber).readRecords GrowingFile.sequentialFile mode fuel =
              some (records, final) := by
  intro written
  have log : written = Format.logBytes ⟨recycle, logNumber⟩ 0 records :=
    Writer.contents_addRecords_new succeeds fresh recycle logNumber records
  generalize formatEq : (⟨recycle, logNumber⟩ : Format) = format at log
  have accepts : (Reader.new (GrowingFile.atRest written) reporter checksum 0
      logNumber).Accepts format := by
    rw [← formatEq]
    exact accepts_new small reporter checksum
  obtain ⟨final, reads, quiet, -⟩ := readRecords_initial format records
    (log ▸ List.prefix_refl _) mode reporter checksum logNumber accepts
  obtain ⟨assembled, pending, -⟩ := format.assemble_fragmentsOf kBlockSize records
  have size : written.length = (format.place kBlockSize
      (format.fragmentsOf kBlockSize records)).length := by
    rw [log, ← Format.logBytes_kBlockSize]
    rfl
  have whole := format.visible_eq_self kBlockSize written.length
    (format.fragmentsOf kBlockSize records) size.ge
  rw [whole, assembled] at reads
  rw [whole, pending] at quiet
  exact ⟨final, quiet (.inr ⟨rfl, by omega⟩), reads⟩

theorem readRecords_addRecords_memory :
    ∃ final,
      final.reporter = some [] ∧
        ∃ enough, ∀ fuel, enough ≤ fuel →
          (Reader.new (GrowingFile.atRest
              ((Writer.new [] 7 true).addRecords Destination.memory
                [[1, 2, 3], []]).dest)
            (some []) true 0 7).readRecords GrowingFile.sequentialFile
              .absoluteConsistency fuel = some ([[1, 2, 3], []], final) :=
  readRecords_addRecords Destination.memory_succeeds rfl true 7
    (fun _ => by decide) [[1, 2, 3], []] .absoluteConsistency true (some [])

/-- After a crash has cut off the log at an arbitrary byte, `ReadRecord` returns
the records that lie before the cut.  A record that the cut goes through is
reported in `kAbsoluteConsistency` only, and never when there is none. -/
theorem readRecords_truncated
    {δ : Type}
    {D : Destination δ}
    {contents : δ → Bytes}
    (succeeds : D.Succeeds contents)
    {dest : δ}
    (fresh : contents dest = [])
    (recycle : Bool)
    (logNumber : UInt64)
    (small : recycle = true → logNumber.toNat < 2 ^ 32)
    (records : List Bytes)
    (mode : WALRecoveryMode)
    (checksum : Bool)
    (reporter : Option (List Report))
    (cut : Nat)
    (inside : cut ≤ (contents
      ((Writer.new dest logNumber recycle).addRecords D records).dest).length) :
    let written := contents
      ((Writer.new dest logNumber recycle).addRecords D records).dest
    let extents := Format.extents ⟨recycle, logNumber⟩ 0 0 records
    let returned := Format.survivors extents cut
    returned <+: records ∧
      ∃ final,
        (∃ enough, ∀ fuel, enough ≤ fuel →
          (Reader.new (GrowingFile.atRest (written.take cut)) reporter checksum 0
            logNumber).readRecords GrowingFile.sequentialFile mode fuel =
              some (returned, final)) ∧
          (mode ≠ .absoluteConsistency → final.reporter = reporter) ∧
          (mode = .absoluteConsistency →
            (∃ extent ∈ extents, extent.start < cut ∧ cut < extent.finish) →
            ReportsMore reporter final.reporter) ∧
          (mode = .absoluteConsistency →
            (∃ extent ∈ extents, extent.finish = cut) →
            final.reporter = reporter) := by
  intro written extents returned
  have log : written = Format.logBytes ⟨recycle, logNumber⟩ 0 records :=
    Writer.contents_addRecords_new succeeds fresh recycle logNumber records
  have extentsEq : Format.extents ⟨recycle, logNumber⟩ 0 kBlockSize records =
      extents := Format.extents_kBlockSize _ 0 records
  have accepts := @accepts_new (GrowingFile.atRest (written.take cut)) recycle
    logNumber small reporter checksum
  generalize (⟨recycle, logNumber⟩ : Format) = format at log extentsEq accepts
  have size : (written.take cut).length = cut := by
    rw [List.length_take, Nat.min_eq_left inside]
  obtain ⟨final, reads, quiet, more⟩ := readRecords_initial format records
    (log ▸ List.take_prefix cut written) mode reporter checksum logNumber accepts
  obtain ⟨assembled, isInitial, cutInside, cutAtEnd⟩ :=
    format.visible_fragmentsOf 0 kBlockSize cut records
  rw [Nat.zero_add, extentsEq] at assembled isInitial cutInside cutAtEnd
  rw [size] at reads quiet more
  rw [assembled] at reads
  exact ⟨isInitial, final, reads, fun tolerant => quiet (.inl tolerant),
    fun strict through => more strict (cutInside through),
    fun _ atEnd => quiet (.inr (cutAtEnd atEnd))⟩

theorem readRecords_truncated_memory :
    ∃ final,
      (∃ enough, ∀ fuel, enough ≤ fuel →
        (Reader.new (GrowingFile.atRest
            (((Writer.new [] 7 false).addRecords Destination.memory
              [[1, 2, 3], [4]]).dest.take 17))
          (some []) true 0 7).readRecords GrowingFile.sequentialFile
            .absoluteConsistency fuel = some ([[1, 2, 3]], final)) ∧
        ReportsMore (some []) final.reporter := by
  obtain ⟨-, final, reads, -, more, -⟩ := readRecords_truncated
    Destination.memory_succeeds rfl false 7 Bool.false_ne_true.elim [[1, 2, 3], [4]]
    .absoluteConsistency true (some []) 17 (by decide +kernel)
  have returned : Format.survivors
      (Format.extents ⟨false, 7⟩ 0 0 [[1, 2, 3], [4]]) 17 = [[1, 2, 3]] := by
    decide +kernel
  rw [returned] at reads
  refine ⟨final, reads, more rfl ⟨⟨[4], 10, 18⟩, ?_, by decide, by decide⟩⟩
  decide +kernel

end Reader
end Log
end RocksUtil
