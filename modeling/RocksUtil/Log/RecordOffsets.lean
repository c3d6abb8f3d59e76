import RocksUtil.Log.Seeking

/-!
# Where the reader says a record begins

`ReadRecord` takes the offset of a physical record before it calls
`ReadPhysicalRecord`, which may first drop the trailer of a block and read the next one.
`LastRecordOffset` is therefore the offset of the trailer for a record behind a trailer
that is shorter than `kHeaderSize`, and that of the first header of the record otherwise
(`lastRecordOffset_exact_iff`).
-/

namespace RocksUtil
namespace Log

namespace Format

/-- Length of the block trailer the writer leaves in front of a record, behind the
records `before`. -/
def trailer (format : Format) (before : List Bytes) : Nat :=
  format.gap (format.advance 0 (format.fragmentsOf 0 before))

/-- The start of the file has no trailer in front of it either. -/
theorem gap_advance_kBlockSize (format : Format) (fragments : List Fragment) :
    format.gap (format.advance kBlockSize fragments) =
      format.gap (format.advance 0 fragments) := by
  cases fragments with
  | nil => rw [advance, advance, gap_kBlockSize, gap_zero]
  | cons fragment fragments => rw [advance, advance, endOffset_kBlockSize]

/-- What `LastRecordOffset` says about a record in front of which the reader is at
`position`, with a gap up to its first header. -/
def reportedOffset (position gap : Nat) : UInt64 :=
  UInt64.ofNat (if gap < kHeaderSize then position else position + gap)

/-- Records written from `position` on, which is block offset `offset`, and what
`LastRecordOffset` says about them. -/
def reportedOffsets (format : Format) : Nat → Nat → List Bytes → List UInt64
  | _, _, [] => []
  | position, offset, record :: records =>
      let pieces := format.fragments offset true record
      reportedOffset position (format.gap offset) ::
        format.reportedOffsets (position + (format.place offset pieces).length)
          (format.advance offset pieces) records

/-- Behind a gap the fragments of a record are those at the start of a block. -/
theorem place_fragments_of_gap
    (format : Format)
    {offset : Nat}
    (positive : 0 < format.gap offset)
    (start : Bool)
    (left : Bytes) :
    format.place offset (format.fragments offset start left) =
      List.replicate (format.gap offset) 0 ++
        format.place kBlockSize (format.fragments kBlockSize start left) := by
  obtain ⟨-, atStart⟩ := format.startOffset_of_gap positive
  have ends (length : Nat) : format.endOffset offset length =
      format.endOffset kBlockSize length := by
    rw [endOffset, endOffset, atStart, startOffset_kBlockSize]
  have same : format.fragments offset start left =
      format.fragments kBlockSize start left := by
    rw [fragments.eq_def format offset, fragments.eq_def format kBlockSize, atStart,
      startOffset_kBlockSize]
    simp only [ends]
  rw [same]
  cases split : format.fragments kBlockSize start left with
  | nil => exact absurd split (format.fragments_ne_nil kBlockSize start left)
  | cons first rest =>
      rw [place_cons, place_cons, gap_kBlockSize, ends]
      rfl

theorem reportedOffset_eq_iff (position : Nat) {gap : Nat} (small : gap < 2 ^ 64) :
    reportedOffset position gap = UInt64.ofNat (position + gap) ↔
      gap = 0 ∨ kHeaderSize ≤ gap := by
  have seven := kHeaderSize_eq
  unfold reportedOffset
  split
  · rw [← UInt64.toNat_inj, UInt64.toNat_ofNat', UInt64.toNat_ofNat']
    omega
  · exact iff_of_true rfl (.inr (by omega))

theorem length_reportedOffsets
    (format : Format)
    (position offset : Nat)
    (records : List Bytes) :
    (format.reportedOffsets position offset records).length = records.length := by
  induction records generalizing position offset with
  | nil => rfl
  | cons record records inductionHypothesis =>
      rw [reportedOffsets, List.length_cons, inductionHypothesis, List.length_cons]

/-- What `LastRecordOffset` says about a record, next to where the record is. -/
theorem reportedOffsets_at
    (format : Format)
    {position offset index : Nat}
    {records : List Bytes}
    {extent : Extent}
    (isExtent : (format.extents position offset records)[index]? = some extent) :
    ∃ behind,
      let gap := format.gap
        (format.advance offset (format.fragmentsOf offset (records.take index)))
      extent.start = behind + gap ∧
        (format.reportedOffsets position offset records)[index]? =
          some (reportedOffset behind gap) := by
  induction records generalizing position offset index with
  | nil => simp [extents] at isExtent
  | cons record records inductionHypothesis =>
      cases index with
      | zero =>
          simp only [extents, List.getElem?_cons_zero, Option.some.injEq] at isExtent
          rw [← isExtent]
          exact ⟨position, rfl, rfl⟩
      | succ index =>
          rw [extents, List.getElem?_cons_succ] at isExtent
          obtain ⟨behind, starts, reported⟩ := inductionHypothesis isExtent
          refine ⟨behind, ?_⟩
          rw [List.take_succ_cons, fragmentsOf, advance_append]
          exact ⟨starts, reported⟩

/-- A first record that leaves a trailer of six bytes. -/
theorem offsets_behind_trailer
    (format : Format)
    (legacy : format.recycle = false)
    {first : Bytes}
    (length : first.length = 32755)
    (second : Bytes) :
    (format.extents 0 0 [first, second]).map Extent.start = [0, 32768] ∧
      format.reportedOffsets 0 kBlockSize [first, second] = [0, 32762] := by
  have header : format.header = 7 := by
    rw [Format.header, legacy]
    rfl
  have pieces : format.fragments 0 true first = [⟨true, true, first⟩] := by
    apply fragments_of_fits
    rw [length, endOffset, startOffset_zero, header]
    decide
  have ends : format.advance 0 [⟨true, true, first⟩] = 32762 := by
    rw [advance, advance, endOffset, startOffset_zero, header, length]
  have placed : (format.place 0 [⟨true, true, first⟩]).length = 32762 := by
    rw [length_place_cons, gap_zero, length_encode, header, length]
    rfl
  have gap : format.gap 32762 = 6 := by
    rw [Format.gap, header]
    rfl
  constructor
  · simp [extents, pieces, ends, placed, gap]
  · rw [reportedOffsets, reportedOffsets, reportedOffsets, fragments_kBlockSize,
      format.advance_kBlockSize (format.fragments_ne_nil 0 true first),
      place_kBlockSize, pieces, ends, placed, gap, gap_kBlockSize]
    rfl

end Format

namespace Reader

variable {mode : WALRecoveryMode}

/-- Call `ReadRecord` until it returns `false`, and `LastRecordOffset` after each
record.  Fuel bounds the calls and the work of each. -/
def readLocated
    {φ : Type}
    (F : SequentialFile φ)
    (mode : WALRecoveryMode) :
    Nat → Reader φ → Option (List (Bytes × UInt64) × Reader φ)
  | 0, _ => none
  | fuel + 1, reader => do
      let result ← readRecord F mode (fuel + 1) reader
      if result.found then
        let (records, final) ← readLocated F mode fuel result.reader
        some ((result.record, result.reader.lastRecordOffset) :: records, final)
      else some ([], result.reader)

/-! ## Counting bytes in any call -/

section Counting

variable {length : Nat}

theorem Counts.readPhysicalRecord
    {reader : Reader GrowingFile}
    (counts : Counts reader length)
    (dropSize : Nat) :
    Counts (reader.readPhysicalRecord GrowingFile.sequentialFile dropSize).reader
      length :=
  @keeps_readPhysicalRecord (fun reader => Counts reader length)
    (fun _ _ recycled counts inBuffer => counts.take inBuffer recycled)
    (fun _ counts => counts.refill) reader counts dropSize

theorem Counts.step
    {assembly : Assembly GrowingFile}
    (counts : Counts assembly.reader length) :
    Counts (stepReader
      (readRecordStep GrowingFile.sequentialFile mode assembly)) length :=
  (counts.readPhysicalRecord 0).of_alike (alike_handle mode assembly _ _)

theorem Counts.returns
    {assembly : Assembly GrowingFile}
    {result : ReadResult GrowingFile}
    (returns : Returns GrowingFile.sequentialFile mode assembly result)
    (counts : Counts assembly.reader length) :
    Counts result.reader length := by
  induction returns with
  | done step =>
      have after := @Counts.step mode _ _ counts
      rw [step] at after
      exact after
  | next step _ inductionHypothesis =>
      have after := @Counts.step mode _ _ counts
      rw [step] at after
      exact inductionHypothesis after

theorem Returns.unique
    {assembly : Assembly GrowingFile}
    {left right : ReadResult GrowingFile}
    (returns : Returns GrowingFile.sequentialFile mode assembly left)
    (returns' : Returns GrowingFile.sequentialFile mode assembly right) :
    left = right := by
  induction returns with
  | done step =>
      cases returns' with
      | done step' =>
          rw [step] at step'
          exact Sum.inr.inj step'
      | next step' _ =>
          rw [step] at step'
          cases step'
  | next step _ inductionHypothesis =>
      cases returns' with
      | done step' =>
          rw [step] at step'
          cases step'
      | next step' returns' =>
          rw [step] at step'
          cases step'
          exact inductionHypothesis returns'

end Counting

/-! ## The offset of one record -/

/-- In a chained list, a fragment that ends its record completes one. -/
theorem isSome_completed
    {pending : Option Bytes}
    {fragment : Fragment}
    (chained : fragment.start = !pending.isSome) :
    (completed pending fragment).isSome = fragment.finish := by
  unfold completed
  cases fragment.finish <;> cases pending <;> simp_all

section Offsets

variable {assembly : Assembly GrowingFile} {format : Format} {offset length : Nat}
  {fragment : Fragment} {start : Bool} {left body : Bytes}

/-- The fragment that ends a record. -/
theorem step_last
    (mode : WALRecoveryMode)
    {dropSize : Nat}
    {next : Reader GrowingFile}
    (physical : assembly.reader.readPhysicalRecord GrowingFile.sequentialFile 0 =
      ⟨(format.type fragment).code, fragment.payload, dropSize, next⟩)
    (chained : fragment.start = !assembly.pending.isSome)
    (finish : fragment.finish = true) :
    ∃ result,
      readRecordStep GrowingFile.sequentialFile mode assembly = .inr result ∧
        result.reader.lastRecordOffset =
          assembly.begunAt assembly.reader.bufferOffset fragment := by
  obtain ⟨reporter, -, handled⟩ := handle_fragment mode assembly
    assembly.reader.bufferOffset format fragment dropSize next
  have isWhole := isSome_completed chained
  rw [finish] at isWhole
  obtain ⟨record, whole⟩ := Option.isSome_iff_exists.mp isWhole
  rw [whole] at handled
  exact ⟨_, by rw [readRecordStep, physical, handled], rfl⟩

/-- A fragment with which a record goes on. -/
theorem step_more
    (mode : WALRecoveryMode)
    {dropSize : Nat}
    {next : Reader GrowingFile}
    (physical : assembly.reader.readPhysicalRecord GrowingFile.sequentialFile 0 =
      ⟨(format.type fragment).code, fragment.payload, dropSize, next⟩)
    (chained : fragment.start = !assembly.pending.isSome)
    (goesOn : fragment.finish = false) :
    ∃ following,
      readRecordStep GrowingFile.sequentialFile mode assembly = .inl following ∧
        Alike next following.reader ∧
        following.pending.isSome ∧
        following.prospectiveRecordOffset =
          assembly.begunAt assembly.reader.bufferOffset fragment := by
  obtain ⟨reporter, -, handled⟩ := handle_fragment mode assembly
    assembly.reader.bufferOffset format fragment dropSize next
  have open' : completed assembly.pending fragment = none := by
    simp [completed, goesOn]
  rw [open'] at handled
  obtain ⟨following, handled, reader, pending, begun⟩ := handled
  refine ⟨following, by rw [readRecordStep, physical, handled], ?_, ?_, begun⟩
  · exact ⟨reporter, next.lastRecordOffset, reader⟩
  · rw [pending, isSome_pendingNext chained, goesOn]
    rfl

/-- The fragments that are left of a record, without a long gap in front: the offset of
the record is the one noted at its first fragment. -/
theorem returns_fragments
    (mode : WALRecoveryMode)
    (positioned : assembly.reader.Positioned offset
      (format.place offset (format.fragments offset start left) ++ body))
    (inReach : (format.place offset (format.fragments offset start left)).length ≤
      assembly.reader.reach)
    (narrow : format.gap offset < kHeaderSize)
    (accepts : assembly.reader.Accepts format)
    (fromStart : assembly.reader.initialOffset = 0)
    (chained : start = !assembly.pending.isSome) :
    ∃ result,
      Returns GrowingFile.sequentialFile mode assembly result ∧
        result.reader.lastRecordOffset =
          if start then assembly.reader.bufferOffset
          else assembly.prospectiveRecordOffset := by
  have fits := format.fits_fragments offset start left positioned.offset_le
  fun_induction format.fragments offset start left generalizing assembly with
  | case1 =>
      rename_i offset start left count fragment more inductionHypothesis
      have taken : fragment.payload.length = count := by
        simp only [fragment, List.length_take]
        omega
      have goesOn : fragment.finish = false := by
        simp only [List.length_drop] at more
        simp only [fragment, decide_eq_false_iff_not]
        omega
      have placed := format.length_place_cons offset fragment
        (format.fragments (format.endOffset offset count) false (left.drop count))
      have encoded := format.length_encode fragment
      rw [Format.place_cons, List.append_assoc, List.append_assoc, taken] at positioned
      rw [taken] at placed
      have filled := fits.2.1 goesOn
      have fitsRest := fits.2.2
      rw [taken] at filled fitsRest
      obtain ⟨next, physical, moved, consumed, -⟩ := deliver 0 positioned
        (Nat.le_of_eq (by rw [taken, filled])) (by unfold span; omega) narrow accepts
        fromStart
      obtain ⟨following, step, alike, isSome, begun⟩ :=
        step_more mode physical chained goesOn
      have consumed' := consumed.of_alike alike
      have reached := consumed'.reach_le
      have moved' := moved.of_alike alike
      rw [taken] at moved'
      unfold span at reached
      obtain ⟨result, returns, same⟩ := inductionHypothesis moved' (by omega)
        (by rw [filled, Format.gap_kBlockSize]; decide) (consumed'.accepts accepts)
        (consumed'.settings.1.trans fromStart) (by rw [isSome]; rfl)
        fitsRest
      refine ⟨result, .next step returns, same.trans ?_⟩
      exact begun
  | case2 =>
      rename_i offset start left count fragment last
      have finish : fragment.finish = true := by
        simp only [List.length_drop] at last
        simp only [fragment, decide_eq_true_eq]
        omega
      rw [Format.place_cons, List.append_assoc, List.append_assoc] at positioned
      have placed := format.length_place_cons offset fragment []
      have encoded := format.length_encode fragment
      rw [Format.place_nil, List.length_nil] at placed
      obtain ⟨next, physical, -⟩ := deliver 0 positioned fits.endOffset_le
        (by unfold span; omega) narrow accepts fromStart
      obtain ⟨result, step, begun⟩ := step_last mode physical chained finish
      exact ⟨result, .done step, begun⟩

/-- One call on a record: it returns the offset of the block trailer in front of the
record, unless that trailer is as long as a header. -/
theorem returns_offset
    (mode : WALRecoveryMode)
    {reader : Reader GrowingFile}
    {record : Bytes}
    (counts : Counts reader length)
    (positioned : reader.Positioned offset
      (format.place offset (format.fragments offset true record) ++ body))
    (inReach : (format.place offset (format.fragments offset true record)).length ≤
      reader.reach)
    (accepts : reader.Accepts format)
    (fromStart : reader.initialOffset = 0) :
    ∃ result,
      Returns GrowingFile.sequentialFile mode (startAssembly reader) result ∧
        result.reader.lastRecordOffset =
          Format.reportedOffset (length - reader.total) (format.gap offset) := by
  by_cases narrow : format.gap offset < kHeaderSize
  · obtain ⟨result, returns, offset'⟩ := @returns_fragments (startAssembly reader) format
      offset true record body mode positioned inReach narrow accepts fromStart rfl
    refine ⟨result, returns, ?_⟩
    rw [Format.reportedOffset, if_pos narrow, ← counts.offset_eq]
    exact offset'
  · have seven := kHeaderSize_eq
    have wide := Nat.not_lt.mp narrow
    have placed := format.place_fragments_of_gap (by omega : 0 < format.gap offset) true
      record
    rw [placed, List.length_append, List.length_replicate] at inReach
    rw [placed, List.append_assoc] at positioned
    obtain ⟨next, physical, moved, consumed, -⟩ :=
      skipGap 0 positioned (by omega) wide
    have counts' := counts.readPhysicalRecord 0
    rw [physical] at counts'
    have reached := consumed.reach_le
    have totals := consumed.total_eq
    have bound := counts.total_le
    obtain ⟨result, returns, offset'⟩ := @returns_fragments
      { startAssembly reader with reader := next } format kBlockSize true record body mode
      moved (by dsimp only; omega) (by rw [Format.gap_kBlockSize]; decide)
      (consumed.accepts accepts) (consumed.settings.1.trans fromStart) rfl
    refine ⟨result, .next (readRecordStep_badRecord mode physical rfl) returns, ?_⟩
    rw [Format.reportedOffset, if_neg narrow]
    refine Eq.trans offset' (counts'.offset_eq.trans (congrArg UInt64.ofNat ?_))
    dsimp only
    omega

end Offsets

/-! ## The offsets of all records -/

theorem readLocated_record
    {reader : Reader GrowingFile}
    {result : ReadResult GrowingFile}
    {located : List (Bytes × UInt64)}
    {final : Reader GrowingFile}
    (fromStart : reader.initialOffset = 0)
    (returns : Returns GrowingFile.sequentialFile mode (startAssembly reader) result)
    (found : result.found = true)
    (rest : ∃ enough, ∀ fuel, enough ≤ fuel →
      readLocated GrowingFile.sequentialFile mode fuel result.reader =
        some (located, final)) :
    ∃ enough, ∀ fuel, enough ≤ fuel →
      readLocated GrowingFile.sequentialFile mode fuel reader =
        some ((result.record, result.reader.lastRecordOffset) :: located, final) := by
  obtain ⟨enough, run⟩ := returns.readRecordLoop
  obtain ⟨enough', run'⟩ := rest
  refine ⟨max enough enough' + 1, fun fuel bound => ?_⟩
  obtain ⟨fuel, rfl⟩ : ∃ less, fuel = less + 1 := ⟨fuel - 1, by omega⟩
  simp [readLocated, readRecord_eq_loop _ mode _ fromStart, run (fuel + 1) (by omega),
    run' fuel (by omega), found]

/-- Over a file at rest, every record of a log is returned with its reported offset. -/
theorem readLocated_logBytes
    (mode : WALRecoveryMode)
    {format : Format}
    {length offset : Nat}
    (records : List Bytes)
    {reader : Reader GrowingFile}
    (counts : Counts reader length)
    (positioned : reader.Positioned offset (format.logBytes offset records))
    (atRest : reader.file.arrivals = [])
    (whole : reader.reach = (format.logBytes offset records).length)
    (accepts : reader.Accepts format)
    (fromStart : reader.initialOffset = 0) :
    ∃ final enough, ∀ fuel, enough ≤ fuel →
      readLocated GrowingFile.sequentialFile mode fuel reader =
        some (records.zip
          (format.reportedOffsets (length - reader.total) offset records), final) := by
  induction records generalizing reader offset with
  | nil =>
      obtain ⟨final, -, step, -⟩ := @readRecordStep_end mode (startAssembly reader) _ _
        positioned whole (.inr (by
          rw [Assembly.reader_startAssembly, GrowingFile.nextArrival, atRest]
          rfl))
      refine ⟨final, 1, fun fuel bound => ?_⟩
      obtain ⟨fuel, rfl⟩ : ∃ less, fuel = less + 1 := ⟨fuel - 1, by omega⟩
      simp [readLocated, readRecord_eq_loop _ mode _ fromStart, readRecordLoop, step]
  | cons record records inductionHypothesis =>
      have split := logBytes_cons_length format offset record records
      have inReach : (format.place offset (format.fragments offset true record)).length ≤
          reader.reach := by
        rw [whole, split]
        exact Nat.le_add_right _ _
      obtain ⟨next, returns, positioned', consumed, -⟩ :=
        returns_record mode positioned inReach accepts fromStart
      rw [Format.logBytes, Format.fragmentsOf, Format.place_append] at positioned
      obtain ⟨result, returns', located⟩ :=
        returns_offset mode counts positioned inReach accepts fromStart
      cases returns'.unique returns
      have counts' := counts.returns returns
      obtain ⟨reached, atRest'⟩ := consumed.reach_eq atRest
      have total := consumed.total_eq
      have bound := counts.total_le
      have whole' : next.reach = (format.logBytes
          (format.advance offset (format.fragments offset true record)) records).length := by
        omega
      obtain ⟨final, rest⟩ := inductionHypothesis counts' positioned' atRest' whole'
        (consumed.accepts accepts) (consumed.settings.1.trans fromStart)
      have behind : length - next.total = length - reader.total +
          (format.place offset (format.fragments offset true record)).length := by
        omega
      refine ⟨final, ?_⟩
      rw [Format.reportedOffsets, List.zip_cons_cons, ← behind, ← located]
      exact readLocated_record fromStart returns rfl rest

/-- A reader from the start of a complete log. -/
theorem readLocated_new
    {format : Format}
    {logNumber : UInt64}
    (mode : WALRecoveryMode)
    (reporter : Option (List Report))
    (checksum : Bool)
    (records : List Bytes)
    (accepts : (Reader.new (GrowingFile.atRest (format.logBytes 0 records)) reporter
      checksum 0 logNumber).Accepts format) :
    ∃ final enough, ∀ fuel, enough ≤ fuel →
      (Reader.new (GrowingFile.atRest (format.logBytes 0 records)) reporter checksum 0
          logNumber).readLocated GrowingFile.sequentialFile mode fuel =
        some (records.zip (format.reportedOffsets 0 kBlockSize records), final) := by
  rw [← Format.logBytes_kBlockSize] at accepts ⊢
  let reader := Reader.new (GrowingFile.atRest (format.logBytes kBlockSize records))
    reporter checksum 0 logNumber
  have total : reader.total = (format.logBytes kBlockSize records).length := by
    simp [reader, Reader.total, Reader.new, GrowingFile.unread]
  have counts : Counts reader (format.logBytes kBlockSize records).length := by
    refine ⟨Nat.zero_le _, total.le, ?_⟩
    rw [total, Nat.sub_self]
    exact UInt64.sub_zero 0
  have run := readLocated_logBytes mode records counts
    (positioned_new List.prefix_rfl reporter checksum logNumber) rfl
    (reach_new _ reporter checksum logNumber) accepts rfl
  rw [total, Nat.sub_self] at run
  exact run

/-- The records of a log for which `LastRecordOffset` is the offset of their first
header: all but those directly behind a block trailer of one to six bytes. -/
theorem lastRecordOffset_exact_iff
    {δ : Type}
    {D : Destination δ}
    {contents : δ → Bytes}
    (succeeds : D.Succeeds contents)
    {dest : δ}
    (fresh : contents dest = [])
    (recycle : Bool)
    (logNumber : UInt64)
    (small : logNumber.toNat < 2 ^ 32)
    (records : List Bytes)
    (mode : WALRecoveryMode)
    (checksum : Bool)
    (reporter : Option (List Report)) :
    let written := contents
      ((Writer.new dest logNumber recycle).addRecords D records).dest
    let format : Format := ⟨recycle, logNumber⟩
    ∃ offsets final,
      (∃ enough, ∀ fuel, enough ≤ fuel →
        (Reader.new (GrowingFile.atRest written) reporter checksum 0
            logNumber).readLocated GrowingFile.sequentialFile mode fuel =
          some (records.zip offsets, final)) ∧
      offsets.length = records.length ∧
      ∀ index extent, (format.extents 0 0 records)[index]? = some extent →
        ∃ offset, offsets[index]? = some offset ∧
          (offset = UInt64.ofNat extent.start ↔
            format.trailer (records.take index) = 0 ∨
              kHeaderSize ≤ format.trailer (records.take index)) := by
  intro written format
  have log : written = format.logBytes 0 records :=
    Writer.contents_addRecords_new succeeds fresh recycle logNumber records
  obtain ⟨final, enough, run⟩ := @readLocated_new format logNumber mode reporter checksum
    records (fun _ => toUInt32_toUInt64_of_lt small)
  refine ⟨_, final, ⟨enough, log ▸ run⟩, format.length_reportedOffsets _ _ _, ?_⟩
  intro index extent isExtent
  rw [← Format.extents_kBlockSize] at isExtent
  obtain ⟨behind, starts, reported⟩ := format.reportedOffsets_at isExtent
  have same : format.gap (format.advance kBlockSize
      (format.fragmentsOf kBlockSize (records.take index))) =
        format.trailer (records.take index) := by
    rw [Format.fragmentsOf_kBlockSize, Format.gap_advance_kBlockSize]
    rfl
  rw [same] at starts reported
  refine ⟨_, reported, ?_⟩
  rw [starts]
  have narrow := format.gap_lt_header
    (format.advance 0 (format.fragmentsOf 0 (records.take index)))
  have header := format.header_bounds
  exact Format.reportedOffset_eq_iff behind (by unfold Format.trailer; omega)

theorem lastRecordOffset_exact_iff_memory :
    let written := ((Writer.new [] 7 false).addRecords Destination.memory [[1], [2]]).dest
    ∃ offsets final,
      (∃ enough, ∀ fuel, enough ≤ fuel →
        (Reader.new (GrowingFile.atRest written) none true 0 7).readLocated
            GrowingFile.sequentialFile .absoluteConsistency fuel =
          some (List.zip [[1], [2]] offsets, final)) ∧
      offsets.length = 2 ∧
      ∀ index extent, (Format.extents ⟨false, 7⟩ 0 0 [[1], [2]])[index]? = some extent →
        ∃ offset, offsets[index]? = some offset ∧
          (offset = UInt64.ofNat extent.start ↔
            Format.trailer ⟨false, 7⟩ (List.take index [[1], [2]]) = 0 ∨
              kHeaderSize ≤ Format.trailer ⟨false, 7⟩ (List.take index [[1], [2]])) :=
  lastRecordOffset_exact_iff Destination.memory_succeeds (rfl : id ([] : Bytes) = [])
    false 7 (by decide) [[1], [2]] .absoluteConsistency true none

/-- Behind a record of 32755 bytes in the legacy format, which leaves a trailer of six
bytes, `LastRecordOffset` is where the trailer starts. -/
theorem lastRecordOffset_behind_trailer
    {first : Bytes}
    (length : first.length = 32755)
    (second : Bytes) :
    let format : Format := ⟨false, 7⟩
    let written :=
      ((Writer.new [] 7 false).addRecords Destination.memory [first, second]).dest
    (∃ final enough, ∀ fuel, enough ≤ fuel →
        (Reader.new (GrowingFile.atRest written) none true 0 7).readLocated
            GrowingFile.sequentialFile .absoluteConsistency fuel =
          some ([first, second].zip [0, 32762], final)) ∧
      (format.extents 0 0 [first, second]).map Format.Extent.start = [0, 32768] := by
  intro format written
  obtain ⟨starts, reported⟩ := format.offsets_behind_trailer rfl length second
  have log : written = format.logBytes 0 [first, second] :=
    Writer.contents_addRecords_new Destination.memory_succeeds (rfl : id ([] : Bytes) = [])
      false 7 [first, second]
  have run := @readLocated_new format 7 .absoluteConsistency none true [first, second] nofun
  rw [← log, reported] at run
  exact ⟨run, starts⟩

/-- A record of 32755 bytes in the legacy format leaves a trailer of six bytes.  The
next record starts at 32768, but `LastRecordOffset` is 32762. -/
theorem lastRecordOffset_trailer :
    let format : Format := ⟨false, 7⟩
    let records : List Bytes := [List.replicate 32755 0, [1]]
    let written := ((Writer.new [] 7 false).addRecords Destination.memory records).dest
    let starts := (format.extents 0 0 records).map Format.Extent.start
    let offsets : List UInt64 := [0, 32762]
    (∃ final enough, ∀ fuel, enough ≤ fuel →
        (Reader.new (GrowingFile.atRest written) none true 0 7).readLocated
            GrowingFile.sequentialFile .absoluteConsistency fuel =
          some (records.zip offsets, final)) ∧
      starts = [0, 32768] ∧
      offsets ≠ starts.map UInt64.ofNat := by
  obtain ⟨run, isStarts⟩ := lastRecordOffset_behind_trailer
    (List.length_replicate : (List.replicate 32755 (0 : UInt8)).length = 32755) [1]
  exact ⟨run, isStarts, by rw [isStarts]; decide⟩

end Reader
end Log
end RocksUtil
