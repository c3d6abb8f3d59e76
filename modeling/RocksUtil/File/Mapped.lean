import RocksUtil.Env.MappedRegions
import RocksUtil.File.Accounting
import RocksUtil.Log.Writing

/-!
# A log written through a mapping

The buffered writer over a `PosixMmapFile`.  Behind each `AddRecord` the buffer is empty,
so the file holds the log and, behind it, zeros up to the end of the mapped region
(`addRecord_mapped`).  The regions are made of whole blocks of the log, and so is the
file; it gets longer only when the log does not fit in it any more.
-/

namespace RocksUtil
namespace PosixMmapFile

/-! ## Regions of whole units -/

/-- Every region starts and ends at a multiple of `unit`, and nothing else is
preallocated. -/
structure Units (unit : Nat) (file : PosixMmapFile) : Prop where
  fileOffset : unit ∣ file.fileOffset
  region : unit ∣ file.limit - file.base
  mapSize : unit ∣ file.mapSize
  noPreallocation : file.preallocationBlockSize = 0

section Units

variable {unit : Nat} {data src : Bytes} {file : PosixMmapFile}

theorem Units.unmapCurrentRegion
    (units : file.Units unit)
    (done : file.schedule = []) : file.unmapCurrentRegion.2.Units unit := by
  unfold PosixMmapFile.unmapCurrentRegion
  rw [systemCall_of_nil done]
  split
  · constructor
    · exact Nat.dvd_add units.fileOffset units.region
    · exact Nat.dvd_zero unit
    · exact dvd_grownMapSize units.mapSize
    · exact units.noPreallocation
  · exact units

theorem Units.mapNewRegion
    (units : file.Units unit)
    (done : file.schedule = [])
    (allowed : file.allowFallocate = true) : file.mapNewRegion.2.Units unit := by
  have extended : (file.extend file.fileOffset file.mapSize).schedule = [] := done
  unfold PosixMmapFile.mapNewRegion
  rw [allocateRegion_of_nil done allowed]
  simp only
  rw [systemCall_of_nil extended]
  constructor
  · exact units.fileOffset
  · simpa [extend] using units.mapSize
  · exact units.mapSize
  · exact units.noPreallocation

theorem Units.copy (units : file.Units unit) (src : Bytes) :
    (file.copy src).Units unit :=
  ⟨units.fileOffset, units.region, units.mapSize, units.noPreallocation⟩

/-- The file holds `data`, in regions of whole units. -/
structure Extends (unit : Nat) (data : Bytes) (file : PosixMmapFile) : Prop where
  holds : Holds data file
  units : file.Units unit

theorem Extends.moveRegion
    (extended : Extends unit data file)
    (full : file.limit - file.dst = 0) : file.moveRegion.2.Units unit := by
  obtain ⟨succeeds, -, unmapped⟩ := extended.holds.unmapCurrentRegion full
  have units := extended.units.unmapCurrentRegion extended.holds.schedule
  unfold PosixMmapFile.moveRegion
  simp only [succeeds, Status.ok_OK, if_true]
  exact units.mapNewRegion unmapped.schedule unmapped.allowFallocate

theorem Extends.appendPass
    (extended : Extends unit data file)
    (left : Bytes) : (file.appendPass left).2.2.Units unit := by
  unfold PosixMmapFile.appendPass
  by_cases full : file.limit - file.dst = 0
  · have succeeds := (extended.holds.moveRegion full).1
    simp only [full, if_true, succeeds, Status.ok_OK]
    exact (extended.moveRegion full).copy _
  · simp only [full, if_false, Status.ok_OK, if_true]
    exact extended.units.copy _

theorem Extends.append
    (extended : Extends unit data file)
    (src : Bytes) : Extends unit (data ++ src) (file.append src).2 := by
  refine ⟨(extended.holds.append src).2, ?_⟩
  induction src, file using PosixMmapFile.append.induct generalizing data with
  | case1 src file some _ inductionHypothesis =>
      obtain ⟨succeeds, count, -, passed⟩ := extended.holds.appendPass src
      rw [PosixMmapFile.append, if_pos some, dif_pos (by rw [succeeds, Status.ok_OK])]
      exact inductionHypothesis ⟨passed, extended.appendPass src⟩
  | case2 src file some fails =>
      rw [(extended.holds.appendPass src).1] at fails
      exact absurd rfl fails
  | case3 src file nothing =>
      rw [PosixMmapFile.append, if_neg nothing]
      exact extended.units

theorem Extends.length_contents (extended : Extends unit data file) :
    file.contents.length = file.fileOffset + (file.limit - file.base) := by
  have size := extended.holds.size
  have base_le := extended.holds.base_le
  have lastSync_le := extended.holds.lastSync_le
  have dst_le := extended.holds.dst_le
  rw [getFileSize] at size
  rw [extended.holds.contents, List.length_append, List.length_replicate]
  omega

/-- The file is made of whole units. -/
theorem Extends.dvd_length (extended : Extends unit data file) :
    unit ∣ file.contents.length := by
  rw [extended.length_contents]
  exact Nat.dvd_add extended.units.fileOffset extended.units.region

/-- The data in the file, without the zeros behind it. -/
theorem Holds.take_getFileSize (holds : Holds data file) :
    file.contents.take file.getFileSize = data := by
  rw [holds.contents, holds.size, List.take_left]

theorem append_nil (file : PosixMmapFile) : file.append [] = (.OK, file) := by
  rw [PosixMmapFile.append, if_neg (by simp)]

/-- What fits in the region is copied in one pass. -/
theorem append_of_room
    (some : src ≠ [])
    (room : src.length ≤ file.limit - file.dst) :
    file.append src = (.OK, file.copy src) := by
  have positive := List.length_pos_of_ne_nil some
  have pass : file.appendPass src = (.OK, [], file.copy src) := by
    unfold PosixMmapFile.appendPass
    simp only [if_neg (by omega : ¬file.limit - file.dst = 0), Status.ok_OK, if_true,
      if_pos room, List.drop_length, List.take_length]
  rw [PosixMmapFile.append, if_pos (by omega), dif_pos (by rw [pass]; rfl), pass]
  exact append_nil _

/-- It does not make the file longer. -/
theorem Holds.length_append_of_room
    (holds : Holds data file)
    (room : src.length ≤ file.limit - file.dst) :
    (file.append src).2.contents.length = file.contents.length := by
  rcases List.eq_nil_or_concat src with rfl | ⟨front, last, rfl⟩
  · rw [append_nil]
  · have copied := holds.copy _ room
    rw [append_of_room (by simp) room, copied.contents, holds.contents]
    simp only [List.length_append, List.length_replicate, PosixMmapFile.copy] at room ⊢
    omega

end Units

/-- A multiple is not rounded up. -/
theorem roundup_of_dvd {x y : Nat} (positive : 0 < y) (multiple : y ∣ x) :
    roundup x y = x := by
  obtain ⟨count, rfl⟩ := multiple
  have quotient : (y * count + y - 1) / y = count := by
    rw [Nat.add_sub_assoc positive, Nat.mul_add_div positive,
      Nat.div_eq_of_lt (Nat.sub_lt positive Nat.zero_lt_one), Nat.add_zero]
  rw [roundup, quotient, Nat.mul_comm]

/-- The first region is made of whole blocks of the log, however long a page is. -/
theorem kBlockSize_dvd_roundup {pageSize : Nat} (powerOfTwo : pageSize.isPowerOfTwo) :
    Log.kBlockSize ∣ roundup 65536 pageSize := by
  obtain ⟨exponent, rfl⟩ := powerOfTwo
  have block : Log.kBlockSize = 2 ^ 15 := rfl
  rcases Nat.le_total 15 exponent with large | small
  · have whole : 2 ^ 15 ∣ 2 ^ exponent := Nat.pow_dvd_pow 2 large
    rw [block]
    exact Nat.dvd_trans whole (Nat.dvd_mul_left _ _)
  · have divides : 2 ^ exponent ∣ 65536 :=
      Nat.dvd_trans (Nat.pow_dvd_pow 2 small) ⟨2, rfl⟩
    rw [roundup_of_dvd (Nat.two_pow_pos exponent) divides, block]
    exact ⟨2, rfl⟩

theorem extends_new
    (filename : String)
    (pageSize : Nat)
    (powerOfTwo : pageSize.isPowerOfTwo)
    (fallocateWithKeepSize : Bool)
    (place : Nat → {address : Nat // 0 < address}) :
    Extends Log.kBlockSize []
      (new filename pageSize powerOfTwo true fallocateWithKeepSize place []) where
  holds := holds_new filename pageSize powerOfTwo fallocateWithKeepSize place
  units :=
    ⟨Nat.dvd_zero _, Nat.dvd_zero _, kBlockSize_dvd_roundup powerOfTwo, rfl⟩

/-! ## The operations -/

/-- The data of the file. -/
def data (file : PosixMmapFile) : Bytes := file.contents.take file.getFileSize

/-- A file in regions of whole blocks, which is no longer than `length` as long as its
data is not. -/
def Valid (length : Nat) (file : PosixMmapFile) : Prop :=
  ∃ data, Extends Log.kBlockSize data file ∧
    (data.length ≤ length → file.contents.length = length)

theorem valid_self
    {data : Bytes}
    {file : PosixMmapFile}
    (extended : Extends Log.kBlockSize data file) : file.Valid file.contents.length :=
  ⟨data, extended, fun _ => rfl⟩

theorem Valid.append
    {length : Nat}
    {file : PosixMmapFile}
    (valid : file.Valid length)
    (src : Bytes) :
    (file.append src).1.ok = true ∧ (file.append src).2.Valid length ∧
      (file.append src).2.data = file.data ++ src := by
  obtain ⟨data, extended, bounded⟩ := valid
  have appended := extended.append src
  refine ⟨by rw [(extended.holds.append src).1]; rfl, ⟨_, appended, fun short => ?_⟩, ?_⟩
  · rw [List.length_append] at short
    have same := bounded (by omega)
    have size := congrArg List.length extended.holds.contents
    rw [List.length_append, List.length_replicate] at size
    rw [extended.holds.length_append_of_room (by omega), same]
  · rw [PosixMmapFile.data, PosixMmapFile.data, appended.holds.take_getFileSize,
      extended.holds.take_getFileSize]

theorem sync_eq {file : PosixMmapFile} (done : file.schedule = []) :
    ∃ lastSync, file.sync.2 = { file with lastSync := lastSync } := by
  unfold PosixMmapFile.sync msync
  rw [systemCall_of_nil done]
  simp only
  split
  · exact ⟨file.lastSync, rfl⟩
  · have synced : ({ file with lastSync := file.dst } : PosixMmapFile).schedule = [] :=
      done
    rw [systemCall_of_nil synced]
    exact ⟨file.dst, rfl⟩

theorem Valid.sync
    {length : Nat}
    {file : PosixMmapFile}
    (valid : file.Valid length) :
    WritableFile.Same data (Valid length) file file.sync.2 := by
  obtain ⟨written, ⟨holds, units⟩, bounded⟩ := valid
  have synced := holds.sync.2
  obtain ⟨lastSync, same⟩ := sync_eq holds.schedule
  rw [same] at synced ⊢
  obtain ⟨fileOffset, region, mapSize, noPreallocation⟩ := units
  exact ⟨⟨written, ⟨synced, ⟨fileOffset, region, mapSize, noPreallocation⟩⟩, bounded⟩, rfl⟩

/-- Without `SetPreallocationBlockSize` there is nothing to prepare. -/
theorem prepareWrite_eq
    {length : Nat}
    {file : PosixMmapFile}
    (valid : file.Valid length)
    (offset len : Nat) : file.prepareWrite offset len = file := by
  obtain ⟨data, extended, -⟩ := valid
  exact if_pos extended.units.noPreallocation

theorem leaks (length : Nat) :
    operations.Leaks data (Valid length) fun _ _ => 0 where
  append_ok := fun src _ valid _ => ⟨rfl, (valid.append src).2⟩
  append_failed := by
    intro src file valid fails
    have succeeds := (valid.append src).1
    rw [show file.append src = operations.append src file from rfl, fails] at succeeds
    cases succeeds
  flush := fun _ valid => ⟨valid, rfl⟩
  sync := fun _ valid => valid.sync
  fsync := fun _ valid => valid.sync
  rangeSync := fun _ _ _ valid => ⟨valid, rfl⟩
  prepareWrite := by
    intro offset len file valid
    rw [show operations.prepareWrite offset len file = file from
      prepareWrite_eq valid offset len]
    exact ⟨valid, rfl⟩

theorem neverFails (length : Nat) : operations.NeverFails (Valid length) where
  append := fun src _ valid => ⟨(valid.append src).1, (valid.append src).2.1⟩
  flush := fun _ valid => ⟨rfl, valid⟩
  rangeSync := fun _ _ _ valid => ⟨rfl, valid⟩
  prepareWrite := by
    intro offset len file valid
    rw [show operations.prepareWrite offset len file = file from
      prepareWrite_eq valid offset len]
    exact valid

end PosixMmapFile

/-! ## The buffered writer -/

namespace WritableFileWriter

variable {ω : Type} {F : WritableFile ω} {contents : ω → Bytes} {valid : ω → Prop}
  {writer : WritableFileWriter ω} {data : Bytes}

/-- Over a file that never fails a flush succeeds. -/
theorem ok_flush
    (neverFails : F.NeverFails valid)
    (buffered : writer.useOSBuffer = true)
    (isValid : valid writer.writableFile) : (writer.flush F).1.ok = true := by
  have written : (writer.writeOut F).1.ok = true ∧
      valid (writer.writeOut F).2.writableFile := by
    have appended := neverFails.append writer.buf.bytes writer.writableFile isValid
    unfold writeOut writeBuffered
    simp only [if_pos buffered, AlignedBuffer.currentSize]
    split
    · simp only [if_pos appended.1]
      exact appended
    · exact ⟨rfl, isValid⟩
  have flushed := neverFails.flush _ written.2
  have synced := neverFails.rangeSync
  unfold flush syncBehind
  simp only [if_pos written.1, if_pos flushed.1]
  split
  · exact (synced _ _ _ flushed.2).1
  · exact flushed.1

/-- The writer holds what it has accepted, in buffered mode, and has room for `count`
more bytes. -/
structure Roomy (valid : ω → Prop) (count : Nat) (writer : WritableFileWriter ω) : Prop
    where
  buffered : writer.useOSBuffer = true
  large : 65536 ≤ writer.buf.capacity
  isValid : valid writer.writableFile
  room : writer.buf.bytes.length + count ≤ 65536

/-- Behind a flush the buffer is empty. -/
theorem Roomy.flush
    (leaks : F.Leaks contents valid fun _ _ => 0)
    (neverFails : F.NeverFails valid)
    {count more : Nat}
    (roomy : writer.Roomy valid count)
    (short : more ≤ 65536) :
    (writer.flush F).2.Roomy valid more ∧ (writer.flush F).2.buf.bytes = [] ∧
      accepted contents (writer.flush F).2 = accepted contents writer := by
  have succeeds := ok_flush neverFails roomy.buffered roomy.isValid
  have empty := bytes_flush (.inl roomy.buffered) succeeds
  have accepts := flush_accepts leaks roomy.buffered roomy.isValid
  have same := accepts.accepted_eq (by unfold flushLeak; split <;> rfl)
  rw [List.append_nil] at same
  refine ⟨⟨accepts.buffered, ?_, accepts.isValid, ?_⟩, empty, same⟩
  · rw [capacity_flush]
    exact roomy.large
  · rw [empty, List.length_nil]
    omega

/-- A log writer can rely on it. -/
theorem destination_accepts_of_neverFails
    (leaks : F.Leaks contents valid fun _ _ => 0)
    (neverFails : F.NeverFails valid) :
    (destination F).Accepts (accepted contents) (Roomy valid) where
  append := by
    intro data rest writer _ roomy
    have large := roomy.large
    have room := roomy.room
    obtain ⟨status, mode, file, capacity, bytes⟩ :=
      @append_of_room _ F writer data (by
        simp only [AlignedBuffer.currentSize]
        omega)
    obtain ⟨prepared, same⟩ := leaks.prepareWrite writer.filesize data.length
      writer.writableFile roomy.isValid
    change (append F data writer).2.writableFile =
      F.prepareWrite writer.filesize data.length writer.writableFile at file
    rw [show (destination F).append data writer = append F data writer from rfl]
    refine ⟨by rw [status]; rfl, ?_, ⟨mode.trans roomy.buffered, ?_, ?_, ?_⟩⟩
    · rw [accepted, accepted, file, bytes, same, List.append_assoc]
    · rw [capacity]
      exact large
    · rw [file]
      exact prepared
    · rw [bytes, List.length_append]
      omega
  flush := fun _ roomy =>
    have flushed := roomy.flush leaks neverFails (Nat.zero_le 65536)
    ⟨flushed.2.2, flushed.1⟩
  flush_ok := fun _ roomy _ _ short =>
    (roomy.flush leaks neverFails short).1

end WritableFileWriter
namespace Log
namespace Writer

section Flushed

variable {δ : Type} {D : Destination δ}

theorem emitPhysicalRecord_flushed
    {writer : Writer δ}
    {t : RecordType}
    {ptr : Bytes}
    (succeeds : (writer.emitPhysicalRecord D t ptr).1.ok = true) :
    ∃ dest, (D.flush dest).1.ok = true ∧
      (writer.emitPhysicalRecord D t ptr).2.dest = (D.flush dest).2 := by
  unfold emitPhysicalRecord at succeeds ⊢
  dsimp only at succeeds ⊢
  split
  · rename_i header
    rw [if_pos header] at succeeds
    split
    · rename_i payload
      rw [if_pos payload] at succeeds
      exact ⟨_, succeeds, rfl⟩
    · rename_i refused
      rw [if_neg refused] at succeeds
      exact absurd succeeds refused
  · rename_i refused
    rw [if_neg refused] at succeeds
    exact absurd succeeds refused

theorem addRecordLoop_flushed
    {writer : Writer δ}
    {start : Bool}
    {left : Bytes}
    (succeeds : (writer.addRecordLoop D start left).1.ok = true) :
    ∃ dest, (D.flush dest).1.ok = true ∧
      (writer.addRecordLoop D start left).2.dest = (D.flush dest).2 := by
  fun_induction writer.addRecordLoop D start left with
  | case1 writer start left left' result continues inductionHypothesis =>
      exact inductionHypothesis succeeds
  | case2 writer start left left' result stops =>
      exact emitPhysicalRecord_flushed succeeds

/-- The last thing that `AddRecord` does is a flush. -/
theorem addRecord_flushed
    {writer : Writer δ}
    {slice : Bytes}
    (succeeds : (writer.addRecord D slice).1.ok = true) :
    ∃ dest, (D.flush dest).1.ok = true ∧
      (writer.addRecord D slice).2.dest = (D.flush dest).2 :=
  addRecordLoop_flushed succeeds

end Flushed

section Mapped

/-- A log that is written through a mapping. -/
abbrev mapped : Destination (WritableFileWriter PosixMmapFile) :=
  WritableFileWriter.destination PosixMmapFile.operations

/-- Between two calls of `AddRecord` all of the log, `data`, is in the file. -/
structure Flushed
    (data : Bytes)
    (writer : Writer (WritableFileWriter PosixMmapFile)) : Prop where
  buffered : writer.dest.useOSBuffer = true
  large : 65536 ≤ writer.dest.buf.capacity
  empty : writer.dest.buf.bytes = []
  extended : PosixMmapFile.Extends kBlockSize data writer.dest.writableFile

variable {data : Bytes} {writer : Writer (WritableFileWriter PosixMmapFile)}

/-- `AddRecord` appends its fragments to the file, and as long as they fit in it the file
does not get longer. -/
theorem addRecord_mapped
    (flushed : Flushed data writer)
    (record : Bytes) :
    let pieces := writer.format.fragments writer.blockOffset true record
    let result := writer.addRecord mapped record
    let file := writer.dest.writableFile
    let after := data ++ writer.format.place writer.blockOffset pieces
    result.1.ok = true ∧ Flushed after result.2 ∧
      result.2.blockOffset = writer.format.advance writer.blockOffset pieces ∧
      result.2.format = writer.format ∧
      (after.length ≤ file.contents.length →
        result.2.dest.writableFile.contents.length = file.contents.length) := by
  intro pieces result file after
  have leaks := PosixMmapFile.leaks file.contents.length
  have neverFails := PosixMmapFile.neverFails file.contents.length
  have accepts := WritableFileWriter.destination_accepts_of_neverFails leaks neverFails
  have roomy : writer.dest.Roomy (PosixMmapFile.Valid file.contents.length)
      (writer.firstSpan record) := by
    refine ⟨flushed.buffered, flushed.large, PosixMmapFile.valid_self flushed.extended, ?_⟩
    have short := writer.firstSpan_le record
    have block := kBlockSize_eq
    rw [flushed.empty, List.length_nil]
    omega
  obtain ⟨written, others, split, -, contents, offset, sameFormat, left, whole, always⟩ :=
    addRecord_accepts accepts writer record roomy
  have ok : result.1.ok = true := always fun dest room =>
    WritableFileWriter.ok_flush neverFails room.buffered room.isValid
  rw [whole ok, List.append_nil] at split
  rw [← split] at contents offset
  obtain ⟨dest, flushes, last⟩ := addRecord_flushed ok
  have mode := left.buffered
  rw [last] at mode
  have empty : result.2.dest.buf.bytes = [] := by
    rw [last]
    exact WritableFileWriter.bytes_flush
      (.inl ((WritableFileWriter.SameModes.flush _ dest).useOSBuffer.symm.trans mode)) flushes
  obtain ⟨data', extended, bounded⟩ := left.isValid
  have same : data' = after := by
    unfold WritableFileWriter.accepted at contents
    rw [empty, flushed.empty, List.append_nil, List.append_nil] at contents
    unfold PosixMmapFile.data at contents
    rw [extended.holds.take_getFileSize, flushed.extended.holds.take_getFileSize] at contents
    exact contents
  subst same
  exact ⟨ok, ⟨left.buffered, left.large, empty, extended⟩, offset, sameFormat, bounded⟩

end Mapped

end Writer
end Log
end RocksUtil
