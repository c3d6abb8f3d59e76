import RocksUtil.Env.MappedRegions
import RocksUtil.Env.PosixWritableFile

/-!
# Preallocated files

A `PosixWritableFile` with a block size for preallocation gets its space block by block
ahead of what is written.  Without `FALLOC_FL_KEEP_SIZE` the file is then longer than its
data and reads as zeros behind it; each write replaces some of these zeros, and `Close`
trims what is left of them.
-/

namespace RocksUtil
namespace PosixWritableFile

/-- The bytes in front of the place of the next write. -/
def written (file : PosixWritableFile) : Bytes := file.contents.take file.position

/-- The file holds `data`, and zeros only if space has been preallocated. -/
structure Holds (data : Bytes) (file : PosixWritableFile) : Prop where
  position_eq : file.position = data.length
  contents : file.contents = data ++ List.replicate (file.contents.length - data.length) 0
  untouched : file.lastPreallocatedBlock = 0 → file.contents.length = data.length

/-- No call of write(2) will fail, and the file has counted all of its data. -/
structure Valid (file : PosixWritableFile) : Prop where
  noError : ∀ call ∈ file.schedule, call.fails = false
  filesize_eq : file.filesize = file.position
  holds : ∃ data, Holds data file

variable {data : Bytes} {file : PosixWritableFile}

theorem Holds.length_le (holds : Holds data file) :
    data.length ≤ file.contents.length := by
  have lengths := congrArg List.length holds.contents
  rw [List.length_append] at lengths
  omega

theorem Holds.written_eq (holds : Holds data file) : file.written = data := by
  rw [written, holds.position_eq, holds.contents, List.take_left]

/-- A write replaces zeros, and then makes the file longer. -/
theorem Holds.write (holds : Holds data file) (src : Bytes) :
    Holds (data ++ src) (file.write src) := by
  have contents : (file.write src).contents = data ++ src ++
      List.replicate (file.contents.length - data.length - src.length) 0 := by
    rw [PosixWritableFile.write, holds.position_eq]
    change overwrite file.contents data.length src = _
    rw [holds.contents, PosixMmapFile.overwrite_middle, List.drop_replicate, ← holds.contents]
  have length := congrArg List.length contents
  have atLeast := holds.length_le
  rw [List.length_append, List.length_replicate] at length
  refine ⟨?_, ?_, fun none => ?_⟩
  · rw [List.length_append, ← holds.position_eq]
    rfl
  · rw [length, Nat.add_sub_cancel_left]
    exact contents
  · have before := holds.untouched none
    rw [length]
    omega

/-- Zeros behind the data of a file that is being preallocated. -/
theorem Holds.longer
    (holds : Holds data file)
    (zeros : Nat)
    {after : PosixWritableFile}
    (samePosition : after.position = file.position)
    (extended : after.contents = file.contents ++ List.replicate zeros 0)
    (allocated : after.lastPreallocatedBlock ≠ 0) : Holds data after := by
  refine ⟨samePosition.trans holds.position_eq, ?_, fun none => absurd none allocated⟩
  have atLeast := holds.length_le
  rw [extended, holds.contents, List.append_assoc, List.replicate_append_replicate]
  congr 2
  simp only [List.length_append, List.length_replicate]
  omega

theorem Holds.inFile (holds : Holds data file) : file.position ≤ file.contents.length :=
  holds.position_eq ▸ holds.length_le

/-- `Append`, when no call of write(2) fails. -/
theorem Valid.append (valid : Valid file) (data : Bytes) :
    let result := append data file
    result.1 = .OK ∧ Valid result.2 ∧ result.2.written = file.written ++ data := by
  obtain ⟨before, holds⟩ := valid.holds
  obtain ⟨ok, left, isLeft, isFile⟩ := append_spec data holds.inFile
  have whole := transferred_of_noError valid.noError data.length
  have succeeds := ok.mpr whole
  rw [whole, List.take_length, succeeds, if_pos rfl] at isFile
  have kept := holds.write data
  intro result
  have holds' : Holds (before ++ data) result.2 := by
    rw [isFile]
    exact ⟨kept.position_eq, kept.contents, kept.untouched⟩
  refine ⟨append_eq_ok succeeds, ⟨?_, ?_, _, holds'⟩, ?_⟩
  · rw [isFile]
    exact fun call within => valid.noError call (isLeft call within)
  · rw [isFile]
    exact congrArg (· + data.length) valid.filesize_eq
  · rw [holds'.written_eq, holds.written_eq]

/-- Preparing a write leaves the data alone. -/
theorem Valid.prepareWrite (valid : Valid file) (offset len : Nat) :
    Valid (file.prepareWrite offset len) ∧
      (file.prepareWrite offset len).written = file.written := by
  obtain ⟨data, holds⟩ := valid.holds
  suffices kept : Holds data (file.prepareWrite offset len) ∧
      (file.prepareWrite offset len).schedule = file.schedule ∧
      (file.prepareWrite offset len).filesize = file.filesize by
    obtain ⟨holds', schedule, filesize⟩ := kept
    refine ⟨⟨schedule ▸ valid.noError, ?_, data, holds'⟩, ?_⟩
    · rw [filesize, holds'.position_eq, valid.filesize_eq, holds.position_eq]
    · rw [holds'.written_eq, holds.written_eq]
  rcases WritableFile.prepareWriteWith_cases allocate
      (fun block file => { file with lastPreallocatedBlock := block })
      file.preallocationBlockSize file.lastPreallocatedBlock offset len file with
    ⟨-, same⟩ | ⟨-, further, isPrepared⟩
  · rw [PosixWritableFile.prepareWrite, same]
    exact ⟨holds, rfl, rfl⟩
  · have some := Nat.ne_of_gt (Nat.zero_lt_of_lt further)
    rw [PosixWritableFile.prepareWrite, isPrepared]
    unfold allocate
    split
    · exact ⟨holds.longer _ rfl rfl some, rfl, rfl⟩
    · exact ⟨holds.longer 0 rfl (List.append_nil _).symm some, rfl, rfl⟩

/-- What the writers rely on. -/
theorem validLeaks : operations.Leaks written Valid fun _ _ => 0 where
  append_ok := fun data _ valid _ => ⟨rfl, (valid.append data).2⟩
  append_failed := by
    intro data file valid fails
    change (append data file).1.ok = false at fails
    rw [(valid.append data).1] at fails
    cases fails
  flush := fun _ valid => ⟨valid, rfl⟩
  sync := fun _ valid => ⟨valid, rfl⟩
  fsync := fun _ valid => ⟨valid, rfl⟩
  rangeSync := fun _ _ _ valid => ⟨valid, rfl⟩
  prepareWrite := fun offset len _ valid => valid.prepareWrite offset len

theorem validNeverFails : operations.NeverFails Valid where
  append := fun data _ valid =>
    ⟨congrArg Status.ok (valid.append data).1, (valid.append data).2.1⟩
  flush := fun _ valid => ⟨rfl, valid⟩
  rangeSync := fun _ _ _ valid => ⟨rfl, valid⟩
  prepareWrite := fun offset len _ valid => (valid.prepareWrite offset len).1

/-- `Close` leaves the data. -/
theorem Valid.close (valid : Valid file) :
    file.close.1 = .OK ∧ file.close.2.contents = file.written := by
  obtain ⟨data, holds⟩ := valid.holds
  unfold PosixWritableFile.close
  split
  · refine ⟨rfl, ?_⟩
    rw [holds.written_eq, valid.filesize_eq, holds.position_eq]
    change ftruncate file.contents data.length = data
    rw [holds.contents, PosixMmapFile.ftruncate_append]
  · rename_i none
    refine ⟨rfl, ?_⟩
    have length := holds.untouched (Nat.eq_zero_of_not_pos none)
    have contents := holds.contents
    rw [length, Nat.sub_self, List.replicate_zero, List.append_nil] at contents
    exact contents.trans holds.written_eq.symm

theorem valid_new
    (filename : String)
    (allowFallocate fallocateWithKeepSize : Bool)
    (blockSize : Nat)
    {schedule : List SystemWrite}
    (noError : ∀ call ∈ schedule, call.fails = false) :
    Valid ((new filename allowFallocate fallocateWithKeepSize
      schedule).setPreallocationBlockSize blockSize) where
  noError := noError
  filesize_eq := rfl
  holds := ⟨[], rfl, rfl, fun _ => rfl⟩

/-! ## Calls of write(2) that fail -/

/-- The space that fallocate(2) has made a part of the file. -/
def reserved (file : PosixWritableFile) : Nat :=
  if file.allowFallocate && !file.fallocateWithKeepSize then
    file.preallocationBlockSize * file.lastPreallocatedBlock
  else 0

/-- The file holds what has been written, and zeros up to the end of the space that is
reserved. -/
def Reserves (file : PosixWritableFile) : Prop :=
  ∃ data, Holds data file ∧ file.contents.length = max data.length file.reserved

/-- `Append` writes what is transferred. -/
theorem Reserves.append (reserves : file.Reserves) (data : Bytes) :
    let result := append data file
    (result.1.ok = true ↔ transferred file.schedule data.length = data.length) ∧
      result.2.Reserves ∧
      result.2.written =
        file.written ++ data.take (transferred file.schedule data.length) ∧
      result.2.reserved = file.reserved := by
  obtain ⟨before, holds, length⟩ := reserves
  obtain ⟨ok, left, -, isFile⟩ := append_spec data holds.inFile
  generalize data.take (transferred file.schedule data.length) = reached at isFile ⊢
  have kept := holds.write reached
  intro result
  have holds' : Holds (before ++ reached) result.2 := by
    rw [isFile]
    exact ⟨kept.position_eq, kept.contents, kept.untouched⟩
  have same : result.2.reserved = file.reserved := by
    rw [isFile]
    rfl
  refine ⟨ok, ⟨before ++ reached, holds', ?_⟩, ?_, same⟩
  · rw [same, isFile]
    change (overwrite file.contents file.position reached).length = _
    rw [length_overwrite_inFile holds.inFile, length, holds.position_eq, List.length_append]
    omega
  · rw [holds'.written_eq, holds.written_eq]

/-- Preparing a write reserves space behind the data. -/
theorem Reserves.prepareWrite (reserves : file.Reserves) (offset len : Nat) :
    (file.prepareWrite offset len).Reserves ∧
      (file.prepareWrite offset len).written = file.written := by
  obtain ⟨data, holds, length⟩ := reserves
  suffices kept : Holds data (file.prepareWrite offset len) ∧
      (file.prepareWrite offset len).contents.length =
        max data.length (file.prepareWrite offset len).reserved by
    exact ⟨⟨data, kept⟩, kept.1.written_eq.trans holds.written_eq.symm⟩
  rcases WritableFile.prepareWriteWith_cases allocate
      (fun block file => { file with lastPreallocatedBlock := block })
      file.preallocationBlockSize file.lastPreallocatedBlock offset len file with
    ⟨-, same⟩ | ⟨-, further, isPrepared⟩
  · rw [PosixWritableFile.prepareWrite, same]
    exact ⟨holds, length⟩
  · have some := Nat.ne_of_gt (Nat.zero_lt_of_lt further)
    rw [PosixWritableFile.prepareWrite, isPrepared]
    unfold allocate
    split
    · rename_i longer
      refine ⟨holds.longer _ rfl rfl some, ?_⟩
      rw [reserved, if_pos longer] at length
      have before := Nat.le_of_lt further
      have blocks := Nat.mul_le_mul_left file.preallocationBlockSize before
      rw [reserved, if_pos longer, ← Nat.mul_add, Nat.add_sub_cancel' before]
      dsimp only
      rw [List.length_append, List.length_replicate, length]
      omega
    · rename_i kept
      refine ⟨holds.longer 0 rfl (List.append_nil _).symm some, ?_⟩
      rw [reserved, if_neg kept] at length ⊢
      exact length

/-- What the writers rely on. -/
theorem leaks : operations.Leaks written Reserves leak where
  append_ok := by
    intro data file reserves succeeds
    obtain ⟨ok, reserves', grown, -⟩ := reserves.append data
    have whole := ok.mp succeeds
    rw [whole, List.take_length] at grown
    exact ⟨by rw [leak, whole, if_neg (Nat.lt_irrefl _)], reserves', grown⟩
  append_failed := by
    intro data file reserves fails
    obtain ⟨ok, reserves', grown, -⟩ := reserves.append data
    have atMost := transferred_le file.schedule data.length
    have partly : transferred file.schedule data.length < data.length := by
      refine Nat.lt_of_le_of_ne atMost fun whole => ?_
      change (append data file).1.ok = false at fails
      rw [ok.mpr whole] at fails
      cases fails
    rw [leak, if_pos partly]
    exact ⟨atMost, reserves', grown⟩
  flush := fun _ reserves => ⟨reserves, rfl⟩
  sync := fun _ reserves => ⟨reserves, rfl⟩
  fsync := fun _ reserves => ⟨reserves, rfl⟩
  rangeSync := fun _ _ _ reserves => ⟨reserves, rfl⟩
  prepareWrite := fun offset len _ reserves => reserves.prepareWrite offset len

end PosixWritableFile
end RocksUtil
