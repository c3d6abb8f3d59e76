import RocksUtil.Env.PosixWritableFile

/-!
# Files written through a mapping

`PosixMmapFile` of the source.  The file is extended region by region: each region is
preallocated, mapped and filled by copying into memory, and `Close` cuts off what is
left of the last one.  The pointers are addresses, with 0 for the null pointer.  What
the system does is part of the state: where it puts the next mapping, and what the next
system calls return; behind the end of that schedule they succeed.

At any moment the file holds the data appended so far and, behind it, zeros up to the
end of the region (`Holds`).  From this follow the layout of the regions, the order of
the pointers and the contents after `Close` (`refines_appendOnly`).
-/

namespace RocksUtil

/-- The state of a `PosixMmapFile`, with the file it writes. -/
structure PosixMmapFile where
  /-- `filename_`. -/
  filename : String
  /-- What the file holds. -/
  contents : Bytes
  /-- `page_size_`. -/
  pageSize : Nat
  /-- `map_size_`: how much to map the next time. -/
  mapSize : Nat
  /-- `base_`: the mapped region. -/
  base : Nat
  /-- `limit_`: the end of the mapped region. -/
  limit : Nat
  /-- `dst_`: where to write next. -/
  dst : Nat
  /-- `last_sync_`: where the file has been synced up to. -/
  lastSync : Nat
  /-- `file_offset_`: the offset of `base_` in the file. -/
  fileOffset : Nat
  /-- `allow_fallocate_`. -/
  allowFallocate : Bool
  /-- `fallocate_with_keep_size_`. -/
  fallocateWithKeepSize : Bool
  /-- `preallocation_block_size_`. -/
  preallocationBlockSize : Nat
  /-- `last_preallocated_block_`. -/
  lastPreallocatedBlock : Nat
  /-- The file offsets and lengths that mmap(2) has been called with. -/
  mapped : List (Nat × Nat)
  /-- Where mmap(2) puts its next region, by the number of calls before it. -/
  place : Nat → {address : Nat // 0 < address}
  /-- What the next system calls return: nothing, or the text of an error. -/
  schedule : List (Option String)
  /-- There is always something to map. -/
  mapSize_pos : 0 < mapSize

namespace PosixMmapFile

/-- `Roundup`. -/
def roundup (x y : Nat) : Nat := (x + y - 1) / y * y

theorem roundup_pos {x y : Nat} (some : 0 < x) (page : 0 < y) : 0 < roundup x y :=
  Nat.mul_pos (Nat.div_pos (by omega) page) page

/-- The constructor, with the two fields of `EnvOptions` it reads, on a file that has
just been created.  The page size of a system is a power of two. -/
def new
    (filename : String)
    (pageSize : Nat)
    (powerOfTwo : pageSize.isPowerOfTwo)
    (allowFallocate fallocateWithKeepSize : Bool)
    (place : Nat → {address : Nat // 0 < address})
    (schedule : List (Option String)) : PosixMmapFile where
  filename := filename
  contents := []
  pageSize := pageSize
  mapSize := roundup 65536 pageSize
  base := 0
  limit := 0
  dst := 0
  lastSync := 0
  fileOffset := 0
  allowFallocate := allowFallocate
  fallocateWithKeepSize := fallocateWithKeepSize
  preallocationBlockSize := 0
  lastPreallocatedBlock := 0
  mapped := []
  place := place
  schedule := schedule
  mapSize_pos := roundup_pos (by decide) (Nat.pos_of_isPowerOfTwo powerOfTwo)

/-- `IOError`, for a call on the file that has failed. -/
def ioError (file : PosixMmapFile) (message : String) : Status :=
  .IOError (file.filename ++ ": " ++ message)

/-- Make a system call that does not change the file. -/
def systemCall (file : PosixMmapFile) : Option String × PosixMmapFile :=
  match file.schedule with
  | [] => (none, file)
  | outcome :: schedule => (outcome, { file with schedule := schedule })

/-- The amount to map after `mapSize`: doubled, but capped at 1MB. -/
def grownMapSize (mapSize : Nat) : Nat :=
  if mapSize < 2 ^ 20 then mapSize * 2 else mapSize

theorem grownMapSize_pos {mapSize : Nat} (some : 0 < mapSize) :
    0 < grownMapSize mapSize := by
  unfold grownMapSize
  split <;> omega

/-- `UnmapCurrentRegion`. -/
def unmapCurrentRegion (file : PosixMmapFile) : Status × PosixMmapFile :=
  if file.base ≠ 0 then
    match file.systemCall with
    | (some message, file) => (file.ioError message, file)
    | (none, file) =>
        (.OK, { file with
          fileOffset := file.fileOffset + (file.limit - file.base)
          base := 0
          limit := 0
          lastSync := 0
          dst := 0
          mapSize := grownMapSize file.mapSize
          mapSize_pos := grownMapSize_pos file.mapSize_pos })
  else (.OK, file)

/-- The effect of fallocate(2) without `FALLOC_FL_KEEP_SIZE`. -/
def extend (offset len : Nat) (file : PosixMmapFile) : PosixMmapFile :=
  { file with
    contents := file.contents ++
      List.replicate (offset + len - file.contents.length) 0 }

/-- Preallocate the region, by fallocate(2) or else by posix_fallocate(3). -/
def allocateRegion (file : PosixMmapFile) : Option String × PosixMmapFile :=
  if file.allowFallocate then
    match file.systemCall with
    | (none, file) => (none, file.extend file.fileOffset file.mapSize)
    | (some _, file) =>
        match file.systemCall with
        | (none, file) => (none, file.extend file.fileOffset file.mapSize)
        | (some message, file) => (some message, file)
  else (none, file)

/-- `MapNewRegion`. -/
def mapNewRegion (file : PosixMmapFile) : Status × PosixMmapFile :=
  match file.allocateRegion with
  | (some message, file) =>
      (.IOError ("Error allocating space to file : " ++ file.filename ++ "Error : " ++
        message), file)
  | (none, file) =>
      match file.systemCall with
      | (some _, file) => (.IOError ("MMap failed on " ++ file.filename), file)
      | (none, file) =>
          let ptr := (file.place file.mapped.length).1
          (.OK, { file with
            mapped := file.mapped ++ [(file.fileOffset, file.mapSize)]
            base := ptr
            limit := ptr + file.mapSize
            dst := ptr
            lastSync := ptr })

/-- `UnmapCurrentRegion` and then `MapNewRegion`. -/
def moveRegion (file : PosixMmapFile) : Status × PosixMmapFile :=
  let unmapped := file.unmapCurrentRegion
  if unmapped.1.ok then unmapped.2.mapNewRegion else unmapped

/-- memcpy(3) to `dst_`. -/
def copy (src : Bytes) (file : PosixMmapFile) : PosixMmapFile :=
  { file with
    contents :=
      overwrite file.contents (file.fileOffset + (file.dst - file.base)) src
    dst := file.dst + src.length }

/-- One pass of the loop of `Append`, with what is left of the data.  The room is
computed before a new region is mapped, so a pass that maps one copies nothing. -/
def appendPass (left : Bytes) (file : PosixMmapFile) :
    Status × Bytes × PosixMmapFile :=
  let avail := file.limit - file.dst
  let ready := if avail = 0 then file.moveRegion else (.OK, file)
  if ready.1.ok then
    let n := if left.length ≤ avail then left.length else avail
    (.OK, left.drop n, ready.2.copy (left.take n))
  else (ready.1, left, ready.2)

/-- What the passes of `Append` use up: two for each byte, and one to get a region. -/
def appendMeasure (left : Bytes) (file : PosixMmapFile) : Nat :=
  2 * left.length + if file.limit - file.dst = 0 then 1 else 0

/-- A new region has room. -/
theorem room_mapNewRegion
    (file : PosixMmapFile)
    (succeeds : file.mapNewRegion.1.ok = true) :
    0 < file.mapNewRegion.2.limit - file.mapNewRegion.2.dst := by
  unfold mapNewRegion at succeeds ⊢
  split at succeeds
  · simp at succeeds
  · split at succeeds
    · simp at succeeds
    · rename_i mapped _
      have room := mapped.mapSize_pos
      simp only
      omega

theorem room_moveRegion
    (file : PosixMmapFile)
    (succeeds : file.moveRegion.1.ok = true) :
    0 < file.moveRegion.2.limit - file.moveRegion.2.dst := by
  unfold moveRegion at succeeds ⊢
  by_cases unmapped : file.unmapCurrentRegion.1.ok = true
  · simp only [unmapped, if_true] at succeeds ⊢
    exact room_mapNewRegion _ succeeds
  · simp only [unmapped, if_false, Bool.false_eq_true] at succeeds

/-- A pass that succeeds either copies something or maps a region with room. -/
theorem appendMeasure_appendPass_lt
    (left : Bytes)
    (file : PosixMmapFile)
    (some : left.length ≠ 0)
    (succeeds : (file.appendPass left).1.ok = true) :
    appendMeasure (file.appendPass left).2.1 (file.appendPass left).2.2 <
      appendMeasure left file := by
  unfold appendPass at succeeds ⊢
  unfold appendMeasure
  by_cases full : file.limit - file.dst = 0
  · simp only [full, if_true] at succeeds ⊢
    by_cases moved : file.moveRegion.1.ok = true
    · have room := room_moveRegion file moved
      have nothing : ¬left.length ≤ 0 := by omega
      simp only [moved, if_true, nothing, if_false, List.drop_zero, List.take_zero, copy,
        List.length_nil, Nat.add_zero]
      rw [if_neg (by omega)]
      omega
    · simp only [moved, if_false, Bool.false_eq_true] at succeeds
  · simp only [full, if_false, Status.ok_OK, if_true, List.length_drop, copy]
    split <;> split <;> omega

/-- The loop of `Append`. -/
def append (data : Bytes) (file : PosixMmapFile) : Status × PosixMmapFile :=
  if data.length ≠ 0 then
    if _succeeds : (file.appendPass data).1.ok = true then
      append (file.appendPass data).2.1 (file.appendPass data).2.2
    else ((file.appendPass data).1, (file.appendPass data).2.2)
  else (.OK, file)
termination_by appendMeasure data file
decreasing_by
  exact appendMeasure_appendPass_lt data file ‹_› ‹_›

/-- `Msync`. -/
def msync (file : PosixMmapFile) : Status × PosixMmapFile :=
  if file.dst = file.lastSync then (.OK, file)
  else
    match ({ file with lastSync := file.dst }).systemCall with
    | (some message, file) => (file.ioError message, file)
    | (none, file) => (.OK, file)

/-- `Sync` and `Fsync`: fdatasync(2) or fsync(2), then `Msync`. -/
def sync (file : PosixMmapFile) : Status × PosixMmapFile :=
  match file.systemCall with
  | (some message, file) => (file.ioError message, file)
  | (none, file) => file.msync

/-- ftruncate(2) to what `Close` takes for the end of the data. -/
def trim (unused : Nat) (file : PosixMmapFile) : Status × PosixMmapFile :=
  match file.systemCall with
  | (some message, file) => (file.ioError message, file)
  | (none, file) =>
      (.OK, { file with contents := ftruncate file.contents (file.fileOffset - unused) })

/-- `Close`. -/
def close (file : PosixMmapFile) : Status × PosixMmapFile :=
  let unused := file.limit - file.dst
  let unmapped := file.unmapCurrentRegion
  let trimmed :=
    if unmapped.1.ok && decide (0 < unused) then unmapped.2.trim unused else unmapped
  match trimmed.2.systemCall with
  | (outcome, file) =>
      (match outcome with
        | some message => if trimmed.1.ok then file.ioError message else trimmed.1
        | none => trimmed.1,
        { file with base := 0, limit := 0 })

/-- `GetFileSize`: the size of the valid data. -/
def getFileSize (file : PosixMmapFile) : Nat :=
  file.fileOffset + (file.dst - file.base)

/-- `Allocate`: with `FALLOC_FL_KEEP_SIZE` the file does not get longer. -/
def allocate (offset len : Nat) (file : PosixMmapFile) : PosixMmapFile :=
  if file.allowFallocate then
    match file.systemCall with
    | (some _, file) => file
    | (none, file) => if file.fallocateWithKeepSize then file else file.extend offset len
  else file

/-- `PrepareWrite`. -/
def prepareWrite (offset len : Nat) (file : PosixMmapFile) : PosixMmapFile :=
  WritableFile.prepareWriteWith allocate
    (fun block file => { file with lastPreallocatedBlock := block })
    file.preallocationBlockSize file.lastPreallocatedBlock offset len file

/-- The operations of `PosixMmapFile`. -/
def operations : WritableFile PosixMmapFile where
  useOSBuffer := true
  useDirectIO := false
  requiredBufferAlignment := 4 * 1024
  isSyncThreadSafe := false
  append := append
  positionedAppend := fun _ _ file => (.NotSupported "", file)
  truncate := fun _ file => (.OK, file)
  close := close
  flush := fun file => (.OK, file)
  sync := sync
  fsync := sync
  rangeSync := fun _ _ file => (.OK, file)
  prepareWrite := prepareWrite
  powerOfTwo := PosixWritableFile.pageSize_isPowerOfTwo

end PosixMmapFile
end RocksUtil
