import RocksUtil.Env.PosixMmapFile

/-!
# What a mapped file holds

As long as every system call succeeds, a `PosixMmapFile` holds the data appended to it
and zeros up to the end of the mapped region (`Holds`).  Every step of `Append` keeps
this, between mapping and copying too, so that the file can be compared with a plain
append-only file at any moment (`refines_appendOnly`).
-/

namespace RocksUtil
namespace PosixMmapFile

/-- Regions of a file, the first at `offset`, each at the end of the one before it, and
the last one up to `finish`. -/
def Consecutive : Nat → List (Nat × Nat) → Nat → Prop
  | offset, [], finish => offset = finish
  | offset, region :: regions, finish =>
      region.1 = offset ∧ Consecutive (offset + region.2) regions finish

theorem Consecutive.snoc
    {offset finish : Nat}
    {regions : List (Nat × Nat)}
    (consecutive : Consecutive offset regions finish)
    (len : Nat) :
    Consecutive offset (regions ++ [(finish, len)]) (finish + len) := by
  induction regions generalizing offset with
  | nil =>
      have same : offset = finish := consecutive
      exact ⟨same.symm, congrArg (· + len) same⟩
  | cons region regions inductionHypothesis =>
      exact ⟨consecutive.1, inductionHypothesis consecutive.2⟩

/-- The pointers of a mapped region. -/
def Ordered (file : PosixMmapFile) : Prop :=
  file.base ≠ 0 →
    file.base ≤ file.lastSync ∧ file.lastSync ≤ file.dst ∧ file.dst ≤ file.limit

/-- The calls of mmap(2): whole pages, one region behind the other from the start of
the file, and the last one is the region that is mapped. -/
structure Regions (file : PosixMmapFile) : Prop where
  consecutive :
    Consecutive 0 file.mapped (file.fileOffset + (file.limit - file.base))
  aligned : ∀ region ∈ file.mapped,
    file.pageSize ∣ region.1 ∧ file.pageSize ∣ region.2
  current : file.base ≠ 0 →
    file.mapped.getLast? = some (file.fileOffset, file.limit - file.base)

/-- The file holds `data` and zeros up to the end of the region, and its fields agree
with that; no system call has failed or will fail. -/
structure Holds (data : Bytes) (file : PosixMmapFile) : Prop where
  schedule : file.schedule = []
  allowFallocate : file.allowFallocate = true
  contents : file.contents = data ++ List.replicate (file.limit - file.dst) 0
  size : file.getFileSize = data.length
  base_le : file.base ≤ file.lastSync
  lastSync_le : file.lastSync ≤ file.dst
  dst_le : file.dst ≤ file.limit
  unmapped : file.base = 0 → file.limit = 0
  fileOffset : file.pageSize ∣ file.fileOffset
  region : file.pageSize ∣ file.limit - file.base
  mapSize : file.pageSize ∣ file.mapSize
  regions : file.Regions

section Calls

variable {data : Bytes} {file : PosixMmapFile}

theorem systemCall_of_nil (done : file.schedule = []) :
    file.systemCall = (none, file) := by
  unfold systemCall
  rw [done]

theorem allocateRegion_of_nil
    (done : file.schedule = [])
    (allowed : file.allowFallocate = true) :
    file.allocateRegion = (none, file.extend file.fileOffset file.mapSize) := by
  rw [allocateRegion, if_pos allowed, systemCall_of_nil done]

theorem Holds.ordered (holds : Holds data file) : file.Ordered :=
  fun _ => ⟨holds.base_le, holds.lastSync_le, holds.dst_le⟩

theorem dvd_grownMapSize {pageSize mapSize : Nat} (whole : pageSize ∣ mapSize) :
    pageSize ∣ grownMapSize mapSize := by
  unfold grownMapSize
  split
  · exact Nat.dvd_mul_right_of_dvd whole 2
  · exact whole

/-- A full region is given back, and then nothing is mapped. -/
theorem Holds.unmapCurrentRegion
    (holds : Holds data file)
    (full : file.limit - file.dst = 0) :
    file.unmapCurrentRegion.1 = .OK ∧ file.unmapCurrentRegion.2.base = 0 ∧
      Holds data file.unmapCurrentRegion.2 := by
  have size := holds.size
  have base_le := holds.base_le
  have lastSync_le := holds.lastSync_le
  have dst_le := holds.dst_le
  have atEnd : file.dst = file.limit := by omega
  by_cases isMapped : file.base ≠ 0
  · unfold PosixMmapFile.unmapCurrentRegion
    rw [if_pos isMapped, systemCall_of_nil holds.schedule]
    refine ⟨rfl, rfl, ?_⟩
    constructor
    case schedule => exact holds.schedule
    case allowFallocate => exact holds.allowFallocate
    case contents => simpa only [full] using holds.contents
    case size => simpa only [getFileSize, atEnd, Nat.sub_self, Nat.add_zero] using size
    case fileOffset => exact Nat.dvd_add holds.fileOffset holds.region
    case mapSize => exact dvd_grownMapSize holds.mapSize
    case regions =>
      exact ⟨holds.regions.consecutive, holds.regions.aligned, fun wrong => absurd rfl wrong⟩
    all_goals simp
  · unfold PosixMmapFile.unmapCurrentRegion
    rw [if_neg isMapped]
    exact ⟨rfl, not_not.mp isMapped, holds⟩

/-- The next region starts where the data ends. -/
theorem Holds.mapNewRegion
    (holds : Holds data file)
    (nothing : file.base = 0) :
    file.mapNewRegion.1 = .OK ∧ Holds data file.mapNewRegion.2 := by
  have limit := holds.unmapped nothing
  have dst : file.dst = 0 := by
    have := holds.dst_le
    omega
  have size : file.fileOffset = data.length := by
    have := holds.size
    rw [getFileSize] at this
    omega
  have contents : file.contents = data := by
    rw [holds.contents, limit, Nat.zero_sub, List.replicate_zero, List.append_nil]
  have behind : Consecutive 0 file.mapped file.fileOffset := by
    simpa only [limit, nothing, Nat.sub_self, Nat.add_zero]
      using holds.regions.consecutive
  have somewhere := (file.place file.mapped.length).2
  unfold PosixMmapFile.mapNewRegion
  rw [allocateRegion_of_nil holds.schedule holds.allowFallocate]
  have extended : (file.extend file.fileOffset file.mapSize).schedule = [] :=
    holds.schedule
  simp only
  rw [systemCall_of_nil extended]
  refine ⟨rfl, ?_⟩
  constructor
  case schedule => exact holds.schedule
  case allowFallocate => exact holds.allowFallocate
  case contents =>
    simp only [extend, contents, size]
    congr 2
    omega
  case size => simp [getFileSize, extend, size]
  case base_le => exact le_rfl
  case lastSync_le => exact le_rfl
  case dst_le => exact Nat.le_add_right _ _
  case unmapped => exact fun wrong => absurd wrong (by simp only [extend]; omega)
  case fileOffset => exact holds.fileOffset
  case region => simpa [extend] using holds.mapSize
  case mapSize => exact holds.mapSize
  case regions =>
    constructor
    case consecutive => simpa [extend] using behind.snoc file.mapSize
    case aligned =>
      intro region member
      rcases List.mem_append.mp member with before | last
      · exact holds.regions.aligned region before
      · rw [List.mem_singleton.mp last]
        exact ⟨holds.fileOffset, holds.mapSize⟩
    case current => simp [extend]

theorem Holds.moveRegion
    (holds : Holds data file)
    (full : file.limit - file.dst = 0) :
    file.moveRegion.1 = .OK ∧ Holds data file.moveRegion.2 := by
  obtain ⟨succeeds, nothing, unmapped⟩ := holds.unmapCurrentRegion full
  unfold PosixMmapFile.moveRegion
  simp only [succeeds, Status.ok_OK, if_true]
  exact unmapped.mapNewRegion nothing

/-- Behind the front, the data replaces as much as it is long. -/
theorem overwrite_middle
    (front rest src : Bytes) :
    overwrite (front ++ rest) front.length src = front ++ src ++ rest.drop src.length := by
  have inFile : front.length - (front ++ rest).length = 0 := by
    rw [List.length_append]
    omega
  rw [overwrite, inFile, List.replicate_zero, List.append_nil, List.take_left,
    List.drop_append, List.drop_of_length_le (Nat.le_add_right _ _), List.nil_append,
    Nat.add_sub_cancel_left]

/-- What is copied into the region takes the place of zeros. -/
theorem Holds.copy
    (holds : Holds data file)
    (src : Bytes)
    (room : src.length ≤ file.limit - file.dst) :
    Holds (data ++ src) (file.copy src) := by
  have size := holds.size
  have base_le := holds.base_le
  have lastSync_le := holds.lastSync_le
  have dst_le := holds.dst_le
  rw [getFileSize] at size
  constructor
  case schedule => exact holds.schedule
  case allowFallocate => exact holds.allowFallocate
  case contents =>
    simp only [PosixMmapFile.copy]
    rw [holds.contents, size, overwrite_middle, List.drop_replicate, Nat.sub_sub]
  case size =>
    simp only [PosixMmapFile.copy, getFileSize, List.length_append]
    omega
  case base_le => exact base_le
  case lastSync_le => exact Nat.le_add_right_of_le lastSync_le
  case dst_le =>
    simp only [PosixMmapFile.copy]
    omega
  case unmapped => exact holds.unmapped
  case fileOffset => exact holds.fileOffset
  case region => exact holds.region
  case mapSize => exact holds.mapSize
  case regions =>
    exact ⟨holds.regions.consecutive, holds.regions.aligned, holds.regions.current⟩

/-- A pass of the loop appends what it takes. -/
theorem Holds.appendPass
    (holds : Holds data file)
    (left : Bytes) :
    (file.appendPass left).1 = .OK ∧
      ∃ count, (file.appendPass left).2.1 = left.drop count ∧
        Holds (data ++ left.take count) (file.appendPass left).2.2 := by
  unfold PosixMmapFile.appendPass
  by_cases full : file.limit - file.dst = 0
  · obtain ⟨succeeds, moved⟩ := holds.moveRegion full
    simp only [full, if_true, succeeds, Status.ok_OK, true_and]
    refine ⟨_, rfl, moved.copy _ ?_⟩
    have nothing : (left.take (if left.length ≤ 0 then left.length else 0)).length = 0 := by
      rw [List.length_take]
      split <;> omega
    omega
  · simp only [full, if_false, Status.ok_OK, if_true, true_and]
    refine ⟨_, rfl, holds.copy _ ?_⟩
    rw [List.length_take]
    split <;> omega

theorem Holds.append (holds : Holds data file) (src : Bytes) :
    (file.append src).1 = .OK ∧ Holds (data ++ src) (file.append src).2 := by
  induction src, file using PosixMmapFile.append.induct generalizing data with
  | case1 src file some _ inductionHypothesis =>
      obtain ⟨succeeds, count, rest, passed⟩ := holds.appendPass src
      obtain ⟨appends, appended⟩ := inductionHypothesis passed
      rw [PosixMmapFile.append, if_pos some, dif_pos (by rw [succeeds, Status.ok_OK])]
      refine ⟨appends, ?_⟩
      have whole : data ++ src.take count ++ (file.appendPass src).2.1 = data ++ src := by
        rw [rest, List.append_assoc, List.take_append_drop]
      rwa [whole] at appended
  | case2 src file some fails =>
      have succeeds := (holds.appendPass src).1
      rw [succeeds] at fails
      exact absurd rfl fails
  | case3 src file nothing =>
      rw [PosixMmapFile.append, if_neg nothing]
      have empty : src = [] := List.length_eq_zero_iff.mp (not_not.mp nothing)
      rw [empty, List.append_nil]
      exact ⟨rfl, holds⟩

theorem Holds.sync (holds : Holds data file) :
    file.sync.1 = .OK ∧ Holds data file.sync.2 := by
  have base_le := holds.base_le
  have lastSync_le := holds.lastSync_le
  unfold PosixMmapFile.sync
  rw [systemCall_of_nil holds.schedule]
  simp only [msync]
  split
  · exact ⟨rfl, holds⟩
  · have synced : Holds data { file with lastSync := file.dst } :=
      { holds with
        base_le := Nat.le_trans base_le lastSync_le
        lastSync_le := Nat.le_refl _
        regions :=
          ⟨holds.regions.consecutive, holds.regions.aligned, holds.regions.current⟩ }
    rw [systemCall_of_nil synced.schedule]
    exact ⟨rfl, synced⟩

theorem ftruncate_append (front rest : Bytes) :
    ftruncate (front ++ rest) front.length = front := by
  rw [ftruncate, List.append_assoc, List.take_left]

/-- `Close` leaves the data. -/
theorem Holds.close (holds : Holds data file) :
    file.close.1 = .OK ∧ file.close.2.contents = data := by
  have size := holds.size
  have base_le := holds.base_le
  have lastSync_le := holds.lastSync_le
  have dst_le := holds.dst_le
  rw [getFileSize] at size
  by_cases full : file.limit - file.dst = 0
  · obtain ⟨succeeds, nothing, unmapped⟩ := holds.unmapCurrentRegion full
    have contents : file.unmapCurrentRegion.2.contents = data := by
      rw [unmapped.contents, unmapped.unmapped nothing, Nat.zero_sub, List.replicate_zero,
        List.append_nil]
    unfold PosixMmapFile.close
    simp only [full, Nat.lt_irrefl, decide_false, Bool.and_false, Bool.false_eq_true,
      if_false, systemCall_of_nil unmapped.schedule]
    exact ⟨succeeds, contents⟩
  · have isMapped : file.base ≠ 0 := by
      intro nothing
      have := holds.unmapped nothing
      omega
    have finish : file.fileOffset + (file.limit - file.base) - (file.limit - file.dst) =
        data.length := by
      omega
    have some : 0 < file.limit - file.dst := Nat.pos_of_ne_zero full
    unfold PosixMmapFile.close PosixMmapFile.unmapCurrentRegion
    simp only [if_pos isMapped, Status.ok_OK, some, decide_true, Bool.and_self, if_true,
      trim, systemCall, holds.schedule]
    refine ⟨trivial, ?_⟩
    rw [finish, holds.contents, ftruncate_append]

end Calls

/-! ## Runs -/

/-- The calls a file gets before `Close`. -/
inductive Call
  /-- `Append(data)`. -/
  | append (data : Bytes)
  /-- `Sync()` or `Fsync()`. -/
  | sync

/-- What a call appends. -/
def Call.data : Call → Bytes
  | .append data => data
  | .sync => []

/-- Make a call. -/
def call (file : PosixMmapFile) : Call → Status × PosixMmapFile
  | .append data => file.append data
  | .sync => file.sync

/-- Make calls one after another; the statuses are those the calls return. -/
def run (file : PosixMmapFile) : List Call → List Status × PosixMmapFile
  | [] => ([], file)
  | call :: calls =>
      let returned := file.call call
      let rest := returned.2.run calls
      (returned.1 :: rest.1, rest.2)

/-- The states a file can be in, with the data appended so far and what is left of the
data of the `Append` that is running: between two calls, and between two passes of the
loop of `Append`. -/
inductive Reached (start : PosixMmapFile) : Bytes → Bytes → PosixMmapFile → Prop
  | start : Reached start [] [] start
  | append {data : Bytes} {file : PosixMmapFile}
      (reached : Reached start data [] file)
      (src : Bytes) :
      Reached start data src file
  | pass {data left : Bytes} {file : PosixMmapFile}
      (reached : Reached start data left file)
      (some : left.length ≠ 0)
      (succeeds : (file.appendPass left).1.ok = true) :
      Reached start
        (data ++ left.take (left.length - (file.appendPass left).2.1.length))
        (file.appendPass left).2.1 (file.appendPass left).2.2
  | sync {data : Bytes} {file : PosixMmapFile}
      (reached : Reached start data [] file) :
      Reached start data [] file.sync.2

/-- The states inside a pass that maps a region: behind `UnmapCurrentRegion`, and behind
`MapNewRegion`. -/
inductive Within (file : PosixMmapFile) : PosixMmapFile → Prop
  | unmapped (full : file.limit - file.dst = 0) : Within file file.unmapCurrentRegion.2
  | mapped (full : file.limit - file.dst = 0) : Within file file.moveRegion.2

/-- What a plain append-only file with `data` in it would show of a mapped file. -/
structure Refines (data : Bytes) (file : PosixMmapFile) : Prop where
  ordered : file.Ordered
  regions : file.Regions
  size : file.getFileSize = data.length
  stored : ∀ i < data.length, file.contents[i]? = data[i]?

theorem Holds.refines {data : Bytes} {file : PosixMmapFile} (holds : Holds data file) :
    Refines data file where
  ordered := holds.ordered
  regions := holds.regions
  size := holds.size
  stored := fun i inData => by rw [holds.contents, List.getElem?_append_left inData]

section Runs

variable {data left : Bytes} {file start : PosixMmapFile}

theorem Holds.within
    {inside : PosixMmapFile}
    (holds : Holds data file)
    (within : Within file inside) :
    Holds data inside := by
  cases within with
  | unmapped full => exact (holds.unmapCurrentRegion full).2.2
  | mapped full => exact (holds.moveRegion full).2

theorem Holds.appendPass_take
    (holds : Holds data file)
    (left : Bytes) :
    Holds (data ++ left.take (left.length - (file.appendPass left).2.1.length))
      (file.appendPass left).2.2 := by
  obtain ⟨-, count, rest, passed⟩ := holds.appendPass left
  have taken : left.take (left.length - (left.drop count).length) = left.take count := by
    rw [List.length_drop]
    rcases Nat.le_total count left.length with inside | past
    · rw [Nat.sub_sub_self inside]
    · rw [List.take_of_length_le (by omega), List.take_of_length_le past]
  rwa [rest, taken]

/-- One step of a run. -/
theorem Holds.reached
    (holds : Holds [] start)
    (reached : Reached start data left file) :
    Holds data file := by
  induction reached with
  | start => exact holds
  | append _ _ inductionHypothesis => exact inductionHypothesis
  | pass _ _ _ inductionHypothesis => exact inductionHypothesis.appendPass_take _
  | sync _ inductionHypothesis => exact inductionHypothesis.sync.2

/-- The passes of `Append` lead from its start to its end. -/
theorem Reached.append_all
    (holds : Holds data file)
    (reached : Reached start data left file) :
    Reached start (data ++ left) [] (file.append left).2 := by
  induction left, file using PosixMmapFile.append.induct generalizing data with
  | case1 left file some _ inductionHypothesis =>
      have succeeds := (holds.appendPass left).1
      have passed := holds.appendPass_take left
      obtain ⟨-, count, rest, -⟩ := holds.appendPass left
      rw [PosixMmapFile.append, if_pos some, dif_pos (by rw [succeeds, Status.ok_OK])]
      have next := inductionHypothesis passed
        (reached.pass some (by rw [succeeds, Status.ok_OK]))
      have whole : left.take (left.length - (file.appendPass left).2.1.length) ++
          (file.appendPass left).2.1 = left := by
        rw [rest, List.length_drop]
        rcases Nat.le_total count left.length with inside | past
        · rw [Nat.sub_sub_self inside, List.take_append_drop]
        · rw [List.drop_of_length_le past, List.append_nil,
            List.take_of_length_le (by omega)]
      rwa [List.append_assoc, whole] at next
  | case2 left file some fails =>
      rw [(holds.appendPass left).1] at fails
      exact absurd rfl fails
  | case3 left file nothing =>
      rw [PosixMmapFile.append, if_neg nothing]
      have empty : left = [] := List.length_eq_zero_iff.mp (not_not.mp nothing)
      rw [empty] at reached ⊢
      rwa [List.append_nil]

/-- Every call succeeds, and a run is made of steps. -/
theorem Holds.run
    (holds : Holds data file)
    (reached : Reached start data [] file)
    (calls : List Call) :
    (∀ status ∈ (file.run calls).1, status = .OK) ∧
      Holds (data ++ calls.flatMap Call.data) (file.run calls).2 ∧
      Reached start (data ++ calls.flatMap Call.data) [] (file.run calls).2 := by
  induction calls generalizing data file with
  | nil =>
      rw [List.flatMap_nil, List.append_nil]
      exact ⟨fun _ member => absurd member List.not_mem_nil, holds, reached⟩
  | cons call calls inductionHypothesis =>
      have called : (file.call call).1 = .OK ∧ Holds (data ++ call.data) (file.call call).2 ∧
          Reached start (data ++ call.data) [] (file.call call).2 := by
        cases call with
        | append src =>
            exact ⟨(holds.append src).1, (holds.append src).2,
              (reached.append src).append_all holds⟩
        | sync =>
            simp only [Call.data, List.append_nil]
            exact ⟨holds.sync.1, holds.sync.2, reached.sync⟩
      obtain ⟨rest, keeps, reaches⟩ := inductionHypothesis called.2.1 called.2.2
      rw [List.flatMap_cons, ← List.append_assoc]
      refine ⟨fun status member => ?_, keeps, reaches⟩
      rcases List.mem_cons.mp member with first | later
      · exact first.trans called.1
      · exact rest status later

end Runs

theorem holds_new
    (filename : String)
    (pageSize : Nat)
    (powerOfTwo : pageSize.isPowerOfTwo)
    (fallocateWithKeepSize : Bool)
    (place : Nat → {address : Nat // 0 < address}) :
    Holds []
      (new filename pageSize powerOfTwo true fallocateWithKeepSize place []) where
  schedule := rfl
  allowFallocate := rfl
  contents := rfl
  size := rfl
  base_le := Nat.le_refl _
  lastSync_le := Nat.le_refl _
  dst_le := Nat.le_refl _
  unmapped := fun _ => rfl
  fileOffset := Nat.dvd_zero _
  region := Nat.dvd_zero _
  mapSize := Nat.dvd_mul_left _ _
  regions :=
    ⟨rfl, fun _ member => absurd member List.not_mem_nil, fun wrong => absurd rfl wrong⟩

/-- A mapped file refines an append-only file.  In every state it reaches, the pointers
are in order, the regions are whole pages one behind the other, and the size and the
data in front of it are those of what has been appended; each run of calls succeeds,
ends with nothing left to append, and `Close` leaves exactly what the calls appended. -/
theorem refines_appendOnly
    (filename : String)
    (pageSize : Nat)
    (powerOfTwo : pageSize.isPowerOfTwo)
    (fallocateWithKeepSize : Bool)
    (place : Nat → {address : Nat // 0 < address}) :
    ∃ start,
      start = new filename pageSize powerOfTwo true fallocateWithKeepSize place [] ∧
      (∀ data left file, Reached start data left file →
        Refines data file ∧ ∀ inside, Within file inside → Refines data inside) ∧
      ∀ calls : List Call,
        (∀ status ∈ (start.run calls).1, status = .OK) ∧
        Reached start (calls.flatMap Call.data) [] (start.run calls).2 ∧
        (start.run calls).2.close.1 = .OK ∧
        (start.run calls).2.close.2.contents = calls.flatMap Call.data := by
  refine ⟨_, rfl, ?_, ?_⟩
  · intro data left file reached
    have holds :=
      (holds_new filename pageSize powerOfTwo fallocateWithKeepSize place).reached reached
    exact ⟨holds.refines, fun inside within => (holds.within within).refines⟩
  · intro calls
    obtain ⟨succeed, keeps, reaches⟩ :=
      (holds_new filename pageSize powerOfTwo fallocateWithKeepSize place).run .start calls
    rw [List.nil_append] at keeps reaches
    exact ⟨succeed, reaches, keeps.close.1, keeps.close.2⟩

/-- Two slices and a sync with pages of 4096 bytes. -/
theorem refines_appendOnly_page :
    ∃ start,
      start = new "000001.log" 4096 ⟨12, rfl⟩ true true (fun _ => ⟨1, by decide⟩) [] ∧
      (start.run [.append [1, 2], .sync, .append [3]]).2.close.2.contents = [1, 2, 3] := by
  obtain ⟨start, isNew, -, runs⟩ :=
    refines_appendOnly "000001.log" 4096 ⟨12, rfl⟩ true fun _ => ⟨1, by decide⟩
  exact ⟨start, isNew, (runs [.append [1, 2], .sync, .append [3]]).2.2.2⟩

end PosixMmapFile
end RocksUtil
