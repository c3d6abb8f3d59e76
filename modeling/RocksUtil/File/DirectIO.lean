import RocksUtil.Env.PosixWritableFile
import RocksUtil.File.Paged

/-!
# The end of a file written by direct I/O

The writer pads the last page and leaves it to `Truncate` to cut the padding off.
`PosixDirectIOWritableFile` leaves that to its `Close`, which trims the file only if
space has been preallocated, and then to a size that counts the last write twice.  So the
file ends where the data ends only if there is nothing to trim (`close_iff`).
-/

namespace RocksUtil

namespace PosixWritableFile

/-- The length of a page. -/
abbrev pageSize : Nat := directIOOperations.requiredBufferAlignment

/-- The states of a file that is written by direct I/O without errors, with the blocks
that `PrepareWrite` preallocates; `begun` says that it has prepared a write of some
data. -/
structure Direct (blockSize : Nat) (begun : Prop) (file : PosixWritableFile) : Prop where
  noError : ∀ call ∈ file.schedule, call.fails = false
  whole : pageSize ∣ file.contents.length
  keepSize : file.fallocateWithKeepSize = true
  blockSize_eq : file.preallocationBlockSize = blockSize
  unallocated : blockSize = 0 → file.lastPreallocatedBlock = 0
  allocated : begun → blockSize ≠ 0 → 0 < file.lastPreallocatedBlock
  filesize_eq : file.contents = [] → file.filesize = 0
  filesize_gt : file.contents ≠ [] → file.contents.length < file.filesize

variable {blockSize : Nat} {begun begun' : Prop} {file : PosixWritableFile}

theorem overwrite_inFile
    {contents data : Bytes}
    {offset : Nat}
    (inFile : offset ≤ contents.length)
    (further : contents.length ≤ offset + data.length) :
    (overwrite contents offset data).length = offset + data.length := by
  rw [length_overwrite_inFile inFile]
  omega

theorem Direct.positionedAppend
    (direct : Direct blockSize begun file)
    {data : Bytes}
    {offset : Nat}
    (atPage : pageSize ∣ offset)
    (whole : pageSize ∣ data.length)
    (some : 0 < data.length)
    (inFile : offset ≤ file.contents.length)
    (further : file.contents.length ≤ offset + data.length) :
    let result := directIOOperations.positionedAppend data offset file
    result.1.ok = true ∧ Direct blockSize begun result.2 ∧
      result.2.contents = overwrite file.contents offset data := by
  have sector (size : Nat) (pages : pageSize ∣ size) : isSectorAligned size = true := by
    have sectors : kSectorSize ∣ size := Nat.dvd_trans ⟨8, rfl⟩ pages
    simp [isSectorAligned, Nat.mod_eq_zero_of_dvd sectors]
  obtain ⟨left, isLeft, written⟩ := positionedAppendLoop_spec direct.noError data inFile
  have size := overwrite_inFile inFile further
  intro result
  have isResult : result = (.OK, { file.pwrite offset data with
      schedule := left
      filesize := offset + data.length + data.length }) := by
    simp [result, directIOOperations, directPositionedAppend, sector _ atPage,
      sector _ whole, PosixWritableFile.positionedAppend, written]
  rw [isResult]
  refine ⟨rfl, ⟨isLeft, ?_, direct.keepSize, direct.blockSize_eq, direct.unallocated,
    direct.allocated, ?_, ?_⟩, rfl⟩
  · change _ ∣ (overwrite file.contents offset data).length
    rw [size]
    exact Nat.dvd_add atPage whole
  · intro empty
    change overwrite file.contents offset data = [] at empty
    rw [empty, List.length_nil] at size
    omega
  · intro _
    change (overwrite file.contents offset data).length < offset + data.length + data.length
    omega

/-- Preparing a write of some data preallocates a block. -/
theorem Direct.prepareWrite
    (direct : Direct blockSize begun file)
    {offset len : Nat}
    (grows : begun' → begun ∨ 0 < len) :
    Direct blockSize begun' (file.prepareWrite offset len) ∧
      (file.prepareWrite offset len).contents = file.contents := by
  have isBlockSize := direct.blockSize_eq
  rcases WritableFile.prepareWriteWith_cases allocate
      (fun block file => { file with lastPreallocatedBlock := block })
      file.preallocationBlockSize file.lastPreallocatedBlock offset len file with
    ⟨enough, same⟩ | ⟨some, further, isPrepared⟩
  · rw [PosixWritableFile.prepareWrite, same]
    refine ⟨{ direct with allocated := fun begins positive => ?_ }, rfl⟩
    rcases grows begins with before | now
    · exact direct.allocated before positive
    · have blocks := enough (by omega)
      have first := Nat.div_pos
        (show file.preallocationBlockSize ≤ offset + len + file.preallocationBlockSize - 1 by
          omega) (by omega)
      omega
  · rw [PosixWritableFile.prepareWrite, isPrepared, allocate, direct.keepSize,
      Bool.not_true, Bool.and_false, if_neg Bool.false_ne_true]
    refine ⟨{ direct with
      unallocated := fun zero => ?_
      allocated := fun _ _ => Nat.zero_lt_of_lt further }, rfl⟩
    rw [isBlockSize, zero] at some
    exact absurd some (Nat.lt_irrefl 0)

/-- What the writers rely on, once a write has been prepared. -/
theorem directWritesPages (blockSize : Nat) (begun : Prop) :
    directIOOperations.WritesPages contents (Direct blockSize begun) where
  positionedAppend := by
    intro data offset file direct atPage whole some inFile further
    exact direct.positionedAppend atPage whole some inFile further
  flush := fun _ direct => ⟨rfl, direct, rfl⟩
  sync := fun _ direct => ⟨rfl, direct, rfl⟩
  fsync := fun _ direct => ⟨rfl, direct, rfl⟩
  rangeSync := fun _ _ _ direct => ⟨rfl, direct, rfl⟩
  prepareWrite := fun offset len file direct =>
    direct.prepareWrite fun some => .inl some

end PosixWritableFile

namespace WritableFileWriter

open PosixWritableFile (Direct directIOOperations directWritesPages pageSize)

variable {blockSize : Nat} {data : Bytes} {writer : WritableFileWriter PosixWritableFile}

/-- A writer by direct I/O that has accepted `data`. -/
abbrev DirectFor
    (blockSize : Nat)
    (data : Bytes)
    (writer : WritableFileWriter PosixWritableFile) : Prop :=
  PagedFor directIOOperations PosixWritableFile.contents (Direct blockSize (data ≠ []))
    data writer

theorem DirectFor.call
    (direct : DirectFor blockSize data writer)
    (next : Call) :
    let result := writer.call directIOOperations next
    result.1.ok = true ∧ DirectFor blockSize (data ++ next.data) result.2 := by
  have writes := directWritesPages blockSize (data ≠ [])
  cases next with
  | append more =>
      obtain ⟨prepared, same⟩ := @Direct.prepareWrite blockSize (data ≠ [])
        (data ++ more ≠ []) writer.writableFile direct.paged.isValid writer.filesize
        more.length (by
          intro some
          by_cases before : data = []
          · right
            rw [before, List.nil_append] at some
            exact List.length_pos_iff.mpr some
          · exact .inl before)
      exact direct.append_of_valid (directWritesPages blockSize (data ++ more ≠ [])) more
        prepared same
  | flush =>
      have called := PagedFor.call writes direct .flush
      change _ ∧ PagedFor _ _ _ (data ++ []) _ at called
      change _ ∧ PagedFor _ _ (Direct blockSize (data ++ [] ≠ [])) (data ++ []) _
      rw [List.append_nil] at called ⊢
      exact called
  | sync useFsync =>
      have called := PagedFor.call writes direct (.sync useFsync)
      change _ ∧ PagedFor _ _ _ (data ++ []) _ at called
      change _ ∧ PagedFor _ _ (Direct blockSize (data ++ [] ≠ [])) (data ++ []) _
      rw [List.append_nil] at called ⊢
      exact called

theorem DirectFor.run
    (calls : List Call)
    {data : Bytes}
    {writer : WritableFileWriter PosixWritableFile}
    (direct : DirectFor blockSize data writer) :
    let ran := writer.run directIOOperations calls
    (∀ event ∈ ran.1, event.2.ok = true) ∧
      DirectFor blockSize (data ++ calls.flatMap Call.data) ran.2 := by
  induction calls generalizing data writer with
  | nil =>
      rw [List.flatMap_nil, List.append_nil]
      exact ⟨nofun, direct⟩
  | cons next calls inductionHypothesis =>
      obtain ⟨succeeds, called⟩ := direct.call next
      obtain ⟨others, ran⟩ := inductionHypothesis called
      rw [List.append_assoc, ← List.flatMap_cons] at ran
      refine ⟨fun event member => ?_, ran⟩
      rcases List.mem_cons.mp member with rfl | later
      · exact succeeds
      · exact others event later

/-- What `Close` leaves: without preallocation, the data padded to whole pages, and with
it a file that is longer still. -/
theorem DirectFor.close
    (direct : DirectFor blockSize data writer) :
    let result := writer.close directIOOperations
    result.1.ok = true ∧
      (data = [] → result.2.contents = []) ∧
      (data ≠ [] → blockSize ≠ 0 → data.length < result.2.contents.length) ∧
      (data ≠ [] → blockSize = 0 → pageSize ∣ result.2.contents.length ∧
        ∃ zeros < pageSize, result.2.contents = data ++ List.replicate zeros 0) := by
  obtain ⟨flushed, kept, zeros, fewer, padded⟩ :=
    direct.flush (directWritesPages blockSize (data ≠ []))
  have isValid := kept.paged.isValid
  have status (file : PosixWritableFile) : file.close.1 = .OK := by
    unfold PosixWritableFile.close
    split <;> rfl
  intro result
  have succeeds : result.1.ok = true := by
    simpa [result, WritableFileWriter.close, directIOOperations,
      PosixWritableFile.operations, status] using flushed
  have isFile : result.2 = (writer.flush directIOOperations).2.writableFile.close.2 := rfl
  refine ⟨succeeds, ?_⟩
  rw [isFile]
  generalize (writer.flush directIOOperations).2.writableFile = file at isValid padded ⊢
  clear isFile
  unfold PosixWritableFile.close
  by_cases trims : 0 < file.lastPreallocatedBlock
  · rw [if_pos trims]
    dsimp only
    refine ⟨fun none => ?_, fun some _ => ?_, fun _ zero => ?_⟩
    · have whole := isValid.whole
      rw [padded, none, List.nil_append, List.length_replicate] at whole
      have nothing : zeros = 0 := Nat.eq_zero_of_dvd_of_lt whole fewer
      rw [none, nothing] at padded
      have empty : file.contents = [] := padded
      rw [ftruncate, isValid.filesize_eq empty, List.take_zero]
    · have nonempty : file.contents ≠ [] := by
        rw [padded]
        exact List.append_ne_nil_of_left_ne_nil some _
      have past := isValid.filesize_gt nonempty
      rw [PosixWritableFile.length_ftruncate]
      rw [padded, List.length_append] at past
      omega
    · have untouched := isValid.unallocated zero
      omega
  · rw [if_neg trims]
    dsimp only
    refine ⟨fun none => ?_, fun some positive => ?_,
      fun _ _ => ⟨isValid.whole, zeros, fewer, padded⟩⟩
    · have whole := isValid.whole
      rw [padded, none, List.nil_append, List.length_replicate] at whole
      rw [padded, none, Nat.eq_zero_of_dvd_of_lt whole fewer]
      rfl
    · exact absurd (isValid.allocated some positive) trims

/-- A writer over a new `PosixDirectIOWritableFile`, whose calls all succeed: the file ends
where the data ends if and only if there is no data, or no space is preallocated and the
data fills its last page. -/
theorem close_iff
    (filename : String)
    (blockSize : Nat)
    {schedule : List SystemWrite}
    (noError : ∀ call ∈ schedule, call.fails = false)
    (maxBufferSize bytesPerSync : Nat)
    (calls : List Call) :
    let file := (PosixWritableFile.new filename true true
      schedule).setPreallocationBlockSize blockSize
    let ran := (WritableFileWriter.new directIOOperations file maxBufferSize
      bytesPerSync).run directIOOperations calls
    let data := calls.flatMap Call.data
    let closed := ran.2.close directIOOperations
    (∀ event ∈ ran.1, event.2.ok = true) ∧ closed.1.ok = true ∧
      (closed.2.contents.length = ran.2.filesize ∧ closed.2.contents = data ↔
        data = [] ∨ blockSize = 0 ∧ pageSize ∣ data.length) := by
  intro file ran data closed
  have fresh : Direct blockSize ([] ≠ ([] : Bytes)) file :=
    ⟨noError, Nat.dvd_zero _, rfl, rfl, fun _ => rfl, fun some => absurd rfl some,
      fun _ => rfl, fun some => absurd rfl some⟩
  have start : DirectFor blockSize []
      (WritableFileWriter.new directIOOperations file maxBufferSize bytesPerSync) :=
    .new directIOOperations rfl fresh rfl maxBufferSize bytesPerSync
  obtain ⟨statuses, direct⟩ := start.run calls
  rw [List.nil_append] at direct
  change DirectFor blockSize data ran.2 at direct
  obtain ⟨succeeds, empty, longer, padded⟩ := direct.close
  have size : ran.2.filesize = data.length := direct.filesize_eq
  refine ⟨statuses, succeeds, ?_⟩
  rw [size]
  constructor
  · rintro ⟨length, same⟩
    by_cases none : data = []
    · exact .inl none
    · by_cases zero : blockSize = 0
      · have whole := (padded none zero).1
        change _ ∣ closed.2.contents.length at whole
        rw [length] at whole
        exact .inr ⟨zero, whole⟩
      · have more := longer none zero
        change _ < closed.2.contents.length at more
        omega
  · intro holds
    by_cases none : data = []
    · have nothing : closed.2.contents = data := (empty none).trans none.symm
      exact ⟨congrArg List.length nothing, nothing⟩
    · obtain ⟨zero, whole⟩ := holds.resolve_left none
      obtain ⟨pages, zeros, fewer, same⟩ := padded none zero
      change closed.2.contents = _ at same
      rw [same, List.length_append, List.length_replicate] at pages
      have nothing : zeros = 0 :=
        Nat.eq_zero_of_dvd_of_lt ((Nat.dvd_add_right whole).mp pages) fewer
      rw [nothing, List.replicate_zero, List.append_nil] at same
      exact ⟨congrArg List.length same, same⟩

/-- One page, written in two parts. -/
theorem close_iff_page :
    ∃ ran, ran = (WritableFileWriter.new directIOOperations
        ((PosixWritableFile.new "data" true true
          [.done 512, .interrupted]).setPreallocationBlockSize 0) 65536 0).run
            directIOOperations [.append (List.replicate 4096 1)] ∧
      (ran.2.close directIOOperations).2.contents.length = ran.2.filesize ∧
      (ran.2.close directIOOperations).2.contents = List.replicate 4096 1 := by
  have noError : ∀ call ∈ [SystemWrite.done 512, .interrupted], call.fails = false := by
    simp [SystemWrite.fails]
  have data : [Call.append (List.replicate 4096 1)].flatMap Call.data =
      List.replicate 4096 1 := by
    rw [List.flatMap_cons, List.flatMap_nil, List.append_nil]
    rfl
  obtain ⟨-, -, holds⟩ := close_iff "data" 0 noError 65536 0
    [.append (List.replicate 4096 1)]
  rw [data, List.length_replicate] at holds
  exact ⟨_, rfl, holds.mpr (.inr ⟨rfl, ⟨1, rfl⟩⟩)⟩

/-- One byte, and nothing preallocated: the padding stays. -/
theorem close_leaves_padding :
    ∃ ran, ran = (WritableFileWriter.new directIOOperations
        ((PosixWritableFile.new "data" true true []).setPreallocationBlockSize 0) 65536
          0).run directIOOperations [.append [1]] ∧
      (∀ event ∈ ran.1, event.2.ok = true) ∧
      (ran.2.close directIOOperations).1.ok = true ∧
      (ran.2.close directIOOperations).2.contents =
        [1] ++ List.replicate 4095 0 := by
  have fresh : Direct 0 ([] ≠ ([] : Bytes))
      ((PosixWritableFile.new "data" true true []).setPreallocationBlockSize 0) :=
    ⟨nofun, Nat.dvd_zero _, rfl, rfl, fun _ => rfl, fun some => absurd rfl some,
      fun _ => rfl, fun some => absurd rfl some⟩
  have start : DirectFor 0 [] (WritableFileWriter.new directIOOperations
      ((PosixWritableFile.new "data" true true []).setPreallocationBlockSize 0) 65536 0) :=
    .new directIOOperations rfl fresh rfl 65536 0
  obtain ⟨statuses, direct⟩ := start.run [.append [1]]
  change DirectFor 0 [1] _ at direct
  obtain ⟨succeeds, -, -, padded⟩ := direct.close
  obtain ⟨⟨pages, isPages⟩, zeros, fewer, same⟩ := padded (by decide) rfl
  have page : pageSize = 4096 := rfl
  have all : zeros = 4095 := by
    rw [same, page, List.length_append, List.length_replicate] at isPages
    change 1 + zeros = _ at isPages
    omega
  rw [all] at same
  exact ⟨_, rfl, statuses, succeeds, same⟩

end WritableFileWriter
end RocksUtil
