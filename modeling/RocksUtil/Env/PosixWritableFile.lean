import Mathlib.Algebra.Group.Nat.Defs
import RocksUtil.Env.PagedFile

/-!
# Files written by system calls

`PosixWritableFile` of the source and, derived from it, `PosixDirectIOWritableFile`.
The file system is part of the state: what the file holds, and what the next calls of
write(2) or pwrite(2) do.  Each of them transfers some of the bytes it is asked for, is
interrupted, or fails; behind the end of the schedule they transfer everything.
-/

namespace RocksUtil

/-- What write(2) or pwrite(2) does. -/
inductive SystemWrite
  /-- It transfers `count` bytes, or all it is asked for. -/
  | done (count : Nat)
  /-- `EINTR`. -/
  | interrupted
  /-- Any other error, with the text `strerror` has for it. -/
  | error (message : String)

/-- It fails. -/
def SystemWrite.fails : SystemWrite → Bool
  | .error _ => true
  | _ => false

/-- Cut or extend a file to `size` bytes, as ftruncate(2) does. -/
def ftruncate (contents : Bytes) (size : Nat) : Bytes :=
  (contents ++ List.replicate (size - contents.length) 0).take size

/-- The state of a `PosixWritableFile`. -/
structure PosixWritableFile where
  /-- `filename_`. -/
  filename : String
  /-- What the file holds. -/
  contents : Bytes
  /-- Where the next write(2) writes. -/
  position : Nat
  /-- `filesize_`. -/
  filesize : Nat
  /-- `allow_fallocate_`. -/
  allowFallocate : Bool
  /-- `fallocate_with_keep_size_`. -/
  fallocateWithKeepSize : Bool
  /-- `preallocation_block_size_`. -/
  preallocationBlockSize : Nat
  /-- `last_preallocated_block_`. -/
  lastPreallocatedBlock : Nat
  /-- What the next calls of write(2) or pwrite(2) do. -/
  schedule : List SystemWrite

namespace PosixWritableFile

/-- The constructor, with the two fields of `EnvOptions` it reads, on a file that has
just been created. -/
def new
    (filename : String)
    (allowFallocate fallocateWithKeepSize : Bool)
    (schedule : List SystemWrite) : PosixWritableFile where
  filename := filename
  contents := []
  position := 0
  filesize := 0
  allowFallocate := allowFallocate
  fallocateWithKeepSize := fallocateWithKeepSize
  preallocationBlockSize := 0
  lastPreallocatedBlock := 0
  schedule := schedule

/-- `SetPreallocationBlockSize`. -/
def setPreallocationBlockSize
    (size : Nat)
    (file : PosixWritableFile) : PosixWritableFile :=
  { file with preallocationBlockSize := size }

/-- `IOError`, for a call on the file that has failed. -/
def ioError (file : PosixWritableFile) (message : String) : Status :=
  .IOError (file.filename ++ ": " ++ message)

/-- write(2) of all of `src`. -/
def write (src : Bytes) (file : PosixWritableFile) : PosixWritableFile :=
  { file with
    contents := overwrite file.contents file.position src
    position := file.position + src.length }

/-- pwrite(2) of all of `src`. -/
def pwrite
    (offset : Nat)
    (src : Bytes)
    (file : PosixWritableFile) : PosixWritableFile :=
  { file with contents := overwrite file.contents offset src }

/-- The loop of `Append`, over what the calls of write(2) do. -/
def appendLoop
    (schedule : List SystemWrite)
    (src : Bytes)
    (file : PosixWritableFile) : Status × PosixWritableFile :=
  if src.length = 0 then (.OK, { file with schedule := schedule })
  else
    match schedule with
    | [] => (.OK, { file.write src with schedule := [] })
    | .done count :: schedule =>
        appendLoop schedule (src.drop count) (file.write (src.take count))
    | .interrupted :: schedule => appendLoop schedule src file
    | .error message :: schedule =>
        (file.ioError message, { file with schedule := schedule })

/-- `Append`. -/
def append (data : Bytes) (file : PosixWritableFile) : Status × PosixWritableFile :=
  let written := appendLoop file.schedule data file
  if written.1.ok then
    (.OK, { written.2 with filesize := written.2.filesize + data.length })
  else written

/-- The loop of `PositionedAppend`, with the offset behind what has been written. -/
def positionedAppendLoop
    (schedule : List SystemWrite)
    (src : Bytes)
    (offset : Nat)
    (file : PosixWritableFile) : (Status × Nat) × PosixWritableFile :=
  if src.length = 0 then ((.OK, offset), { file with schedule := schedule })
  else
    match schedule with
    | [] =>
        ((.OK, offset + src.length), { file.pwrite offset src with schedule := [] })
    | .done count :: schedule =>
        positionedAppendLoop schedule (src.drop count)
          (offset + (src.take count).length) (file.pwrite offset (src.take count))
    | .interrupted :: schedule => positionedAppendLoop schedule src offset file
    | .error message :: schedule =>
        ((file.ioError message, offset), { file with schedule := schedule })

/-- `PositionedAppend`.  The loop has moved `offset` to the end of the data, and the size
is added to it once more. -/
def positionedAppend
    (data : Bytes)
    (offset : Nat)
    (file : PosixWritableFile) : Status × PosixWritableFile :=
  let written := positionedAppendLoop file.schedule data offset file
  if written.1.1.ok then
    (.OK, { written.2 with filesize := written.1.2 + data.length })
  else (written.1.1, written.2)

/-- `Allocate`: with `FALLOC_FL_KEEP_SIZE` the file does not get longer. -/
def allocate (offset len : Nat) (file : PosixWritableFile) : PosixWritableFile :=
  if file.allowFallocate && !file.fallocateWithKeepSize then
    { file with
      contents := file.contents ++
        List.replicate (offset + len - file.contents.length) 0 }
  else file

/-- `PrepareWrite`. -/
def prepareWrite (offset len : Nat) (file : PosixWritableFile) : PosixWritableFile :=
  WritableFile.prepareWriteWith allocate
    (fun block file => { file with lastPreallocatedBlock := block })
    file.preallocationBlockSize file.lastPreallocatedBlock offset len file

/-- `Close`.  The space behind `filesize_` is trimmed only if some has been preallocated;
punching a hole behind the new end does not change what the file holds. -/
def close (file : PosixWritableFile) : Status × PosixWritableFile :=
  if 0 < file.lastPreallocatedBlock then
    (.OK, { file with contents := ftruncate file.contents file.filesize })
  else (.OK, file)

theorem pageSize_isPowerOfTwo : (4 * 1024).isPowerOfTwo := ⟨12, rfl⟩

/-- The operations of `PosixWritableFile`.  `Truncate` leaves the work to `Close`. -/
def operations : WritableFile PosixWritableFile where
  useOSBuffer := true
  useDirectIO := false
  requiredBufferAlignment := 4 * 1024
  isSyncThreadSafe := true
  append := append
  positionedAppend := positionedAppend
  truncate := fun _ file => (.OK, file)
  close := close
  flush := fun file => (.OK, file)
  sync := fun file => (.OK, file)
  fsync := fun file => (.OK, file)
  rangeSync := fun _ _ file => (.OK, file)
  prepareWrite := prepareWrite
  powerOfTwo := pageSize_isPowerOfTwo

/-- `kSectorSize`. -/
def kSectorSize : Nat := 512

/-- `IsSectorAligned`. -/
def isSectorAligned (off : Nat) : Bool := off % kSectorSize == 0

/-- `PosixDirectIOWritableFile::Append`.  The data of a call is taken to start at a page,
as the buffer of a `WritableFileWriter` does. -/
def directAppend
    (data : Bytes)
    (file : PosixWritableFile) : Status × PosixWritableFile :=
  if !isSectorAligned data.length then
    (.IOError "Unaligned buffer for direct IO", file)
  else append data file

/-- `PosixDirectIOWritableFile::PositionedAppend`. -/
def directPositionedAppend
    (data : Bytes)
    (offset : Nat)
    (file : PosixWritableFile) : Status × PosixWritableFile :=
  if !isSectorAligned offset || !isSectorAligned data.length then
    (.IOError "offset or size is not aligned", file)
  else positionedAppend data offset file

/-- The operations of `PosixDirectIOWritableFile`. -/
def directIOOperations : WritableFile PosixWritableFile :=
  { operations with
    useOSBuffer := false
    useDirectIO := true
    append := directAppend
    positionedAppend := directPositionedAppend }

/-! ## What reaches the file -/

/-- The bytes of a request of `left` bytes that reach the file. -/
def transferred : List SystemWrite → Nat → Nat
  | [], left => left
  | next :: schedule, left =>
      if left = 0 then 0
      else
        match next with
        | .done count => min count left + transferred schedule (left - count)
        | .interrupted => transferred schedule left
        | .error _ => 0

theorem transferred_zero (schedule : List SystemWrite) : transferred schedule 0 = 0 := by
  cases schedule with
  | nil => rfl
  | cons next schedule => cases next <;> simp [transferred]

theorem transferred_done
    (count : Nat)
    (schedule : List SystemWrite)
    (left : Nat) :
    transferred (.done count :: schedule) left =
      min count left + transferred schedule (left - count) := by
  by_cases none : left = 0
  · simp [transferred, none, transferred_zero]
  · simp [transferred, none]

theorem transferred_interrupted (schedule : List SystemWrite) (left : Nat) :
    transferred (.interrupted :: schedule) left = transferred schedule left := by
  by_cases none : left = 0
  · simp [transferred, none, transferred_zero]
  · simp [transferred, none]

theorem transferred_error
    (message : String)
    (schedule : List SystemWrite)
    (left : Nat) : transferred (.error message :: schedule) left = 0 := by
  simp [transferred]

theorem transferred_le (schedule : List SystemWrite) (left : Nat) :
    transferred schedule left ≤ left := by
  induction schedule generalizing left with
  | nil => exact Nat.le_refl _
  | cons next schedule inductionHypothesis =>
      cases next with
      | done count =>
          have rest := inductionHypothesis (left - count)
          rw [transferred_done]
          omega
      | interrupted =>
          rw [transferred_interrupted]
          exact inductionHypothesis left
      | error message =>
          rw [transferred_error]
          exact Nat.zero_le _

theorem transferred_of_noError
    {schedule : List SystemWrite}
    (noError : ∀ call ∈ schedule, call.fails = false)
    (left : Nat) : transferred schedule left = left := by
  induction schedule generalizing left with
  | nil => rfl
  | cons next schedule inductionHypothesis =>
      obtain ⟨first, others⟩ := List.forall_mem_cons.mp noError
      cases next with
      | done count =>
          rw [transferred_done, inductionHypothesis others]
          omega
      | interrupted => rw [transferred_interrupted, inductionHypothesis others]
      | error message => cases first

/-- Writing in two parts. -/
theorem overwrite_overwrite (contents : Bytes) (offset : Nat) (first second : Bytes) :
    overwrite (overwrite contents offset first) (offset + first.length) second =
      overwrite contents offset (first ++ second) := by
  generalize isPadded : contents ++ List.replicate (offset - contents.length) 0 = padded
  have long : offset ≤ padded.length := by
    rw [← isPadded, List.length_append, List.length_replicate]
    omega
  have front : ((padded.take offset) ++ first).length = offset + first.length := by
    rw [List.length_append, List.length_take_of_le long]
  have noGap : offset + first.length -
      (padded.take offset ++ first ++ contents.drop (offset + first.length)).length = 0 := by
    rw [List.length_append, front]
    omega
  rw [overwrite, overwrite, overwrite, isPadded, noGap, List.replicate_zero,
    List.append_nil, ← front, List.take_left, List.drop_length_add_append, front,
    List.drop_drop, List.length_append, ← Nat.add_assoc, List.append_assoc _ first]

/-- Writing nothing inside the file. -/
theorem overwrite_nil
    {contents : Bytes}
    {offset : Nat}
    (inFile : offset ≤ contents.length) : overwrite contents offset [] = contents := by
  have noGap : offset - contents.length = 0 := by omega
  simp [overwrite, noGap]

/-- Writing inside the file. -/
theorem length_overwrite_inFile
    {contents : Bytes}
    {offset : Nat}
    (inFile : offset ≤ contents.length)
    (data : Bytes) :
    (overwrite contents offset data).length = max contents.length (offset + data.length) := by
  simp only [overwrite, List.length_append, List.length_take, List.length_replicate,
    List.length_drop]
  omega

theorem le_length_overwrite (contents : Bytes) (offset : Nat) (data : Bytes) :
    offset + data.length ≤ (overwrite contents offset data).length := by
  simp only [overwrite, List.length_append, List.length_take, List.length_replicate]
  omega

/-- Writing in two parts. -/
theorem write_write (first second : Bytes) (file : PosixWritableFile) :
    (file.write first).write second = file.write (first ++ second) := by
  simp only [write, overwrite_overwrite, List.length_append, Nat.add_assoc]

theorem write_nil
    {file : PosixWritableFile}
    (inFile : file.position ≤ file.contents.length) : file.write [] = file := by
  rw [write, overwrite_nil inFile]
  rfl

/-- The loop of `Append` writes what is transferred, and returns OK if that is
everything. -/
theorem appendLoop_spec
    (schedule : List SystemWrite)
    (src : Bytes)
    {file : PosixWritableFile}
    (inFile : file.position ≤ file.contents.length) :
    let result := appendLoop schedule src file
    let reached := src.take (transferred schedule src.length)
    (result.1.ok = true ↔ transferred schedule src.length = src.length) ∧
      ∃ left, (∀ call ∈ left, call ∈ schedule) ∧
        result.2 = { file.write reached with schedule := left } := by
  induction schedule generalizing src file with
  | nil =>
      have result : appendLoop [] src file =
          (.OK, { file.write src with schedule := [] }) := by
        by_cases none : src.length = 0
        · have empty : src = [] := List.eq_nil_of_length_eq_zero none
          rw [appendLoop, if_pos none, empty, write_nil inFile]
        · rw [appendLoop, if_neg none]
      rw [result, transferred, List.take_length]
      exact ⟨⟨fun _ => rfl, fun _ => rfl⟩, [], fun _ => id, rfl⟩
  | cons next schedule inductionHypothesis =>
      by_cases none : src.length = 0
      · have empty : src = [] := List.eq_nil_of_length_eq_zero none
        have result : appendLoop (next :: schedule) src file =
            (.OK, { file with schedule := next :: schedule }) := by
          unfold appendLoop
          rw [if_pos none]
        rw [result, empty, List.length_nil, transferred_zero, List.take_zero]
        dsimp only
        rw [write_nil inFile]
        exact ⟨⟨fun _ => rfl, fun _ => rfl⟩, next :: schedule, fun _ => id, rfl⟩
      · have later {left : List SystemWrite} (isLeft : ∀ call ∈ left, call ∈ schedule) :
            ∀ call ∈ left, call ∈ next :: schedule :=
          fun call within => List.mem_cons_of_mem next (isLeft call within)
        cases next with
        | done count =>
            have result : appendLoop (.done count :: schedule) src file =
                appendLoop schedule (src.drop count) (file.write (src.take count)) := by
              simp [appendLoop, none]
            obtain ⟨ok, left, isLeft, isFile⟩ := @inductionHypothesis (src.drop count)
              (file.write (src.take count)) (le_length_overwrite ..)
            rw [List.length_drop] at ok isFile
            have rest := transferred_le schedule (src.length - count)
            have reached : src.take (min count src.length +
                transferred schedule (src.length - count)) = src.take count ++
                  (src.drop count).take (transferred schedule (src.length - count)) := by
              rw [← List.take_add]
              by_cases short : count ≤ src.length
              · rw [Nat.min_eq_left short]
              · have nothing : transferred schedule (src.length - count) = 0 := by omega
                rw [nothing, Nat.add_zero, Nat.add_zero, Nat.min_eq_right (by omega),
                  List.take_length, List.take_of_length_le (by omega)]
            rw [result, transferred_done]
            refine ⟨ok.trans (by omega), left, later isLeft, ?_⟩
            rw [isFile, reached, write_write]
        | interrupted =>
            have result : appendLoop (.interrupted :: schedule) src file =
                appendLoop schedule src file := by
              simp [appendLoop, none]
            rw [result, transferred_interrupted]
            obtain ⟨ok, left, isLeft, isFile⟩ := inductionHypothesis src inFile
            exact ⟨ok, left, later isLeft, isFile⟩
        | error message =>
            have result : appendLoop (.error message :: schedule) src file =
                (file.ioError message, { file with schedule := schedule }) := by
              simp [appendLoop, none]
            rw [result, transferred_error, List.take_zero]
            dsimp only
            rw [write_nil inFile]
            exact ⟨⟨fun ok => (by cases ok), fun nothing => absurd nothing.symm none⟩, schedule,
              later fun _ => id, rfl⟩

/-- A request of `left` bytes is torn: it fails when a part of it has been
transferred. -/
def Torn (schedule : List SystemWrite) (left : Nat) : Prop :=
  0 < transferred schedule left ∧ transferred schedule left < left

instance (schedule : List SystemWrite) (left : Nat) : Decidable (Torn schedule left) :=
  inferInstanceAs (Decidable (_ ∧ _))

/-- The bytes that a failing `Append` leaves in the file. -/
def leak (data : Bytes) (file : PosixWritableFile) : Nat :=
  if transferred file.schedule data.length < data.length then
    transferred file.schedule data.length
  else 0

theorem leak_eq_zero (data : Bytes) (file : PosixWritableFile) :
    leak data file = 0 ↔ ¬Torn file.schedule data.length := by
  unfold leak Torn
  split
  · omega
  · simp_all

/-- `Append` writes what is transferred, and returns OK if that is everything. -/
theorem append_spec
    (data : Bytes)
    {file : PosixWritableFile}
    (inFile : file.position ≤ file.contents.length) :
    let result := append data file
    let reached := data.take (transferred file.schedule data.length)
    (result.1.ok = true ↔ transferred file.schedule data.length = data.length) ∧
      ∃ left, (∀ call ∈ left, call ∈ file.schedule) ∧
        result.2 = { file.write reached with
          schedule := left
          filesize := file.filesize + if result.1.ok then data.length else 0 } := by
  obtain ⟨ok, left, isLeft, isFile⟩ := appendLoop_spec file.schedule data inFile
  intro result
  cases succeeds : (appendLoop file.schedule data file).1.ok with
  | true =>
      have isResult : result = (.OK, { (appendLoop file.schedule data file).2 with
          filesize := (appendLoop file.schedule data file).2.filesize + data.length }) := by
        simp [result, append, succeeds]
      rw [isResult, isFile]
      exact ⟨⟨fun _ => ok.mp succeeds, fun _ => rfl⟩, left, isLeft, rfl⟩
  | false =>
      have isResult : result = appendLoop file.schedule data file := by
        simp [result, append, succeeds]
      rw [isResult, succeeds]
      rw [succeeds] at ok
      exact ⟨ok, left, isLeft, isFile⟩

theorem append_eq_ok
    {data : Bytes}
    {file : PosixWritableFile}
    (succeeds : (append data file).1.ok = true) : (append data file).1 = .OK := by
  unfold append at succeeds ⊢
  simp only at succeeds ⊢
  split
  · rfl
  · rename_i failed
    rw [if_neg failed] at succeeds
    exact absurd succeeds failed

/-! ## Writing at an offset -/

theorem positionedAppendLoop_nil
    (schedule : List SystemWrite)
    (offset : Nat)
    (file : PosixWritableFile) :
    positionedAppendLoop schedule [] offset file =
      ((.OK, offset), { file with schedule := schedule }) := by
  unfold positionedAppendLoop
  exact if_pos rfl

/-- The loop of `PositionedAppend`, where it returns OK, has written all of the data, and
its offset is the end of them.  Nothing is written where there are no data. -/
theorem positionedAppendLoop_of_ok
    {schedule : List SystemWrite}
    {src : Bytes}
    {offset : Nat}
    {file : PosixWritableFile}
    (writes : src ≠ [] ∨ offset ≤ file.contents.length)
    (succeeds : (positionedAppendLoop schedule src offset file).1.1.ok = true) :
    ∃ left, (∀ call ∈ left, call ∈ schedule) ∧
      positionedAppendLoop schedule src offset file =
        ((.OK, offset + src.length),
          { file.pwrite offset src with schedule := left }) := by
  have nothing {schedule : List SystemWrite} {offset : Nat} {file : PosixWritableFile}
      (inFile : offset ≤ file.contents.length) :
      positionedAppendLoop schedule [] offset file =
        ((.OK, offset + List.length (α := UInt8) []),
          { file.pwrite offset [] with schedule := schedule }) := by
    rw [positionedAppendLoop_nil, pwrite, overwrite_nil inFile]
    rfl
  induction schedule generalizing src offset file with
  | nil =>
      refine ⟨[], nofun, ?_⟩
      by_cases empty : src = []
      · subst empty
        exact nothing (writes.resolve_left (not_not.mpr rfl))
      · simp [positionedAppendLoop, empty]
  | cons next schedule inductionHypothesis =>
      by_cases empty : src = []
      · subst empty
        exact ⟨next :: schedule, fun _ => id,
          nothing (writes.resolve_left (not_not.mpr rfl))⟩
      · cases next with
        | done count =>
            have step : positionedAppendLoop (.done count :: schedule) src offset file =
                positionedAppendLoop schedule (src.drop count)
                  (offset + (src.take count).length)
                  (file.pwrite offset (src.take count)) := by
              simp [positionedAppendLoop, empty]
            rw [step] at succeeds ⊢
            obtain ⟨left, isLeft, rest⟩ := inductionHypothesis
              (.inr (le_length_overwrite _ _ _)) succeeds
            have sizes : offset + (src.take count).length + (src.drop count).length =
                offset + src.length := by
              rw [List.length_take, List.length_drop]
              omega
            have both := overwrite_overwrite file.contents offset (src.take count)
              (src.drop count)
            rw [List.take_append_drop] at both
            refine ⟨left, fun call member => List.mem_cons_of_mem _ (isLeft call member), ?_⟩
            rw [rest, sizes]
            simp only [pwrite, both]
        | interrupted =>
            have step : positionedAppendLoop (.interrupted :: schedule) src offset file =
                positionedAppendLoop schedule src offset file := by
              simp [positionedAppendLoop, empty]
            rw [step] at succeeds ⊢
            obtain ⟨left, isLeft, rest⟩ := inductionHypothesis (.inl empty) succeeds
            exact ⟨left, fun call member => List.mem_cons_of_mem _ (isLeft call member), rest⟩
        | error message =>
            simp [positionedAppendLoop, empty, ioError, Status.IOError, Status.ok] at succeeds

/-- The loop of `PositionedAppend` returns OK if no call fails. -/
theorem positionedAppendLoop_ok
    {schedule : List SystemWrite}
    (noError : ∀ call ∈ schedule, call.fails = false)
    (src : Bytes)
    (offset : Nat)
    (file : PosixWritableFile) :
    (positionedAppendLoop schedule src offset file).1.1.ok = true := by
  induction schedule generalizing src offset file with
  | nil =>
      unfold positionedAppendLoop
      split <;> rfl
  | cons next schedule inductionHypothesis =>
      have others : ∀ call ∈ schedule, call.fails = false :=
        fun call member => noError call (List.mem_cons_of_mem next member)
      unfold positionedAppendLoop
      split
      · rfl
      · cases next with
        | done count => apply inductionHypothesis others
        | interrupted => apply inductionHypothesis others
        | error message => cases noError _ List.mem_cons_self

/-- The loop of `PositionedAppend`, if no call fails, writes all of the data. -/
theorem positionedAppendLoop_spec
    {schedule : List SystemWrite}
    (noError : ∀ call ∈ schedule, call.fails = false)
    (src : Bytes)
    {offset : Nat}
    {file : PosixWritableFile}
    (inFile : offset ≤ file.contents.length) :
    ∃ left, (∀ call ∈ left, call.fails = false) ∧
      positionedAppendLoop schedule src offset file =
        ((.OK, offset + src.length),
          { file.pwrite offset src with schedule := left }) := by
  obtain ⟨left, isLeft, written⟩ := positionedAppendLoop_of_ok (.inr inFile)
    (positionedAppendLoop_ok noError src offset file)
  exact ⟨left, fun call member => noError call (isLeft call member), written⟩

/-! ## The size that `PositionedAppend` leaves -/

/-- What has been written at an offset is found there. -/
theorem drop_take_overwrite (contents : Bytes) (offset : Nat) (data : Bytes) :
    ((overwrite contents offset data).drop offset).take data.length = data := by
  have front : ((contents ++ List.replicate (offset - contents.length) 0).take
      offset).length = offset := by
    rw [List.length_take, List.length_append, List.length_replicate]
    omega
  rw [overwrite, List.append_assoc, List.drop_left' front, List.take_left]

theorem length_ftruncate (contents : Bytes) (size : Nat) :
    (ftruncate contents size).length = size := by
  rw [ftruncate, List.length_take, List.length_append, List.length_replicate]
  omega

/-- `PositionedAppend`, where it returns OK. -/
theorem positionedAppend_of_ok
    {data : Bytes}
    {offset : Nat}
    {file : PosixWritableFile}
    (succeeds : (positionedAppend data offset file).1.ok = true) :
    let written := (positionedAppend data offset file).2
    (written.contents.drop offset).take data.length = data ∧
      written.filesize = offset + data.length + data.length ∧
        written.lastPreallocatedBlock = file.lastPreallocatedBlock := by
  have loopOk : (positionedAppendLoop file.schedule data offset file).1.1.ok = true := by
    unfold positionedAppend at succeeds
    dsimp only at succeeds
    split at succeeds
    · assumption
    · exact succeeds
  intro written
  cases data with
  | nil =>
      have isWritten : written = { file with filesize := offset } := by
        simp only [written, positionedAppend, positionedAppendLoop_nil]
        rfl
      rw [isWritten]
      exact ⟨rfl, rfl, rfl⟩
  | cons first rest =>
      obtain ⟨left, -, isLoop⟩ := positionedAppendLoop_of_ok
        (.inl (List.cons_ne_nil first rest)) loopOk
      have isWritten : written = { file.pwrite offset (first :: rest) with
          schedule := left
          filesize := offset + (first :: rest).length + (first :: rest).length } := by
        simp only [written, positionedAppend, isLoop]
        rfl
      rw [isWritten]
      exact ⟨drop_take_overwrite .., rfl, rfl⟩

/-- A `PositionedAppend` that returns OK has written its data, but the size it leaves,
and to which `Close` truncates, is the end of the data only where there are none. -/
theorem positionedAppend_size_iff
    (data : Bytes)
    (offset : Nat)
    (file : PosixWritableFile)
    (succeeds : (positionedAppend data offset file).1.ok = true) :
    let written := (positionedAppend data offset file).2
    ((written.contents.drop offset).take data.length = data ∧
      written.filesize = offset + data.length ∧
        (0 < written.lastPreallocatedBlock →
          written.close.2.contents.length = offset + data.length)) ↔ data = [] := by
  intro written
  obtain ⟨isWritten, isSize, -⟩ := positionedAppend_of_ok succeeds
  constructor
  · intro ⟨_, isEnd, _⟩
    apply List.eq_nil_of_length_eq_zero
    have same := isSize.symm.trans isEnd
    omega
  · intro empty
    have none : data.length = 0 := by rw [empty, List.length_nil]
    refine ⟨isWritten, isSize.trans (by omega), fun preallocated => ?_⟩
    have isClosed : written.close =
        (.OK, { written with contents := ftruncate written.contents written.filesize }) :=
      if_pos preallocated
    rw [isClosed]
    exact (length_ftruncate ..).trans (isSize.trans (by omega))

/-- Three bytes at the start of a file, with a short count and an interrupted call. -/
theorem positionedAppend_size_iff_three :
    let result := positionedAppend [1, 2, 3] 0 (new "f" true true [.done 2, .interrupted])
    result.1.ok = true ∧
      ¬((result.2.contents.drop 0).take 3 = [1, 2, 3] ∧ result.2.filesize = 0 + 3 ∧
        (0 < result.2.lastPreallocatedBlock →
          result.2.close.2.contents.length = 0 + 3)) := by
  have succeeds : (positionedAppend [1, 2, 3] 0
      (new "f" true true [.done 2, .interrupted])).1.ok = true := by decide
  exact ⟨succeeds, fun holds =>
    List.cons_ne_nil _ _ ((positionedAppend_size_iff _ _ _ succeeds).mp holds)⟩

/-- With a block preallocated, `Close` leaves the file twice as long as its data. -/
theorem positionedAppend_grows :
    ∃ (data : Bytes) (offset : Nat) (file : PosixWritableFile),
      let result := positionedAppend data offset file
      result.1.ok = true ∧ result.2.filesize ≠ offset + data.length ∧
        (0 < result.2.lastPreallocatedBlock ∧
          result.2.close.2.contents.length = offset + 2 * data.length) :=
  ⟨[1, 2, 3], 0,
    prepareWrite 0 3 (setPreallocationBlockSize 8 (new "f" true true [.done 2, .interrupted])),
    by decide⟩

end PosixWritableFile
end RocksUtil
