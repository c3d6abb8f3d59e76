import Mathlib.Data.Nat.Basic
import RocksUtil.Status

/-!
# Writable files

`WritableFile` is an abstract class of the source; here it is the record of its
operations on an arbitrary state.  The concrete file used by the results on
write failures follows a schedule of outcomes: each `Append` and each `Flush`
takes the next one, and a call that fails leaves the file as it was.
-/

namespace RocksUtil

/-- The operations of `WritableFile` on a file state. -/
structure WritableFile (ω : Type) where
  /-- `UseOSBuffer()`. -/
  useOSBuffer : Bool
  /-- `UseDirectIO()`. -/
  useDirectIO : Bool
  /-- `GetRequiredBufferAlignment()`. -/
  requiredBufferAlignment : Nat
  /-- `IsSyncThreadSafe()`. -/
  isSyncThreadSafe : Bool
  /-- `Append(data)`. -/
  append : Bytes → ω → Status × ω
  /-- `PositionedAppend(data, offset)`. -/
  positionedAppend : Bytes → Nat → ω → Status × ω
  /-- `Truncate(size)`. -/
  truncate : Nat → ω → Status × ω
  /-- `Close()`. -/
  close : ω → Status × ω
  /-- `Flush()`. -/
  flush : ω → Status × ω
  /-- `Sync()`. -/
  sync : ω → Status × ω
  /-- `Fsync()`. -/
  fsync : ω → Status × ω
  /-- `RangeSync(offset, nbytes)`. -/
  rangeSync : Nat → Nat → ω → Status × ω
  /-- `PrepareWrite(offset, len)`. -/
  prepareWrite : Nat → Nat → ω → ω
  /-- `AlignedBuffer::Alignment` asserts that alignments are powers of two. -/
  powerOfTwo : requiredBufferAlignment.isPowerOfTwo

namespace WritableFile

/-- `WritableFile::PrepareWrite`: preallocate up to the last block that the write will
reach.  The two numbers are the members of the base class that it reads, and `allocate` is
what `Allocate` does in a derived class. -/
def prepareWriteWith
    {ω : Type}
    (allocate : Nat → Nat → ω → ω)
    (setLastPreallocatedBlock : Nat → ω → ω)
    (preallocationBlockSize lastPreallocatedBlock offset len : Nat)
    (file : ω) : ω :=
  if preallocationBlockSize = 0 then file
  else
    let blockSize := preallocationBlockSize
    let newLastPreallocatedBlock := (offset + len + blockSize - 1) / blockSize
    if lastPreallocatedBlock < newLastPreallocatedBlock then
      let numSpannedBlocks := newLastPreallocatedBlock - lastPreallocatedBlock
      setLastPreallocatedBlock newLastPreallocatedBlock
        (allocate (blockSize * lastPreallocatedBlock) (blockSize * numSpannedBlocks) file)
    else file

/-- Either nothing has to be preallocated, or the blocks up to the one that a write will
reach. -/
theorem prepareWriteWith_cases
    {ω : Type}
    (allocate : Nat → Nat → ω → ω)
    (setLastPreallocatedBlock : Nat → ω → ω)
    (preallocationBlockSize lastPreallocatedBlock offset len : Nat)
    (file : ω) :
    let prepared := prepareWriteWith allocate setLastPreallocatedBlock preallocationBlockSize
      lastPreallocatedBlock offset len file
    let block := (offset + len + preallocationBlockSize - 1) / preallocationBlockSize
    ((0 < preallocationBlockSize → block ≤ lastPreallocatedBlock) ∧ prepared = file) ∨
      0 < preallocationBlockSize ∧ lastPreallocatedBlock < block ∧
        prepared = setLastPreallocatedBlock block
          (allocate (preallocationBlockSize * lastPreallocatedBlock)
            (preallocationBlockSize * (block - lastPreallocatedBlock)) file) := by
  intro prepared block
  by_cases none : preallocationBlockSize = 0
  · exact .inl ⟨fun some => absurd none (Nat.ne_of_gt some), if_pos none⟩
  · have isPrepared : prepared = if lastPreallocatedBlock < block then _ else file :=
      if_neg none
    by_cases further : lastPreallocatedBlock < block
    · rw [if_pos further] at isPrepared
      exact .inr ⟨Nat.pos_of_ne_zero none, further, isPrepared⟩
    · rw [if_neg further] at isPrepared
      exact .inl ⟨fun _ => Nat.not_lt.mp further, isPrepared⟩

/-- What the writers rely on: `contents` grows by the data of each `Append` that
succeeds, and every other call leaves it alone. -/
structure Keeps {ω : Type} (F : WritableFile ω) (contents : ω → Bytes) : Prop where
  append_ok : ∀ data file, (F.append data file).1.ok = true →
    contents (F.append data file).2 = contents file ++ data
  append_failed : ∀ data file, (F.append data file).1.ok = false →
    contents (F.append data file).2 = contents file
  flush : ∀ file, contents (F.flush file).2 = contents file
  rangeSync : ∀ offset nbytes file,
    contents (F.rangeSync offset nbytes file).2 = contents file
  prepareWrite : ∀ offset len file,
    contents (F.prepareWrite offset len file) = contents file

/-- The same for the calls that writing a log does not make: syncing and closing leave
the contents alone, and so does `Truncate` to their length. -/
structure KeepsOnClose {ω : Type} (F : WritableFile ω) (contents : ω → Bytes) : Prop
    extends F.Keeps contents where
  sync : ∀ file, contents (F.sync file).2 = contents file
  fsync : ∀ file, contents (F.fsync file).2 = contents file
  truncate : ∀ file,
    contents (F.truncate (contents file).length file).2 = contents file
  close : ∀ file, contents (F.close file).2 = contents file

/-- A change of a file that does not concern its contents. -/
def Same {ω : Type} (contents : ω → Bytes) (valid : ω → Prop) (file after : ω) : Prop :=
  valid after ∧ contents after = contents file

/-- A file in a `valid` state of which an `Append` that fails may have written a part
of its data: its first `leak` bytes. -/
structure Leaks
    {ω : Type}
    (F : WritableFile ω)
    (contents : ω → Bytes)
    (valid : ω → Prop)
    (leak : Bytes → ω → Nat) : Prop where
  append_ok : ∀ data file, valid file → (F.append data file).1.ok = true →
    leak data file = 0 ∧ valid (F.append data file).2 ∧
      contents (F.append data file).2 = contents file ++ data
  append_failed : ∀ data file, valid file → (F.append data file).1.ok = false →
    leak data file ≤ data.length ∧ valid (F.append data file).2 ∧
      contents (F.append data file).2 = contents file ++ data.take (leak data file)
  flush : ∀ file, valid file → Same contents valid file (F.flush file).2
  sync : ∀ file, valid file → Same contents valid file (F.sync file).2
  fsync : ∀ file, valid file → Same contents valid file (F.fsync file).2
  rangeSync : ∀ offset nbytes file, valid file →
    Same contents valid file (F.rangeSync offset nbytes file).2
  prepareWrite : ∀ offset len file, valid file →
    Same contents valid file (F.prepareWrite offset len file)

/-- A file that leaks nothing. -/
theorem KeepsOnClose.leaks
    {ω : Type}
    {F : WritableFile ω}
    {contents : ω → Bytes}
    (keeps : F.KeepsOnClose contents) :
    F.Leaks contents (fun _ => True) fun _ _ => 0 where
  append_ok := fun data file _ succeeds =>
    ⟨rfl, trivial, keeps.append_ok data file succeeds⟩
  append_failed := fun data file _ fails =>
    ⟨Nat.zero_le _, trivial, by
      rw [keeps.append_failed data file fails, List.take_zero, List.append_nil]⟩
  flush := fun file _ => ⟨trivial, keeps.flush file⟩
  sync := fun file _ => ⟨trivial, keeps.sync file⟩
  fsync := fun file _ => ⟨trivial, keeps.fsync file⟩
  rangeSync := fun offset nbytes file _ => ⟨trivial, keeps.rangeSync offset nbytes file⟩
  prepareWrite := fun offset len file _ =>
    ⟨trivial, keeps.prepareWrite offset len file⟩

/-- The calls of a file in buffered mode all succeed, from a `valid` state on. -/
structure NeverFails
    {ω : Type}
    (F : WritableFile ω)
    (valid : ω → Prop) : Prop where
  append : ∀ data file, valid file →
    (F.append data file).1.ok = true ∧ valid (F.append data file).2
  flush : ∀ file, valid file → (F.flush file).1.ok = true ∧ valid (F.flush file).2
  rangeSync : ∀ offset nbytes file, valid file →
    (F.rangeSync offset nbytes file).1.ok = true ∧
      valid (F.rangeSync offset nbytes file).2
  prepareWrite : ∀ offset len file, valid file → valid (F.prepareWrite offset len file)

/-- The file with a record of the data of its `Append`s. -/
def recordingAppends {ω : Type} (F : WritableFile ω) : WritableFile (ω × List Bytes) where
  useOSBuffer := F.useOSBuffer
  useDirectIO := F.useDirectIO
  requiredBufferAlignment := F.requiredBufferAlignment
  isSyncThreadSafe := F.isSyncThreadSafe
  append := fun data file =>
    ((F.append data file.1).1, (F.append data file.1).2, file.2 ++ [data])
  positionedAppend := fun data offset file =>
    ((F.positionedAppend data offset file.1).1,
      (F.positionedAppend data offset file.1).2, file.2)
  truncate := fun size file =>
    ((F.truncate size file.1).1, (F.truncate size file.1).2, file.2)
  close := fun file => ((F.close file.1).1, (F.close file.1).2, file.2)
  flush := fun file => ((F.flush file.1).1, (F.flush file.1).2, file.2)
  sync := fun file => ((F.sync file.1).1, (F.sync file.1).2, file.2)
  fsync := fun file => ((F.fsync file.1).1, (F.fsync file.1).2, file.2)
  rangeSync := fun offset nbytes file =>
    ((F.rangeSync offset nbytes file.1).1, (F.rangeSync offset nbytes file.1).2, file.2)
  prepareWrite := fun offset len file => (F.prepareWrite offset len file.1, file.2)
  powerOfTwo := F.powerOfTwo

end WritableFile

/-- A file with the outcomes of the next calls of `Append` and `Flush`.  Behind
the end of the schedule every call succeeds. -/
structure FaultyFile where
  /-- The bytes the file holds. -/
  contents : Bytes
  /-- The statuses the next calls return. -/
  outcomes : List Status

namespace FaultyFile

/-- The status the next call returns. -/
def outcome (file : FaultyFile) : Status := file.outcomes.headD .OK

/-- The schedule behind the next call. -/
def pass (file : FaultyFile) : FaultyFile :=
  { file with outcomes := file.outcomes.tail }

/-- Append to the file, if the schedule lets the call succeed. -/
def append (data : Bytes) (file : FaultyFile) : Status × FaultyFile :=
  (file.outcome, if file.outcome.ok then
    { file.pass with contents := file.contents ++ data }
  else file.pass)

/-- Flush the file, if the schedule lets the call succeed. -/
def flush (file : FaultyFile) : Status × FaultyFile := (file.outcome, file.pass)

/-- The properties of a file in buffered mode that do not change. -/
structure Traits where
  /-- `UseDirectIO()`. -/
  directIO : Bool
  /-- `GetRequiredBufferAlignment()`. -/
  alignment : Nat
  powerOfTwo : alignment.isPowerOfTwo

/-- The properties the base class gives to a file. -/
def Traits.default : Traits := ⟨false, 4096, 12, rfl⟩

/-- The file as a `WritableFile` in buffered mode.  The calls that buffered
writing does not make are those of the base class. -/
def Traits.writableFile (traits : Traits) : WritableFile FaultyFile where
  useOSBuffer := true
  useDirectIO := traits.directIO
  requiredBufferAlignment := traits.alignment
  isSyncThreadSafe := false
  append := append
  positionedAppend := fun _ _ file => (.NotSupported "", file)
  truncate := fun _ file => (.OK, file)
  close := fun file => (.OK, file)
  flush := flush
  sync := fun file => (.OK, file)
  fsync := fun file => (.OK, file)
  rangeSync := fun _ _ file => (.OK, file)
  prepareWrite := fun _ _ file => file
  powerOfTwo := traits.powerOfTwo

@[simp] theorem contents_pass (file : FaultyFile) :
    file.pass.contents = file.contents := rfl

@[simp] theorem outcomes_pass (file : FaultyFile) :
    file.pass.outcomes = file.outcomes.tail := rfl

@[simp] theorem Traits.append_eq (traits : Traits) :
    traits.writableFile.append = append := rfl

@[simp] theorem Traits.flush_eq (traits : Traits) :
    traits.writableFile.flush = flush := rfl

@[simp] theorem Traits.rangeSync_eq
    (traits : Traits)
    (offset nbytes : Nat)
    (file : FaultyFile) :
    traits.writableFile.rangeSync offset nbytes file = (.OK, file) := rfl

theorem outcomes_append
    (data : Bytes)
    (file : FaultyFile) :
    (append data file).2.outcomes = file.outcomes.tail := by
  unfold append
  simp only
  split <;> rfl

theorem Traits.keeps (traits : Traits) :
    traits.writableFile.Keeps FaultyFile.contents where
  append_ok := by
    intro data file succeeds
    change file.outcome.ok = true at succeeds
    simp [writableFile, append, succeeds]
  append_failed := by
    intro data file fails
    change file.outcome.ok = false at fails
    simp [writableFile, append, fails]
  flush := fun _ => rfl
  rangeSync := fun _ _ _ => rfl
  prepareWrite := fun _ _ _ => rfl

/-- Behind the end of the schedule nothing fails. -/
theorem Traits.neverFails (traits : Traits) :
    traits.writableFile.NeverFails fun file => file.outcomes = [] where
  append := by
    intro data file quiet
    have outcome : file.outcome = .OK := by rw [FaultyFile.outcome, quiet]; rfl
    refine ⟨congrArg Status.ok outcome, ?_⟩
    exact (outcomes_append data file).trans (by rw [quiet, List.tail_nil])
  flush := by
    intro file quiet
    have outcome : file.outcome = .OK := by rw [FaultyFile.outcome, quiet]; rfl
    refine ⟨congrArg Status.ok outcome, ?_⟩
    exact (outcomes_pass file).trans (by rw [quiet, List.tail_nil])
  rangeSync := fun _ _ _ quiet => ⟨rfl, quiet⟩
  prepareWrite := fun _ _ _ quiet => quiet

theorem Traits.keepsOnClose (traits : Traits) :
    traits.writableFile.KeepsOnClose FaultyFile.contents where
  toKeeps := traits.keeps
  sync := fun _ => rfl
  fsync := fun _ => rfl
  truncate := fun _ => rfl
  close := fun _ => rfl

end FaultyFile
end RocksUtil
