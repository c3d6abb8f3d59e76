import RocksUtil.Env.WritableFile

/-!
# Files written in pages

A file in unbuffered mode takes its data by `PositionedAppend`, at offsets and in
lengths that are multiples of its alignment.  `WritesPages` says what the writers
rely on, for files in a `valid` state; `recording` is the same file with a record of
the writes that were made.
-/

namespace RocksUtil

/-- Write `data` at `offset`.  Between the end of the file and a later offset the file
reads as zeros. -/
def overwrite (contents : Bytes) (offset : Nat) (data : Bytes) : Bytes :=
  (contents ++ List.replicate (offset - contents.length) 0).take offset ++ data ++
    contents.drop (offset + data.length)

/-- Over the end of a file that is not shorter than the offset. -/
theorem overwrite_append
    (front rest data : Bytes)
    (covered : rest.length ≤ data.length) :
    overwrite (front ++ rest) front.length data = front ++ data := by
  have inFile : front.length - (front ++ rest).length = 0 := by
    rw [List.length_append]
    omega
  have past : (front ++ rest).length ≤ front.length + data.length := by
    rw [List.length_append]
    omega
  rw [overwrite, inFile, List.replicate_zero, List.append_nil, List.take_left,
    List.drop_of_length_le past, List.append_nil]

namespace WritableFile

variable {ω : Type}

/-- A call that succeeds and does not change the contents. -/
def Silent
    (contents : ω → Bytes)
    (valid : ω → Prop)
    (file : ω)
    (result : Status × ω) : Prop :=
  result.1.ok = true ∧ valid result.2 ∧ contents result.2 = contents file

/-- Every call succeeds, and only `PositionedAppend` changes the contents: it starts in
the file and goes up to its end or further. -/
structure WritesPages
    (F : WritableFile ω)
    (contents : ω → Bytes)
    (valid : ω → Prop) : Prop where
  positionedAppend : ∀ data offset file, valid file →
    F.requiredBufferAlignment ∣ offset → F.requiredBufferAlignment ∣ data.length →
    0 < data.length → offset ≤ (contents file).length →
    (contents file).length ≤ offset + data.length →
      let result := F.positionedAppend data offset file
      result.1.ok = true ∧ valid result.2 ∧
        contents result.2 = overwrite (contents file) offset data
  flush : ∀ file, valid file → Silent contents valid file (F.flush file)
  sync : ∀ file, valid file → Silent contents valid file (F.sync file)
  fsync : ∀ file, valid file → Silent contents valid file (F.fsync file)
  rangeSync : ∀ offset nbytes file, valid file →
    Silent contents valid file (F.rangeSync offset nbytes file)
  prepareWrite : ∀ offset len file, valid file →
    valid (F.prepareWrite offset len file) ∧
      contents (F.prepareWrite offset len file) = contents file

/-- `Truncate` cuts the file, and closing it changes nothing. -/
structure Cuts
    (F : WritableFile ω)
    (contents : ω → Bytes)
    (valid : ω → Prop) : Prop where
  truncate : ∀ size file, valid file →
    let result := F.truncate size file
    result.1.ok = true ∧ valid result.2 ∧ contents result.2 = (contents file).take size
  close : ∀ file, valid file → Silent contents valid file (F.close file)

/-- The file with a record of the offsets and lengths of its `PositionedAppend`s. -/
def recording (F : WritableFile ω) : WritableFile (ω × List (Nat × Nat)) where
  useOSBuffer := F.useOSBuffer
  useDirectIO := F.useDirectIO
  requiredBufferAlignment := F.requiredBufferAlignment
  isSyncThreadSafe := F.isSyncThreadSafe
  append := fun data file =>
    ((F.append data file.1).1, (F.append data file.1).2, file.2)
  positionedAppend := fun data offset file =>
    ((F.positionedAppend data offset file.1).1,
      (F.positionedAppend data offset file.1).2, file.2 ++ [(offset, data.length)])
  truncate := fun size file =>
    ((F.truncate size file.1).1, (F.truncate size file.1).2, file.2)
  close := fun file => ((F.close file.1).1, (F.close file.1).2, file.2)
  flush := fun file => ((F.flush file.1).1, (F.flush file.1).2, file.2)
  sync := fun file => ((F.sync file.1).1, (F.sync file.1).2, file.2)
  fsync := fun file => ((F.fsync file.1).1, (F.fsync file.1).2, file.2)
  rangeSync := fun offset nbytes file =>
    ((F.rangeSync offset nbytes file.1).1, (F.rangeSync offset nbytes file.1).2, file.2)
  prepareWrite := fun offset len file => (F.prepareWrite offset len file.1, file.2)
  powerOfTwo := F.powerOfTwo

/-- All writes were of whole pages. -/
def Recorded
    (F : WritableFile ω)
    (valid : ω → Prop)
    (file : ω × List (Nat × Nat)) : Prop :=
  valid file.1 ∧ ∀ write ∈ file.2,
    F.requiredBufferAlignment ∣ write.1 ∧ F.requiredBufferAlignment ∣ write.2

section Recording

variable {F : WritableFile ω} {contents : ω → Bytes} {valid : ω → Prop}

theorem Silent.recorded
    {file : ω × List (Nat × Nat)}
    {result : Status × ω}
    (silent : Silent contents valid file.1 result)
    (recorded : F.Recorded valid file) :
    Silent (contents ∘ Prod.fst) (F.Recorded valid) file
      (result.1, result.2, file.2) :=
  ⟨silent.1, ⟨silent.2.1, recorded.2⟩, silent.2.2⟩

/-- The record shows writes of whole pages only. -/
theorem WritesPages.recording (pages : F.WritesPages contents valid) :
    F.recording.WritesPages (contents ∘ Prod.fst) (F.Recorded valid) where
  positionedAppend := by
    intro data offset file recorded atPage whole some inFile further
    obtain ⟨succeeds, isValid, written⟩ :=
      pages.positionedAppend data offset file.1 recorded.1 atPage whole some inFile
        further
    refine ⟨succeeds, ⟨isValid, fun write member => ?_⟩, written⟩
    rcases List.mem_append.mp member with before | last
    · exact recorded.2 write before
    · rw [List.mem_singleton.mp last]
      exact ⟨atPage, whole⟩
  flush := fun file recorded => (pages.flush file.1 recorded.1).recorded recorded
  sync := fun file recorded => (pages.sync file.1 recorded.1).recorded recorded
  fsync := fun file recorded => (pages.fsync file.1 recorded.1).recorded recorded
  rangeSync := fun offset nbytes file recorded =>
    (pages.rangeSync offset nbytes file.1 recorded.1).recorded recorded
  prepareWrite := fun offset len file recorded =>
    ⟨⟨(pages.prepareWrite offset len file.1 recorded.1).1, recorded.2⟩,
      (pages.prepareWrite offset len file.1 recorded.1).2⟩

theorem Cuts.recording (cuts : F.Cuts contents valid) :
    F.recording.Cuts (contents ∘ Prod.fst) (F.Recorded valid) where
  truncate := by
    intro size file recorded
    obtain ⟨succeeds, isValid, cut⟩ := cuts.truncate size file.1 recorded.1
    exact ⟨succeeds, ⟨isValid, recorded.2⟩, cut⟩
  close := fun file recorded => (cuts.close file.1 recorded.1).recorded recorded

end Recording

end WritableFile

/-! ## A file in memory -/

/-- The properties of a file in unbuffered mode that do not change. -/
structure PagedFile where
  /-- `UseDirectIO()`. -/
  directIO : Bool
  /-- `GetRequiredBufferAlignment()`. -/
  alignment : Nat
  powerOfTwo : alignment.isPowerOfTwo

/-- A file in unbuffered mode all of whose calls succeed.  The calls that unbuffered
writing does not make are those of the base class. -/
def PagedFile.writableFile (file : PagedFile) : WritableFile Bytes where
  useOSBuffer := false
  useDirectIO := file.directIO
  requiredBufferAlignment := file.alignment
  isSyncThreadSafe := false
  append := fun _ contents => (.NotSupported "", contents)
  positionedAppend := fun data offset contents => (.OK, overwrite contents offset data)
  truncate := fun size contents => (.OK, contents.take size)
  close := fun contents => (.OK, contents)
  flush := fun contents => (.OK, contents)
  sync := fun contents => (.OK, contents)
  fsync := fun contents => (.OK, contents)
  rangeSync := fun _ _ contents => (.OK, contents)
  prepareWrite := fun _ _ contents => contents
  powerOfTwo := file.powerOfTwo

theorem PagedFile.writesPages (file : PagedFile) :
    file.writableFile.WritesPages id fun _ => True where
  positionedAppend := fun _ _ _ _ _ _ _ _ _ => ⟨rfl, trivial, rfl⟩
  flush := fun _ _ => ⟨rfl, trivial, rfl⟩
  sync := fun _ _ => ⟨rfl, trivial, rfl⟩
  fsync := fun _ _ => ⟨rfl, trivial, rfl⟩
  rangeSync := fun _ _ _ _ => ⟨rfl, trivial, rfl⟩
  prepareWrite := fun _ _ _ _ => ⟨trivial, rfl⟩

theorem PagedFile.cuts (file : PagedFile) :
    file.writableFile.Cuts id fun _ => True where
  truncate := fun _ _ _ => ⟨rfl, trivial, rfl⟩
  close := fun _ _ => ⟨rfl, trivial, rfl⟩

end RocksUtil
