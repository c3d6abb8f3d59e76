import RocksUtil.Env.PagedFile

/-!
# Files written in pages that fail

`WritesPages` says that every call succeeds.  Here a call of `PositionedAppend` ends as
the next entry of a schedule says, and behind its end it succeeds; one that fails leaves
the file as it was (`FailsAsScheduled`).
-/

namespace RocksUtil

namespace WritableFile

variable {ω : Type}

/-- How the next `PositionedAppend` ends. -/
def nextOutcome (schedule : List Status) : Status := schedule.headD .OK

/-- `PositionedAppend` ends as `schedule` says, and changes the contents if it succeeds.
`Flush` and `RangeSync` succeed; what else is called may fail, but it does not change the
contents, up to a `Truncate` that succeeds. -/
structure FailsAsScheduled
    (F : WritableFile ω)
    (contents : ω → Bytes)
    (schedule : ω → List Status) : Prop where
  positionedAppend : ∀ data offset file,
    F.requiredBufferAlignment ∣ offset → F.requiredBufferAlignment ∣ data.length →
    0 < data.length → offset ≤ (contents file).length →
    (contents file).length ≤ offset + data.length →
      let result := F.positionedAppend data offset file
      let outcome := nextOutcome (schedule file)
      result.1 = outcome ∧ schedule result.2 = (schedule file).tail ∧
        contents result.2 =
          if outcome.ok then overwrite (contents file) offset data else contents file
  flush : ∀ file, Silent contents (schedule · = schedule file) file (F.flush file)
  rangeSync : ∀ offset nbytes file,
    Silent contents (schedule · = schedule file) file (F.rangeSync offset nbytes file)
  sync : ∀ file, Same contents (schedule · = schedule file) file (F.sync file).2
  fsync : ∀ file, Same contents (schedule · = schedule file) file (F.fsync file).2
  prepareWrite : ∀ offset len file,
    Same contents (schedule · = schedule file) file (F.prepareWrite offset len file)
  truncate : ∀ size file, (F.truncate size file).1.ok = true →
    contents (F.truncate size file).2 = (contents file).take size
  close : ∀ file, contents (F.close file).2 = contents file

end WritableFile

namespace FaultyFile

/-- Write at an offset, if the schedule lets the call succeed. -/
def positionedAppend (data : Bytes) (offset : Nat) (file : FaultyFile) :
    Status × FaultyFile :=
  (file.outcome, if file.outcome.ok then
    { file.pass with contents := overwrite file.contents offset data }
  else file.pass)

/-- The file as a `WritableFile` in unbuffered mode. -/
def Traits.pagedFile (traits : Traits) : WritableFile FaultyFile where
  useOSBuffer := false
  useDirectIO := traits.directIO
  requiredBufferAlignment := traits.alignment
  isSyncThreadSafe := false
  append := fun _ file => (.NotSupported "", file)
  positionedAppend := positionedAppend
  truncate := fun size file => (.OK, { file with contents := file.contents.take size })
  close := fun file => (.OK, file)
  flush := fun file => (.OK, file)
  sync := fun file => (.OK, file)
  fsync := fun file => (.OK, file)
  rangeSync := fun _ _ file => (.OK, file)
  prepareWrite := fun _ _ file => file
  powerOfTwo := traits.powerOfTwo

theorem Traits.failsAsScheduled (traits : Traits) :
    traits.pagedFile.FailsAsScheduled FaultyFile.contents FaultyFile.outcomes where
  positionedAppend := by
    intro data offset file _ _ _ _ _
    change file.outcome = file.outcome ∧
      (if file.outcome.ok then
        { file.pass with contents := overwrite file.contents offset data }
          else file.pass).outcomes = file.outcomes.tail ∧
      (if file.outcome.ok then
        { file.pass with contents := overwrite file.contents offset data }
          else file.pass).contents =
        if file.outcome.ok then overwrite file.contents offset data else file.contents
    split <;> exact ⟨rfl, rfl, rfl⟩
  flush := fun _ => ⟨rfl, rfl, rfl⟩
  rangeSync := fun _ _ _ => ⟨rfl, rfl, rfl⟩
  sync := fun _ => ⟨rfl, rfl⟩
  fsync := fun _ => ⟨rfl, rfl⟩
  prepareWrite := fun _ _ _ => ⟨rfl, rfl⟩
  truncate := fun _ _ _ => rfl
  close := fun _ => rfl

end FaultyFile
end RocksUtil
