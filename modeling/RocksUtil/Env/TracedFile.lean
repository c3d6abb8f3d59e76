import Mathlib.Data.List.DropRight
import RocksUtil.Env.WritableFile

/-!
# What a file has been asked to do

`WritableFile.traced` is a file with a trace of what its writer has asked of it: the data of
each `Append` that succeeded, each call of `Sync` and `Fsync`, and each range that was to be
synced.  The bytes handed to the file so far, and those that had been handed to it when it
was last synced, are read off the trace.
-/

namespace RocksUtil

/-- What a file has been asked to do. -/
inductive FileEvent
  /-- An `Append` that succeeded. -/
  | append (data : Bytes)
  /-- A call of `Sync` or `Fsync`, and whether it succeeded. -/
  | sync (ok : Bool)
  /-- A call of `RangeSync`. -/
  | rangeSync (offset nbytes : Nat)

namespace FileEvent

/-- The bytes that an event hands to the file. -/
def data : FileEvent → Bytes
  | .append data => data
  | _ => []

/-- The range that an event syncs. -/
def range : FileEvent → Option (Nat × Nat)
  | .rangeSync offset nbytes => some (offset, nbytes)
  | _ => none

/-- The event is a call of `Sync` or `Fsync`. -/
def isSync : FileEvent → Bool
  | .sync _ => true
  | _ => false

/-- The bytes handed to the file. -/
def handed (trace : List FileEvent) : Bytes := trace.flatMap data

/-- The ranges that were to be synced. -/
def ranges (trace : List FileEvent) : List (Nat × Nat) := trace.filterMap range

/-- The calls of `Sync` and `Fsync`. -/
def syncs (trace : List FileEvent) : List FileEvent := trace.filter isSync

/-- The event is a successful call of `Sync` or `Fsync`. -/
def succeeds : FileEvent → Bool
  | .sync ok => ok
  | _ => false

/-- The bytes that had been handed to the file before its last successful `Sync` or `Fsync`,
and none if there was none. -/
def synced (trace : List FileEvent) : Bytes :=
  handed (trace.rdropWhile fun event => !event.succeeds)

theorem handed_append (trace events : List FileEvent) :
    handed (trace ++ events) = handed trace ++ handed events :=
  List.flatMap_append ..

theorem ranges_append (trace events : List FileEvent) :
    ranges (trace ++ events) = ranges trace ++ ranges events :=
  List.filterMap_append ..

theorem syncs_append (trace events : List FileEvent) :
    syncs (trace ++ events) = syncs trace ++ syncs events :=
  List.filter_append ..

/-- Behind a successful call everything is synced. -/
theorem synced_sync (trace : List FileEvent) :
    synced (trace ++ [.sync true]) = handed trace := by
  rw [synced, List.rdropWhile_concat_neg _ _ _ (by decide), handed_append]
  exact List.append_nil _

/-- Nothing else is one. -/
theorem synced_concat
    (trace : List FileEvent)
    {event : FileEvent}
    (fails : event.succeeds = false) : synced (trace ++ [event]) = synced trace := by
  rw [synced, synced, List.rdropWhile_concat_pos]
  rw [fails]
  rfl

theorem synced_append
    (trace : List FileEvent)
    {events : List FileEvent}
    (none : syncs events = []) : synced (trace ++ events) = synced trace := by
  induction events using List.reverseRecOn with
  | nil => rw [List.append_nil]
  | append_singleton events event inductionHypothesis =>
      rw [syncs_append, List.append_eq_nil_iff] at none
      have fails : event.succeeds = false := by
        cases event with
        | sync ok => cases none.2
        | append data => rfl
        | rangeSync offset nbytes => rfl
      rw [← List.append_assoc, synced_concat _ fails]
      exact inductionHypothesis none.1

end FileEvent

/-- The file with a trace of what it is asked to do. -/
def WritableFile.traced {ω : Type} (F : WritableFile ω) :
    WritableFile (ω × List FileEvent) where
  useOSBuffer := F.useOSBuffer
  useDirectIO := F.useDirectIO
  requiredBufferAlignment := F.requiredBufferAlignment
  isSyncThreadSafe := F.isSyncThreadSafe
  append := fun data file =>
    ((F.append data file.1).1, (F.append data file.1).2,
      if (F.append data file.1).1.ok then file.2 ++ [.append data] else file.2)
  positionedAppend := fun data offset file =>
    ((F.positionedAppend data offset file.1).1,
      (F.positionedAppend data offset file.1).2, file.2)
  truncate := fun size file =>
    ((F.truncate size file.1).1, (F.truncate size file.1).2, file.2)
  close := fun file => ((F.close file.1).1, (F.close file.1).2, file.2)
  flush := fun file => ((F.flush file.1).1, (F.flush file.1).2, file.2)
  sync := fun file =>
    ((F.sync file.1).1, (F.sync file.1).2, file.2 ++ [.sync (F.sync file.1).1.ok])
  fsync := fun file =>
    ((F.fsync file.1).1, (F.fsync file.1).2, file.2 ++ [.sync (F.fsync file.1).1.ok])
  rangeSync := fun offset nbytes file =>
    ((F.rangeSync offset nbytes file.1).1, (F.rangeSync offset nbytes file.1).2,
      file.2 ++ [.rangeSync offset nbytes])
  prepareWrite := fun offset len file => (F.prepareWrite offset len file.1, file.2)
  powerOfTwo := F.powerOfTwo

namespace WritableFile

/-- What has been handed to the file, over its whole trace. -/
def tracedBytes {ω : Type} (file : ω × List FileEvent) : Bytes := FileEvent.handed file.2

/-- The trace accounts for what succeeds, whatever the file does with it. -/
theorem traced_keepsOnClose {ω : Type} (F : WritableFile ω) :
    F.traced.KeepsOnClose tracedBytes where
  append_ok := by
    intro data file succeeds
    change (F.append data file.1).1.ok = true at succeeds
    change FileEvent.handed (if (F.append data file.1).1.ok then _ else _) = _
    rw [if_pos succeeds, FileEvent.handed_append]
    exact congrArg (_ ++ ·) (List.append_nil data)
  append_failed := by
    intro data file fails
    change (F.append data file.1).1.ok = false at fails
    change FileEvent.handed (if (F.append data file.1).1.ok then _ else _) = _
    rw [if_neg (by rw [fails]; exact Bool.false_ne_true)]
    rfl
  flush := fun _ => rfl
  rangeSync := fun _ _ _ => (FileEvent.handed_append ..).trans (List.append_nil _)
  prepareWrite := fun _ _ _ => rfl
  sync := fun _ => (FileEvent.handed_append ..).trans (List.append_nil _)
  fsync := fun _ => (FileEvent.handed_append ..).trans (List.append_nil _)
  truncate := fun _ => rfl
  close := fun _ => rfl

end WritableFile
end RocksUtil
