import RocksUtil.Env.PosixEnv
import RocksUtil.Env.SequentialReaders

/-!
# Whole files

`WriteStringToFile` and `ReadFileToString`.  Whatever system calls fail on the way, a file
that has been reported as written holds the data and, if the calls of the destructor fail,
zeros behind it, and a file that has not been is gone.
-/

namespace RocksUtil

namespace PosixMmapFile

variable {data : Bytes} {file : PosixMmapFile}

/-- The file, if no system call fails from now on. -/
def undisturbed (file : PosixMmapFile) : PosixMmapFile := { file with schedule := [] }

/-- A call that does not change the file. -/
theorem systemCall_spec (file : PosixMmapFile) :
    ∃ outcome schedule, file.systemCall = (outcome, { file with schedule := schedule }) := by
  unfold systemCall
  split
  · rename_i none
    exact ⟨_, [], by rw [← none]⟩
  · exact ⟨_, _, rfl⟩

/-- A step that returns OK does what it does when nothing fails. -/
def Calm (step : PosixMmapFile → Status × PosixMmapFile) : Prop :=
  ∀ file, (step file).1.ok = true → step file.undisturbed = (.OK, (step file).2.undisturbed)

theorem calm_unmapCurrentRegion : Calm unmapCurrentRegion := by
  intro file succeeds
  obtain ⟨outcome, schedule, called⟩ := file.systemCall_spec
  unfold unmapCurrentRegion at succeeds ⊢
  have same : file.undisturbed.base = file.base := rfl
  by_cases isMapped : file.base ≠ 0
  · rw [same, if_pos isMapped, systemCall_of_nil rfl]
    rw [if_pos isMapped, called] at succeeds ⊢
    cases outcome with
    | some message => simp [ioError] at succeeds
    | none => rfl
  · rw [same, if_neg isMapped, if_neg isMapped]

theorem calm_allocateRegion (succeeds : file.allocateRegion.1 = none) :
    file.undisturbed.allocateRegion = (none, file.allocateRegion.2.undisturbed) := by
  obtain ⟨outcome, schedule, called⟩ := file.systemCall_spec
  obtain ⟨outcome', schedule', called'⟩ :=
    ({ file with schedule := schedule } : PosixMmapFile).systemCall_spec
  have same : file.undisturbed.allowFallocate = file.allowFallocate := rfl
  unfold allocateRegion at succeeds ⊢
  by_cases allowed : file.allowFallocate = true
  · rw [same, if_pos allowed, systemCall_of_nil rfl]
    rw [if_pos allowed, called] at succeeds ⊢
    cases outcome with
    | none => rfl
    | some message =>
        simp only [called'] at succeeds ⊢
        cases outcome' with
        | none => rfl
        | some message' => simp at succeeds
  · rw [same, if_neg allowed, if_neg allowed]

theorem calm_mapNewRegion : Calm mapNewRegion := by
  intro file succeeds
  unfold mapNewRegion at succeeds ⊢
  split at succeeds
  · simp at succeeds
  · rename_i allocated isAllocated
    have calm := @calm_allocateRegion file (by rw [isAllocated])
    obtain ⟨outcome, schedule, called⟩ := allocated.systemCall_spec
    rw [isAllocated] at calm
    rw [calm]
    simp only [called] at succeeds ⊢
    rw [systemCall_of_nil rfl]
    cases outcome with
    | some message => simp at succeeds
    | none => rfl

theorem calm_moveRegion : Calm moveRegion := by
  intro file succeeds
  unfold moveRegion at succeeds ⊢
  by_cases unmaps : file.unmapCurrentRegion.1.ok = true
  · simp only [unmaps, if_true] at succeeds ⊢
    rw [calm_unmapCurrentRegion file unmaps]
    exact calm_mapNewRegion _ succeeds
  · simp only [unmaps, if_false, Bool.false_eq_true] at succeeds

/-- A pass of `Append` that returns OK. -/
theorem calm_appendPass
    {left : Bytes}
    (succeeds : (file.appendPass left).1.ok = true) :
    file.undisturbed.appendPass left =
      (.OK, (file.appendPass left).2.1, (file.appendPass left).2.2.undisturbed) := by
  have room : file.undisturbed.limit - file.undisturbed.dst = file.limit - file.dst := rfl
  unfold appendPass at succeeds ⊢
  by_cases full : file.limit - file.dst = 0
  · simp only [room, full, if_true] at succeeds ⊢
    by_cases moves : file.moveRegion.1.ok = true
    · simp only [calm_moveRegion file moves, moves, Status.ok_OK, if_true]
      rfl
    · simp only [moves, if_false, Bool.false_eq_true] at succeeds
  · simp only [room, full, if_false, Status.ok_OK, if_true]
    rfl

theorem calm_append {src : Bytes} (succeeds : (file.append src).1.ok = true) :
    file.undisturbed.append src = (.OK, (file.append src).2.undisturbed) := by
  induction src, file using PosixMmapFile.append.induct with
  | case1 src file some passes inductionHypothesis =>
      have calm := calm_appendPass passes
      rw [PosixMmapFile.append, if_pos some, dif_pos passes] at succeeds
      have rest := inductionHypothesis succeeds
      rw [PosixMmapFile.append, if_pos some, dif_pos (by rw [calm]; rfl), calm]
      conv_rhs => rw [PosixMmapFile.append, if_pos some, dif_pos passes]
      exact rest
  | case2 src file some fails =>
      rw [PosixMmapFile.append, if_pos some, dif_neg fails] at succeeds
      exact absurd succeeds fails
  | case3 src file nothing =>
      rw [PosixMmapFile.append, if_neg nothing, PosixMmapFile.append, if_neg nothing]

/-- What an `Append` that returns OK has appended. -/
theorem Holds.append_of_ok
    {src : Bytes}
    (holds : Holds data file.undisturbed)
    (succeeds : (file.append src).1.ok = true) :
    Holds (data ++ src) (file.append src).2.undisturbed := by
  have appended := (holds.append src).2
  rw [calm_append succeeds] at appended
  exact appended

theorem calm_sync : Calm sync := by
  intro file succeeds
  obtain ⟨outcome, schedule, called⟩ := file.systemCall_spec
  unfold sync at succeeds ⊢
  rw [systemCall_of_nil rfl]
  rw [called] at succeeds ⊢
  cases outcome with
  | some message => simp [ioError] at succeeds
  | none =>
      obtain ⟨outcome', schedule', called'⟩ := ({ file with
        lastSync := file.dst, schedule := schedule } : PosixMmapFile).systemCall_spec
      have same : (file.undisturbed.dst = file.undisturbed.lastSync) =
          (file.dst = file.lastSync) := rfl
      simp only [msync] at succeeds ⊢
      simp only [same]
      by_cases synced : file.dst = file.lastSync
      · rw [if_pos synced, if_pos synced]
        rfl
      · rw [if_neg synced, systemCall_of_nil rfl]
        rw [if_neg synced, called'] at succeeds ⊢
        cases outcome' with
        | some message => simp [ioError] at succeeds
        | none => rfl

theorem calm_trim (unused : Nat) : Calm (trim unused) := by
  intro file succeeds
  obtain ⟨outcome, schedule, called⟩ := file.systemCall_spec
  unfold trim at succeeds ⊢
  rw [systemCall_of_nil rfl]
  rw [called] at succeeds ⊢
  cases outcome with
  | some message => simp [ioError] at succeeds
  | none => rfl

theorem contents_unmapCurrentRegion :
    file.unmapCurrentRegion.2.contents = file.contents := by
  obtain ⟨outcome, schedule, called⟩ := file.systemCall_spec
  unfold unmapCurrentRegion
  split
  · rw [called]
    cases outcome <;> rfl
  · rfl

theorem contents_trim
    {unused : Nat}
    (fails : ¬ (file.trim unused).1.ok = true) :
    (file.trim unused).2.contents = file.contents := by
  obtain ⟨outcome, schedule, called⟩ := file.systemCall_spec
  unfold trim at fails ⊢
  rw [called] at fails ⊢
  cases outcome with
  | some message => rfl
  | none => simp at fails

/-- What `Close` does in front of close(2). -/
def trimmed (file : PosixMmapFile) : Status × PosixMmapFile :=
  let unused := file.limit - file.dst
  let unmapped := file.unmapCurrentRegion
  if unmapped.1.ok && decide (0 < unused) then unmapped.2.trim unused else unmapped

theorem calm_trimmed : Calm trimmed := by
  intro file succeeds
  have room : file.undisturbed.limit - file.undisturbed.dst = file.limit - file.dst := rfl
  unfold trimmed at succeeds ⊢
  by_cases unmaps : file.unmapCurrentRegion.1.ok = true
  · by_cases some : 0 < file.limit - file.dst
    · simp only [unmaps, some, decide_true, Bool.and_self, if_true] at succeeds
      simp only [room, calm_unmapCurrentRegion file unmaps, unmaps, Status.ok_OK, some,
        decide_true, Bool.and_self, if_true]
      exact calm_trim _ _ succeeds
    · simp only [room, calm_unmapCurrentRegion file unmaps, some, decide_false,
        Bool.and_false, Bool.false_eq_true, if_false]
  · simp only [unmaps, Bool.false_and, Bool.false_eq_true, if_false] at succeeds

theorem contents_trimmed (fails : ¬ file.trimmed.1.ok = true) :
    file.trimmed.2.contents = file.contents := by
  unfold trimmed at fails ⊢
  simp only at fails ⊢
  split at fails
  · rename_i trims
    rw [if_pos trims, contents_trim fails, contents_unmapCurrentRegion]
  · rename_i keeps
    rw [if_neg keeps, contents_unmapCurrentRegion]

theorem close_eq (file : PosixMmapFile) :
    file.close = match file.trimmed.2.systemCall with
      | (outcome, after) =>
        (match outcome with
          | some message =>
              if file.trimmed.1.ok then after.ioError message else file.trimmed.1
          | none => file.trimmed.1,
          { after with base := 0, limit := 0 }) := rfl

theorem contents_close : file.close.2.contents = file.trimmed.2.contents := by
  obtain ⟨outcome, schedule, called⟩ := file.trimmed.2.systemCall_spec
  rw [close_eq, called]

/-- Whatever fails in `Close`, it trims the file or leaves it alone. -/
theorem close_cases :
    file.close.2.contents = file.contents ∨
      file.close.2.contents = file.undisturbed.close.2.contents := by
  rw [contents_close, contents_close]
  by_cases trims : file.trimmed.1.ok = true
  · right
    rw [calm_trimmed file trims]
    rfl
  · exact .inl (contents_trimmed trims)

theorem close_of_ok (closes : file.close.1.ok = true) :
    file.close.2.contents = file.undisturbed.close.2.contents := by
  have trims : file.trimmed.1.ok = true := by
    by_contra fails
    obtain ⟨outcome, schedule, called⟩ := file.trimmed.2.systemCall_spec
    rw [close_eq, called] at closes
    cases outcome <;> simp [fails] at closes
  rw [contents_close, contents_close, calm_trimmed file trims]
  rfl

end PosixMmapFile

/-! ## Files of either kind -/

namespace PosixFile

/-- What the file holds. -/
def contents : PosixFile → Bytes
  | .mapped file => file.contents
  | .direct file => file.contents
  | .buffered file => file.contents

/-- `Append`. -/
def append (data : Bytes) : PosixFile → Status × PosixFile
  | .mapped file => ((file.append data).1, .mapped (file.append data).2)
  | .direct file => ((file.directAppend data).1, .direct (file.directAppend data).2)
  | .buffered file => ((file.append data).1, .buffered (file.append data).2)

/-- `Sync`, with the text of the error of fdatasync(2) for a file that is not mapped. -/
def sync (syncError : Option String) : PosixFile → Status × PosixFile
  | .mapped file => (file.sync.1, .mapped file.sync.2)
  | .direct file => (syncError.elim .OK file.ioError, .direct file)
  | .buffered file => (syncError.elim .OK file.ioError, .buffered file)

/-- `Close`, with the text of the error of close(2) for a file that is not mapped. -/
def close (closeError : Option String) : PosixFile → Status × PosixFile
  | .mapped file => (file.close.1, .mapped file.close.2)
  | .direct file => (closeError.elim file.close.1 file.ioError, .direct file.close.2)
  | .buffered file => (closeError.elim file.close.1 file.ioError, .buffered file.close.2)

end PosixFile

/-! ## The functions -/

/-- What the system does during `WriteStringToFile`. -/
structure WriteCalls extends OpenCalls where
  /-- The text of the error of fdatasync(2) for a file that is not mapped. -/
  syncError : Option String
  /-- The text of the error of close(2) for a file that is not mapped. -/
  closeError : Option String
  /-- Whether unlink(2) succeeds. -/
  unlinks : Bool

/-- What `WriteStringToFile` leaves. -/
structure Written where
  status : Status
  /-- What can be read under the name. -/
  held : Option Bytes
  /-- What `Close` has returned to the destructor of the file. -/
  closed : Status

/-- `WriteStringToFile`, under a name that leads to `before`.  The file is deleted, if it
is, before its destructor closes it. -/
def writeStringToFile
    (env : PosixEnv.Opening)
    (calls : WriteCalls)
    (data : Bytes)
    (fname : String)
    (shouldSync : Bool)
    (before : Option Bytes) : Written :=
  match (env.newWritableFile fname .default calls.toOpenCalls).1 with
  | (s, none) => ⟨s, before, .OK⟩
  | (_, some file) =>
      let appended := file.append data
      let (s, file) :=
        if appended.1.ok && shouldSync then appended.2.sync calls.syncError else appended
      let (closed, file) := file.close calls.closeError
      ⟨s, if !s.ok && calls.unlinks then none else some file.contents, closed⟩

/-- `kBufferSize`. -/
def kBufferSize : UInt64 := 8192

/-- The loop of `ReadFileToString`, which ends with the first empty fragment. -/
def readFileLoop
    (contents : Bytes) :
    (fuel : Nat) → (data : Bytes) → PosixSequentialFile → Option (Status × Bytes)
  | 0, _, _ => none
  | fuel + 1, data, file =>
      match file.read contents kBufferSize with
      | ((s, fragment), file) =>
          if !s.ok then some (s, data)
          else if fragment.isEmpty then some (s, data ++ fragment)
          else readFileLoop contents fuel (data ++ fragment) file

/-- `ReadFileToString`, of a file that can be read without errors. -/
def readFileToString
    (fuel : Nat)
    (fname : String)
    (held : Option Bytes) : Option (Status × Bytes) :=
  match held with
  | none => some (.IOError (fname ++ ": No such file or directory"), [])
  | some contents => readFileLoop contents fuel [] ⟨fname, 0, false⟩

/-! ## Reading -/

/-- A read of a file that does not grow. -/
theorem read_static
    {contents : Bytes}
    {file : PosixSequentialFile}
    (goesOn : file.endOfFile = false)
    (n : UInt64) :
    file.read contents n = ((.OK, (contents.drop file.position).take n.toNat),
      { file with
        position := file.position + ((contents.drop file.position).take n.toNat).length }) := by
  simp [PosixSequentialFile.read, PosixSequentialFile.fread, goesOn]

theorem readFileLoop_spec
    {contents : Bytes}
    {file : PosixSequentialFile}
    {fuel : Nat}
    (goesOn : file.endOfFile = false)
    (enough : contents.length - file.position < fuel)
    (data : Bytes) :
    readFileLoop contents fuel data file =
      some (.OK, data ++ contents.drop file.position) := by
  induction fuel generalizing data file with
  | zero => omega
  | succ fuel inductionHypothesis =>
      rw [readFileLoop, read_static goesOn]
      simp only [Status.ok_OK, Bool.not_true, Bool.false_eq_true, if_false]
      have size : kBufferSize.toNat = 8192 := rfl
      rw [size]
      have length : ((contents.drop file.position).take 8192).length =
          min 8192 (contents.length - file.position) := by
        rw [List.length_take, List.length_drop]
      split
      · rename_i empty
        rw [List.isEmpty_iff] at empty
        rw [empty, List.length_nil] at length
        have atEnd : contents.length ≤ file.position := by omega
        rw [empty, List.drop_of_length_le atEnd]
      · rename_i some
        have further : (0 : Nat) < ((contents.drop file.position).take 8192).length :=
          List.length_pos_iff.mpr (by simpa using some)
        refine Eq.trans (inductionHypothesis ?_ ?_ _) ?_
        · exact goesOn
        · change contents.length - (file.position + _) < fuel
          omega
        change Option.some (Status.OK, _ ++ contents.drop (file.position + _)) = _
        rw [List.append_assoc, length, ← List.drop_drop]
        congr 3
        rcases Nat.le_total 8192 (contents.length - file.position) with long | short
        · rw [Nat.min_eq_left long, List.take_append_drop]
        · rw [Nat.min_eq_right short, ← List.length_drop, List.drop_length, List.append_nil,
            List.take_of_length_le (by rw [List.length_drop]; exact short)]

/-- `ReadFileToString` gets everything. -/
theorem readFileToString_spec (fname : String) (contents : Bytes) :
    ∃ enough, ∀ fuel, enough ≤ fuel →
      readFileToString fuel fname (some contents) = some (.OK, contents) := by
  refine ⟨contents.length + 1, fun fuel enough => ?_⟩
  exact readFileLoop_spec rfl (Nat.lt_of_le_of_lt (Nat.sub_le _ _) enough) []

/-! ## Writing -/

namespace PosixFile

/-- The file holds the data, with zeros behind it that `Close` cuts off if it can. -/
def Stores (data : Bytes) : PosixFile → Prop
  | .mapped file => PosixMmapFile.Holds data file.undisturbed
  | .direct _ => False
  | .buffered file => file.contents = data ∧ file.lastPreallocatedBlock = 0

theorem Stores.sync
    {data : Bytes}
    {file : PosixFile}
    {syncError : Option String}
    (stores : file.Stores data)
    (succeeds : (file.sync syncError).1.ok = true) : (file.sync syncError).2.Stores data := by
  cases file with
  | mapped file =>
      have synced := PosixMmapFile.Holds.sync stores
      rw [PosixMmapFile.calm_sync file succeeds] at synced
      exact synced.2
  | direct file => exact stores
  | buffered file => exact stores

/-- Behind the destructor there may be zeros, if it has failed. -/
theorem Stores.close
    {data : Bytes}
    {file : PosixFile}
    (closeError : Option String)
    (stores : file.Stores data) :
    ∃ zeros, (file.close closeError).2.contents = data ++ List.replicate zeros 0 ∧
      ((file.close closeError).1.ok = true → zeros = 0) := by
  cases file with
  | mapped file =>
      have closed := (PosixMmapFile.Holds.close stores).2
      have contents := PosixMmapFile.Holds.contents stores
      by_cases closes : file.close.1.ok = true
      · refine ⟨0, ?_, fun _ => rfl⟩
        rw [List.replicate_zero, List.append_nil, ← closed]
        exact PosixMmapFile.close_of_ok closes
      · rcases @PosixMmapFile.close_cases file with left | trimmed
        · exact ⟨_, left.trans contents, fun succeeds => absurd succeeds closes⟩
        · refine ⟨0, ?_, fun _ => rfl⟩
          rw [List.replicate_zero, List.append_nil, ← closed]
          exact trimmed
  | direct file => exact stores.elim
  | buffered file =>
      refine ⟨0, ?_, fun _ => rfl⟩
      rw [List.replicate_zero, List.append_nil, ← stores.1]
      change file.close.2.contents = file.contents
      rw [PosixWritableFile.close, stores.2, if_neg (Nat.lt_irrefl 0)]

end PosixFile

/-- What `NewWritableFile` opens under the default options. -/
theorem newWritableFile_cases
    {env : PosixEnv.Opening}
    {calls : OpenCalls}
    {fname : String}
    (opens : calls.openError = none) :
    (env.newWritableFile fname .default calls).1 =
        (.OK, some (.mapped (.new fname (env.checkDiskForMmap .default calls).pageSize
          (env.checkDiskForMmap .default calls).powerOfTwo true true calls.place
          calls.calls))) ∨
      (env.newWritableFile fname .default calls).1 =
        (.OK, some (.buffered (.new fname true true calls.writes))) := by
  unfold PosixEnv.Opening.newWritableFile
  simp only [opens]
  split
  · exact .inl rfl
  · exact .inr rfl

/-- An `Append` to a new file that returns OK stores the data. -/
theorem PosixFile.stores_append
    {env : PosixEnv.Opening}
    {calls : OpenCalls}
    {fname : String}
    {status : Status}
    {file : PosixFile}
    {data : Bytes}
    (opens : calls.openError = none)
    (isOpen : (env.newWritableFile fname .default calls).1 = (status, some file))
    (succeeds : (file.append data).1.ok = true) : (file.append data).2.Stores data := by
  rcases newWritableFile_cases opens with mapped | buffered
  · obtain ⟨-, isFile⟩ := Prod.mk.inj (mapped.symm.trans isOpen)
    obtain rfl := Option.some.inj isFile
    let checked := env.checkDiskForMmap .default calls
    have holds : PosixMmapFile.Holds [] (PosixMmapFile.new fname checked.pageSize
        checked.powerOfTwo true true calls.place calls.calls).undisturbed :=
      PosixMmapFile.holds_new fname _ checked.powerOfTwo true calls.place
    have appended := holds.append_of_ok succeeds
    rw [List.nil_append] at appended
    exact appended
  · obtain ⟨-, isFile⟩ := Prod.mk.inj (buffered.symm.trans isOpen)
    obtain rfl := Option.some.inj isFile
    have isEmpty : (PosixWritableFile.new fname true true calls.writes).position ≤
        (PosixWritableFile.new fname true true calls.writes).contents.length := Nat.le_refl 0
    obtain ⟨ok, left, -, isFile⟩ := PosixWritableFile.append_spec data isEmpty
    rw [ok.mp succeeds, List.take_length] at isFile
    change PosixWritableFile.contents _ = data ∧ _
    rw [isFile]
    exact ⟨overwrite_append [] [] data (Nat.zero_le _), rfl⟩

/-- What `WriteStringToFile` does to a file that it has opened. -/
theorem writeStringToFile_of_open
    {env : PosixEnv.Opening}
    {calls : WriteCalls}
    {data : Bytes}
    {fname : String}
    {shouldSync : Bool}
    {before : Option Bytes}
    {written : Written}
    (isWritten : written = writeStringToFile env calls data fname shouldSync before)
    (opens : calls.openError = none) :
    ∃ last : PosixFile, written.closed = (last.close calls.closeError).1 ∧
      written.held = (if !written.status.ok && calls.unlinks then none
        else some (last.close calls.closeError).2.contents) ∧
      (written.status.ok = true → last.Stores data) := by
  obtain ⟨status, file, isOpen⟩ : ∃ status file,
      (env.newWritableFile fname .default calls.toOpenCalls).1 = (status, some file) := by
    rcases newWritableFile_cases opens with mapped | buffered
    · exact ⟨_, _, mapped⟩
    · exact ⟨_, _, buffered⟩
  rw [isWritten]
  simp only [writeStringToFile, isOpen]
  refine ⟨_, rfl, rfl, fun succeeds => ?_⟩
  split at succeeds
  · rename_i syncs
    rw [if_pos syncs]
    rw [Bool.and_eq_true] at syncs
    exact (PosixFile.stores_append opens isOpen syncs.1).sync succeeds
  · rename_i noSync
    rw [if_neg noSync]
    exact PosixFile.stores_append opens isOpen succeeds

/-- Every system call succeeds; a write(2) may be interrupted or short. -/
structure WriteCalls.Succeed (calls : WriteCalls) : Prop where
  opens : calls.openError = none
  writes : ∀ call ∈ calls.writes, call.fails = false
  calls_eq : calls.calls = []
  syncs : calls.syncError = none
  closes : calls.closeError = none

/-- Then `WriteStringToFile` and the destructor succeed. -/
theorem writeStringToFile_succeeds
    {env : PosixEnv.Opening}
    {calls : WriteCalls}
    (succeed : calls.Succeed)
    (data : Bytes)
    (fname : String)
    (shouldSync : Bool)
    (before : Option Bytes) :
    (writeStringToFile env calls data fname shouldSync before).status.ok = true ∧
      (writeStringToFile env calls data fname shouldSync before).closed.ok = true := by
  obtain ⟨opens, writes, calls_eq, syncs, closes⟩ := succeed
  rcases newWritableFile_cases opens with mapped | buffered
  · rw [calls_eq] at mapped
    have holds := PosixMmapFile.holds_new fname _
      (env.checkDiskForMmap .default calls.toOpenCalls).powerOfTwo true calls.place
    obtain ⟨appends, appended⟩ := holds.append data
    obtain ⟨syncs', synced⟩ := appended.sync
    unfold writeStringToFile
    rw [mapped]
    cases shouldSync with
    | true =>
        simp only [PosixFile.append, PosixFile.sync, PosixFile.close, appends, syncs',
          synced.close.1, Status.ok_OK, Bool.and_self, if_true, and_self]
    | false =>
        simp only [PosixFile.append, PosixFile.close, appends, appended.close.1,
          Status.ok_OK, Bool.and_false, Bool.false_eq_true, if_false, and_self]
  · have valid := PosixWritableFile.valid_new fname true true 0 writes
    obtain ⟨appends, appended, -⟩ := valid.append data
    have appends' : ((PosixWritableFile.new fname true true calls.writes).append data).1 =
      .OK := appends
    have closes' : ((PosixWritableFile.new fname true true calls.writes).append data).2.close.1 =
      .OK := appended.close.1
    unfold writeStringToFile
    rw [buffered]
    cases shouldSync with
    | true =>
        simp only [PosixFile.append, PosixFile.sync, PosixFile.close, appends', closes', syncs,
          closes, Option.elim_none, Status.ok_OK, Bool.and_self, if_true, and_self]
    | false =>
        simp only [PosixFile.append, PosixFile.close, appends', closes', closes,
          Option.elim_none, Status.ok_OK, Bool.and_false, Bool.false_eq_true, if_false, and_self]

/-- `WriteStringToFile` writes all of the data or leaves nothing.  If it returns OK,
`ReadFileToString`, of which no call fails, gets the data, with zeros behind it if the
destructor has failed; if it has opened the file and does not return OK, the file is gone,
provided that it can be deleted; and if no system call fails it returns OK and the data is
read back. -/
theorem write_then_read
    (env : PosixEnv.Opening)
    (calls : WriteCalls)
    (data : Bytes)
    (fname : String)
    (shouldSync : Bool)
    (before : Option Bytes) :
    let written := writeStringToFile env calls data fname shouldSync before
    (written.status.ok = true → ∃ zeros, (written.closed.ok = true → zeros = 0) ∧
      ∃ enough, ∀ fuel, enough ≤ fuel → readFileToString fuel fname written.held =
        some (.OK, data ++ List.replicate zeros 0)) ∧
    (written.status.ok = false → calls.openError = none → calls.unlinks = true →
      written.held = none) ∧
    (calls.Succeed → written.status.ok = true ∧ written.closed.ok = true) := by
  intro written
  refine ⟨fun succeeds => ?_, fun fails opens unlinks => ?_,
    fun succeed => writeStringToFile_succeeds succeed data fname shouldSync before⟩
  · have opens : calls.openError = none := by
      by_contra failed
      obtain ⟨message, isError⟩ := Option.ne_none_iff_exists'.mp failed
      simp [written, writeStringToFile, PosixEnv.Opening.newWritableFile, isError] at succeeds
    obtain ⟨last, closed, held, stores⟩ := writeStringToFile_of_open (Eq.refl written) opens
    obtain ⟨zeros, contents, none⟩ := (stores succeeds).close calls.closeError
    refine ⟨zeros, fun closes => none (closed ▸ closes), ?_⟩
    rw [held, succeeds, ← contents]
    exact readFileToString_spec fname _
  · obtain ⟨last, -, held, -⟩ := writeStringToFile_of_open (Eq.refl written) opens
    rw [held, fails, unlinks]
    rfl

end RocksUtil
