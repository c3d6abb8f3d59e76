import Mathlib.Algebra.Group.Int.Defs
import RocksUtil.Env.DirectIORead
import RocksUtil.Env.SequentialFile
import RocksUtil.Library.Machine

/-!
# Two readers of a growing file

`PosixSequentialFile` reads through a stream of the C library, which has a position and an
indicator for the end of the file.  `PosixDirectIOSequentialFile` has an offset of its own
and adds to it what is asked for, before it knows how much there is.  So the two agree as
long as nothing is appended behind a `Read` that came up short, and each `Read` by direct
I/O is one that is exact (`readers_agree`).
-/

namespace RocksUtil

open DirectIO
open PosixWritableFile (kSectorSize)

/-! ## The stream -/

/-- A `PosixSequentialFile`: the stream `file_`. -/
structure PosixSequentialFile where
  /-- `filename_`. -/
  filename : String
  /-- The position of the stream. -/
  position : Nat
  /-- `feof`. -/
  endOfFile : Bool

namespace PosixSequentialFile

/-- `fread_unlocked`: nothing while the indicator is set, else all there is up to `n`. -/
def fread
    (contents : Bytes)
    (n : Nat)
    (file : PosixSequentialFile) : Bytes × PosixSequentialFile :=
  if file.endOfFile then ([], file)
  else
    let data := (contents.drop file.position).take n
    (data, { file with
      position := file.position + data.length
      endOfFile := decide (data.length < n) })

/-- `Read`, of a file that can be read without errors. -/
def read
    (contents : Bytes)
    (n : UInt64)
    (file : PosixSequentialFile) : (Status × Bytes) × PosixSequentialFile :=
  let result := file.fread contents n.toNat
  if result.1.length < n.toNat ∧ result.2.endOfFile then
    ((.OK, result.1), { result.2 with endOfFile := false })
  else ((.OK, result.1), result.2)

/-- `static_cast<long int>`. -/
def longInt (n : UInt64) : Int :=
  if n.toNat < 2 ^ 63 then n.toNat else (n.toNat : Int) - 2 ^ 64

/-- `Skip`.  In front of the file, and behind `maxPosition`, the largest position of the
file system, `fseek` fails with `EINVAL` and leaves the stream where it is. -/
def skip
    (maxPosition : Nat)
    (n : UInt64)
    (file : PosixSequentialFile) : Status × PosixSequentialFile :=
  let target := file.position + longInt n
  if target < 0 ∨ maxPosition < target then
    (.IOError (file.filename ++ ": Invalid argument"), file)
  else (.OK, { file with position := target.toNat, endOfFile := false })

/-- A position that ext4 does not have. -/
example : skip (2 ^ 44 - 4096) (2 ^ 45) ⟨"log", 3, false⟩ =
    (.IOError "log: Invalid argument", ⟨"log", 3, false⟩) := rfl

end PosixSequentialFile

/-! ## Direct I/O -/

/-- A `PosixDirectIOSequentialFile`. -/
structure PosixDirectIOSequentialFile where
  /-- `off_`. -/
  off : UInt64

namespace PosixDirectIOSequentialFile

/-- `Read`: the offset moves first. -/
def read
    (fuel : Nat)
    (contents : Bytes)
    (errno : Errno)
    (aligned : Bool)
    (memory : Nat → UInt8)
    (n : UInt64)
    (file : PosixDirectIOSequentialFile) :
    Option (Status × Bytes) × PosixDirectIOSequentialFile :=
  (directIORead fuel contents errno aligned memory file.off.toNat n.toNat, ⟨file.off + n⟩)

/-- `Skip`. -/
def skip
    (n : UInt64)
    (file : PosixDirectIOSequentialFile) : Status × PosixDirectIOSequentialFile :=
  (.OK, ⟨file.off + n⟩)

end PosixDirectIOSequentialFile

/-! ## Both on one file -/

/-- What is done to a file and its readers. -/
inductive FileAction
  /-- Append to the file. -/
  | append (data : Bytes)
  /-- `Read(n)`.  Direct I/O looks at `errno`, at where the scratch space starts, and at
  what its own memory holds. -/
  | read (n : UInt64) (errno : Errno) (aligned : Bool) (memory : Nat → UInt8)
  /-- `Skip(n)`. -/
  | skip (n : UInt64)

/-- A file and its two readers. -/
structure Readers where
  /-- What the file holds. -/
  contents : Bytes
  /-- The largest position of the file system. -/
  maxPosition : Nat
  /-- It is an `off_t`. -/
  bounded : maxPosition < offsetBound
  /-- The file ends at a position. -/
  fits : contents.length ≤ maxPosition
  /-- The `PosixSequentialFile`. -/
  sequential : PosixSequentialFile
  /-- The `PosixDirectIOSequentialFile`. -/
  direct : PosixDirectIOSequentialFile

namespace Readers

/-- Both have just been opened. -/
def new
    (filename : String)
    (contents : Bytes)
    {maxPosition : Nat}
    (bounded : maxPosition < offsetBound)
    (fits : contents.length ≤ maxPosition) : Readers where
  contents := contents
  maxPosition := maxPosition
  bounded := bounded
  fits := fits
  sequential := ⟨filename, 0, false⟩
  direct := ⟨0⟩

/-- One action, with what the two readers return for a `Read`.  A write fails when the
file would get too long. -/
def step
    (fuel : Nat)
    (readers : Readers) :
    FileAction → List (Bytes × Option Bytes) × Readers
  | .append data =>
      if fits : (readers.contents ++ data).length ≤ readers.maxPosition then
        ([], { readers with contents := readers.contents ++ data, fits := fits })
      else ([], readers)
  | .read n errno aligned memory =>
      let sequential := readers.sequential.read readers.contents n
      let direct := readers.direct.read fuel readers.contents errno aligned memory n
      ([(sequential.1.2, direct.1.map Prod.snd)],
        { readers with sequential := sequential.2, direct := direct.2 })
  | .skip n =>
      ([], { readers with
        sequential := (readers.sequential.skip readers.maxPosition n).2
        direct := (readers.direct.skip n).2 })

end Readers

/-- What a reader of the file is meant to do: each `Read` returns what comes next. -/
def GrowingFile.serve (file : GrowingFile) : FileAction → List Bytes × GrowingFile
  | .append data => ([], file.append data)
  | .read n _ _ _ =>
      let result := file.read n.toNat
      ([result.1.2], result.2)
  | .skip n => ([], (file.skip n).2)

/-! ## Each action -/

namespace PosixSequentialFile

theorem read_eq
    {file : PosixSequentialFile}
    (cleared : file.endOfFile = false)
    (contents : Bytes)
    (n : UInt64) :
    let data := (contents.drop file.position).take n.toNat
    file.read contents n =
      ((.OK, data), { file with position := file.position + data.length }) := by
  intro data
  have unread : file.fread contents n.toNat = (data, { file with
      position := file.position + data.length
      endOfFile := decide (data.length < n.toNat) }) := by
    unfold fread
    rw [cleared]
    rfl
  unfold read
  rw [unread, cleared]
  by_cases short : data.length < n.toNat
  · rw [if_pos ⟨short, decide_eq_true short⟩]
  · rw [if_neg (fun both => short both.1), decide_eq_false short]

theorem skip_eq
    (file : PosixSequentialFile)
    {maxPosition : Nat}
    (bounded : maxPosition < offsetBound)
    {n : UInt64}
    (fits : file.position + n.toNat ≤ maxPosition) :
    file.skip maxPosition n =
      (.OK, { file with position := file.position + n.toNat, endOfFile := false }) := by
  have bound : offsetBound = 2 ^ 63 := rfl
  have isLong : longInt n = n.toNat := if_pos (by omega)
  unfold skip
  rw [isLong]
  dsimp only
  rw [if_neg (by omega)]
  congr 2

end PosixSequentialFile

namespace Readers

variable {fuel : Nat} {readers : Readers} {file : GrowingFile}

/-- Where the readers are while they agree: the offset is at the position, or there is
nothing left to read. -/
structure Follows (readers : Readers) (file : GrowingFile) : Prop where
  contents_eq : readers.contents = file.contents
  atRest : file.arrivals = []
  position_eq : readers.sequential.position = file.pos
  cleared : readers.sequential.endOfFile = false
  offset : readers.direct.off.toNat = file.pos ∨ file.contents.length ≤ file.pos

/-- Nothing is appended where the offset is ahead of the position.  A `Read` does not
stall, and is exact where something is left to read.  Appending and a `Skip` stay in front
of the largest position of the file system. -/
def Careful (readers : Readers) : FileAction → Prop
  | .append data =>
      (readers.contents ++ data).length ≤ readers.maxPosition ∧
        (data = [] ∨ readers.direct.off.toNat = readers.sequential.position)
  | .read n errno _ _ =>
      ¬Stalls readers.contents errno (lower readers.direct.off.toNat kSectorSize)
          (alignedSize readers.direct.off.toNat n.toNat) ∧
        (n.toNat = 0 ∨
          readers.contents.length ≤ lower readers.direct.off.toNat kSectorSize ∨
          readers.direct.off.toNat = readers.sequential.position ∧
            (readers.direct.off.toNat % kSectorSize = 0 ∨
              readers.direct.off.toNat + n.toNat ≤ readers.contents.length))
  | .skip n => readers.sequential.position + n.toNat ≤ readers.maxPosition

instance (readers : Readers) : (action : FileAction) → Decidable (Careful readers action)
  | .append _ => inferInstanceAs (Decidable (_ ∧ _))
  | .read .. => inferInstanceAs (Decidable (¬_ ∧ (_ ∨ _ ∨ _)))
  | .skip _ => inferInstanceAs (Decidable (_ ≤ _))

theorem contents_lt (readers : Readers) : readers.contents.length < offsetBound :=
  Nat.lt_of_le_of_lt readers.fits readers.bounded

theorem Follows.append
    (follows : Follows readers file)
    {data : Bytes}
    (careful : Careful readers (.append data)) :
    (readers.step fuel (.append data)).1 = [] ∧
      Follows (readers.step fuel (.append data)).2 (file.append data) := by
  obtain ⟨fits, inStep⟩ := careful
  unfold step
  dsimp only
  rw [dif_pos fits]
  refine ⟨rfl, ?_, follows.atRest, follows.position_eq, follows.cleared, ?_⟩
  · change _ ++ data = _ ++ data
    rw [follows.contents_eq]
  · rcases inStep with rfl | same
    · change readers.direct.off.toNat = file.pos ∨
        (file.contents ++ []).length ≤ file.pos
      rw [List.append_nil]
      exact follows.offset
    · exact .inl (same.trans follows.position_eq)

/-- Direct I/O returns what comes next. -/
theorem Follows.direct_read
    (follows : Follows readers file)
    (enough : 2 ≤ fuel)
    {n : UInt64}
    {errno : Errno}
    {aligned : Bool}
    {memory : Nat → UInt8}
    (careful : Careful readers (.read n errno aligned memory)) :
    (readers.direct.read fuel readers.contents errno aligned memory n).1.map Prod.snd =
      some ((file.contents.drop file.pos).take n.toNat) := by
  obtain ⟨moves, isExact⟩ := careful
  obtain ⟨fuel, rfl⟩ := Nat.exists_eq_add_of_le' enough
  obtain ⟨status, data, isRead, data_iff⟩ :=
    directIORead_eq_iff fuel readers.contents_lt aligned memory moves
  have exact : Exact readers.contents readers.direct.off.toNat n.toNat := by
    unfold Exact
    tauto
  change (directIORead ..).map Prod.snd = _
  rw [isRead, Option.map_some, data_iff.mpr exact, follows.contents_eq]
  congr 1
  rw [follows.contents_eq, follows.position_eq] at isExact
  rcases isExact with none | past | ⟨same, -⟩
  · rw [none, List.take_zero, List.take_zero]
  · have ahead := lower_le readers.direct.off.toNat kSectorSize
    rcases follows.offset with same | drained
    · rw [same]
    · rw [List.drop_eq_nil_of_le (Nat.le_trans past ahead), List.drop_eq_nil_of_le drained]
  · rw [same]

theorem Follows.read
    (follows : Follows readers file)
    (enough : 2 ≤ fuel)
    {n : UInt64}
    {errno : Errno}
    {aligned : Bool}
    {memory : Nat → UInt8}
    (careful : Careful readers (.read n errno aligned memory)) :
    let next := (file.contents.drop file.pos).take n.toNat
    (file.read n.toNat).1.2 = next ∧
      (readers.step fuel (.read n errno aligned memory)).1 = [(next, some next)] ∧
      Follows (readers.step fuel (.read n errno aligned memory)).2 (file.read n.toNat).2 := by
  intro next
  have isServed : file.read n.toNat =
      ((.OK, next), { file with pos := file.pos + next.length }) := by
    unfold GrowingFile.read
    rw [GrowingFile.arrive_of_atRest follows.atRest]
    rfl
  have isRead : readers.sequential.read readers.contents n =
      ((.OK, next), { readers.sequential with position := file.pos + next.length }) := by
    rw [PosixSequentialFile.read_eq follows.cleared, follows.contents_eq,
      follows.position_eq]
  have direct := follows.direct_read enough careful
  unfold step
  dsimp only
  rw [direct, isServed, isRead]
  refine ⟨rfl, rfl, ⟨follows.contents_eq, follows.atRest, rfl, follows.cleared, ?_⟩⟩
  change (readers.direct.off + n).toNat = file.pos + next.length ∨
    file.contents.length ≤ file.pos + next.length
  have isLength : next.length = min n.toNat (file.contents.length - file.pos) := by
    rw [List.length_take, List.length_drop]
  rcases follows.offset with same | drained
  · by_cases full : file.pos + n.toNat ≤ file.contents.length
    · left
      have fits := readers.contents_lt
      rw [follows.contents_eq, show offsetBound = 2 ^ 63 from rfl] at fits
      rw [UInt64.toNat_add, same]
      omega
    · right
      omega
  · right
    omega

theorem Follows.skip
    (follows : Follows readers file)
    {n : UInt64}
    (careful : Careful readers (.skip n)) :
    (readers.step fuel (.skip n)).1 = [] ∧
      Follows (readers.step fuel (.skip n)).2 (file.skip n).2 := by
  unfold step
  dsimp only
  rw [PosixSequentialFile.skip_eq _ readers.bounded careful]
  have fits : readers.sequential.position + n.toNat < 2 ^ 63 :=
    Nat.lt_of_le_of_lt careful readers.bounded
  rw [follows.position_eq] at fits
  refine ⟨rfl, follows.contents_eq, follows.atRest, ?_, rfl, ?_⟩
  · change _ + n.toNat = _ + n.toNat
    rw [follows.position_eq]
  · change (readers.direct.off + n).toNat = file.pos + n.toNat ∨
      file.contents.length ≤ file.pos + n.toNat
    rcases follows.offset with same | drained
    · left
      rw [UInt64.toNat_add, same]
      omega
    · right
      omega

/-! ## Every run -/

theorem Follows.step
    (follows : Follows readers file)
    (enough : 2 ≤ fuel)
    {action : FileAction}
    (careful : Careful readers action) :
    (readers.step fuel action).1 =
        (file.serve action).1.map (fun data => (data, some data)) ∧
      Follows (readers.step fuel action).2 (file.serve action).2 := by
  cases action with
  | append data => exact follows.append careful
  | read n errno aligned memory =>
      obtain ⟨isNext, isRead, followsNext⟩ := follows.read enough careful
      refine ⟨?_, followsNext⟩
      rw [isRead]
      change _ = [(_, some (file.read n.toNat).1.2)]
      rw [isNext]
  | skip n => exact follows.skip careful

/-- All that has been returned is the front of the file. -/
def Front (returned : List Bytes) (file : GrowingFile) : Prop :=
  file.arrivals = [] ∧ file.pos ≤ file.contents.length ∧
    returned.flatten = file.contents.take file.pos

theorem Front.serve
    {returned : List Bytes}
    (front : Front returned file)
    {action : FileAction}
    (noSkip : ∀ n, action ≠ .skip n) :
    Front (returned ++ (file.serve action).1) (file.serve action).2 := by
  obtain ⟨atRest, inFile, isFront⟩ := front
  cases action with
  | append data =>
      refine ⟨atRest, ?_, ?_⟩
      · change file.pos ≤ (file.contents ++ data).length
        rw [List.length_append]
        omega
      · change (returned ++ []).flatten = (file.contents ++ data).take file.pos
        rw [List.append_nil, isFront, List.take_append_of_le_length inFile]
  | read n errno aligned memory =>
      have isRest : file.arrive = file := GrowingFile.arrive_of_atRest atRest
      let next := (file.contents.drop file.pos).take n.toNat
      have isServed : file.serve (.read n errno aligned memory) =
          ([next], { file with pos := file.pos + next.length }) := by
        change ([(file.arrive.unread.take n.toNat)], { file.arrive with
          pos := file.pos + (file.arrive.unread.take n.toNat).length }) = _
        rw [isRest]
        rfl
      rw [isServed]
      have isLength : next.length = min n.toNat (file.contents.length - file.pos) := by
        rw [List.length_take, List.length_drop]
      refine ⟨atRest, ?_, ?_⟩
      · change file.pos + next.length ≤ file.contents.length
        omega
      · change (returned ++ [next]).flatten = file.contents.take (file.pos + next.length)
        rw [List.flatten_append, isFront, List.flatten_singleton, List.take_add]
        congr 1
        apply List.take_eq_take_iff.mpr
        rw [List.length_drop]
        omega
  | skip n => exact absurd rfl (noSkip n)

/-- In every run in which nothing is appended behind a `Read` that came up short, no `Read`
by direct I/O is inexact or stalls, and no `Skip` goes past the largest position of the file
system, both readers return what comes next. -/
theorem readers_agree
    {fuel : Nat}
    (enough : 2 ≤ fuel)
    (filename : String)
    (contents : Bytes)
    {maxPosition : Nat}
    (bounded : maxPosition < offsetBound)
    (fits : contents.length ≤ maxPosition)
    {actions : List FileAction}
    (careful : Machine.Along Careful (fun readers action => some (step fuel readers action).2)
      (new filename contents bounded fits) actions) :
    let ran := Machine.produce (step fuel) (new filename contents bounded fits) actions
    let served := Machine.produce GrowingFile.serve (.atRest contents) actions
    ran.1 = served.1.map (fun data => (data, some data)) ∧
      ran.2.contents = served.2.contents ∧
      ((∀ n, FileAction.skip n ∉ actions) →
        (ran.1.map Prod.fst).flatten <+: ran.2.contents) := by
  intro ran served
  have start : Follows (new filename contents bounded fits) (.atRest contents) :=
    ⟨rfl, rfl, rfl, rfl, .inl rfl⟩
  obtain ⟨same, follows⟩ := Machine.produce_related careful start
    (fun _ _ _ follows careful => follows.step enough careful)
  refine ⟨same, follows.contents_eq, fun noSkips => ?_⟩
  have front : Front ([] ++ served.1) served.2 := by
    apply Machine.produce_preserves Front
    · intro past file action member front
      exact front.serve (fun n isSkip => noSkips n (isSkip ▸ member))
    · exact ⟨rfl, Nat.zero_le _, rfl⟩
  change ran.1 = _ at same
  rw [same, List.map_map, follows.contents_eq]
  change (served.1.map id).flatten <+: served.2.contents
  rw [List.map_id, ← List.nil_append served.1, front.2.2]
  exact List.take_prefix ..

/-- The largest position of ext4 with blocks of 4096 bytes. -/
def ext4MaxPosition : Nat := 2 ^ 44 - 4096

theorem ext4MaxPosition_lt : ext4MaxPosition < offsetBound := by decide

/-- A new file of ext4, and its readers. -/
def newLog : Readers := new "log" [] ext4MaxPosition_lt (Nat.zero_le ext4MaxPosition)

/-- A file that grows behind a `Read` that came up short. -/
def grownLate : List FileAction :=
  [.append [1], .read 2 (.other "") true (fun _ => 9), .append [2, 3],
    .read 2 (.other "") true (fun _ => 9)]

/-- Direct I/O skips a byte, and returns one that is not in the file. -/
theorem byte_skipped :
    (Machine.produce (step 2) newLog grownLate).1 =
        [([1], some [1]), ([2, 3], some [3, 9])] ∧
      (Machine.produce GrowingFile.serve (.atRest []) grownLate).1 = [[1], [2, 3]] := by
  decide +kernel

/-- A file that is read behind all that is appended to it. -/
def grownInTime : List FileAction :=
  [.append [1, 2, 3], .read 2 .eintr true (fun _ => 9), .skip 0, .append [4],
    .read 2 (.other "") true (fun _ => 9), .skip 508, .read 10 (.other "") false (fun _ => 9)]

theorem readers_agree_inTime :
    (Machine.produce (step 2) newLog grownInTime).1 =
      (Machine.produce GrowingFile.serve (.atRest []) grownInTime).1.map
        (fun data => (data, some data)) := by
  have careful : Machine.Along Careful
      (fun readers action => some (step 2 readers action).2) newLog grownInTime := by
    decide +kernel
  exact (readers_agree (Nat.le_refl 2) "log" [] _ _ careful).1

end Readers

end RocksUtil
