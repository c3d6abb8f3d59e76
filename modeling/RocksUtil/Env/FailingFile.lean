import Mathlib.Algebra.GroupWithZero.Nat
import RocksUtil.Env.SequentialFile

/-!
# Sequential files that fail

A file whose calls of `Read` and `Skip` follow a schedule: each takes the next entry,
which lets it succeed or says with which status it fails and how much it has delivered
by then.  Behind the end of the schedule every call succeeds.

Any file can be watched: it is then kept together with how its calls have ended so far.
-/

namespace RocksUtil

/-- How a call fails. -/
structure Failure where
  /-- The status it returns. -/
  status : Status
  /-- How many bytes it delivers at most. -/
  delivered : Nat
  /-- It is not a success. -/
  fails : status.ok = false

/-- A file with a read position, and what the next calls do. -/
structure FailingFile where
  /-- The bytes the file holds. -/
  contents : Bytes
  /-- The read position. -/
  pos : Nat
  /-- The outcomes of the next calls of `Read` and `Skip`. -/
  schedule : List (Option Failure)

namespace FailingFile

/-- The bytes from the read position on. -/
def unread (file : FailingFile) : Bytes := file.contents.drop file.pos

/-- How the next call fails, if it does. -/
def nextFailure (file : FailingFile) : Option Failure := file.schedule.head?.join

/-- The file behind a call that has moved the read position by `count`. -/
def advance (count : Nat) (file : FailingFile) : FailingFile :=
  { file with pos := file.pos + count, schedule := file.schedule.tail }

/-- Deliver `min(n, remaining)` bytes, or those in front of the failure. -/
def read (n : Nat) (file : FailingFile) : (Status × Bytes) × FailingFile :=
  match file.nextFailure with
  | none =>
      let data := file.unread.take n
      ((.OK, data), file.advance data.length)
  | some failure =>
      let data := (file.unread.take n).take failure.delivered
      ((failure.status, data), file.advance data.length)

/-- Advance the read position, unless the call fails. -/
def skip (n : UInt64) (file : FailingFile) : Status × FailingFile :=
  match file.nextFailure with
  | none => (.OK, file.advance n.toNat)
  | some failure => (failure.status, file.advance 0)

/-- The failing file as a `SequentialFile`. -/
def sequentialFile : SequentialFile FailingFile where
  read := read
  skip := skip

end FailingFile

/-- A successful `Read` takes what it delivers out of what is left. -/
def SequentialFile.Depletes
    {φ : Type}
    (F : SequentialFile φ)
    (left : φ → Nat) : Prop :=
  ∀ n file, (F.read n file).1.1.ok = true →
    (F.read n file).1.2.length + left (F.read n file).2 ≤ left file

theorem FailingFile.depletes :
    FailingFile.sequentialFile.Depletes fun file => file.unread.length := by
  intro n file _
  have taken (count : Nat) :
      ((file.unread.take n).take count).length +
        (file.advance ((file.unread.take n).take count).length).unread.length ≤
        file.unread.length := by
    simp only [unread, advance, List.length_take, List.length_drop]
    omega
  change (file.read n).1.2.length + (file.read n).2.unread.length ≤ file.unread.length
  unfold read
  cases file.nextFailure with
  | none =>
      have whole := taken n
      rwa [List.take_take, Nat.min_self] at whole
  | some failure => exact taken failure.delivered

/-! ## Watching a file -/

/-- How a call of `Read` or `Skip` has ended. -/
structure Outcome where
  /-- The status it returned. -/
  status : Status
  /-- How many bytes it delivered. -/
  delivered : Nat

/-- A file and the outcomes of its calls so far. -/
structure Watched (φ : Type) where
  /-- The file. -/
  file : φ
  /-- The outcomes. -/
  outcomes : List Outcome

/-- How `Read(n)` ends. -/
def SequentialFile.readOutcome {φ : Type} (F : SequentialFile φ) (n : Nat) (file : φ) :
    Outcome :=
  ⟨(F.read n file).1.1, (F.read n file).1.2.length⟩

/-- The file, watched. -/
def SequentialFile.watched {φ : Type} (F : SequentialFile φ) :
    SequentialFile (Watched φ) where
  read := fun n watched =>
    let result := F.read n watched.file
    (result.1, ⟨result.2, watched.outcomes ++ [F.readOutcome n watched.file]⟩)
  skip := fun n watched =>
    let result := F.skip n watched.file
    (result.1, ⟨result.2, watched.outcomes ++ [⟨result.1, 0⟩]⟩)

namespace Outcome

/-- The bytes that were delivered. -/
def total (outcomes : List Outcome) : Nat := (outcomes.map delivered).sum

/-- The statuses of the calls that failed. -/
def failures (outcomes : List Outcome) : List Status :=
  (outcomes.map status).filter (fun status => !status.ok)

/-- All calls succeeded. -/
def Succeed (outcomes : List Outcome) : Prop :=
  ∀ outcome ∈ outcomes, outcome.status.ok = true

theorem succeed_nil : Succeed [] := nofun

theorem Succeed.append
    {first second : List Outcome}
    (left : Succeed first)
    (right : Succeed second) : Succeed (first ++ second) := by
  intro outcome member
  rcases List.mem_append.mp member with isFirst | isSecond
  · exact left outcome isFirst
  · exact right outcome isSecond

theorem Succeed.singleton {outcome : Outcome} (succeeds : outcome.status.ok = true) :
    Succeed [outcome] := by
  intro other member
  rw [List.mem_singleton.mp member]
  exact succeeds

theorem Succeed.failures_eq
    {outcomes : List Outcome}
    (succeed : Succeed outcomes) : failures outcomes = [] := by
  apply List.filter_eq_nil_iff.mpr
  intro status member
  obtain ⟨outcome, isOutcome, rfl⟩ := List.mem_map.mp member
  simp [succeed outcome isOutcome]

theorem failures_append (first second : List Outcome) :
    failures (first ++ second) = failures first ++ failures second := by
  rw [failures, List.map_append, List.filter_append]
  rfl

theorem failures_singleton
    {outcome : Outcome}
    (fails : outcome.status.ok = false) : failures [outcome] = [outcome.status] := by
  simp [failures, fails]

@[simp] theorem total_nil : total [] = 0 := rfl

@[simp] theorem total_append (first second : List Outcome) :
    total (first ++ second) = total first + total second := by
  simp [total]

@[simp] theorem total_singleton (outcome : Outcome) :
    total [outcome] = outcome.delivered := by
  simp [total]

end Outcome

end RocksUtil
