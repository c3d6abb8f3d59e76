import RocksUtil.Status

/-!
# Sequential files

`SequentialFile` is an abstract class of the source; here it is the record of
its operations on an arbitrary state.  The concrete file used by the results on
logs is one that another thread may be appending to: before each `Read` the
next scheduled chunk arrives.  A file at rest has no scheduled arrivals.
-/

namespace RocksUtil

/-- The operations of `SequentialFile` on a file state. -/
structure SequentialFile (φ : Type) where
  /-- `Read(n, &result, scratch)`: the status and the bytes delivered. -/
  read : Nat → φ → (Status × Bytes) × φ
  /-- `Skip(n)`. -/
  skip : UInt64 → φ → Status × φ

/-- A file with a read position, and what a concurrent writer appends before
each of the next reads. -/
structure GrowingFile where
  /-- The bytes the file holds now. -/
  contents : Bytes
  /-- The read position. -/
  pos : Nat
  /-- What arrives before the next read, the one after it, and so on. -/
  arrivals : List Bytes

namespace GrowingFile

/-- A file nobody writes to, opened at its start. -/
def atRest (contents : Bytes) : GrowingFile := ⟨contents, 0, []⟩

/-- The chunk that arrives before the next read. -/
def nextArrival (file : GrowingFile) : Bytes := file.arrivals.headD []

/-- Let the next scheduled chunk arrive. -/
def arrive (file : GrowingFile) : GrowingFile where
  contents := file.contents ++ file.nextArrival
  pos := file.pos
  arrivals := file.arrivals.tail

/-- The bytes from the read position on. -/
def unread (file : GrowingFile) : Bytes := file.contents.drop file.pos

/-- Deliver `min(n, remaining)` bytes and advance. -/
def read (n : Nat) (file : GrowingFile) : (Status × Bytes) × GrowingFile :=
  let data := file.arrive.unread.take n
  ((.OK, data), { file.arrive with pos := file.pos + data.length })

/-- Advance the read position, possibly past the end. -/
def skip (n : UInt64) (file : GrowingFile) : Status × GrowingFile :=
  (.OK, { file with pos := file.pos + n.toNat })

/-- Append to the file. -/
def append (file : GrowingFile) (data : Bytes) : GrowingFile :=
  { file with contents := file.contents ++ data }

/-- Schedule what arrives before the next reads. -/
def schedule (file : GrowingFile) (arrivals : List Bytes) : GrowingFile :=
  { file with arrivals := arrivals }

/-- Let everything that is scheduled arrive. -/
def settle (file : GrowingFile) : GrowingFile :=
  (file.append file.arrivals.flatten).schedule []

/-- Let the next chunk arrive at once, and nothing before the next read. -/
def hasten (file : GrowingFile) : GrowingFile :=
  (file.append file.nextArrival).schedule ([] :: file.arrivals.tail)

/-- The growing file as a `SequentialFile`. -/
def sequentialFile : SequentialFile GrowingFile where
  read := read
  skip := skip

@[simp] theorem atRest_contents (contents : Bytes) :
    (atRest contents).contents = contents := rfl

@[simp] theorem atRest_arrivals (contents : Bytes) :
    (atRest contents).arrivals = [] := rfl

@[simp] theorem atRest_pos (contents : Bytes) : (atRest contents).pos = 0 := rfl

theorem unread_arrive
    (file : GrowingFile)
    (inFile : file.pos ≤ file.contents.length) :
    file.arrive.unread = file.unread ++ file.nextArrival := by
  simp only [unread, arrive]
  rw [List.drop_append_of_le_length inFile]

theorem arrive_of_atRest {file : GrowingFile} (atRest : file.arrivals = []) :
    file.arrive = file := by
  cases file
  cases atRest
  simp [arrive, nextArrival]

theorem unread_append
    (file : GrowingFile)
    (inFile : file.pos ≤ file.contents.length)
    (data : Bytes) :
    (file.append data).unread = file.unread ++ data := by
  simp only [unread, append]
  rw [List.drop_append_of_le_length inFile]

@[simp] theorem unread_schedule (file : GrowingFile) (arrivals : List Bytes) :
    (file.schedule arrivals).unread = file.unread := rfl

@[simp] theorem arrive_hasten (file : GrowingFile) :
    file.hasten.arrive = file.arrive := by
  simp [hasten, arrive, append, schedule, nextArrival]

theorem nextArrival_append_flatten (file : GrowingFile) :
    file.nextArrival ++ file.arrive.arrivals.flatten = file.arrivals.flatten := by
  simp only [nextArrival, arrive]
  cases file.arrivals <;> simp

theorem flatten_take_one (file : GrowingFile) :
    (file.arrivals.take 1).flatten = file.nextArrival := by
  simp only [nextArrival]
  cases file.arrivals <;> simp

end GrowingFile
end RocksUtil
