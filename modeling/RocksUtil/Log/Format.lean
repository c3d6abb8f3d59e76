import RocksUtil.Status

/-!
# Log format

Constants shared by `log::Writer` and `log::Reader`.
-/

namespace RocksUtil
namespace Log

/-- Types of physical records. -/
inductive RecordType
  | zero
  | full
  | first
  | middle
  | last
  | recyclableFull
  | recyclableFirst
  | recyclableMiddle
  | recyclableLast
  deriving DecidableEq, Repr

/-- The number that stands for a record type on disk. -/
def RecordType.code : RecordType → Nat
  | .zero => 0
  | .full => 1
  | .first => 2
  | .middle => 3
  | .last => 4
  | .recyclableFull => 5
  | .recyclableFirst => 6
  | .recyclableMiddle => 7
  | .recyclableLast => 8

/-- `kMaxRecordType`. -/
def kMaxRecordType : Nat := 8

/-- `kBlockSize`. -/
def kBlockSize : Nat := 32768

/-- `kHeaderSize`: checksum, length and type. -/
def kHeaderSize : Nat := 4 + 1 + 2

/-- `kRecyclableHeaderSize`: checksum, length, type and log number. -/
def kRecyclableHeaderSize : Nat := 4 + 1 + 4 + 2

/-- The header size of a log, depending on whether log files are recycled. -/
def headerSize (recycle : Bool) : Nat :=
  if recycle then kRecyclableHeaderSize else kHeaderSize

theorem kBlockSize_eq : kBlockSize = 32768 := rfl

theorem kHeaderSize_eq : kHeaderSize = 7 := rfl

theorem kRecyclableHeaderSize_eq : kRecyclableHeaderSize = 11 := rfl

theorem headerSize_bounds (recycle : Bool) :
    7 ≤ headerSize recycle ∧ headerSize recycle ≤ 11 := by
  cases recycle <;> decide

end Log
end RocksUtil
