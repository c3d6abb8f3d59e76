import RocksUtil.Coding.Items

/-!
# Unique ids of files

`GetUniqueIdFromFile` stores three varints one behind the other.  Codes of varints are
told from what follows them, so that no id is the beginning of another one, and a reader
of a single varint always leaves the last two (`uniqueIds_prefixFree`).
-/

namespace RocksUtil
namespace Env

open Coding
open Varint (IsCode)

/-- `kMaxVarint64Length`. -/
def kMaxVarint64Length : Nat := 10

/-- The three numbers that tell a file from others. -/
structure FileIdentity where
  /-- `st_dev`. -/
  device : UInt64
  /-- `st_ino`. -/
  inode : UInt64
  /-- What `FS_IOC_GETVERSION` says, or `st_gen`. -/
  version : UInt64
  deriving DecidableEq, Repr

/-- The bytes that the three calls of `EncodeVarint64` store. -/
def FileIdentity.id (file : FileIdentity) : Bytes :=
  encodeVarint64 file.device ++ (encodeVarint64 file.inode ++ encodeVarint64 file.version)

/-- `PosixHelper::GetUniqueIdFromFile`: the id, `none` where it returns zero.  `stat` is
what `fstat` yields, and `version` what `ioctl` does, unless the call fails. -/
def getUniqueIdFromFile
    (stat : Option (UInt64 × UInt64))
    (version : Option UInt64)
    (maxSize : Nat) : Option Bytes :=
  if maxSize < kMaxVarint64Length * 3 then none
  else do
    let (device, inode) ← stat
    let uversion ← version
    some (FileIdentity.id ⟨device, inode, uversion⟩)

theorem isCode_encodeVarint64 (v : UInt64) : IsCode (encodeVarint64 v) := by
  rw [encodeVarint64_eq]
  exact (Varint.isCode_encode v.toBitVec).1

theorem length_encodeVarint64_le (v : UInt64) :
    (encodeVarint64 v).length ≤ kMaxVarint64Length := by
  rw [encodeVarint64_eq]
  exact Varint.length_encode_le 9 v.toBitVec (Nat.lt_trans v.toNat_lt (by decide))

theorem encodeVarint64_injective : Function.Injective encodeVarint64 := by
  intro left right same
  have readLeft := getVarint64Ptr_encodeVarint64_append left []
  rw [same, getVarint64Ptr_encodeVarint64_append] at readLeft
  exact (Prod.mk.inj (Option.some.inj readLeft)).1.symm

theorem FileIdentity.length_id_le (file : FileIdentity) :
    file.id.length ≤ kMaxVarint64Length * 3 := by
  have device := length_encodeVarint64_le file.device
  have inode := length_encodeVarint64_le file.inode
  have version := length_encodeVarint64_le file.version
  rw [FileIdentity.id, List.length_append, List.length_append]
  omega

/-- What follows an id does not matter. -/
theorem FileIdentity.append_inj
    {left right : FileIdentity}
    {behindLeft behindRight : Bytes}
    (same : left.id ++ behindLeft = right.id ++ behindRight) :
    left = right := by
  have isCode := isCode_encodeVarint64
  simp only [FileIdentity.id, List.append_assoc] at same
  obtain ⟨devices, same⟩ := (isCode left.device).append_inj (isCode right.device) same
  obtain ⟨inodes, same⟩ := (isCode left.inode).append_inj (isCode right.inode) same
  obtain ⟨versions, -⟩ := (isCode left.version).append_inj (isCode right.version) same
  cases left
  cases right
  rw [FileIdentity.mk.injEq]
  exact ⟨encodeVarint64_injective devices, encodeVarint64_injective inodes,
    encodeVarint64_injective versions⟩

/-- A reader of a varint leaves the last two numbers. -/
theorem FileIdentity.getVarint64_id (file : FileIdentity) :
    getVarint64 file.id =
      (some file.device, encodeVarint64 file.inode ++ encodeVarint64 file.version) :=
  getVarint64_encodeVarint64_append file.device _

theorem FileIdentity.rest_ne_nil (file : FileIdentity) :
    encodeVarint64 file.inode ++ encodeVarint64 file.version ≠ [] :=
  fun none => (isCode_encodeVarint64 file.inode).ne_nil (List.append_eq_nil_iff.mp none).1

/-- An id fits into the space that is asked for, ids are equal only for equal triples, none
is the beginning of another one, and none is a single varint. -/
theorem uniqueIds_prefixFree (file other : FileIdentity) :
    (∀ maxSize, getUniqueIdFromFile (some (file.device, file.inode)) (some file.version)
      maxSize = if maxSize < 30 then none else some file.id) ∧
    file.id.length ≤ 30 ∧
    (file.id = other.id → file = other) ∧
    (file.id <+: other.id → file.id = other.id) ∧
    (∀ v, file.id ≠ encodeVarint64 v) ∧
    ∀ v, getVarint64 file.id ≠ (some v, []) := by
  refine ⟨fun maxSize => rfl, file.length_id_le, fun same => ?_, fun isPrefix => ?_,
    fun v single => ?_, fun v single => ?_⟩
  · have whole : file.id ++ [] = other.id ++ [] := by rw [same]
    exact FileIdentity.append_inj whole
  · obtain ⟨behind, whole⟩ := isPrefix
    rw [← List.append_nil other.id] at whole
    rw [FileIdentity.append_inj whole]
  · have whole := getVarint64_encodeVarint64_append v []
    rw [List.append_nil, ← single, file.getVarint64_id] at whole
    exact file.rest_ne_nil (Prod.mk.inj whole).2
  · rw [file.getVarint64_id] at single
    exact file.rest_ne_nil (Prod.mk.inj single).2

end Env
end RocksUtil
