import Mathlib.Data.Nat.Basic
import RocksUtil.Status

/-!
# The write buffer

`AlignedBuffer` of the source: a buffer whose capacity is a multiple of an
alignment.  The memory behind it is not modelled, only the bytes in use; that
these stay within the capacity is part of the type.
-/

namespace RocksUtil

/-- `TruncateToPageBoundary`. -/
def truncateToPageBoundary (pageSize s : Nat) : Nat := s - (s &&& (pageSize - 1))

/-- `Roundup`. -/
def roundup (x y : Nat) : Nat := ((x + y - 1) / y) * y

theorem truncateToPageBoundary_eq
    {pageSize : Nat}
    (powerOfTwo : pageSize.isPowerOfTwo)
    (s : Nat) :
    truncateToPageBoundary pageSize s = s - s % pageSize := by
  obtain ⟨exponent, rfl⟩ := powerOfTwo
  rw [truncateToPageBoundary, Nat.and_two_pow_sub_one_eq_mod]

theorem dvd_roundup (x y : Nat) : y ∣ roundup x y := Nat.dvd_mul_left _ _

theorem le_roundup (x : Nat) {y : Nat} (positive : 0 < y) : x ≤ roundup x y := by
  have division := Nat.div_add_mod (x + y - 1) y
  have remainder := Nat.mod_lt (x + y - 1) positive
  rw [roundup, Nat.mul_comm]
  omega

/-- The least multiple above a number is below every other one. -/
theorem roundup_le
    {x y bound : Nat}
    (positive : 0 < y)
    (divides : y ∣ bound)
    (below : x ≤ bound) : roundup x y ≤ bound := by
  obtain ⟨factor, rfl⟩ := divides
  rw [roundup, Nat.mul_comm y factor]
  apply Nat.mul_le_mul_right
  rw [Nat.div_le_iff_le_mul_add_pred positive]
  omega

/-- The state of an `AlignedBuffer`. -/
structure AlignedBuffer where
  /-- `alignment_`. -/
  alignment : Nat
  /-- `capacity_`. -/
  capacity : Nat
  /-- The first `cursize_` bytes from `bufstart_` on. -/
  bytes : Bytes
  powerOfTwo : alignment.isPowerOfTwo
  aligned : alignment ∣ capacity
  inCapacity : bytes.length ≤ capacity

namespace AlignedBuffer

theorem alignment_pos (buffer : AlignedBuffer) : 0 < buffer.alignment :=
  Nat.pos_of_isPowerOfTwo buffer.powerOfTwo

/-- `CurrentSize()`. -/
def currentSize (buffer : AlignedBuffer) : Nat := buffer.bytes.length

/-- `AllocateNewBuffer`, for a buffer of this alignment. -/
def allocate
    (alignment : Nat)
    (powerOfTwo : alignment.isPowerOfTwo)
    (requestedCapacity : Nat) : AlignedBuffer where
  alignment := alignment
  capacity := roundup requestedCapacity alignment
  bytes := []
  powerOfTwo := powerOfTwo
  aligned := dvd_roundup _ _
  inCapacity := Nat.zero_le _

/-- `AllocateNewBuffer`: what the buffer held is gone. -/
def allocateNewBuffer
    (buffer : AlignedBuffer)
    (requestedCapacity : Nat) : AlignedBuffer :=
  allocate buffer.alignment buffer.powerOfTwo requestedCapacity

/-- `Append`: the number of bytes that `src` had room for, and the buffer. -/
def append (buffer : AlignedBuffer) (src : Bytes) : Nat × AlignedBuffer :=
  let bufferRemaining := buffer.capacity - buffer.currentSize
  let toCopy := min src.length bufferRemaining
  (toCopy, { buffer with
    bytes := buffer.bytes ++ src.take toCopy
    inCapacity := by
      have inCapacity := buffer.inCapacity
      simp only [toCopy, bufferRemaining, currentSize, List.length_append,
        List.length_take]
      omega })

/-- `PadToAlignmentWith`. -/
def padToAlignmentWith (buffer : AlignedBuffer) (padding : UInt8) : AlignedBuffer :=
  let totalSize := roundup buffer.currentSize buffer.alignment
  let padSize := totalSize - buffer.currentSize
  { buffer with
    bytes := buffer.bytes ++ List.replicate padSize padding
    inCapacity := by
      have inCapacity := buffer.inCapacity
      have least := roundup_le buffer.alignment_pos buffer.aligned inCapacity
      simp only [padSize, totalSize, currentSize, List.length_append,
        List.length_replicate]
      omega }

/-- `RefitTail`: move the tail to the beginning of the buffer. -/
def refitTail (buffer : AlignedBuffer) (tailOffset tailSize : Nat) :
    AlignedBuffer :=
  { buffer with
    bytes := (buffer.bytes.drop tailOffset).take tailSize
    inCapacity := by
      have inCapacity := buffer.inCapacity
      simp only [List.length_take, List.length_drop]
      omega }

/-- `Size(cursize)`, for a size up to the current one. -/
def size (buffer : AlignedBuffer) (cursize : Nat) : AlignedBuffer :=
  { buffer with
    bytes := buffer.bytes.take cursize
    inCapacity := by
      have inCapacity := buffer.inCapacity
      simp only [List.length_take]
      omega }

theorem capacity_allocate_le
    (buffer : AlignedBuffer)
    (requestedCapacity : Nat) :
    requestedCapacity ≤ (buffer.allocateNewBuffer requestedCapacity).capacity :=
  le_roundup _ buffer.alignment_pos

/-- A slice the buffer has room for is taken whole. -/
theorem append_eq
    {buffer : AlignedBuffer}
    {src : Bytes}
    (room : buffer.currentSize + src.length ≤ buffer.capacity) :
    (buffer.append src).1 = src.length ∧
      (buffer.append src).2.bytes = buffer.bytes ++ src := by
  have all : min src.length (buffer.capacity - buffer.currentSize) = src.length := by
    omega
  simp [append, all]

/-- Nothing of such a slice is left behind. -/
theorem not_lt_left
    {buffer : AlignedBuffer}
    {src : Bytes}
    (room : buffer.currentSize + src.length ≤ buffer.capacity) :
    ¬0 < (src.drop (buffer.append src).1).length := by
  rw [(append_eq room).1, List.drop_length]
  exact Nat.lt_irrefl 0

end AlignedBuffer
end RocksUtil
