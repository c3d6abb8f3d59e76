import RocksUtil.Library.Varint
import RocksUtil.Coding.Fixed

/-!
# Variable-length integers

The encoders and decoders of the source for 32 and 64 bits.  The encoder for 32 bits is
written out by the number of bytes, the other one is a loop; both write the groups of
`Varint.encode`, and the decoders shift them into place as `Varint.decode` does.
-/

namespace RocksUtil
namespace Coding

/-- The bytes `EncodeVarint32` stores. -/
def encodeVarint32 (v : UInt32) : Bytes :=
  if v < (1 : UInt32) <<< 7 then [v.toUInt8]
  else if v < (1 : UInt32) <<< 14 then [(v ||| 128).toUInt8, (v >>> 7).toUInt8]
  else if v < (1 : UInt32) <<< 21 then
    [(v ||| 128).toUInt8, ((v >>> 7) ||| 128).toUInt8, (v >>> 14).toUInt8]
  else if v < (1 : UInt32) <<< 28 then
    [(v ||| 128).toUInt8, ((v >>> 7) ||| 128).toUInt8, ((v >>> 14) ||| 128).toUInt8,
      (v >>> 21).toUInt8]
  else
    [(v ||| 128).toUInt8, ((v >>> 7) ||| 128).toUInt8, ((v >>> 14) ||| 128).toUInt8,
      ((v >>> 21) ||| 128).toUInt8, (v >>> 28).toUInt8]

theorem toNat_shiftRight_lt {v : UInt64} (more : v ≥ 128) :
    (v >>> 7).toNat < v.toNat := by
  have atLeast : 128 ≤ v.toNat := UInt64.le_iff_toNat_le.mp more
  have shifted : (v >>> 7).toNat = v.toNat / 128 := by
    simp [UInt64.toNat_shiftRight, Nat.shiftRight_eq_div_pow]
  omega

/-- The bytes `EncodeVarint64` stores. -/
def encodeVarint64 (v : UInt64) : Bytes :=
  if v ≥ 128 then ((v &&& (128 - 1)) ||| 128).toUInt8 :: encodeVarint64 (v >>> 7)
  else [v.toUInt8]
termination_by v.toNat
decreasing_by exact toNat_shiftRight_lt ‹_›

/-- The loop of `VarintLength`. -/
def varintLengthLoop (v : UInt64) (len : Nat) : Nat :=
  if v ≥ 128 then varintLengthLoop (v >>> 7) (len + 1) else len
termination_by v.toNat
decreasing_by exact toNat_shiftRight_lt ‹_›

/-- `VarintLength`. -/
def varintLength (v : UInt64) : Nat := varintLengthLoop v 1

/-- The loop of `GetVarint32PtrFallback`, over the bytes from `p` to `limit`: the value
and the bytes from the pointer that is returned. -/
def getVarint32Loop (shift : Nat) (result : UInt32) (p : Bytes) :
    Option (UInt32 × Bytes) :=
  if shift ≤ 28 then
    match p with
    | [] => none
    | first :: p =>
        let byte := first.toUInt32
        if byte &&& 128 ≠ 0 then
          getVarint32Loop (shift + 7)
            (result ||| ((byte &&& 127) <<< UInt32.ofNat shift)) p
        else some (result ||| (byte <<< UInt32.ofNat shift), p)
  else none
termination_by structural p

/-- `GetVarint32PtrFallback`. -/
def getVarint32PtrFallback (p : Bytes) : Option (UInt32 × Bytes) :=
  getVarint32Loop 0 0 p

/-- `GetVarint32Ptr`. -/
def getVarint32Ptr (p : Bytes) : Option (UInt32 × Bytes) :=
  match p with
  | [] => getVarint32PtrFallback p
  | first :: rest =>
      let result := first.toUInt32
      if result &&& 128 = 0 then some (result, rest) else getVarint32PtrFallback p

/-- The loop of `GetVarint64Ptr`. -/
def getVarint64Loop (shift : Nat) (result : UInt64) (p : Bytes) :
    Option (UInt64 × Bytes) :=
  if shift ≤ 63 then
    match p with
    | [] => none
    | first :: p =>
        let byte := first.toUInt64
        if byte &&& 128 ≠ 0 then
          getVarint64Loop (shift + 7)
            (result ||| ((byte &&& 127) <<< UInt64.ofNat shift)) p
        else some (result ||| (byte <<< UInt64.ofNat shift), p)
  else none
termination_by structural p

/-- `GetVarint64Ptr`. -/
def getVarint64Ptr (p : Bytes) : Option (UInt64 × Bytes) := getVarint64Loop 0 0 p

/-! ## The encoders -/

/-- Setting the high bit, with or without clearing it before. -/
theorem or_high (group : BitVec 8) : group ||| 128 = (group &&& 127) ||| 128 := by
  revert group
  decide

theorem encodeVarint64_eq (v : UInt64) : encodeVarint64 v = Varint.encode v.toBitVec := by
  induction v using encodeVarint64.induct with
  | case1 v more inductionHypothesis =>
      have atLeast : 128 ≤ v.toBitVec.toNat := UInt64.le_iff_toNat_le.mp more
      have group : ((v &&& (128 - 1)) ||| 128).toUInt8 = ⟨Varint.continued v.toBitVec⟩ := by
        apply UInt8.eq_of_toBitVec_eq
        simp [Varint.continued]
      rw [encodeVarint64, if_pos more, Varint.encode_continued atLeast, inductionHypothesis,
        group]
      rfl
  | case2 v last =>
      have small : v.toBitVec.toNat < 128 :=
        Nat.lt_of_not_le fun more => last (UInt64.le_iff_toNat_le.mpr more)
      rw [encodeVarint64, if_neg last, Varint.encode_last small]
      rfl

/-- Each branch is for one number of groups. -/
theorem encodeVarint32_eq (v : UInt32) : encodeVarint32 v = Varint.encode v.toBitVec := by
  have group (b : BitVec 32) : (b ||| 128).setWidth 8 = Varint.continued b := by
    rw [BitVec.setWidth_or]
    exact or_high _
  have groupByte (v : UInt32) : (v ||| 128).toUInt8 = ⟨Varint.continued v.toBitVec⟩ :=
    UInt8.eq_of_toBitVec_eq (group v.toBitVec)
  have lastByte (v : UInt32) : v.toUInt8 = ⟨v.toBitVec.setWidth 8⟩ := rfl
  have bound := v.toNat_lt
  have shifted (shift : Nat) : (v.toBitVec >>> shift).toNat = v.toNat / 2 ^ shift := by
    rw [BitVec.toNat_ushiftRight, Nat.shiftRight_eq_div_pow]
    rfl
  have plain : v.toBitVec.toNat = v.toNat := rfl
  have two : v.toBitVec >>> 7 >>> 7 = v.toBitVec >>> 14 := (BitVec.shiftRight_add _ 7 7).symm
  have three : v.toBitVec >>> 14 >>> 7 = v.toBitVec >>> 21 :=
    (BitVec.shiftRight_add _ 14 7).symm
  have four : v.toBitVec >>> 21 >>> 7 = v.toBitVec >>> 28 :=
    (BitVec.shiftRight_add _ 21 7).symm
  have at7 : (v >>> 7).toBitVec = v.toBitVec >>> 7 := rfl
  have at14 : (v >>> 14).toBitVec = v.toBitVec >>> 14 := rfl
  have at21 : (v >>> 21).toBitVec = v.toBitVec >>> 21 := rfl
  have at28 : (v >>> 28).toBitVec = v.toBitVec >>> 28 := rfl
  unfold encodeVarint32
  have below (bits : UInt32) (powers : Nat)
      (is : ((1 : UInt32) <<< bits).toNat = powers) :
      v < (1 : UInt32) <<< bits ↔ v.toNat < powers := by
    rw [UInt32.lt_iff_toNat_lt, is]
  simp only [groupByte, lastByte, at7, at14, at21, at28, below 7 (2 ^ 7) (by decide),
    below 14 (2 ^ 14) (by decide), below 21 (2 ^ 21) (by decide),
    below 28 (2 ^ 28) (by decide)]
  split
  · rw [Varint.encode_last (by omega)]
  split
  · rw [Varint.encode_continued (by omega), Varint.encode_last (by rw [shifted]; omega)]
  split
  · rw [Varint.encode_continued (by omega),
      Varint.encode_continued (by rw [shifted]; omega), two,
      Varint.encode_last (by rw [shifted]; omega)]
  split
  · rw [Varint.encode_continued (by omega),
      Varint.encode_continued (by rw [shifted]; omega), two,
      Varint.encode_continued (by rw [shifted]; omega), three,
      Varint.encode_last (by rw [shifted]; omega)]
  · rw [Varint.encode_continued (by omega),
      Varint.encode_continued (by rw [shifted]; omega), two,
      Varint.encode_continued (by rw [shifted]; omega), three,
      Varint.encode_continued (by rw [shifted]; omega), four,
      Varint.encode_last (by rw [shifted]; omega)]

/-- The unrolled encoder and the loop store the same bytes. -/
theorem encodeVarint32_eq_encodeVarint64 (v : UInt32) :
    encodeVarint32 v = encodeVarint64 v.toUInt64 := by
  rw [encodeVarint32_eq, encodeVarint64_eq]
  exact (Varint.encode_setWidth v.toBitVec (by decide)).symm

theorem varintLengthLoop_eq (v : UInt64) (len : Nat) :
    varintLengthLoop v len + 1 = len + (encodeVarint64 v).length := by
  induction v, len using varintLengthLoop.induct with
  | case1 v len more inductionHypothesis =>
      rw [varintLengthLoop, if_pos more, inductionHypothesis, encodeVarint64.eq_def v,
        if_pos more, List.length_cons]
      omega
  | case2 v len last =>
      rw [varintLengthLoop, if_neg last, encodeVarint64, if_neg last]
      rfl

/-- `VarintLength` counts the bytes `EncodeVarint64` stores. -/
theorem varintLength_eq (v : UInt64) : varintLength v = (encodeVarint64 v).length := by
  have counted := varintLengthLoop_eq v 1
  rw [varintLength]
  omega

/-! ## The decoders -/

theorem toBitVec_shiftLeft32
    (value : UInt32)
    {shift : Nat}
    (bound : shift ≤ 28) :
    (value <<< UInt32.ofNat shift).toBitVec = value.toBitVec <<< shift := by
  have same : ((UInt32.ofNat shift).toBitVec % 32).toNat = shift := by
    simp
    omega
  rw [UInt32.toBitVec_shiftLeft, BitVec.shiftLeft_eq', same]

theorem toBitVec_shiftLeft64
    (value : UInt64)
    {shift : Nat}
    (bound : shift ≤ 63) :
    (value <<< UInt64.ofNat shift).toBitVec = value.toBitVec <<< shift := by
  have same : ((UInt64.ofNat shift).toBitVec % 64).toNat = shift := by
    simp
    omega
  rw [UInt64.toBitVec_shiftLeft, BitVec.shiftLeft_eq', same]

theorem high_toUInt32 (byte : UInt8) :
    byte.toUInt32 &&& 128 ≠ 0 ↔ byte.toBitVec &&& 128 ≠ 0 := by
  have wider : ∀ group : BitVec 8,
      group.setWidth 32 &&& 128 ≠ 0 ↔ group &&& 128 ≠ 0 := by decide
  rw [ne_eq, ← UInt32.toBitVec_inj]
  exact wider byte.toBitVec

theorem high_toUInt64 (byte : UInt8) :
    byte.toUInt64 &&& 128 ≠ 0 ↔ byte.toBitVec &&& 128 ≠ 0 := by
  have wider : ∀ group : BitVec 8,
      group.setWidth 64 &&& 128 ≠ 0 ↔ group &&& 128 ≠ 0 := by decide
  rw [ne_eq, ← UInt64.toBitVec_inj]
  exact wider byte.toBitVec

theorem low_toUInt32 (byte : UInt8) :
    (byte.toUInt32 &&& 127).toBitVec = (byte.toBitVec &&& 127).setWidth 32 := by
  rw [BitVec.setWidth_and]
  rfl

theorem low_toUInt64 (byte : UInt8) :
    (byte.toUInt64 &&& 127).toBitVec = (byte.toBitVec &&& 127).setWidth 64 := by
  rw [BitVec.setWidth_and]
  rfl

theorem getVarint32Loop_eq (p : Bytes) (shift : Nat) (result : UInt32) :
    getVarint32Loop shift result p =
      (Varint.decode 28 shift result.toBitVec p).map fun read => (⟨read.1⟩, read.2) := by
  induction p generalizing shift result with
  | nil =>
      unfold getVarint32Loop
      split <;> rfl
  | cons byte rest inductionHypothesis =>
      unfold getVarint32Loop Varint.decode
      by_cases bound : shift ≤ 28
      · simp only [if_pos bound, high_toUInt32]
        split
        · rw [inductionHypothesis, UInt32.toBitVec_or, toBitVec_shiftLeft32 _ bound,
            low_toUInt32]
        · have value : result ||| byte.toUInt32 <<< UInt32.ofNat shift =
              ⟨result.toBitVec ||| byte.toBitVec.setWidth 32 <<< shift⟩ := by
            apply UInt32.eq_of_toBitVec_eq
            rw [UInt32.toBitVec_or, toBitVec_shiftLeft32 _ bound]
            rfl
          rw [value]
          rfl
      · simp only [if_neg bound]
        rfl

theorem getVarint64Loop_eq (p : Bytes) (shift : Nat) (result : UInt64) :
    getVarint64Loop shift result p =
      (Varint.decode 63 shift result.toBitVec p).map fun read => (⟨read.1⟩, read.2) := by
  induction p generalizing shift result with
  | nil =>
      unfold getVarint64Loop
      split <;> rfl
  | cons byte rest inductionHypothesis =>
      unfold getVarint64Loop Varint.decode
      by_cases bound : shift ≤ 63
      · simp only [if_pos bound, high_toUInt64]
        split
        · rw [inductionHypothesis, UInt64.toBitVec_or, toBitVec_shiftLeft64 _ bound,
            low_toUInt64]
        · have value : result ||| byte.toUInt64 <<< UInt64.ofNat shift =
              ⟨result.toBitVec ||| byte.toBitVec.setWidth 64 <<< shift⟩ := by
            apply UInt64.eq_of_toBitVec_eq
            rw [UInt64.toBitVec_or, toBitVec_shiftLeft64 _ bound]
            rfl
          rw [value]
          rfl
      · simp only [if_neg bound]
        rfl

/-- The fast path for one byte does what the loop does. -/
theorem getVarint32Ptr_eq (p : Bytes) : getVarint32Ptr p = getVarint32PtrFallback p := by
  cases p with
  | nil => rfl
  | cons first rest =>
      unfold getVarint32Ptr
      by_cases single : first.toUInt32 &&& 128 = 0
      · unfold getVarint32PtrFallback getVarint32Loop
        simp [single]
      · simp only [single, if_false]

/-- What `EncodeVarint32` stored is read back, whatever follows. -/
@[simp] theorem getVarint32Ptr_encodeVarint32_append (v : UInt32) (rest : Bytes) :
    getVarint32Ptr (encodeVarint32 v ++ rest) = some (v, rest) := by
  rw [getVarint32Ptr_eq, getVarint32PtrFallback, getVarint32Loop_eq, encodeVarint32_eq,
    Varint.decode_encode (by omega) _ _ _ _ (Nat.dvd_zero 7) (by decide)
      (by simpa using v.toBitVec.isLt)]
  simp

@[simp] theorem getVarint64Ptr_encodeVarint64_append (v : UInt64) (rest : Bytes) :
    getVarint64Ptr (encodeVarint64 v ++ rest) = some (v, rest) := by
  rw [getVarint64Ptr, getVarint64Loop_eq, encodeVarint64_eq,
    Varint.decode_encode (by omega) _ _ _ _ (Nat.dvd_zero 7) (by decide)
      (by simpa using v.toBitVec.isLt)]
  simp

end Coding
end RocksUtil
