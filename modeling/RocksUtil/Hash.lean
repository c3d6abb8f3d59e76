import Mathlib.Data.Fintype.BigOperators
import Mathlib.SetTheory.Cardinal.Finite
import RocksUtil.Coding.Fixed

/-!
# The hash function

`Hash` picks up four bytes at a time and mixes each word into 32 bits: it adds the word,
multiplies by an odd constant and folds the upper bits onto the lower.  Each of the three
can be undone, and so can the last step, on the bytes that remain.  So keys of one length
that differ in one block never collide (`hash_ne`), and over all keys of one length every
value is taken equally often (`card_keys`).
-/

namespace RocksUtil
namespace Hash

open Coding (decodeFixed32 encodeFixed32)

/-- `m`. -/
def m : UInt32 := 0xc6a4a793

/-- `r`. -/
def r : UInt32 := 24

/-- Multiply, and fold the upper bits onto the lower. -/
def mix (shift h : UInt32) : UInt32 :=
  let h := h * m
  h ^^^ (h >>> shift)

/-- The loop that picks up four bytes at a time: the hash, and the bytes that remain. -/
def words : UInt32 → Bytes → UInt32 × Bytes
  | h, b0 :: b1 :: b2 :: b3 :: data =>
      let w := decodeFixed32 [b0, b1, b2, b3]
      words (mix 16 (h + w)) data
  | h, data => (h, data)

/-- `static_cast<uint32_t>(static_cast<signed char>(byte) << count)`. -/
def signedChar (byte : UInt8) (count : Int32) : UInt32 :=
  (byte.toInt8.toInt32 <<< count).toUInt32

/-- The `switch` over the number of bytes that remain. -/
def tail (h : UInt32) : Bytes → UInt32
  | [b0] => mix r (h + signedChar b0 0)
  | [b0, b1] => mix r (h + signedChar b1 8 + signedChar b0 0)
  | [b0, b1, b2] => mix r (h + signedChar b2 16 + signedChar b1 8 + signedChar b0 0)
  | _ => h

/-- What `h` begins as. -/
def start (n : UInt64) (seed : UInt32) : UInt32 :=
  (seed.toUInt64 ^^^ (n * m.toUInt64)).toUInt32

/-- `Hash`. -/
def hash (data : Bytes) (seed : UInt32) : UInt32 :=
  let (h, data) := words (start (.ofNat data.length) seed) data
  tail h data

/-- `BloomHash`. -/
def bloomHash (key : Bytes) : UInt32 := hash key 0xbc9f1d34

/-- `GetSliceHash`. -/
def getSliceHash (s : Bytes) : UInt32 := hash s 397

/-! ## Undoing a step -/

/-- Folding twice brings the lower bits back, when there are no more of them than of the
upper ones. -/
theorem fold_fold
    {w : Nat}
    (bits : BitVec w)
    {shift : Nat}
    (wide : w ≤ shift + shift) :
    (bits ^^^ (bits >>> shift)) ^^^ ((bits ^^^ (bits >>> shift)) >>> shift) = bits := by
  rw [BitVec.ushiftRight_xor_distrib, ← BitVec.shiftRight_add,
    BitVec.ushiftRight_eq_zero wide, BitVec.xor_zero, BitVec.xor_assoc, BitVec.xor_self,
    BitVec.xor_zero]

/-- The inverse of `m`. -/
def mInverse : UInt32 := 0xd8198e9b

/-- Undo `mix`. -/
def unmix (shift h : UInt32) : UInt32 := (h ^^^ (h >>> shift)) * mInverse

/-- The shifts that `Hash` uses. -/
def Folds (shift : UInt32) : Prop := 16 ≤ shift.toNat ∧ shift.toNat < 32

instance (shift : UInt32) : Decidable (Folds shift) := inferInstanceAs (Decidable (_ ∧ _))

theorem folds_sixteen : Folds 16 := by decide

theorem folds_r : Folds r := by decide

section Folds

variable {shift : UInt32} (folds : Folds shift)

include folds

theorem fold_fold_word (h : UInt32) :
    (h ^^^ (h >>> shift)) ^^^ ((h ^^^ (h >>> shift)) >>> shift) = h := by
  obtain ⟨wide, small⟩ := folds
  have isShift : ∀ word : UInt32, (word >>> shift).toBitVec = word.toBitVec >>> shift.toNat := by
    intro word
    apply BitVec.eq_of_toNat_eq
    simp [Nat.mod_eq_of_lt small]
  apply UInt32.eq_of_toBitVec_eq
  simp only [UInt32.toBitVec_xor, isShift]
  exact fold_fold h.toBitVec (by omega)

theorem unmix_mix (h : UInt32) : unmix shift (mix shift h) = h := by
  have inverse : m * mInverse = 1 := by decide
  simp only [unmix, mix, fold_fold_word folds, UInt32.mul_assoc, inverse, UInt32.mul_one]

theorem mix_unmix (h : UInt32) : mix shift (unmix shift h) = h := by
  have inverse : mInverse * m = 1 := by decide
  simp only [unmix, mix, UInt32.mul_assoc, inverse, UInt32.mul_one, fold_fold_word folds]

end Folds

/-- What `tail` adds. -/
def signs : Bytes → UInt32
  | [b0] => signedChar b0 0
  | [b0, b1] => signedChar b1 8 + signedChar b0 0
  | [b0, b1, b2] => signedChar b2 16 + signedChar b1 8 + signedChar b0 0
  | _ => 0

theorem tail_eq
    {data : Bytes}
    (isShort : data.length < 4)
    (some : data ≠ [])
    (h : UInt32) : tail h data = mix r (h + signs data) := by
  match data, isShort, some with
  | [_], _, _ => rfl
  | [_, _], _, _ => rw [tail, signs, UInt32.add_assoc]
  | [_, _, _], _, _ => rw [tail, signs, UInt32.add_assoc, UInt32.add_assoc, UInt32.add_assoc]

/-- The bytes of a signed character, shifted. -/
theorem toNat_signedChar (byte : UInt8) :
    (signedChar byte 0).toNat = byte.toNat + byte.toNat / 128 * (2 ^ 32 - 2 ^ 8) ∧
      (signedChar byte 8).toNat =
        byte.toNat * 2 ^ 8 + byte.toNat / 128 * (2 ^ 32 - 2 ^ 16) ∧
      (signedChar byte 16).toNat =
        byte.toNat * 2 ^ 16 + byte.toNat / 128 * (2 ^ 32 - 2 ^ 24) := by
  have all : ∀ number : Fin 256, ∀ byte : UInt8, byte = UInt8.ofNat number.val →
      (signedChar byte 0).toNat = number.val + number.val / 128 * (2 ^ 32 - 2 ^ 8) ∧
      (signedChar byte 8).toNat =
        number.val * 2 ^ 8 + number.val / 128 * (2 ^ 32 - 2 ^ 16) ∧
      (signedChar byte 16).toNat =
        number.val * 2 ^ 16 + number.val / 128 * (2 ^ 32 - 2 ^ 24) := by
    simp only [forall_eq]
    decide +kernel
  exact all ⟨byte.toNat, byte.toNat_lt⟩ byte (by simp)

/-- The bytes that remain are told apart by what is added for them. -/
theorem signs_injective
    {data data' : Bytes}
    (isShort : data.length < 4)
    (sameLength : data.length = data'.length)
    (same : signs data = signs data') : data = data' := by
  have sameNat := congrArg UInt32.toNat same
  match data, data', isShort, sameLength with
  | [], [], _, _ => rfl
  | [b0], [c0], _, _ =>
      obtain ⟨left, -⟩ := toNat_signedChar b0
      obtain ⟨right, -⟩ := toNat_signedChar c0
      have := b0.toNat_lt
      have := c0.toNat_lt
      rw [signs, signs, left, right] at sameNat
      rw [UInt8.toNat_inj.mp (by omega : b0.toNat = c0.toNat)]
  | [b0, b1], [c0, c1], _, _ =>
      obtain ⟨left0, -⟩ := toNat_signedChar b0
      obtain ⟨right0, -⟩ := toNat_signedChar c0
      obtain ⟨-, left1, -⟩ := toNat_signedChar b1
      obtain ⟨-, right1, -⟩ := toNat_signedChar c1
      have := b0.toNat_lt
      have := c0.toNat_lt
      have := b1.toNat_lt
      have := c1.toNat_lt
      simp only [signs, UInt32.toNat_add, left0, left1, right0, right1] at sameNat
      rw [UInt8.toNat_inj.mp (by omega : b0.toNat = c0.toNat),
        UInt8.toNat_inj.mp (by omega : b1.toNat = c1.toNat)]
  | [b0, b1, b2], [c0, c1, c2], _, _ =>
      obtain ⟨left0, -⟩ := toNat_signedChar b0
      obtain ⟨right0, -⟩ := toNat_signedChar c0
      obtain ⟨-, left1, -⟩ := toNat_signedChar b1
      obtain ⟨-, right1, -⟩ := toNat_signedChar c1
      obtain ⟨-, -, left2⟩ := toNat_signedChar b2
      obtain ⟨-, -, right2⟩ := toNat_signedChar c2
      have := b0.toNat_lt
      have := c0.toNat_lt
      have := b1.toNat_lt
      have := c1.toNat_lt
      have := b2.toNat_lt
      have := c2.toNat_lt
      simp only [signs, UInt32.toNat_add, left0, left1, left2, right0, right1, right2,
        Nat.mod_add_mod] at sameNat
      -- The lower bits first: each character carries its sign into the ones above it.
      have lowest := congrArg (· % 2 ^ 8) sameNat
      simp only [Nat.mod_mod_of_dvd _ (by decide : 2 ^ 8 ∣ 2 ^ 32)] at lowest
      have same0 : b0.toNat = c0.toNat := by omega
      have lower := congrArg (· % 2 ^ 16) sameNat
      simp only [Nat.mod_mod_of_dvd _ (by decide : 2 ^ 16 ∣ 2 ^ 32), same0] at lower
      have same1 : b1.toNat = c1.toNat := by omega
      rw [same0, same1] at sameNat
      rw [UInt8.toNat_inj.mp same0, UInt8.toNat_inj.mp same1,
        UInt8.toNat_inj.mp (by omega : b2.toNat = c2.toNat)]

/-! ## Undoing the hash -/

/-- The hash of `data`, from `h` on. -/
def digest (h : UInt32) (data : Bytes) : UInt32 := tail (words h data).1 (words h data).2

theorem hash_eq (data : Bytes) (seed : UInt32) :
    hash data seed = digest (start (.ofNat data.length) seed) data := rfl

theorem digest_block
    {block : Bytes}
    (isBlock : block.length = 4)
    (h : UInt32)
    (data : Bytes) :
    digest h (block ++ data) = digest (mix 16 (h + decodeFixed32 block)) data := by
  match block, isBlock with
  | [_, _, _, _], _ => rfl

theorem digest_short
    {data : Bytes}
    (isShort : data.length < 4)
    (h : UInt32) : digest h data = tail h data := by
  match data, isShort with
  | [], _ => rfl
  | [_], _ => rfl
  | [_, _], _ => rfl
  | [_, _, _], _ => rfl

/-- Induction over the words of a key. -/
theorem words_induction
    {motive : Bytes → Prop}
    (short : ∀ data, data.length < 4 → motive data)
    (word : ∀ block data, block.length = 4 → motive data → motive (block ++ data)) :
    ∀ data, motive data
  | [] => short [] (by decide)
  | [b0] => short [b0] (by simp)
  | [b0, b1] => short [b0, b1] (by simp)
  | [b0, b1, b2] => short [b0, b1, b2] (by simp)
  | b0 :: b1 :: b2 :: b3 :: data =>
      word [b0, b1, b2, b3] data rfl (words_induction short word data)

/-- Where the hash of `data` must have begun. -/
def undo : Bytes → UInt32 → UInt32
  | b0 :: b1 :: b2 :: b3 :: data, h =>
      unmix 16 (undo data h) - decodeFixed32 [b0, b1, b2, b3]
  | [], h => h
  | data, h => unmix r h - signs data

theorem undo_block
    {block : Bytes}
    (isBlock : block.length = 4)
    (data : Bytes)
    (h : UInt32) :
    undo (block ++ data) h = unmix 16 (undo data h) - decodeFixed32 block := by
  match block, isBlock with
  | [_, _, _, _], _ => rfl

theorem undo_short
    {data : Bytes}
    (isShort : data.length < 4)
    (some : data ≠ [])
    (h : UInt32) : undo data h = unmix r h - signs data := by
  match data, isShort, some with
  | [_], _, _ => rfl
  | [_, _], _, _ => rfl
  | [_, _, _], _, _ => rfl

theorem undo_digest (data : Bytes) (h : UInt32) : undo data (digest h data) = h := by
  induction data using words_induction generalizing h with
  | short data isShort =>
      by_cases empty : data = []
      · rw [empty]
        rfl
      · rw [digest_short isShort, tail_eq isShort empty, undo_short isShort empty,
          unmix_mix folds_r, UInt32.add_sub_cancel]
  | word block data isBlock inductionHypothesis =>
      rw [digest_block isBlock, undo_block isBlock, inductionHypothesis,
        unmix_mix folds_sixteen, UInt32.add_sub_cancel]

theorem digest_undo (data : Bytes) (h : UInt32) : digest (undo data h) data = h := by
  induction data using words_induction with
  | short data isShort =>
      by_cases empty : data = []
      · rw [empty]
        rfl
      · rw [digest_short isShort, tail_eq isShort empty, undo_short isShort empty,
          UInt32.sub_add_cancel, mix_unmix folds_r]
  | word block data isBlock inductionHypothesis =>
      rw [digest_block isBlock, undo_block isBlock, UInt32.sub_add_cancel,
        mix_unmix folds_sixteen, inductionHypothesis]

/-- Hashing whole words comes down to where the hash of the rest begins. -/
theorem exists_digest_append
    {data : Bytes}
    (aligned : 4 ∣ data.length)
    (h : UInt32) : ∃ h', ∀ rest, digest h (data ++ rest) = digest h' rest := by
  induction data using words_induction generalizing h with
  | short data isShort =>
      have empty : data = [] := List.length_eq_zero_iff.mp (by omega)
      rw [empty]
      exact ⟨h, fun rest => rfl⟩
  | word block data isBlock inductionHypothesis =>
      rw [List.length_append, isBlock] at aligned
      obtain ⟨h', same⟩ :=
        inductionHypothesis (by omega) (mix 16 (h + decodeFixed32 block))
      refine ⟨h', fun rest => ?_⟩
      rw [List.append_assoc, digest_block isBlock, same]

theorem digest_injective (data : Bytes) : Function.Injective (digest · data) :=
  Function.LeftInverse.injective (undo_digest data)

theorem mix_injective {shift : UInt32} (folds : Folds shift) :
    Function.Injective (mix shift) :=
  Function.LeftInverse.injective (unmix_mix folds)

/-- Keys of one length never collide if they differ in one block only: a word at a
multiple of four bytes, or the last bytes, which make no word. -/
theorem hash_ne
    {before block block' after : Bytes}
    {seed : UInt32}
    (aligned : 4 ∣ before.length)
    (isBlock : block.length = 4 ∨ block.length < 4 ∧ after = [])
    (sameLength : block.length = block'.length)
    (differ : block ≠ block') :
    hash (before ++ block ++ after) seed ≠ hash (before ++ block' ++ after) seed := by
  intro collide
  have lengths : (before ++ block ++ after).length = (before ++ block' ++ after).length := by
    simp [sameLength]
  obtain ⟨h, rest⟩ := exists_digest_append aligned
    (start (.ofNat (before ++ block' ++ after).length) seed)
  rw [hash_eq, hash_eq, lengths] at collide
  simp only [List.append_assoc before] at collide rest
  rw [rest, rest] at collide
  apply differ
  rcases isBlock with isWord | ⟨isShort, rfl⟩
  · have isWord' : block'.length = 4 := sameLength.symm.trans isWord
    rw [digest_block isWord, digest_block isWord'] at collide
    have sameWord := (UInt32.add_right_inj h).mp
      (mix_injective folds_sixteen (digest_injective after collide))
    have bytes := Coding.take_four_of_decodeFixed32 isWord.ge isWord'.ge sameWord
    rwa [List.take_of_length_le isWord.le, List.take_of_length_le isWord'.le] at bytes
  · rw [List.append_nil, List.append_nil, digest_short isShort,
      digest_short (sameLength ▸ isShort)] at collide
    have some : block ≠ [] := by
      rintro rfl
      exact differ (List.length_eq_zero_iff.mp sameLength.symm).symm
    have some' : block' ≠ [] := by
      rintro rfl
      exact some (List.length_eq_zero_iff.mp sameLength)
    rw [tail_eq isShort some, tail_eq (sameLength ▸ isShort) some'] at collide
    exact signs_injective isShort sameLength
      ((UInt32.add_right_inj h).mp (mix_injective folds_r collide))

theorem hash_ne_abcd :
    hash [1, 2, 3, 4, 97, 98, 200, 100, 9] 0 ≠ hash [1, 2, 3, 4, 97, 98, 72, 100, 9] 0 := by
  have differs := @hash_ne [1, 2, 3, 4] [97, 98, 200, 100] [97, 98, 72, 100] [9] 0
    (by decide) (by decide) (by decide) (by decide)
  exact differs

/-- Different seeds never hash a key alike. -/
theorem hash_seed_ne
    {seed seed' : UInt32}
    (key : Bytes)
    (differ : seed ≠ seed') : hash key seed ≠ hash key seed' := by
  intro collide
  have begins := digest_injective key collide
  simp only [start, UInt64.toUInt32_xor, UInt32.toUInt32_toUInt64] at begins
  exact differ ((UInt32.xor_left_inj _).mp begins)

/-- So a filter and a table that hash a key by these two see different numbers. -/
theorem bloomHash_ne_getSliceHash (key : Bytes) : bloomHash key ≠ getSliceHash key :=
  hash_seed_ne key (by decide)

/-! ## Counting keys -/

/-- The first word of a key, from the bytes behind it and the hash. -/
def firstWord (seed : UInt32) (n : Nat) (rest : Bytes) (value : UInt32) : UInt32 :=
  unmix 16 (undo rest value) - start (.ofNat n) seed

theorem hash_firstWord
    {n : Nat}
    {rest : Bytes}
    (isRest : rest.length + 4 = n)
    (seed value : UInt32) :
    hash (encodeFixed32 (firstWord seed n rest value) ++ rest) seed = value := by
  have isLength : (encodeFixed32 (firstWord seed n rest value) ++ rest).length = n := by
    rw [List.length_append, Coding.length_encodeFixed32, Nat.add_comm, isRest]
  have word : decodeFixed32 (encodeFixed32 (firstWord seed n rest value)) =
      firstWord seed n rest value := by
    simpa using Coding.decodeFixed32_encodeFixed32_append (firstWord seed n rest value) []
  rw [hash_eq, isLength, digest_block (Coding.length_encodeFixed32 _), word, firstWord,
    UInt32.add_comm, UInt32.sub_add_cancel, mix_unmix folds_sixteen, digest_undo]

/-- A key is told by its hash and the bytes behind the first word. -/
def keysEquiv {n : Nat} (isLong : 4 ≤ n) (seed : UInt32) (P : UInt32 → Prop) :
    {key : Bytes // key.length = n ∧ P (hash key seed)} ≃
      {rest : Bytes // rest.length = n - 4} × {value : UInt32 // P value} where
  toFun key := (⟨key.1.drop 4, by rw [List.length_drop, key.2.1]⟩, ⟨hash key.1 seed, key.2.2⟩)
  invFun pair := ⟨encodeFixed32 (firstWord seed n pair.1.1 pair.2.1) ++ pair.1.1, by
    have isRest : pair.1.1.length + 4 = n := by
      have := pair.1.2
      omega
    rw [hash_firstWord isRest]
    refine ⟨?_, pair.2.2⟩
    rw [List.length_append, Coding.length_encodeFixed32]
    omega⟩
  left_inv := by
    rintro ⟨key, isLength, holds⟩
    apply Subtype.ext
    have isBlock : (key.take 4).length = 4 := by
      rw [List.length_take]
      omega
    have isWord : firstWord seed n (key.drop 4) (hash key seed) =
        decodeFixed32 (key.take 4) := by
      have hashed := hash_eq key seed
      rw [isLength, ← List.take_append_drop 4 key, digest_block isBlock,
        List.take_append_drop] at hashed
      rw [firstWord, hashed, undo_digest, unmix_mix folds_sixteen, UInt32.add_comm,
        UInt32.add_sub_cancel]
    have bytes := Coding.encodeFixed32_decodeFixed32 _ isBlock.ge
    rw [List.take_of_length_le isBlock.le] at bytes
    simp only [isWord, bytes, List.take_append_drop]
  right_inv := by
    rintro ⟨⟨rest, isRest⟩, value, holds⟩
    have isLength : rest.length + 4 = n := by omega
    have hashed := hash_firstWord isLength seed value
    apply Prod.ext
    · apply Subtype.ext
      exact List.drop_left' (Coding.length_encodeFixed32 _)
    · apply Subtype.ext
      exact hashed

theorem card_bytes (n : Nat) : Nat.card {key : Bytes // key.length = n} = 256 ^ n := by
  let byte : Fin 256 ≃ UInt8 :=
    { toFun := UInt8.ofFin
      invFun := UInt8.toFin
      left_inv := fun number => by simp
      right_inv := fun byte => by simp }
  let _ : Fintype UInt8 := Fintype.ofEquiv (Fin 256) byte
  change Nat.card (List.Vector UInt8 n) = _
  rw [Nat.card_eq_fintype_card, card_vector, Fintype.card_congr byte.symm, Fintype.card_fin]

/-- Over all keys of a length that is no less than a word, every value is hashed to
equally often: a property of the hash holds of as many of the keys, in proportion, as
there are numbers with it. -/
theorem card_keys
    {n : Nat}
    (isLong : 4 ≤ n)
    (seed : UInt32)
    (P : UInt32 → Prop) :
    Nat.card {key : Bytes // key.length = n ∧ P (hash key seed)} =
      256 ^ (n - 4) * Nat.card {value : UInt32 // P value} := by
  rw [Nat.card_congr (keysEquiv isLong seed P), Nat.card_prod, card_bytes]

end Hash
end RocksUtil
