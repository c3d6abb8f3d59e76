import Mathlib.Data.BitVec
import Mathlib.Data.Nat.Digits.Lemmas

/-!
# Numbers in groups of seven bits

A number of any width as a list of bytes: seven bits in each, the lowest first, and the
high bit set in all but the last.  The reader shifts the groups into place, as long as
the shift does not exceed a bound; whatever bytes follow, it gets back the number that
was written, provided the bound admits every multiple of seven below the width.

The bytes of a number are told from what follows them by their high bits alone
(`IsCode`), and nothing of the number is lost as long as it is below the modulus.
-/

namespace RocksUtil
namespace Varint

variable {w : Nat}

/-- The byte for a group that others follow. -/
def continued (v : BitVec w) : BitVec 8 := (v.setWidth 8 &&& 127) ||| 128

theorem toNat_shiftRight_seven (v : BitVec w) : (v >>> 7).toNat = v.toNat / 128 := by
  rw [BitVec.toNat_ushiftRight, Nat.shiftRight_eq_div_pow]

/-- The bytes of a number. -/
def encode (v : BitVec w) : List UInt8 :=
  if 128 ≤ v.toNat then ⟨continued v⟩ :: encode (v >>> 7) else [⟨v.setWidth 8⟩]
termination_by v.toNat
decreasing_by
  rw [toNat_shiftRight_seven]
  omega

theorem encode_continued {v : BitVec w} (more : 128 ≤ v.toNat) :
    encode v = ⟨continued v⟩ :: encode (v >>> 7) := by
  rw [encode, if_pos more]

theorem encode_last {v : BitVec w} (last : v.toNat < 128) :
    encode v = [⟨v.setWidth 8⟩] := by
  rw [encode, if_neg (by omega)]

/-- Read a number whose groups go to `shift` and above, and what follows it. -/
def decode (bound shift : Nat) (result : BitVec w) :
    List UInt8 → Option (BitVec w × List UInt8)
  | [] => none
  | byte :: rest =>
      if shift ≤ bound then
        if byte.toBitVec &&& 128 ≠ 0 then
          decode bound (shift + 7)
            (result ||| (byte.toBitVec &&& 127).setWidth w <<< shift) rest
        else some (result ||| byte.toBitVec.setWidth w <<< shift, rest)
      else none

theorem continued_high (v : BitVec w) : continued v &&& 128 ≠ 0 := by
  intro zero
  have high := congrArg (BitVec.getLsbD · 7) zero
  simp [continued] at high

theorem continued_low (v : BitVec w) : continued v &&& 127 = v.setWidth 8 &&& 127 := by
  unfold continued
  generalize v.setWidth 8 = group
  revert group
  decide

/-- The last group has its high bit clear. -/
theorem last_high {v : BitVec w} (last : v.toNat < 128) :
    v.setWidth 8 &&& 128 = 0 := by
  have clear : ∀ group : BitVec 8, group.toNat < 128 → group &&& 128 = 0 := by decide
  apply clear
  rw [BitVec.toNat_setWidth]
  omega

/-- The lowest group and the groups above it make up the number. -/
theorem low_or_high (v : BitVec w) :
    (v.setWidth 8 &&& 127).setWidth w ||| (v >>> 7) <<< 7 = v := by
  apply BitVec.eq_of_getLsbD_eq
  intro index bound
  have ones : BitVec.getLsbD (127 : BitVec 8) index = decide (index < 7) := by
    rw [show (127 : BitVec 8) = (BitVec.allOnes 7).setWidth 8 by decide,
      BitVec.getLsbD_setWidth, BitVec.getLsbD_allOnes, ← Bool.decide_and]
    exact decide_eq_decide.mpr (by omega)
  simp only [BitVec.getLsbD_or, BitVec.getLsbD_setWidth, BitVec.getLsbD_and, ones,
    BitVec.getLsbD_shiftLeft, BitVec.getLsbD_ushiftRight]
  rcases Nat.lt_or_ge index 7 with low | high
  · have inByte : index < 8 := by omega
    simp [low, inByte, bound]
  · have above : ¬index < 7 := by omega
    simp [above, bound, Nat.add_sub_cancel' high]

/-- Reading what was written. -/
theorem decode_encode
    {bound : Nat}
    (reaches : ∀ shift, 7 ∣ shift → shift < w → shift ≤ bound)
    (v result : BitVec w)
    (shift : Nat)
    (rest : List UInt8)
    (group : 7 ∣ shift)
    (inWidth : shift < w)
    (fits : v.toNat * 2 ^ shift < 2 ^ w) :
    decode bound shift result (encode v ++ rest) = some (result ||| v <<< shift, rest) := by
  induction v using encode.induct generalizing result shift with
  | case1 v more inductionHypothesis =>
      have high : 2 ^ (shift + 7) < 2 ^ w := by
        have := Nat.mul_le_mul_right (2 ^ shift) more
        rw [Nat.pow_add, Nat.mul_comm]
        omega
      have next : shift + 7 < w := (Nat.pow_lt_pow_iff_right (by decide)).mp high
      have smaller : (v >>> 7).toNat * 2 ^ (shift + 7) < 2 ^ w := by
        have := Nat.mul_le_mul_right (2 ^ shift) (Nat.div_mul_le_self v.toNat 128)
        rw [toNat_shiftRight_seven, Nat.pow_add, Nat.mul_comm (2 ^ shift), ← Nat.mul_assoc]
        exact Nat.lt_of_le_of_lt this fits
      rw [encode_continued more, List.cons_append, decode, if_pos (reaches shift group inWidth),
        if_pos (continued_high v), inductionHypothesis _ _ (by omega) next smaller,
        continued_low, BitVec.or_assoc]
      have whole : (v.setWidth 8 &&& 127).setWidth w <<< shift ||| (v >>> 7) <<< (shift + 7) =
          v <<< shift := by
        rw [Nat.add_comm, BitVec.shiftLeft_add, ← BitVec.shiftLeft_or_distrib, low_or_high]
      rw [whole]
  | case2 v last =>
      have last : v.toNat < 128 := Nat.lt_of_not_le last
      have whole : (v.setWidth 8).setWidth w = v := by
        apply BitVec.eq_of_toNat_eq
        rw [BitVec.toNat_setWidth, BitVec.toNat_setWidth, Nat.mod_eq_of_lt (by omega : _ < 2 ^ 8),
          Nat.mod_eq_of_lt v.isLt]
      rw [encode_last last, List.cons_append, decode, if_pos (reaches shift group inWidth),
        if_neg (not_not.mpr (last_high last)), whole, List.nil_append]

/-- A number and one of another width are written the same way if they are equal. -/
theorem encode_setWidth
    {u : Nat}
    (v : BitVec w)
    (wider : w ≤ u) :
    encode (v.setWidth u) = encode v := by
  have same (v : BitVec w) : (v.setWidth u).toNat = v.toNat := by
    rw [BitVec.toNat_setWidth]
    exact Nat.mod_eq_of_lt
      (Nat.lt_of_lt_of_le v.isLt (Nat.pow_le_pow_right (by decide) wider))
  have low (v : BitVec w) : (v.setWidth u).setWidth 8 = v.setWidth 8 := by
    apply BitVec.eq_of_toNat_eq
    rw [BitVec.toNat_setWidth, same, BitVec.toNat_setWidth]
  induction v using encode.induct with
  | case1 v more inductionHypothesis =>
      have shifted : v.setWidth u >>> 7 = (v >>> 7).setWidth u := by
        apply BitVec.eq_of_toNat_eq
        rw [toNat_shiftRight_seven, same, same, toNat_shiftRight_seven]
      rw [encode_continued more, encode_continued (by rwa [same]), shifted,
        inductionHypothesis, continued, continued, low]
  | case2 v last =>
      have last : v.toNat < 128 := Nat.lt_of_not_le last
      rw [encode_last last, encode_last (by rwa [same]), low]

/-! ## Codes and their numbers -/

/-- The bytes of one number: the high bit is set in all of them but the last. -/
def IsCode : List UInt8 → Prop
  | [] => False
  | byte :: rest => if byte.toNat < 128 then rest = [] else IsCode rest

instance decidableIsCode : (bytes : List UInt8) → Decidable (IsCode bytes)
  | [] => isFalse id
  | byte :: rest =>
      have : Decidable (IsCode rest) := decidableIsCode rest
      inferInstanceAs (Decidable (if byte.toNat < 128 then rest = [] else IsCode rest))

/-- The number that the groups of some bytes make up. -/
def number (bytes : List UInt8) : Nat :=
  Nat.ofDigits 128 (bytes.map fun byte => byte.toNat % 128)

theorem isCode_last {byte : UInt8} {rest : List UInt8} (last : byte.toNat < 128) :
    IsCode (byte :: rest) ↔ rest = [] := by
  rw [IsCode, if_pos last]

theorem isCode_continued {byte : UInt8} {rest : List UInt8} (more : 128 ≤ byte.toNat) :
    IsCode (byte :: rest) ↔ IsCode rest := by
  rw [IsCode, if_neg (Nat.not_lt.mpr more)]

theorem IsCode.ne_nil {code : List UInt8} (isCode : IsCode code) : code ≠ [] := by
  rintro rfl
  exact isCode

/-- The bytes in front of the last one are those that are continued. -/
theorem isCode_iff {code : List UInt8} :
    IsCode code ↔ ∃ groups last, code = groups ++ [last] ∧
      (∀ byte ∈ groups, 128 ≤ byte.toNat) ∧ last.toNat < 128 := by
  constructor
  · intro isCode
    induction code with
    | nil => exact absurd isCode id
    | cons byte code inductionHypothesis =>
        by_cases last : byte.toNat < 128
        · rw [isCode_last last] at isCode
          subst isCode
          exact ⟨[], byte, rfl, nofun, last⟩
        · have more : 128 ≤ byte.toNat := Nat.not_lt.mp last
          rw [isCode_continued more] at isCode
          obtain ⟨groups, last, rfl, continued, isLast⟩ := inductionHypothesis isCode
          exact ⟨byte :: groups, last, rfl, List.forall_mem_cons.mpr ⟨more, continued⟩,
            isLast⟩
  · rintro ⟨groups, last, rfl, continued, isLast⟩
    induction groups with
    | nil => exact (isCode_last isLast).mpr rfl
    | cons byte groups inductionHypothesis =>
        obtain ⟨more, continued⟩ := List.forall_mem_cons.mp continued
        exact (isCode_continued more).mpr (inductionHypothesis continued)

/-- No code begins another one. -/
theorem IsCode.append_inj
    {left right behindLeft behindRight : List UInt8}
    (isLeft : IsCode left)
    (isRight : IsCode right)
    (same : left ++ behindLeft = right ++ behindRight) :
    left = right ∧ behindLeft = behindRight := by
  induction left generalizing right with
  | nil => exact absurd isLeft id
  | cons byte left inductionHypothesis =>
      cases right with
      | nil => exact absurd isRight id
      | cons other right =>
          obtain ⟨rfl, tails⟩ := List.cons.inj same
          by_cases last : byte.toNat < 128
          · rw [isCode_last last] at isLeft isRight
            subst isLeft isRight
            exact ⟨rfl, tails⟩
          · have more : 128 ≤ byte.toNat := Nat.not_lt.mp last
            rw [isCode_continued more] at isLeft isRight
            obtain ⟨rfl, behind⟩ := inductionHypothesis isLeft isRight tails
            exact ⟨rfl, behind⟩

@[simp] theorem number_nil : number [] = 0 := rfl

@[simp] theorem number_cons (byte : UInt8) (rest : List UInt8) :
    number (byte :: rest) = byte.toNat % 128 + 128 * number rest := by
  simp [number, Nat.ofDigits_cons]

theorem number_append (left right : List UInt8) :
    number (left ++ right) = number left + 128 ^ left.length * number right := by
  simp [number, Nat.ofDigits_append]

/-- The number as a sum over the positions of the bytes. -/
theorem number_eq_sum (bytes : List UInt8) :
    number bytes = (bytes.mapIdx fun index byte => byte.toNat % 128 * 128 ^ index).sum := by
  rw [number, Nat.ofDigits_eq_sum_mapIdx, List.mapIdx_eq_zipIdx_map, List.mapIdx_eq_zipIdx_map,
    List.zipIdx_map, List.map_map]
  rfl

theorem number_lt (bytes : List UInt8) : number bytes < 128 ^ bytes.length := by
  induction bytes with
  | nil => simp
  | cons byte rest inductionHypothesis =>
      have group := Nat.mod_lt byte.toNat (by decide : 0 < 128)
      rw [number_cons, List.length_cons, Nat.pow_succ]
      omega

theorem high_iff (byte : UInt8) : byte.toBitVec &&& 128 ≠ 0 ↔ 128 ≤ byte.toNat := by
  have high : ∀ group : BitVec 8, group &&& 128 ≠ 0 ↔ 128 ≤ group.toNat := by decide
  exact high byte.toBitVec

/-- The lowest group and the groups above it, moved into place. -/
theorem shiftLeft_number_cons (byte : UInt8) (rest : List UInt8) (shift : Nat) :
    (byte.toBitVec &&& 127).setWidth w <<< shift |||
        BitVec.ofNat w (number rest) <<< (shift + 7) =
      BitVec.ofNat w (number (byte :: rest)) <<< shift := by
  have group : (byte.toBitVec &&& 127).setWidth w = BitVec.ofNat w (byte.toNat % 128) := by
    apply BitVec.eq_of_toNat_eq
    rw [BitVec.toNat_setWidth, BitVec.toNat_and, BitVec.toNat_ofNat]
    congr 1
    exact Nat.and_two_pow_sub_one_eq_mod byte.toNat 7
  have parts : byte.toNat % 128 + 128 * number rest =
      number rest <<< 7 ||| byte.toNat % 128 := by
    rw [Nat.shiftLeft_eq, Nat.add_comm, Nat.mul_comm (number rest),
      ← Nat.two_pow_add_eq_or_of_lt (Nat.mod_lt _ (by decide))]
  have moved : BitVec.ofNat w (number rest <<< 7) = BitVec.ofNat w (number rest) <<< 7 := by
    apply BitVec.eq_of_toNat_eq
    rw [BitVec.toNat_ofNat, BitVec.toNat_shiftLeft, BitVec.toNat_ofNat, Nat.shiftLeft_eq,
      Nat.shiftLeft_eq, Nat.mod_mul_mod]
  rw [number_cons, parts, BitVec.ofNat_or, moved, group, Nat.add_comm shift 7,
    BitVec.shiftLeft_add, ← BitVec.shiftLeft_or_distrib, BitVec.or_comm]

/-- Reading a code that the bound admits, whatever follows it. -/
theorem decode_code
    {code : List UInt8}
    (isCode : IsCode code)
    {bound shift : Nat}
    (admitted : shift + 7 * code.length ≤ bound + 7)
    (result : BitVec w)
    (rest : List UInt8) :
    decode bound shift result (code ++ rest) =
      some (result ||| BitVec.ofNat w (number code) <<< shift, rest) := by
  induction code generalizing shift result with
  | nil => exact absurd isCode id
  | cons byte code inductionHypothesis =>
      rw [List.length_cons] at admitted
      have reaches : shift ≤ bound := by omega
      rw [List.cons_append, decode, if_pos reaches]
      by_cases last : byte.toNat < 128
      · rw [isCode_last last] at isCode
        subst isCode
        have whole : byte.toBitVec.setWidth w = BitVec.ofNat w (number [byte]) := by
          apply BitVec.eq_of_toNat_eq
          rw [BitVec.toNat_setWidth, BitVec.toNat_ofNat, number_cons, number_nil,
            Nat.mul_zero, Nat.add_zero, Nat.mod_eq_of_lt last]
          rfl
        rw [if_neg (by rw [high_iff]; exact Nat.not_le.mpr last), whole, List.nil_append]
      · have more : 128 ≤ byte.toNat := Nat.not_lt.mp last
        rw [isCode_continued more] at isCode
        rw [if_pos ((high_iff byte).mpr more), inductionHypothesis isCode (by omega),
          BitVec.or_assoc, shiftLeft_number_cons]

/-- What is read is a code at the front. -/
theorem code_of_decode
    {bound shift : Nat}
    {result value : BitVec w}
    {bytes rest : List UInt8}
    (reads : decode bound shift result bytes = some (value, rest)) :
    ∃ code, bytes = code ++ rest ∧ IsCode code ∧ shift + 7 * code.length ≤ bound + 7 := by
  induction bytes generalizing shift result with
  | nil => cases reads
  | cons byte bytes inductionHypothesis =>
      rw [decode] at reads
      split at reads
      · rename_i reaches
        split at reads
        · rename_i more
          obtain ⟨code, rfl, isCode, admitted⟩ := inductionHypothesis reads
          refine ⟨byte :: code, rfl, (isCode_continued ((high_iff byte).mp more)).mpr isCode,
            ?_⟩
          rw [List.length_cons]
          omega
        · rename_i last
          obtain ⟨-, rfl⟩ := Prod.mk.inj (Option.some.inj reads)
          refine ⟨[byte], rfl, (isCode_last ?_).mpr rfl, ?_⟩
          · rw [high_iff] at last
            exact Nat.not_le.mp last
          · rw [List.length_singleton]
            omega
      · cases reads

/-- What is read: the groups of a code that the bound admits, reduced to the width. -/
theorem decode_eq_some_iff
    {bound : Nat}
    {value : BitVec w}
    {bytes rest : List UInt8} :
    decode bound 0 0#w bytes = some (value, rest) ↔
      ∃ code, bytes = code ++ rest ∧ IsCode code ∧ 7 * code.length ≤ bound + 7 ∧
        value.toNat = number code % 2 ^ w := by
  have wanted {code : List UInt8} :
      value = 0#w ||| BitVec.ofNat w (number code) <<< 0 ↔
        value.toNat = number code % 2 ^ w := by
    rw [BitVec.shiftLeft_zero, BitVec.zero_or, ← BitVec.toNat_inj, BitVec.toNat_ofNat]
  constructor
  · intro reads
    obtain ⟨code, rfl, isCode, admitted⟩ := code_of_decode reads
    rw [decode_code isCode admitted, Option.some.injEq, Prod.mk.injEq] at reads
    rw [Nat.zero_add] at admitted
    exact ⟨code, rfl, isCode, admitted, wanted.mp reads.1.symm⟩
  · rintro ⟨code, rfl, isCode, admitted, sum⟩
    rw [decode_code isCode (by omega), ← wanted.mpr sum]

/-- What is written is a code, and its groups make up the number. -/
theorem isCode_encode (v : BitVec w) : IsCode (encode v) ∧ number (encode v) = v.toNat := by
  have group (byte : BitVec 8) : (⟨byte⟩ : UInt8).toNat = byte.toNat := rfl
  induction v using encode.induct with
  | case1 v more inductionHypothesis =>
      have low : (continued v).toNat = v.toNat % 128 + 128 := by
        have byte : ∀ group : BitVec 8,
            ((group &&& 127) ||| 128).toNat = group.toNat % 128 + 128 := by decide
        rw [continued, byte, BitVec.toNat_setWidth]
        omega
      rw [toNat_shiftRight_seven] at inductionHypothesis
      rw [encode_continued more, isCode_continued (by rw [group, low]; omega), number_cons,
        group, low, inductionHypothesis.2]
      exact ⟨inductionHypothesis.1, by omega⟩
  | case2 v last =>
      have last : v.toNat < 128 := Nat.lt_of_not_le last
      have low : (v.setWidth 8).toNat = v.toNat := by
        rw [BitVec.toNat_setWidth]
        omega
      rw [encode_last last, isCode_last (by rw [group, low]; exact last), number_cons, group,
        low, number_nil]
      exact ⟨rfl, by omega⟩

/-- A number below a power of 128 takes as many bytes as the exponent says. -/
theorem length_encode_le
    (count : Nat)
    (v : BitVec w)
    (small : v.toNat < 128 ^ (count + 1)) :
    (encode v).length ≤ count + 1 := by
  induction count generalizing v with
  | zero =>
      rw [encode_last (by omega)]
      exact Nat.le_refl _
  | succ count inductionHypothesis =>
      by_cases more : 128 ≤ v.toNat
      · rw [encode_continued more, List.length_cons]
        refine Nat.succ_le_succ (inductionHypothesis (v >>> 7) ?_)
        rw [toNat_shiftRight_seven]
        exact Nat.div_lt_of_lt_mul (by rwa [Nat.pow_succ, Nat.mul_comm] at small)
      · rw [encode_last (by omega), List.length_singleton]
        omega

end Varint
end RocksUtil
