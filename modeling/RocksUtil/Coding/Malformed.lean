import RocksUtil.Coding.Items

/-!
# What the decoders make of malformed input

A varint at the front of a slice is told by the high bits of its bytes, and the decoders
read any that is short enough.  They shift its groups into a word of fixed width, so the
last byte that they admit can carry bits that are lost (`getVarints_exact_iff`).  The
routine for length-prefixed slices moves the slice behind the length before it finds that
too little follows (`gets_leave_input_iff`).
-/

namespace RocksUtil
namespace Coding

open Varint (IsCode number)

/-! ## Varints at the front of a slice -/

/-- A routine that reads into a word reads what the decoder reads into its bits. -/
theorem map_word_eq_some_iff
    {Bits Word Rest : Type}
    {toWord : Bits → Word}
    {toBits : Word → Bits}
    (inverse : ∀ bits word, toWord bits = word ↔ bits = toBits word)
    {decoded : Option (Bits × Rest)}
    {word : Word}
    {rest : Rest} :
    decoded.map (fun read => (toWord read.1, read.2)) = some (word, rest) ↔
      decoded = some (toBits word, rest) := by
  cases decoded with
  | none => exact iff_of_false nofun nofun
  | some read =>
      rw [Option.map_some, Option.some_inj, Option.some_inj, Prod.ext_iff, Prod.ext_iff]
      exact and_congr_left fun _ => inverse read.1 word

theorem getVarint32Ptr_eq_some_iff {p q : Bytes} {value : UInt32} :
    getVarint32Ptr p = some (value, q) ↔
      ∃ code, p = code ++ q ∧ IsCode code ∧ code.length ≤ 5 ∧
        value.toNat = number code % 2 ^ 32 := by
  have reads : getVarint32Ptr p = some (value, q) ↔
      Varint.decode 28 0 0#32 p = some (value.toBitVec, q) := by
    rw [getVarint32Ptr_eq, getVarint32PtrFallback, getVarint32Loop_eq]
    refine map_word_eq_some_iff fun bits word => ⟨?_, ?_⟩
    · rintro rfl
      rfl
    · rintro rfl
      rfl
  rw [reads, Varint.decode_eq_some_iff]
  refine exists_congr fun code => and_congr_right fun _ => and_congr_right fun _ =>
    and_congr_left fun _ => ?_
  omega

theorem getVarint64Ptr_eq_some_iff {p q : Bytes} {value : UInt64} :
    getVarint64Ptr p = some (value, q) ↔
      ∃ code, p = code ++ q ∧ IsCode code ∧ code.length ≤ 10 ∧
        value.toNat = number code % 2 ^ 64 := by
  have reads : getVarint64Ptr p = some (value, q) ↔
      Varint.decode 63 0 0#64 p = some (value.toBitVec, q) := by
    rw [getVarint64Ptr, getVarint64Loop_eq]
    refine map_word_eq_some_iff fun bits word => ⟨?_, ?_⟩
    · rintro rfl
      rfl
    · rintro rfl
      rfl
  rw [reads, Varint.decode_eq_some_iff]
  refine exists_congr fun code => and_congr_right fun _ => and_congr_right fun _ =>
    and_congr_left fun _ => ?_
  omega

theorem getVarint32_eq_some_iff {input rest : Bytes} {value : UInt32} :
    getVarint32 input = (some value, rest) ↔
      ∃ code, input = code ++ rest ∧ IsCode code ∧ code.length ≤ 5 ∧
        value.toNat = number code % 2 ^ 32 := by
  rw [← getVarint32Ptr_eq_some_iff, getVarint32]
  cases getVarint32Ptr input with
  | none => simp
  | some read => simp [Prod.ext_iff]

theorem getVarint64_eq_some_iff {input rest : Bytes} {value : UInt64} :
    getVarint64 input = (some value, rest) ↔
      ∃ code, input = code ++ rest ∧ IsCode code ∧ code.length ≤ 10 ∧
        value.toNat = number code % 2 ^ 64 := by
  rw [← getVarint64Ptr_eq_some_iff, getVarint64]
  cases getVarint64Ptr input with
  | none => simp
  | some read => simp [Prod.ext_iff]

/-- A call that returns `false` leaves the slice alone. -/
theorem getVarint32_of_none {input : Bytes} (fails : (getVarint32 input).1 = none) :
    (getVarint32 input).2 = input := by
  unfold getVarint32 at fails ⊢
  cases reads : getVarint32Ptr input with
  | none => rfl
  | some read =>
      rw [reads] at fails
      cases fails

theorem getVarint64_of_none {input : Bytes} (fails : (getVarint64 input).1 = none) :
    (getVarint64 input).2 = input := by
  unfold getVarint64 at fails ⊢
  cases reads : getVarint64Ptr input with
  | none => rfl
  | some read =>
      rw [reads] at fails
      cases fails

/-! ## Bits that are lost -/

/-- The slice begins with a varint of `count + 1` bytes, the last of which is not below
`limit`. -/
def Exceeds (count limit : Nat) (input : Bytes) : Prop :=
  ∃ groups last rest, input = groups ++ last :: rest ∧ groups.length = count ∧
    (∀ byte ∈ groups, 128 ≤ byte.toNat) ∧ limit ≤ last.toNat ∧ last.toNat < 128

section Exactness

variable {count limit : Nat}

/-- Only the last byte that is admitted can make the number too large. -/
theorem exceeds_iff
    (positive : 0 < limit)
    {code rest : Bytes}
    (isCode : IsCode code)
    (short : code.length ≤ count + 1) :
    Exceeds count limit (code ++ rest) ↔ limit * 128 ^ count ≤ number code := by
  obtain ⟨groups, last, rfl, continued, isLast⟩ := Varint.isCode_iff.mp isCode
  have below := Varint.number_lt groups
  have sum : number (groups ++ [last]) =
      number groups + 128 ^ groups.length * last.toNat := by
    rw [Varint.number_append, Varint.number_cons, Varint.number_nil, Nat.mod_eq_of_lt isLast]
    rfl
  rw [List.length_append, List.length_singleton] at short
  constructor
  · rintro ⟨groups', last', rest', same, length, continued', large, isLast'⟩
    have alike : IsCode (groups' ++ [last']) :=
      Varint.isCode_iff.mpr ⟨groups', last', rfl, continued', isLast'⟩
    rw [List.append_cons groups'] at same
    obtain ⟨codes, -⟩ := isCode.append_inj alike same
    obtain ⟨rfl, lasts⟩ := List.append_inj' codes rfl
    obtain rfl := List.singleton_inj.mp lasts
    rw [sum, length, Nat.mul_comm]
    exact Nat.le_add_left_of_le (Nat.mul_le_mul_left _ large)
  · intro large
    have power : 0 < 128 ^ groups.length := Nat.pow_pos (by decide)
    have length : groups.length = count := by
      by_contra shorter
      have few : 128 ^ (groups.length + 1) ≤ limit * 128 ^ count :=
        Nat.le_trans (Nat.pow_le_pow_right (by decide) (by omega))
          (Nat.le_mul_of_pos_left _ positive)
      have whole := Varint.number_lt (groups ++ [last])
      rw [List.length_append, List.length_singleton] at whole
      omega
    refine ⟨groups, last, rest, List.append_assoc _ _ _, length, continued, ?_, isLast⟩
    rw [sum, ← length, Nat.mul_comm] at large
    by_contra small
    have product : 128 ^ groups.length * (last.toNat + 1) ≤ 128 ^ groups.length * limit :=
      Nat.mul_le_mul_left _ (by omega)
    rw [Nat.mul_add, Nat.mul_one] at product
    omega

/-- A decoder that reads codes of at most `count + 1` bytes, modulo `limit * 128 ^ count`,
reads the number itself unless the last byte exceeds the limit. -/
theorem exact_iff
    {Word : Type}
    (toNat : Word → Nat)
    (get : Bytes → Option Word × Bytes)
    (positive : 0 < limit)
    (reads : ∀ {input value rest}, get input = (some value, rest) ↔
      ∃ code, input = code ++ rest ∧ IsCode code ∧ code.length ≤ count + 1 ∧
        toNat value = number code % (limit * 128 ^ count))
    (onto : ∀ {n}, n < limit * 128 ^ count → ∃ value, toNat value = n)
    (input : Bytes) :
    (∀ value rest consumed, get input = (some value, rest) → input = consumed ++ rest →
        toNat value = number consumed) ↔
      ¬Exceeds count limit input := by
  have modulus : 0 < limit * 128 ^ count :=
    Nat.mul_pos positive (Nat.pow_pos (by decide))
  constructor
  · rintro exact ⟨groups, last, rest, rfl, length, continued, large, isLast⟩
    have isCode : IsCode (groups ++ [last]) :=
      Varint.isCode_iff.mpr ⟨groups, last, rfl, continued, isLast⟩
    have short : (groups ++ [last]).length ≤ count + 1 := by
      rw [List.length_append, List.length_singleton, length]
    obtain ⟨value, word⟩ := onto (Nat.mod_lt (number (groups ++ [last])) modulus)
    have split : groups ++ last :: rest = groups ++ [last] ++ rest := List.append_cons ..
    have whole := exact value rest _ (reads.mpr ⟨_, split, isCode, short, word⟩) split
    have isLarge : Exceeds count limit (groups ++ [last] ++ rest) :=
      ⟨groups, last, rest, split.symm, length, continued, large, isLast⟩
    have exceeds := (exceeds_iff positive isCode short).mp isLarge
    have reduced := Nat.mod_lt (number (groups ++ [last])) modulus
    omega
  · intro fits value rest consumed got split
    obtain ⟨code, split', isCode, short, word⟩ := reads.mp got
    obtain rfl := List.append_cancel_right (split'.symm.trans split)
    rw [split', exceeds_iff positive isCode short] at fits
    rw [word, Nat.mod_eq_of_lt (Nat.not_le.mp fits)]

/-- Unless the last byte exceeds the limit, a number that does not fit is not read. -/
theorem not_read
    {Word : Type}
    {toNat : Word → Nat}
    {get : Bytes → Option Word × Bytes}
    (positive : 0 < limit)
    (reads : ∀ {input value rest}, get input = (some value, rest) ↔
      ∃ code, input = code ++ rest ∧ IsCode code ∧ code.length ≤ count + 1 ∧
        toNat value = number code % (limit * 128 ^ count))
    {consumed rest : Bytes}
    (isCode : IsCode consumed)
    (large : limit * 128 ^ count ≤ number consumed)
    (fits : ¬Exceeds count limit (consumed ++ rest)) :
    (get (consumed ++ rest)).1 = none := by
  cases got : get (consumed ++ rest) with
  | mk found behind =>
      cases found with
      | none => rfl
      | some value =>
          obtain ⟨code, split, isCode', short, -⟩ := reads.mp got
          obtain ⟨rfl, -⟩ := isCode.append_inj isCode' split
          exact absurd ((exceeds_iff positive isCode short).mpr large) fits

end Exactness

/-- Whatever the varint at the front of a slice, the routines return the sum of its groups,
reject a number that does not fit, and agree with each other, if and only if it is not of
five bytes with the last at least 16, nor of ten bytes with the last at least 2. -/
theorem getVarints_exact_iff (input : Bytes) :
    ((∀ value rest consumed, getVarint32 input = (some value, rest) →
        input = consumed ++ rest → value.toNat =
          (consumed.mapIdx fun index byte => byte.toNat % 128 * 128 ^ index).sum) ∧
      (∀ value rest consumed, getVarint64 input = (some value, rest) →
        input = consumed ++ rest → value.toNat =
          (consumed.mapIdx fun index byte => byte.toNat % 128 * 128 ^ index).sum) ∧
      (∀ consumed rest, input = consumed ++ rest → IsCode consumed →
        (2 ^ 32 ≤ number consumed → getVarint32 input = (none, input)) ∧
          (2 ^ 64 ≤ number consumed → getVarint64 input = (none, input))) ∧
      ∀ value rest, getVarint32 input = (some value, rest) →
        getVarint64 input = (some value.toUInt64, rest)) ↔
    ¬Exceeds 4 16 input ∧ ¬Exceeds 9 2 input := by
  have exact32 : _ ↔ ¬Exceeds 4 16 input := exact_iff UInt32.toNat getVarint32 (by decide)
    getVarint32_eq_some_iff (fun small => ⟨_, UInt32.toNat_ofNat_of_lt' small⟩) input
  have exact64 : _ ↔ ¬Exceeds 9 2 input := exact_iff UInt64.toNat getVarint64 (by decide)
    getVarint64_eq_some_iff (fun small => ⟨_, UInt64.toNat_ofNat_of_lt' small⟩) input
  simp only [← Varint.number_eq_sum]
  constructor
  · rintro ⟨first, second, -, -⟩
    exact ⟨exact32.mp first, exact64.mp second⟩
  · rintro ⟨fits32, fits64⟩
    refine ⟨exact32.mpr fits32, exact64.mpr fits64, ?_, ?_⟩
    · rintro consumed rest rfl isCode
      refine ⟨fun large => ?_, fun large => ?_⟩
      · have fails := not_read (by decide) getVarint32_eq_some_iff isCode large fits32
        exact Prod.ext fails (getVarint32_of_none fails)
      · have fails := not_read (by decide) getVarint64_eq_some_iff isCode large fits64
        exact Prod.ext fails (getVarint64_of_none fails)
    · intro value rest got
      obtain ⟨code, rfl, isCode, short, word⟩ := getVarint32_eq_some_iff.mp got
      rw [exceeds_iff (by decide) isCode short] at fits32
      refine getVarint64_eq_some_iff.mpr ⟨code, rfl, isCode, by omega, ?_⟩
      rw [UInt32.toNat_toUInt64, word]
      omega

/-- What `EncodeVarint64` stores of 2 ^ 32 is read as zero. -/
theorem getVarint32_loses_bits :
    encodeVarint64 0x100000000 = [0x80, 0x80, 0x80, 0x80, 0x10] ∧
      getVarint32 [0x80, 0x80, 0x80, 0x80, 0x10] = (some 0, []) ∧
      getVarint64 [0x80, 0x80, 0x80, 0x80, 0x10] = (some 0x100000000, []) ∧
      ¬∀ input value rest consumed, getVarint32 input = (some value, rest) →
        input = consumed ++ rest → value.toNat =
          (consumed.mapIdx fun index byte => byte.toNat % 128 * 128 ^ index).sum := by
  have stored : encodeVarint64 0x100000000 = [0x80, 0x80, 0x80, 0x80, 0x10] := by
    rw [encodeVarint64, if_pos (by decide), encodeVarint64, if_pos (by decide),
      encodeVarint64, if_pos (by decide), encodeVarint64, if_pos (by decide),
      encodeVarint64, if_neg (by decide)]
    decide
  have got : getVarint32 [0x80, 0x80, 0x80, 0x80, 0x10] = (some 0, []) := by decide
  refine ⟨stored, got, by decide, fun exact => ?_⟩
  have sum := exact _ 0 [] _ got (List.append_nil _).symm
  revert sum
  decide

/-! ## Calls that fail -/

/-- The slice begins with a length of at most five bytes, and fewer bytes than that
follow it. -/
def Truncated (input : Bytes) : Prop :=
  ∃ code rest, input = code ++ rest ∧ IsCode code ∧ code.length ≤ 5 ∧
    rest.length < number code % 2 ^ 32

theorem getLengthPrefixedSlice_of_none
    {input : Bytes}
    (fails : (getVarint32 input).1 = none) :
    getLengthPrefixedSlice input = (none, input) := by
  have same := getVarint32_of_none fails
  rw [getLengthPrefixedSlice]
  cases read : getVarint32 input with
  | mk len behind =>
      rw [read] at fails same
      rw [show len = none from fails, show behind = input from same]

theorem getLengthPrefixedSlice_of_some
    {input rest : Bytes}
    {len : UInt32}
    (read : getVarint32 input = (some len, rest)) :
    getLengthPrefixedSlice input =
      if rest.length ≥ len.toNat then
        (some (rest.take len.toNat), rest.drop len.toNat)
      else (none, rest) := by
  rw [getLengthPrefixedSlice, read]

/-- A call that succeeds leaves what is behind the bytes it has consumed. -/
theorem get_consumes {kind : Kind} {input : Bytes} (succeeds : (get kind input).1 ≠ none) :
    ∃ consumed, consumed ++ (get kind input).2 = input := by
  cases kind with
  | fixed64 =>
      rw [get, getFixed64] at succeeds ⊢
      split at succeeds
      · exact absurd rfl succeeds
      · rename_i enough
        rw [if_neg enough]
        exact ⟨input.take 8, List.take_append_drop 8 input⟩
  | varint32 =>
      rw [get] at succeeds ⊢
      cases read : getVarint32 input with
      | mk value rest =>
          cases value with
          | none =>
              rw [read] at succeeds
              exact absurd rfl succeeds
          | some value =>
              obtain ⟨code, split, -⟩ := getVarint32_eq_some_iff.mp read
              exact ⟨code, split.symm⟩
  | varint64 =>
      rw [get] at succeeds ⊢
      cases read : getVarint64 input with
      | mk value rest =>
          cases value with
          | none =>
              rw [read] at succeeds
              exact absurd rfl succeeds
          | some value =>
              obtain ⟨code, split, -⟩ := getVarint64_eq_some_iff.mp read
              exact ⟨code, split.symm⟩
  | lengthPrefixedSlice =>
      rw [get] at succeeds ⊢
      cases read : getVarint32 input with
      | mk len rest =>
          cases len with
          | none =>
              rw [getLengthPrefixedSlice_of_none (by rw [read])] at succeeds
              exact absurd rfl succeeds
          | some len =>
              obtain ⟨code, split, -⟩ := getVarint32_eq_some_iff.mp read
              rw [getLengthPrefixedSlice_of_some read] at succeeds ⊢
              split at succeeds
              · rename_i enough
                rw [if_pos enough]
                refine ⟨code ++ rest.take len.toNat, ?_⟩
                rw [split, List.append_assoc, List.take_append_drop]
              · exact absurd rfl succeeds

/-- A call that fails leaves the slice alone, but for a length that was consumed. -/
theorem get_of_none
    {kind : Kind}
    {input : Bytes}
    (whole : ¬Truncated input)
    (fails : (get kind input).1 = none) :
    (get kind input).2 = input := by
  cases kind with
  | fixed64 =>
      rw [get, getFixed64] at fails ⊢
      split at fails
      · rename_i short
        rw [if_pos short]
      · cases fails
  | varint32 =>
      exact getVarint32_of_none (Option.map_eq_none_iff.mp fails)
  | varint64 =>
      exact getVarint64_of_none (Option.map_eq_none_iff.mp fails)
  | lengthPrefixedSlice =>
      rw [get] at fails ⊢
      cases read : getVarint32 input with
      | mk len rest =>
          cases len with
          | none => rw [getLengthPrefixedSlice_of_none (by rw [read])]
          | some len =>
              obtain ⟨code, split, isCode, short, word⟩ := getVarint32_eq_some_iff.mp read
              rw [getLengthPrefixedSlice_of_some read] at fails
              split at fails
              · cases fails
              · rename_i few
                rw [ge_iff_le, Nat.not_le, word] at few
                exact absurd ⟨code, rest, split, isCode, short, few⟩ whole

/-- Each of the four routines either leaves the slice alone or consumes a part at its
front, as its result says, if and only if the slice is not a length with too little behind
it. -/
theorem gets_leave_input_iff (input : Bytes) :
    (∀ kind, ((get kind input).1 = none → (get kind input).2 = input) ∧
      ((get kind input).1 ≠ none → ∃ consumed, consumed ++ (get kind input).2 = input)) ↔
    ¬Truncated input := by
  constructor
  · rintro law ⟨code, rest, rfl, isCode, short, few⟩
    have small : number code % 2 ^ 32 < 2 ^ 32 := Nat.mod_lt _ (by decide)
    have word := UInt32.toNat_ofNat_of_lt' small
    have read : getVarint32 (code ++ rest) = (some _, rest) :=
      getVarint32_eq_some_iff.mpr ⟨code, rfl, isCode, short, word⟩
    have result : getLengthPrefixedSlice (code ++ rest) = (none, rest) := by
      rw [getLengthPrefixedSlice_of_some read, word, if_neg (Nat.not_le.mpr few)]
    have same := (law .lengthPrefixedSlice).1 (by rw [get, result]; rfl)
    rw [get, result] at same
    have lengths : rest.length = (code ++ rest).length := congrArg List.length same
    rw [List.length_append] at lengths
    exact isCode.ne_nil (List.length_eq_zero_iff.mp (by omega))
  · exact fun whole kind => ⟨get_of_none whole, get_consumes⟩

/-- A length of five with two bytes behind it is consumed. -/
theorem getLengthPrefixedSlice_consumes_length :
    getLengthPrefixedSlice [5, 1, 2] = (none, [1, 2]) ∧
      ¬∀ input, (getLengthPrefixedSlice input).1 = none →
        (getLengthPrefixedSlice input).2 = input := by
  have result : getLengthPrefixedSlice [5, 1, 2] = (none, [1, 2]) := by decide
  refine ⟨result, fun law => ?_⟩
  have same := law [5, 1, 2] (by rw [result])
  rw [result] at same
  cases same

end Coding
end RocksUtil
