import Mathlib.Data.UInt
import Mathlib.Logic.Function.Iterate
import RocksUtil.Library.Mersenne

/-!
# The random number generator

`Random` of `random.h`: a multiplicative generator modulo `2 ^ 31 - 1`, whose product is
reduced by a shift, a mask and one subtraction.  Neither zero nor the modulus leads to any
other value.  `GoodSeed` replaces zero, so that a seed is stuck if and only if its low 31
bits are all set (`never_stuck_iff`).
-/

namespace RocksUtil

/-- `class Random`. -/
structure Random where
  /-- `seed_`. -/
  seed : UInt32
  deriving DecidableEq, Repr

namespace Random

/-- `M`. -/
def M : UInt32 := 2147483647

/-- `A`: bits 14, 8, 7, 5, 2, 1, 0. -/
def A : UInt64 := 16807

/-- `GoodSeed`. -/
def goodSeed (s : UInt32) : UInt32 := if s &&& M ≠ 0 then s &&& M else 1

/-- The constructor. -/
def new (s : UInt32) : Random := ⟨goodSeed s⟩

/-- `Reset`. -/
def reset (_ : Random) (s : UInt32) : Random := ⟨goodSeed s⟩

/-- `Next`: the value, and the generator behind the call. -/
def next (random : Random) : UInt32 × Random :=
  let product := random.seed.toUInt64 * A
  let seed := ((product >>> 31) + (product &&& M.toUInt64)).toUInt32
  let seed := if seed > M then seed - M else seed
  (seed, ⟨seed⟩)

/-- `GetTLSInstance`: the instance that the thread has, or a new one with the hash of the
thread's id as its seed. -/
def getTLSInstance (instance? : Option Random) (hash : UInt64) : Random :=
  match instance? with
  | some random => random
  | none => new hash.toUInt32

/-- The generator behind a number of calls of `Next`. -/
def after (calls : Nat) (random : Random) : Random :=
  (fun random => random.next.2)^[calls] random

theorem after_succ (calls : Nat) (random : Random) :
    random.after (calls + 1) = (random.after calls).next.2 :=
  Function.iterate_succ_apply' _ _ _

/-- The generators that a seed was passed for. -/
inductive Seeded (s : UInt32) : Random → Prop
  | new : Seeded s (new s)
  | reset (random : Random) : Seeded s (random.reset s)
  | tlsInstance (hash : UInt64) (truncated : hash.toUInt32 = s) :
      Seeded s (getTLSInstance none hash)

theorem Seeded.eq_new {s : UInt32} {random : Random} (seeded : Seeded s random) :
    random = Random.new s := by
  cases seeded with
  | new => rfl
  | reset random => rfl
  | tlsInstance hash truncated => rw [getTLSInstance, truncated]

/-! ## One call -/

/-- Neither zero nor the modulus. -/
def Good (random : Random) : Prop :=
  0 < random.seed.toNat ∧ random.seed.toNat < 2 ^ 31 - 1

/-- The shift, the mask and the subtraction reduce the product. -/
theorem toNat_next {random : Random} (inRange : random.seed.toNat ≤ 2 ^ 31 - 1) :
    random.next.1.toNat = Mersenne.reduce 31 (random.seed.toNat * 16807) := by
  have product : (random.seed.toUInt64 * A).toNat = random.seed.toNat * 16807 := by
    rw [UInt64.toNat_mul, UInt32.toNat_toUInt64]
    exact Nat.mod_eq_of_lt (by change _ * 16807 < _; omega)
  have high : ((random.seed.toUInt64 * A) >>> 31).toNat =
      random.seed.toNat * 16807 / 2 ^ 31 := by
    rw [UInt64.toNat_shiftRight, product, Nat.shiftRight_eq_div_pow]
    rfl
  have low : (random.seed.toUInt64 * A &&& M.toUInt64).toNat =
      random.seed.toNat * 16807 % 2 ^ 31 := by
    rw [UInt64.toNat_and, product]
    exact Nat.and_two_pow_sub_one_eq_mod _ 31
  have sum : (((random.seed.toUInt64 * A) >>> 31) +
      (random.seed.toUInt64 * A &&& M.toUInt64)).toUInt32.toNat =
        Mersenne.fold 31 (random.seed.toNat * 16807) := by
    rw [UInt64.toNat_toUInt32, UInt64.toNat_add, high, low, Mersenne.fold]
    omega
  have modulus : M.toNat = Mersenne.modulus 31 := rfl
  rw [next, Mersenne.reduce]
  simp only [gt_iff_lt, UInt32.lt_iff_toNat_lt, sum, modulus]
  split
  · rename_i exceeds
    rw [UInt32.toNat_sub_of_le _ _ (UInt32.le_iff_toNat_le.mpr (by rw [sum, modulus]; omega)),
      sum, modulus]
  · exact sum

/-- A good seed is followed by another one. -/
theorem Good.next {random : Random} (good : random.Good) :
    random.next.1.toNat = random.seed.toNat * 16807 % (2 ^ 31 - 1) ∧ random.next.2.Good := by
  obtain ⟨positive, below⟩ := good
  have nonzero : random.seed.toNat % Mersenne.modulus 31 ≠ 0 := by
    change random.seed.toNat % (2 ^ 31 - 1) ≠ 0
    rw [Nat.mod_eq_of_lt below]
    exact Nat.pos_iff_ne_zero.mp positive
  have product : random.seed.toNat * 16807 % Mersenne.modulus 31 ≠ 0 :=
    Mersenne.mul_mod_ne_zero (by decide +kernel) nonzero
  have value : random.next.1.toNat = random.seed.toNat * 16807 % Mersenne.modulus 31 := by
    rw [toNat_next (Nat.le_of_lt below)]
    refine Mersenne.reduce_eq_mod ?_ product
    change _ ≤ 2 ^ 31 - 1
    omega
  refine ⟨value, ?_⟩
  change 0 < random.next.1.toNat ∧ random.next.1.toNat < 2 ^ 31 - 1
  rw [value]
  exact ⟨Nat.pos_iff_ne_zero.mpr product, Nat.mod_lt _ (by decide)⟩

/-! ## Runs -/

/-- What the calls return that follow a good seed. -/
theorem Good.after {random : Random} (good : random.Good) (calls : Nat) :
    (random.after calls).Good ∧
      (random.after calls).seed.toNat = random.seed.toNat * 16807 ^ calls % (2 ^ 31 - 1) := by
  induction calls with
  | zero =>
      refine ⟨good, ?_⟩
      rw [Nat.pow_zero, Nat.mul_one, Nat.mod_eq_of_lt good.2]
      rfl
  | succ calls inductionHypothesis =>
      obtain ⟨goodBefore, value⟩ := inductionHypothesis
      obtain ⟨nextValue, goodNext⟩ := goodBefore.next
      rw [after_succ]
      refine ⟨goodNext, ?_⟩
      rw [value, Nat.mod_mul_mod, Nat.mul_assoc, ← Nat.pow_succ] at nextValue
      exact nextValue

/-- No value is returned twice in a row. -/
theorem Good.next_ne {random : Random} (good : random.Good) :
    random.next.2.next.1 ≠ random.next.1 := by
  intro same
  obtain ⟨-, goodNext⟩ := good.next
  obtain ⟨value, -⟩ := goodNext.next
  have nonzero : random.next.2.seed.toNat % (2 ^ 31 - 1) ≠ 0 := by
    rw [Nat.mod_eq_of_lt goodNext.2]
    exact Nat.pos_iff_ne_zero.mp goodNext.1
  have differs := Mersenne.mul_mod_ne_self 16806 (by decide +kernel) nonzero
  apply differs
  rw [Nat.mod_eq_of_lt goodNext.2, ← value, same]
  rfl

/-- `GoodSeed` yields a good seed, unless the low 31 bits are all set. -/
theorem good_new {s : UInt32} (usable : s &&& M ≠ M) : (new s).Good := by
  have masked : (s &&& M).toNat = s.toNat % 2 ^ 31 := by
    rw [UInt32.toNat_and]
    exact Nat.and_two_pow_sub_one_eq_mod _ 31
  have other : (s &&& M).toNat ≠ 2 ^ 31 - 1 := fun same => usable (UInt32.toNat_inj.mp same)
  unfold Good new goodSeed
  dsimp only
  split
  · rename_i nonzero
    have positive : (s &&& M).toNat ≠ 0 := fun zero => nonzero (UInt32.toNat_inj.mp zero)
    omega
  · decide

/-- The modulus is followed by itself. -/
theorem next_modulus : next ⟨M⟩ = (M, ⟨M⟩) := by decide

/-- The values that follow a seed are its products with the powers of the multiplier, and
they are not all the same, if and only if the low 31 bits of the seed are not all set. -/
theorem never_stuck_iff (s : UInt32) :
    (∀ random, Seeded s random →
      (∀ k, 0 < k →
        (random.after (k - 1)).next.1.toNat =
            (goodSeed s).toNat * 16807 ^ k % (2 ^ 31 - 1) ∧
          1 ≤ (random.after (k - 1)).next.1.toNat ∧
          (random.after (k - 1)).next.1.toNat ≤ 2 ^ 31 - 2) ∧
      ¬∃ value, ∀ k, (random.after k).next.1 = value) ↔
    s &&& M ≠ M := by
  constructor
  · intro moves stuck
    obtain ⟨-, changes⟩ := moves (new s) .new
    have start : new s = ⟨M⟩ := by
      rw [new, goodSeed, stuck]
      rfl
    have stays (k : Nat) : (new s).after k = ⟨M⟩ := by
      rw [start]
      exact Function.iterate_fixed (congrArg Prod.snd next_modulus) k
    refine changes ⟨M, fun k => ?_⟩
    rw [stays, next_modulus]
  · intro usable random seeded
    obtain rfl := seeded.eq_new
    have good := good_new usable
    refine ⟨fun k positive => ?_, fun ⟨value, constant⟩ => ?_⟩
    · obtain ⟨goodAfter, sum⟩ := good.after k
      have isValue : ((new s).after (k - 1)).next.1 = ((new s).after k).seed := by
        rw [← Nat.sub_add_cancel positive, after_succ]
        rfl
      obtain ⟨least, greatest⟩ := goodAfter
      rw [isValue]
      exact ⟨sum, least, by omega⟩
    · exact good.next_ne ((constant 1).trans (constant 0).symm)

/-- A seed that the generator never leaves. -/
theorem stuck_at_modulus :
    (new 0x7fffffff).next = (0x7fffffff, new 0x7fffffff) ∧
      ¬∀ s, ∃ k, ((new s).after k).next.1 ≠ ((new s).after (k + 1)).next.1 := by
  have fixed : (new 0x7fffffff).next = (0x7fffffff, new 0x7fffffff) := by decide
  refine ⟨fixed, fun moves => ?_⟩
  obtain ⟨k, differs⟩ := moves 0x7fffffff
  have stays (k : Nat) : (new 0x7fffffff).after k = new 0x7fffffff :=
    Function.iterate_fixed (congrArg Prod.snd fixed) k
  rw [stays, stays] at differs
  exact differs rfl

end Random
end RocksUtil
