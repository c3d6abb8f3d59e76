import Mathlib.Tactic.NormNum.Prime
import Mathlib.Tactic.ReduceModChar
import RocksUtil.Library.PrimitiveRoot
import RocksUtil.Random

/-!
# The period of the random number generator

The multiplier of `Random` is a primitive root modulo `2 ^ 31 - 1`, which is a prime number.
Every seed other than zero and the modulus therefore runs through all the others before it
comes back, and the remainders that `Uniform` returns on the way are as even as they can be.
-/

namespace RocksUtil
namespace Random

/-- `Uniform`.  The bound is converted to an unsigned number. -/
def uniform (n : Int32) (random : Random) : UInt32 × Random :=
  let (value, random) := random.next
  (value % n.toUInt32, random)

/-- `OneIn`. -/
def oneIn (n : Int32) (random : Random) : Bool × Random :=
  let (value, random) := random.next
  (value % n.toUInt32 == 0, random)

/-- `Skewed`. -/
def skewed (maxLog : Int32) (random : Random) : UInt32 × Random :=
  let (base, random) := random.uniform (maxLog + 1)
  random.uniform (1 <<< base.toInt32)

/-- `2 ^ 31 - 2` is `2 * 3 * 3 * 7 * 11 * 31 * 151 * 331`. -/
theorem certificate :
    PrimitiveRoot.Certificate 2147483647 16807 [2, 3, 3, 7, 11, 31, 151, 331] where
  primes := by
    simp only [List.forall_mem_cons]
    norm_num
  product := by decide
  unit := by
    rw [Nat.cast_ofNat]
    reduce_mod_char
  proper := by
    simp only [List.forall_mem_cons, Nat.cast_ofNat, Nat.reduceDiv, Nat.reduceSub]
    reduce_mod_char
    decide +kernel

theorem eq_of_toNat_seed
    {first second : Random}
    (same : first.seed.toNat = second.seed.toNat) :
    first = second := by
  obtain ⟨seed⟩ := first
  obtain ⟨other⟩ := second
  exact congrArg mk (UInt32.toNat_inj.mp same)

namespace Good

variable {random : Random} (good : random.Good)

include good

theorem start_mod_ne_zero : random.next.2.seed.toNat % 2147483647 ≠ 0 := by
  obtain ⟨-, positive, below⟩ := good.next
  change _ % (2 ^ 31 - 1) ≠ 0
  rw [Nat.mod_eq_of_lt below]
  exact Nat.pos_iff_ne_zero.mp positive

/-- The calls return an orbit of the first value. -/
theorem next_after (calls : Nat) :
    (random.after calls).next.1.toNat =
      PrimitiveRoot.orbit 2147483647 16807 random.next.2.seed.toNat calls := by
  obtain ⟨-, goodNext⟩ := good.next
  have value := (goodNext.after calls).2
  have shifted : random.next.2.after calls = (random.after calls).next.2 := by
    rw [← after_succ]
    rfl
  rw [shifted] at value
  exact value

/-- A good seed comes back after as many calls as there are good seeds, and of these calls
exactly one returns each of the numbers from one to `M - 1`. -/
theorem full_period :
    (∀ calls, random.after (calls + (2 ^ 31 - 2)) = random.after calls) ∧
      ∀ value : UInt32, 0 < value → value < M →
        ∃! calls, calls < 2 ^ 31 - 2 ∧ (random.after calls).next.1 = value := by
  constructor
  · intro calls
    have start := (good.after (calls + (2 ^ 31 - 2))).2
    have later := (good.after calls).2
    have comesBack := certificate.orbit_add_period random.seed.toNat calls
    have period : 2147483647 - 1 = 2 ^ 31 - 2 := rfl
    rw [period, PrimitiveRoot.orbit, PrimitiveRoot.orbit] at comesBack
    apply eq_of_toNat_seed
    rw [start, later]
    exact comesBack
  · intro value positive below
    obtain ⟨calls, ⟨inPeriod, returns⟩, unique⟩ :=
      certificate.existsUnique_orbit good.start_mod_ne_zero
        (UInt32.lt_iff_toNat_lt.mp positive) (UInt32.lt_iff_toNat_lt.mp below)
    rw [← good.next_after] at returns
    refine ⟨calls, ⟨inPeriod, UInt32.toNat_inj.mp returns⟩, fun other ⟨small, same⟩ => ?_⟩
    exact unique other ⟨small, by rw [← good.next_after, same]⟩

/-- In a period `Uniform` returns each number below its bound equally often, but for the
first few numbers above zero, which it returns once more, and `OneIn` returns true as often
as it returns zero. -/
theorem uniform_count
    {n : Int32}
    {r : UInt32}
    (small : r < n.toUInt32) :
    Nat.count (fun calls => ((random.after calls).uniform n).1 = r) (2 ^ 31 - 2) =
        (2 ^ 31 - 2) / n.toUInt32.toNat +
          (if 0 < r ∧ r.toNat ≤ (2 ^ 31 - 2) % n.toUInt32.toNat then 1 else 0) ∧
      Nat.count (fun calls => ((random.after calls).oneIn n).1) (2 ^ 31 - 2) =
        (2 ^ 31 - 2) / n.toUInt32.toNat := by
  have returns (bound : UInt32) (calls : Nat) (r : UInt32) :
      (random.after calls).next.1 % bound = r ↔
        PrimitiveRoot.orbit 2147483647 16807 random.next.2.seed.toNat calls % bound.toNat =
          r.toNat := by
    rw [← good.next_after, ← UInt32.toNat_mod]
    exact UInt32.toNat_inj.symm
  have counted {r : UInt32} (small : r < n.toUInt32) :
      Nat.count (fun calls => (random.after calls).next.1 % n.toUInt32 = r) (2 ^ 31 - 2) =
        (2 ^ 31 - 2) / n.toUInt32.toNat +
          if 0 < r.toNat ∧ r.toNat ≤ (2 ^ 31 - 2) % n.toUInt32.toNat then 1 else 0 := by
    simp only [returns]
    exact (certificate.count_orbit good.start_mod_ne_zero
      fun value => value % n.toUInt32.toNat = r.toNat).trans
        (PrimitiveRoot.count_succ_mod_eq (UInt32.lt_iff_toNat_lt.mp small) _)
  refine ⟨counted small, ?_⟩
  have nonzero : 0 < n.toUInt32 := Nat.lt_of_le_of_lt (Nat.zero_le _) small
  have zeros := counted nonzero
  rw [if_neg (by simp)] at zeros
  simp only [oneIn, beq_iff_eq]
  exact zeros

end Good

/-- A seed that comes back, and a value on its way. -/
theorem full_period_from :
    (new 301).after (2 ^ 31 - 2) = new 301 ∧
      ∃! calls, calls < 2 ^ 31 - 2 ∧ ((new 301).after calls).next.1 = 42 := by
  have good : (new 301).Good := good_new (by decide)
  obtain ⟨comesBack, visits⟩ := good.full_period
  have start := comesBack 0
  rw [Nat.zero_add] at start
  exact ⟨start, visits 42 (by decide) (by decide)⟩

/-- Of seven numbers, the least one is returned as often as the last one. -/
theorem uniform_count_seven :
    Nat.count (fun calls => (((new 301).after calls).uniform 7).1 = 6) (2 ^ 31 - 2) =
      306783378 := by
  have good : (new 301).Good := good_new (by decide)
  obtain ⟨counted, -⟩ := @Good.uniform_count _ good 7 6 (by decide)
  rw [counted]
  decide

/-- `Skewed` returns as many bits as it draws first. -/
theorem skewed_lt
    {maxLog : Int32}
    (nonnegative : 0 ≤ maxLog)
    (atMost : maxLog ≤ 30)
    (random : Random) :
    (random.skewed maxLog).1.toNat < 2 ^ (random.uniform (maxLog + 1)).1.toNat ∧
      (random.uniform (maxLog + 1)).1.toNat ≤ maxLog.toUInt32.toNat := by
  have shifted : ∀ base : Fin 31,
      ((1 : Int32) <<< (UInt32.ofNat base).toInt32).toUInt32.toNat = 2 ^ base.val := by
    decide
  have small : maxLog.toUInt32.toNat ≤ 30 :=
    UInt32.le_iff_toNat_le.mp (Int32.toUInt32_le nonnegative atMost)
  have bound : (maxLog + 1).toUInt32.toNat = maxLog.toUInt32.toNat + 1 := by
    rw [Int32.toUInt32_add, UInt32.toNat_add]
    exact Nat.mod_eq_of_lt (by change _ + 1 < _; omega)
  have drawn : (random.uniform (maxLog + 1)).1.toNat < (maxLog + 1).toUInt32.toNat := by
    rw [uniform, UInt32.toNat_mod]
    exact Nat.mod_lt _ (by omega)
  refine ⟨?_, by omega⟩
  have power := shifted ⟨(random.uniform (maxLog + 1)).1.toNat, by omega⟩
  rw [UInt32.ofNat_toNat] at power
  rw [skewed, ← power]
  dsimp only
  rw [uniform, UInt32.toNat_mod]
  refine Nat.mod_lt _ ?_
  rw [power]
  exact Nat.two_pow_pos _

end Random
end RocksUtil
