import Mathlib.Data.Int.CardIntervalMod
import Mathlib.Data.List.Prime
import Mathlib.Data.Nat.Count
import Mathlib.NumberTheory.LucasPrimality

/-!
# Powers of a primitive root

The products of a remainder with the powers of a multiplier, modulo a prime number.  When
the multiplier is a primitive root, the products with as many successive powers as there are
remainders other than zero are these remainders, each of them once.  The prime factors of
that number certify both the prime number and the primitive root.
-/

namespace PrimitiveRoot

/-- The product of a start with a power of the multiplier. -/
def orbit (p multiplier start k : Nat) : Nat := start * multiplier ^ k % p

/-- Terms of a sequence without repetition are counted by their set. -/
theorem count_image
    {f : Nat → Nat}
    {n : Nat}
    (injective : Set.InjOn f (Finset.range n))
    (property : Nat → Prop)
    [DecidablePred property] :
    Nat.count (fun k => property (f k)) n =
      (((Finset.range n).image f).filter property).card := by
  rw [Nat.count_eq_card_filter_range, Finset.filter_image]
  exact (Finset.card_image_of_injOn (injective.mono (Finset.filter_subset _ _))).symm

/-- The numbers from one on with a given remainder. -/
theorem count_succ_mod_eq
    {n r : Nat}
    (small : r < n)
    (bound : Nat) :
    Nat.count (fun value => (value + 1) % n = r) bound =
      bound / n + if 0 < r ∧ r ≤ bound % n then 1 else 0 := by
  have positive : 0 < n := Nat.zero_lt_of_lt small
  have shifted (value : Nat) : (value + 1) % n = r ↔ value ≡ r + (n - 1) [MOD n] := by
    have whole : r + (n - 1) + 1 = r + n := by omega
    constructor
    · intro same
      apply Nat.ModEq.add_right_cancel' 1
      rw [whole, Nat.ModEq, same, Nat.add_mod_right, Nat.mod_eq_of_lt small]
    · intro congruent
      have same := congruent.add_right 1
      rw [whole, Nat.ModEq, Nat.add_mod_right, Nat.mod_eq_of_lt small] at same
      exact same
  simp only [shifted]
  rw [Nat.count_modEq_card _ positive]
  congr 1
  rcases Nat.eq_zero_or_pos r with rfl | nonzero
  · have remainder := Nat.mod_lt bound positive
    rw [Nat.zero_add, Nat.mod_eq_of_lt (by omega), if_neg (by omega), if_neg (by omega)]
  · have predecessor : (r + (n - 1)) % n = r - 1 := by
      rw [show r + (n - 1) = r - 1 + n by omega, Nat.add_mod_right, Nat.mod_eq_of_lt (by omega)]
    rw [predecessor]
    exact if_congr (by omega) rfl rfl

/-- Prime numbers, of which `p - 1` is the product, and a multiplier whose power is one for
`p - 1` and for no quotient of it by one of them. -/
structure Certificate (p multiplier : Nat) (factors : List Nat) : Prop where
  primes : ∀ q ∈ factors, q.Prime
  product : factors.prod = p - 1
  unit : (multiplier : ZMod p) ^ (p - 1) = 1
  proper : ∀ q ∈ factors, (multiplier : ZMod p) ^ ((p - 1) / q) ≠ 1

namespace Certificate

variable {p multiplier : Nat} {factors : List Nat}
  (certificate : Certificate p multiplier factors)

include certificate

theorem mem_factors {q : Nat} (isPrime : q.Prime) (divides : q ∣ p - 1) : q ∈ factors := by
  rw [← certificate.product] at divides
  exact mem_list_primes_of_dvd_prod (Nat.prime_iff.mp isPrime)
    (fun r member => Nat.prime_iff.mp (certificate.primes r member)) divides

theorem pow_div_ne_one {q : Nat} (isPrime : q.Prime) (divides : q ∣ p - 1) :
    (multiplier : ZMod p) ^ ((p - 1) / q) ≠ 1 :=
  certificate.proper q (certificate.mem_factors isPrime divides)

theorem prime : p.Prime :=
  lucas_primality p multiplier certificate.unit fun _ => certificate.pow_div_ne_one

theorem orderOf_eq : orderOf (multiplier : ZMod p) = p - 1 :=
  orderOf_eq_of_pow_and_pow_div_prime (Nat.sub_pos_of_lt certificate.prime.one_lt)
    certificate.unit fun _ => certificate.pow_div_ne_one

/-! ## One period -/

theorem orbit_mem
    {start : Nat}
    (nonzero : start % p ≠ 0)
    (k : Nat) :
    orbit p multiplier start k ∈ Finset.Ico 1 p := by
  have isPrime := certificate.prime
  rw [Finset.mem_Ico]
  refine ⟨Nat.pos_of_ne_zero fun zero => ?_, Nat.mod_lt _ isPrime.pos⟩
  rcases isPrime.dvd_mul.mp (Nat.dvd_of_mod_eq_zero zero) with divides | divides
  · exact nonzero (Nat.mod_eq_zero_of_dvd divides)
  · have zero : (multiplier : ZMod p) = 0 :=
      (ZMod.natCast_eq_zero_iff _ _).mpr (isPrime.dvd_of_dvd_pow divides)
    have one := certificate.unit
    have := Fact.mk isPrime
    rw [zero, zero_pow (Nat.sub_pos_of_lt isPrime.one_lt).ne'] at one
    exact zero_ne_one one

theorem orbit_injOn {start : Nat} (nonzero : start % p ≠ 0) :
    Set.InjOn (orbit p multiplier start) (Finset.range (p - 1)) := by
  have := Fact.mk certificate.prime
  intro k kSmall l lSmall same
  have start_ne_zero : (start : ZMod p) ≠ 0 := fun zero =>
    nonzero (Nat.mod_eq_zero_of_dvd ((ZMod.natCast_eq_zero_iff _ _).mp zero))
  have powers : (multiplier : ZMod p) ^ k = (multiplier : ZMod p) ^ l := by
    have products := (ZMod.natCast_eq_natCast_iff' _ _ p).mpr same
    push_cast at products
    exact mul_left_cancel₀ start_ne_zero products
  have order := certificate.orderOf_eq
  apply pow_injOn_Iio_orderOf _ _ powers
  · rw [order]
    exact Finset.mem_range.mp kSmall
  · rw [order]
    exact Finset.mem_range.mp lSmall

/-- The products of one period are the remainders other than zero. -/
theorem image_orbit {start : Nat} (nonzero : start % p ≠ 0) :
    (Finset.range (p - 1)).image (orbit p multiplier start) = Finset.Ico 1 p := by
  apply Finset.eq_of_subset_of_card_le
  · intro value member
    obtain ⟨k, -, rfl⟩ := Finset.mem_image.mp member
    exact certificate.orbit_mem nonzero k
  · rw [Finset.card_image_of_injOn (certificate.orbit_injOn nonzero), Nat.card_Ico,
      Finset.card_range]

theorem orbit_add_period (start k : Nat) :
    orbit p multiplier start (k + (p - 1)) = orbit p multiplier start k := by
  apply (ZMod.natCast_eq_natCast_iff' _ _ p).mp
  push_cast
  rw [pow_add, certificate.unit, mul_one]

theorem existsUnique_orbit
    {start value : Nat}
    (nonzero : start % p ≠ 0)
    (positive : 0 < value)
    (below : value < p) :
    ∃! k, k < p - 1 ∧ orbit p multiplier start k = value := by
  have member : value ∈ (Finset.range (p - 1)).image (orbit p multiplier start) := by
    rw [certificate.image_orbit nonzero]
    exact Finset.mem_Ico.mpr ⟨positive, below⟩
  obtain ⟨k, inPeriod, isValue⟩ := Finset.mem_image.mp member
  refine ⟨k, ⟨Finset.mem_range.mp inPeriod, isValue⟩, fun l ⟨small, same⟩ => ?_⟩
  exact certificate.orbit_injOn nonzero (Finset.mem_range.mpr small) inPeriod
    (same.trans isValue.symm)

/-- A property holds as often in one period as it does for the remainders. -/
theorem count_orbit
    {start : Nat}
    (nonzero : start % p ≠ 0)
    (property : Nat → Prop)
    [DecidablePred property] :
    Nat.count (fun k => property (orbit p multiplier start k)) (p - 1) =
      Nat.count (fun value => property (value + 1)) (p - 1) := by
  have shifted : (Finset.range (p - 1)).image (· + 1) = Finset.Ico 1 p := by
    ext value
    rw [Finset.mem_image, Finset.mem_Ico]
    constructor
    · rintro ⟨predecessor, small, rfl⟩
      have := Finset.mem_range.mp small
      omega
    · rintro ⟨positive, below⟩
      exact ⟨value - 1, Finset.mem_range.mpr (by omega), Nat.sub_add_cancel positive⟩
  rw [count_image (certificate.orbit_injOn nonzero),
    count_image (add_left_injective 1).injOn, certificate.image_orbit nonzero,
    shifted]

end Certificate
end PrimitiveRoot
