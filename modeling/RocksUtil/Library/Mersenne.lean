import Mathlib.Data.Nat.ModEq
import Mathlib.Tactic.Ring

/-!
# Remainders modulo a Mersenne number

Modulo `2 ^ bits - 1` the high part of a number counts as much as the low part, so that a
product is reduced by adding the two and subtracting the modulus at most once.  A sequence
of such products, by a multiplier that is prime to the modulus, avoids zero once it starts
elsewhere, and it does not repeat a term at once when the multiplier less one is prime to
the modulus as well.
-/

namespace Mersenne

/-- The modulus. -/
def modulus (bits : Nat) : Nat := 2 ^ bits - 1

/-- The high part and the low part. -/
def fold (bits x : Nat) : Nat := x / 2 ^ bits + x % 2 ^ bits

/-- Add the parts, and subtract the modulus if that exceeds it. -/
def reduce (bits x : Nat) : Nat :=
  if fold bits x > modulus bits then fold bits x - modulus bits else fold bits x

theorem fold_mod (bits x : Nat) : fold bits x % modulus bits = x % modulus bits := by
  have power : 2 ^ bits = modulus bits + 1 := by
    have positive : 0 < 2 ^ bits := Nat.two_pow_pos bits
    unfold modulus
    omega
  have split : x = modulus bits * (x / 2 ^ bits) + fold bits x := by
    conv_lhs => rw [← Nat.div_add_mod x (2 ^ bits)]
    conv_lhs => enter [1, 1]; rw [power]
    rw [fold]
    ring
  conv_rhs => rw [split]
  exact (Nat.mul_add_mod _ _ _).symm

/-- One subtraction is enough for a number whose high part is not above the modulus. -/
theorem reduce_eq_mod
    {bits x : Nat}
    (high : x / 2 ^ bits ≤ modulus bits)
    (nonzero : x % modulus bits ≠ 0) :
    reduce bits x = x % modulus bits := by
  have low : x % 2 ^ bits ≤ modulus bits := by
    have below := Nat.mod_lt x (Nat.two_pow_pos bits)
    unfold modulus
    omega
  have same := fold_mod bits x
  have twice : fold bits x ≤ 2 * modulus bits := by
    unfold fold
    omega
  rw [← same] at nonzero ⊢
  unfold reduce
  split
  · rename_i exceeds
    have once : fold bits x - modulus bits < modulus bits := by
      by_contra above
      have isTwice : fold bits x = 2 * modulus bits := by omega
      rw [isTwice, Nat.mul_mod_left] at nonzero
      exact nonzero rfl
    rw [Nat.mod_eq_sub_mod (Nat.le_of_lt exceeds), Nat.mod_eq_of_lt once]
  · rename_i within
    have below : fold bits x < modulus bits := by
      by_contra above
      have isModulus : fold bits x = modulus bits := by omega
      rw [isModulus, Nat.mod_self] at nonzero
      exact nonzero rfl
    rw [Nat.mod_eq_of_lt below]

/-- A multiplier that is prime to the modulus does not lead to zero. -/
theorem mul_mod_ne_zero
    {m multiplier x : Nat}
    (coprime : Nat.Coprime m multiplier)
    (nonzero : x % m ≠ 0) :
    x * multiplier % m ≠ 0 := by
  intro zero
  have divides := coprime.dvd_of_dvd_mul_right (Nat.dvd_of_mod_eq_zero zero)
  exact nonzero (Nat.mod_eq_zero_of_dvd divides)

/-- Nor does it lead back to the same remainder at once. -/
theorem mul_mod_ne_self
    {m x : Nat}
    (multiplier : Nat)
    (coprime : Nat.Coprime m multiplier)
    (nonzero : x % m ≠ 0) :
    x * (multiplier + 1) % m ≠ x % m := by
  intro same
  have congruent : x * multiplier + x ≡ 0 + x [MOD m] := by
    rw [Nat.zero_add, ← Nat.mul_succ]
    exact same
  have zero : x * multiplier % m = 0 % m := Nat.ModEq.add_right_cancel' x congruent
  rw [Nat.zero_mod] at zero
  exact mul_mod_ne_zero coprime nonzero zero

end Mersenne
