/-
  DessPlay.Lib.Binary64
  **NATURAL NUMBERS AS BINARY64 VALUES.**

  A conversion to `f64` keeps 53 significant bits, the nearest value, ties to the even
  one.  A product of two such values is rounded the same way, and rounding commutes
  with powers of two; so a comparison of products can be made on natural numbers, with
  the fractions scaled up.
-/
import Mathlib

namespace Binary64

/-- The distance of two neighbouring values at the size of `n`. -/
def unit (n : Nat) : Nat := 2 ^ (n.log2 - 52)

/-- The value nearest to `n`, ties to the even significand. -/
def round (n : Nat) : Nat :=
  let down := n / unit n
  let rest := n % unit n
  if 2 * rest < unit n ∨ 2 * rest = unit n ∧ down % 2 = 0 then down * unit n
  else (down + 1) * unit n

theorem unit_of_lt {n : Nat} (h : n < 2 ^ 53) : unit n = 1 := by
  have hlog : n.log2 ≤ 52 := by
    by_cases hzero : n = 0
    · rw [hzero]; decide
    · exact Nat.lt_succ_iff.mp ((Nat.log2_lt hzero).mpr h)
  rw [unit, Nat.sub_eq_zero_of_le hlog, pow_zero]

/-- The significand of `n` has 53 bits, unless `n` is itself a value. -/
theorem unit_mul_le {n : Nat} (h : 2 ^ 53 ≤ n) : unit n * 2 ^ 52 ≤ n := by
  have hne : n ≠ 0 := by omega
  have hlog : 53 ≤ n.log2 := (Nat.le_log2 hne).mpr h
  rw [unit, ← pow_add, Nat.sub_add_cancel (by omega)]
  exact Nat.log2_self_le hne

theorem round_cases (n : Nat) :
    round n = n / unit n * unit n ∧ 2 * (n % unit n) ≤ unit n ∨
      round n = (n / unit n + 1) * unit n ∧ unit n ≤ 2 * (n % unit n) := by
  unfold round
  dsimp only
  split
  next hdown => exact .inl ⟨rfl, by omega⟩
  next hup => exact .inr ⟨rfl, by omega⟩

theorem round_of_lt {n : Nat} (h : n < 2 ^ 53) : round n = n := by
  simp [round, unit_of_lt h, Nat.mod_one]

/-- **The error** is at most one part in 2⁵³. -/
theorem round_error (n : Nat) :
    2 ^ 53 * round n ≤ 2 ^ 53 * n + n ∧ 2 ^ 53 * n ≤ 2 ^ 53 * round n + n := by
  by_cases hsmall : n < 2 ^ 53
  · rw [round_of_lt hsmall]
    omega
  · have hunit := unit_mul_le (not_lt.mp hsmall)
    have hn := Nat.div_add_mod' n (unit n)
    obtain ⟨heq, hrest⟩ | ⟨heq, hrest⟩ := round_cases n
    · rw [heq]
      omega
    · have hlt := Nat.mod_lt n (show 0 < unit n from Nat.two_pow_pos _)
      rw [heq, Nat.add_mul, Nat.one_mul]
      omega

/-- **No crossing.**  Rounding does not pass a value that is not exceeded. -/
theorem round_le {n k j : Nat} (hk : k < 2 ^ 53) (h : n ≤ k * 2 ^ j) : round n ≤ k * 2 ^ j := by
  by_cases hsmall : n < 2 ^ 53
  · rwa [round_of_lt hsmall]
  · have hn := Nat.div_add_mod' n (unit n)
    obtain ⟨heq, -⟩ | ⟨heq, hrest⟩ := round_cases n
    · rw [heq]
      omega
    · -- the bound is a multiple of the unit, and `n` lies strictly between two of these
      have hpos : 0 < unit n := Nat.two_pow_pos _
      have hdvd : unit n ∣ k * 2 ^ j := by
        refine Dvd.dvd.mul_left (pow_dvd_pow 2 ?_) k
        by_contra hj
        have hle := unit_mul_le (not_lt.mp hsmall)
        have hpow : 2 ^ j * 2 ≤ unit n := by
          rw [← pow_succ]
          exact Nat.pow_le_pow_right (by decide) (by omega)
        have hbound : k * 2 ^ j < 2 ^ 53 * 2 ^ j := Nat.mul_lt_mul_of_pos_right hk (by positivity)
        omega
      obtain ⟨c, hc⟩ := hdvd
      rw [heq, hc, Nat.mul_comm]
      refine Nat.mul_le_mul_left _ (Nat.lt_of_mul_lt_mul_left (a := unit n) ?_)
      rw [← hc, Nat.mul_comm]
      omega

end Binary64
