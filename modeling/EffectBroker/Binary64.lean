import Mathlib.Data.Int.Log
import Mathlib.Data.Rat.Floor
import Mathlib.Tactic.FieldSimp
import Mathlib.Tactic.NormNum
import Mathlib.Tactic.Ring

/-!
# Binary floating point

The value of an arithmetic operation on finite `binary64` numbers, as a rational: the
exact value rounded to 53 significant bits, ties to even.  Values whose exponent would
be too large do not occur here.
-/
namespace Binary64

/-- The nearest integer; the even one if two are equally near. -/
def roundHalfEven (q : ℚ) : ℤ :=
  let below := ⌊q⌋
  if q - below < 1 / 2 then below
  else if 1 / 2 < q - below then below + 1
  else if below % 2 = 0 then below else below + 1

theorem roundHalfEven_intCast (n : ℤ) : roundHalfEven n = n := by
  unfold roundHalfEven
  simp

/-- The exponent of the last of 53 significant bits. -/
def lastBit (q : ℚ) : ℤ := max (Int.log 2 |q| - 52) (-1074)

/-- The nearest `binary64` number. -/
def round (q : ℚ) : ℚ := roundHalfEven (q / 2 ^ lastBit q) * 2 ^ lastBit q

/-- A multiple of the last bit is a `binary64` number. -/
theorem round_of_multiple {q : ℚ} {m : ℤ} (h : q = m * 2 ^ lastBit q) : round q = q := by
  have hne : (2 : ℚ) ^ lastBit q ≠ 0 := zpow_ne_zero _ (by norm_num)
  have hdiv : q / 2 ^ lastBit q = m := by
    rw [div_eq_iff hne]
    exact h
  rw [round, hdiv, roundHalfEven_intCast]
  exact h.symm

/-- The integers of 53 bits are `binary64` numbers. -/
theorem round_intCast {n : ℤ} (h : |n| < 2 ^ 53) : round n = n := by
  by_cases hn : n = 0
  · subst hn
    norm_num [round, roundHalfEven]
  have hlt : Int.log 2 |(n : ℚ)| < 53 := by
    have hpow : |(n : ℚ)| < (2 : ℕ) ^ (53 : ℤ) := by
      rw [← Int.cast_abs]
      exact_mod_cast h
    exact (Int.lt_zpow_iff_log_lt (by norm_num) (abs_pos.mpr (Int.cast_ne_zero.mpr hn))).mp hpow
  have hle : lastBit n ≤ 0 := max_le (by omega) (by norm_num)
  obtain ⟨k, hk⟩ : ∃ k : ℕ, lastBit n = -k := ⟨(-lastBit n).toNat, by omega⟩
  refine round_of_multiple (m := n * 2 ^ k) ?_
  rw [hk, zpow_neg, zpow_natCast]
  push_cast
  rw [mul_assoc, mul_inv_cancel₀ (pow_ne_zero _ (by norm_num)), mul_one]

/-- `int(x)`: the integer part. -/
def truncate (q : ℚ) : ℤ := q.num.tdiv q.den

theorem truncate_intCast (n : ℤ) : truncate n = n := by
  unfold truncate
  simp

end Binary64
