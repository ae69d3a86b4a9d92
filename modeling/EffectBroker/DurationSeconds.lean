import EffectBroker.Binary64
import EffectBroker.PythonTime

/-!
# Durations in seconds

`timedelta.total_seconds()`, `timedelta(seconds=x)` and `int(x)` for a float `x`.  A whole
number of seconds survives the change of unit; a fraction may not.
-/
namespace Python
namespace Timedelta

/-- A `timedelta` of this many microseconds; `none` is `OverflowError`. -/
def ofMicros (micros : Int) : Option Timedelta :=
  if h : -(999999999 * 86400000000) ≤ micros ∧ micros < 1000000000 * 86400000000 then
    some ⟨micros, h.1, h.2⟩
  else none

/-- `d.total_seconds()`: the quotient, as a float. -/
def totalSeconds (d : Timedelta) : ℚ := Binary64.round (d.micros / 1000000)

/-- `timedelta(seconds=x)` for an integer `x`. -/
def ofIntSeconds (seconds : Int) : Option Timedelta := ofMicros (seconds * 1000000)

/-- `timedelta(seconds=x)` for a finite float `x`: the integer part counts exactly, the
fraction is multiplied in floating point and rounded to a whole microsecond. -/
def ofFloatSeconds (seconds : ℚ) : Option Timedelta :=
  let whole := Binary64.truncate seconds
  let fraction := seconds - whole
  ofMicros (whole * 1000000 + Binary64.roundHalfEven (Binary64.round (fraction * 1000000)))

/-- A duration of whole seconds. -/
def IsWhole (d : Timedelta) : Prop := 1000000 ∣ d.micros

instance (d : Timedelta) : Decidable d.IsWhole := inferInstanceAs (Decidable (_ ∣ _))

theorem ofMicros_micros (d : Timedelta) : ofMicros d.micros = some d := by
  unfold ofMicros
  rw [dif_pos ⟨d.min_le, d.le_max⟩]

theorem micros_of_ofMicros {micros : Int} {d : Timedelta} (h : ofMicros micros = some d) :
    d.micros = micros := by
  unfold ofMicros at h
  split at h
  · cases h
    rfl
  · cases h

/-- Whole seconds are a float exactly. -/
theorem IsWhole.totalSeconds {d : Timedelta} (h : d.IsWhole) :
    d.totalSeconds = (d.micros / 1000000 : Int) := by
  obtain ⟨k, hk⟩ := h
  have hmin := d.min_le
  have hmax := d.le_max
  have hdiv : (d.micros : ℚ) / 1000000 = (d.micros / 1000000 : Int) := by
    rw [hk, Int.mul_ediv_cancel_left k (by decide)]
    push_cast
    rw [mul_comm, mul_div_assoc, div_self (by norm_num), mul_one]
  have hlt : |d.micros / 1000000| < 2 ^ 53 := by
    rw [abs_lt]
    omega
  rw [Timedelta.totalSeconds, hdiv]
  exact Binary64.round_intCast hlt

theorem IsWhole.ofIntSeconds {d : Timedelta} (h : d.IsWhole) :
    Timedelta.ofIntSeconds (Binary64.truncate d.totalSeconds) = some d := by
  rw [h.totalSeconds, Binary64.truncate_intCast, Timedelta.ofIntSeconds,
    Int.ediv_mul_cancel h]
  exact ofMicros_micros d

theorem IsWhole.ofFloatSeconds {d : Timedelta} (h : d.IsWhole) :
    Timedelta.ofFloatSeconds d.totalSeconds = some d := by
  have hzero : Binary64.roundHalfEven (Binary64.round 0) = 0 := by
    have hround := Binary64.round_intCast (n := 0) (by decide)
    rw [Int.cast_zero] at hround
    rw [hround]
    exact Binary64.roundHalfEven_intCast 0
  rw [h.totalSeconds, Timedelta.ofFloatSeconds, Binary64.truncate_intCast]
  simp only [sub_self, zero_mul, hzero, add_zero]
  rw [Int.ediv_mul_cancel h]
  exact ofMicros_micros d

/-- A whole number of seconds is all that an integer of seconds can give. -/
theorem isWhole_of_ofIntSeconds {seconds : Int} {d : Timedelta}
    (h : Timedelta.ofIntSeconds seconds = some d) : d.IsWhole := by
  rw [IsWhole, micros_of_ofMicros h]
  exact Int.dvd_mul_left _ _

end Timedelta
end Python
