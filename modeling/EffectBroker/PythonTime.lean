import Mathlib.Order.Basic
import Mathlib.Order.Lattice
import EffectBroker.PythonText

/-!
# Python dates and durations

`datetime` (aware, in UTC) and `timedelta` as bounded numbers of microseconds:
the bounds are `datetime.min`, `datetime.max`, `timedelta.min` and
`timedelta.max`, and an addition that leaves them raises `OverflowError`.
-/
namespace Python

/-- The microseconds of one day. -/
def microsPerDay : Nat := 86400000000

/-- A `timedelta`, in microseconds. -/
structure Timedelta where
  micros : Int
  min_le : -(999999999 * 86400000000) ≤ micros
  le_max : micros < 1000000000 * 86400000000
deriving DecidableEq

namespace Timedelta

theorem ext_micros {a b : Timedelta} (h : a.micros = b.micros) : a = b := by
  cases a; cases b; cases h; rfl

instance : LinearOrder Timedelta := LinearOrder.lift' micros (fun _ _ => ext_micros)

/-- `timedelta(0)`. -/
def zero : Timedelta := ⟨0, by decide, by decide⟩

end Timedelta

/-- An aware `datetime` in UTC: the microseconds since 0001-01-01T00:00:00. -/
structure Datetime where
  micros : Nat
  lt_end : micros < 3652059 * 86400000000
deriving DecidableEq

namespace Datetime

theorem ext_micros {a b : Datetime} (h : a.micros = b.micros) : a = b := by
  cases a; cases b; cases h; rfl

instance : LinearOrder Datetime := LinearOrder.lift' micros (fun _ _ => ext_micros)

theorem le_iff {a b : Datetime} : a ≤ b ↔ a.micros ≤ b.micros := Iff.rfl

/-- `t + d`; `none` is `OverflowError`. -/
def add (t : Datetime) (d : Timedelta) : Option Datetime :=
  if h : 0 ≤ (t.micros : Int) + d.micros ∧
      (t.micros : Int) + d.micros < 3652059 * 86400000000 then
    some ⟨((t.micros : Int) + d.micros).toNat, by omega⟩
  else none

/-- `a - b`, which never overflows. -/
def sub (a b : Datetime) : Timedelta :=
  ⟨(a.micros : Int) - b.micros, by have := a.lt_end; have := b.lt_end; omega,
    by have := a.lt_end; have := b.lt_end; omega⟩

theorem add_micros {t u : Datetime} {d : Timedelta} (h : t.add d = some u) :
    (u.micros : Int) = t.micros + d.micros := by
  unfold add at h
  split at h
  · cases h
    exact Int.toNat_of_nonneg (by omega)
  · cases h

theorem le_add {t u : Datetime} {d : Timedelta} (h : t.add d = some u)
    (hd : Timedelta.zero ≤ d) : t ≤ u := by
  have hmicros := add_micros h
  have hzero : (0 : Int) ≤ d.micros := hd
  rw [le_iff]
  omega

/-! ## `isoformat` -/

/-- The days before each month of a year that is not a leap year. -/
def daysBeforeMonth : Nat → Nat
  | 1 => 0 | 2 => 31 | 3 => 59 | 4 => 90 | 5 => 120 | 6 => 151
  | 7 => 181 | 8 => 212 | 9 => 243 | 10 => 273 | 11 => 304 | 12 => 334
  | _ => 0

/-- The days in each month of a year that is not a leap year. -/
def daysInMonth : Nat → Nat
  | 2 => 28 | 4 => 30 | 6 => 30 | 9 => 30 | 11 => 30 | _ => 31

/-- Year, month and day of the `n`-th day, counted from zero. -/
def civil (n : Nat) : Nat × Nat × Nat :=
  let n400 := n / 146097
  let n := n % 146097
  let n100 := n / 36524
  let n := n % 36524
  let n4 := n / 1461
  let n := n % 1461
  let n1 := n / 365
  let n := n % 365
  let year := n400 * 400 + 1 + n100 * 100 + n4 * 4 + n1
  if n1 = 4 ∨ n100 = 4 then (year - 1, 12, 31)
  else
    let leap := if n1 = 3 ∧ (n4 ≠ 24 ∨ n100 = 3) then 1 else 0
    let month := (n + 50) / 32
    let preceding := daysBeforeMonth month + (if 2 < month then leap else 0)
    if n < preceding then
      let month := month - 1
      let preceding := preceding - (daysInMonth month + if month = 2 then leap else 0)
      (year, month, n - preceding + 1)
    else (year, month, n - preceding + 1)

/-- `t.isoformat()`; the fraction is left out when it is zero. -/
def isoformat (t : Datetime) : Str :=
  let date := civil (t.micros / microsPerDay)
  let rest := t.micros % microsPerDay
  let seconds := rest / 1000000
  let fraction := rest % 1000000
  zeroPadded 4 date.1 ++ str "-" ++ zeroPadded 2 date.2.1 ++ str "-" ++ zeroPadded 2 date.2.2 ++
    str "T" ++ zeroPadded 2 (seconds / 3600) ++ str ":" ++ zeroPadded 2 (seconds / 60 % 60) ++
    str ":" ++ zeroPadded 2 (seconds % 60) ++
    (if fraction = 0 then [] else str "." ++ zeroPadded 6 fraction) ++ str "+00:00"

example : isoformat ⟨63902000000000001, by decide⟩ = str "2025-12-22T11:33:20.000001+00:00" := by
  decide

end Datetime
end Python
