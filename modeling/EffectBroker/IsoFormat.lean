import EffectBroker.PythonTime

/-!
# ISO timestamps

`datetime.fromisoformat` on what `isoformat` prints.  Reading a printed time gives it
back, and printed times sort as texts in the order of the times.
-/
namespace Python
namespace Datetime

/-! ## Days and dates -/

/-- One if the year is a leap year, else zero. -/
def leapDay (year : Nat) : Nat := if year % 4 = 0 ∧ (year % 100 ≠ 0 ∨ year % 400 = 0) then 1 else 0

/-- The days before a year. -/
def daysBeforeYear (year : Nat) : Nat :=
  (year - 1) * 365 + (year - 1) / 4 - (year - 1) / 100 + (year - 1) / 400

/-- The days in a month of a year. -/
def daysInMonthOf (year month : Nat) : Nat :=
  daysInMonth month + if month = 2 then leapDay year else 0

/-- The days before a month of a year. -/
def daysBeforeMonthOf (year month : Nat) : Nat :=
  daysBeforeMonth month + if 2 < month then leapDay year else 0

/-- A date of the calendar. -/
def IsDate (year month day : Nat) : Prop :=
  1 ≤ year ∧ year ≤ 9999 ∧ 1 ≤ month ∧ month ≤ 12 ∧ 1 ≤ day ∧ day ≤ daysInMonthOf year month

instance (year month day : Nat) : Decidable (IsDate year month day) := by
  unfold IsDate
  infer_instance

/-- The number of a date, counted from zero. -/
def dayOf (year month day : Nat) : Nat :=
  daysBeforeYear year + daysBeforeMonthOf year month + (day - 1)

/-- Month and day of the `n`-th day of a year. -/
def monthAndDay (leap n : Nat) : Nat × Nat :=
  let month := (n + 50) / 32
  let preceding := daysBeforeMonth month + (if 2 < month then leap else 0)
  if n < preceding then
    let month := month - 1
    let preceding := preceding - (daysInMonth month + if month = 2 then leap else 0)
    (month, n - preceding + 1)
  else (month, n - preceding + 1)

theorem monthAndDay_spec : ∀ leap < 2, ∀ n < 365 + leap,
    1 ≤ (monthAndDay leap n).1 ∧ (monthAndDay leap n).1 ≤ 12 ∧ 1 ≤ (monthAndDay leap n).2 ∧
    (monthAndDay leap n).2 ≤ daysInMonth (monthAndDay leap n).1 +
      (if (monthAndDay leap n).1 = 2 then leap else 0) ∧
    daysBeforeMonth (monthAndDay leap n).1 + (if 2 < (monthAndDay leap n).1 then leap else 0) +
      ((monthAndDay leap n).2 - 1) = n := by
  decide +kernel

/-- The number of a day of the calendar is within its year. -/
theorem civil_eq (n : Nat) :
    let a := n / 146097
    let b := n % 146097 / 36524
    let c := n % 146097 % 36524 / 1461
    let e := n % 146097 % 36524 % 1461 / 365
    let r := n % 146097 % 36524 % 1461 % 365
    let year := a * 400 + 1 + b * 100 + c * 4 + e
    civil n = if e = 4 ∨ b = 4 then (year - 1, 12, 31)
      else (year, monthAndDay (if e = 3 ∧ (c ≠ 24 ∨ b = 3) then 1 else 0) r) := by
  simp only [civil, monthAndDay]
  by_cases hlast : n % 146097 % 36524 % 1461 / 365 = 4 ∨ n % 146097 / 36524 = 4
  · rw [if_pos hlast, if_pos hlast]
  · rw [if_neg hlast, if_neg hlast]
    exact (apply_ite (Prod.mk _) _ _ _).symm

theorem daysBeforeYear_eq {a b c e : Nat} (hb : b ≤ 3) (hc : c ≤ 24) (he : e ≤ 3) :
    daysBeforeYear (a * 400 + 1 + b * 100 + c * 4 + e) =
      146097 * a + 36524 * b + 1461 * c + 365 * e := by
  unfold daysBeforeYear
  omega

theorem leapDay_eq {a b c e : Nat} (hb : b ≤ 3) (hc : c ≤ 24) (he : e ≤ 3) :
    leapDay (a * 400 + 1 + b * 100 + c * 4 + e) = if e = 3 ∧ (c ≠ 24 ∨ b = 3) then 1 else 0 :=
  if_congr (by omega) rfl rfl

/-- The date of a day has the number of the day. -/
theorem dayOf_civil {n : Nat} (hn : n < 3652059) :
    IsDate (civil n).1 (civil n).2.1 (civil n).2.2 ∧
    dayOf (civil n).1 (civil n).2.1 (civil n).2.2 = n := by
  have heq := civil_eq n
  simp only at heq
  generalize ha : n / 146097 = a at heq
  generalize hb : n % 146097 / 36524 = b at heq
  generalize hc : n % 146097 % 36524 / 1461 = c at heq
  generalize he : n % 146097 % 36524 % 1461 / 365 = e at heq
  generalize hr : n % 146097 % 36524 % 1461 % 365 = r at heq
  have hdays : n = 146097 * a + 36524 * b + 1461 * c + 365 * e + r := by omega
  by_cases hlast : e = 4 ∨ b = 4
  · -- the last day of a leap year
    obtain ⟨b', c', hb', hc', hleap, hyear, hday⟩ : ∃ b' c', b' ≤ 3 ∧ c' ≤ 24 ∧ (c' ≠ 24 ∨ b' = 3) ∧
        a * 400 + 1 + b * 100 + c * 4 + e - 1 = a * 400 + 1 + b' * 100 + c' * 4 + 3 ∧
        n = 146097 * a + 36524 * b' + 1461 * c' + 365 * 3 + 365 := by
      by_cases hb4 : b = 4
      · exact ⟨3, 24, by omega, by omega, by omega, by omega, by omega⟩
      · exact ⟨b, c, by omega, by omega, by omega, by omega, by omega⟩
    rw [if_pos hlast, hyear] at heq
    have hisLeap := leapDay_eq (a := a) hb' hc' (le_refl 3)
    rw [if_pos ⟨rfl, hleap⟩] at hisLeap
    rw [heq]
    simp only [IsDate, dayOf, daysInMonthOf, daysBeforeMonthOf, daysBeforeYear_eq hb' hc' (le_refl 3),
      hisLeap, show daysBeforeMonth 12 = 334 from rfl, show daysInMonth 12 = 31 from rfl]
    rw [if_neg (show ¬ 12 = 2 by decide), if_pos (show 2 < 12 by decide)]
    omega
  · rw [if_neg hlast] at heq
    have hb' : b ≤ 3 := by omega
    have hc' : c ≤ 24 := by omega
    have he' : e ≤ 3 := by omega
    rw [← leapDay_eq (a := a) hb' hc' he'] at heq
    have hleap : leapDay (a * 400 + 1 + b * 100 + c * 4 + e) < 2 := by
      unfold leapDay
      split <;> decide
    obtain ⟨h1, h12, hd, hdle, hsum⟩ := monthAndDay_spec _ hleap r (by omega)
    rw [heq]
    refine ⟨⟨by omega, by omega, h1, h12, hd, hdle⟩, ?_⟩
    simp only [dayOf, daysBeforeMonthOf, daysBeforeYear_eq hb' hc' he']
    omega

/-! ## Fields of a fixed width -/

/-- Read `width` digits after digits with value `acc`. -/
def readDigits : Nat → Nat → Str → Option (Nat × Str)
  | 0, acc, s => some (acc, s)
  | width + 1, acc, c :: s => (digitValue c).bind fun v => readDigits width (10 * acc + v) s
  | _ + 1, _, [] => none

/-- A field: `width` digits. -/
structure IsField (width n : Nat) (s : Str) : Prop where
  length : s.length = width
  digits : ∀ c ∈ s, ∃ v, digitValue c = some v
  value : digitsFrom 0 s = some n

theorem length_decimal_le {width n : Nat} (hw : 0 < width) (h : n < 10 ^ width) :
    (decimal n).length ≤ width := by
  rw [decimal, List.length_map]
  exact (Nat.length_toDigits_le_iff (by decide) hw).mpr h

theorem isField_zeroPadded (width : Nat) {n : Nat} (hw : 0 < width) (h : n < 10 ^ width) :
    IsField width n (zeroPadded width n) := by
  have hlen := length_decimal_le hw h
  refine ⟨?_, fun c hc => ?_, digitsFrom_zeroPadded width n⟩
  · rw [zeroPadded, List.length_append, List.length_replicate]
    omega
  · rcases List.mem_append.mp hc with hc | hc
    · rw [(List.mem_replicate.mp hc).2]
      exact ⟨0, by decide⟩
    · exact decimal_digit hc

theorem readDigits_append {s : Str} (hs : ∀ c ∈ s, ∃ v, digitValue c = some v) (acc : Nat)
    (rest : Str) :
    readDigits s.length acc (s ++ rest) = (digitsFrom acc s).map fun n => (n, rest) := by
  induction s generalizing acc with
  | nil => rfl
  | cons c s ih =>
    obtain ⟨v, hv⟩ := hs c (List.mem_cons_self ..)
    rw [List.length_cons, List.cons_append, readDigits, hv, Option.bind_some, digitsFrom_cons hv]
    exact ih (fun d hd => hs d (List.mem_cons_of_mem _ hd)) _

theorem IsField.read {width n : Nat} {s : Str} (h : IsField width n s) (rest : Str) :
    readDigits width 0 (s ++ rest) = some (n, rest) := by
  have := readDigits_append h.digits 0 rest
  rwa [h.length, h.value] at this

/-! ## Reading a printed time -/

theorem daysBeforeMonthOf_lt {year month day : Nat} (h : IsDate year month day) :
    daysBeforeMonthOf year month + (day - 1) < 365 + leapDay year := by
  obtain ⟨-, -, h1, h12, hd, hdle⟩ := h
  unfold daysInMonthOf at hdle
  unfold daysBeforeMonthOf
  have : month = 1 ∨ month = 2 ∨ month = 3 ∨ month = 4 ∨ month = 5 ∨ month = 6 ∨ month = 7 ∨
      month = 8 ∨ month = 9 ∨ month = 10 ∨ month = 11 ∨ month = 12 := by omega
  rcases this with rfl | rfl | rfl | rfl | rfl | rfl | rfl | rfl | rfl | rfl | rfl | rfl <;>
    simp [daysInMonth, daysBeforeMonth] at hdle ⊢ <;> omega

/-- The days of a month come before every later month. -/
theorem daysBeforeMonthOf_next {year month day later : Nat} (h : IsDate year month day)
    (hlt : month < later) (hlater : later ≤ 12) :
    daysBeforeMonthOf year month + day ≤ daysBeforeMonthOf year later := by
  have hday := h.2.2.2.2.2
  have hmonths : ∀ leap < 2, ∀ later < 13, ∀ month < later, 1 ≤ month →
      daysBeforeMonth month + (if 2 < month then leap else 0) +
        (daysInMonth month + if month = 2 then leap else 0) ≤
      daysBeforeMonth later + if 2 < later then leap else 0 := by decide
  have hleap : leapDay year < 2 := by
    unfold leapDay
    split <;> decide
  have := hmonths _ hleap later (by omega) month hlt h.2.2.1
  unfold daysInMonthOf at hday
  unfold daysBeforeMonthOf
  omega

theorem daysBeforeYear_succ {year : Nat} (h : 1 ≤ year) :
    daysBeforeYear (year + 1) = daysBeforeYear year + 365 + leapDay year := by
  obtain ⟨n, rfl⟩ : ∃ n, year = n + 1 := ⟨year - 1, by omega⟩
  have h4 : (n + 1) / 4 = n / 4 + if 4 ∣ n + 1 then 1 else 0 := Nat.succ_div
  have h100 : (n + 1) / 100 = n / 100 + if 100 ∣ n + 1 then 1 else 0 := Nat.succ_div
  have h400 : (n + 1) / 400 = n / 400 + if 400 ∣ n + 1 then 1 else 0 := Nat.succ_div
  simp only [Nat.dvd_iff_mod_eq_zero] at h4 h100 h400
  simp only [daysBeforeYear, leapDay, Nat.add_sub_cancel, h4, h100, h400]
  have hle : n / 100 ≤ n / 4 := Nat.div_le_div_left (by decide) (by decide)
  by_cases hq : (n + 1) % 4 = 0
  · by_cases hc : (n + 1) % 100 = 0
    · by_cases hf : (n + 1) % 400 = 0
      · simp only [hq, hc, hf, ne_eq, not_true_eq_false, or_true, and_self, if_true]
        omega
      · simp only [hq, hc, hf, ne_eq, not_true_eq_false, or_false, and_false, if_true, if_false]
        omega
    · have hf : ¬ (n + 1) % 400 = 0 := by omega
      simp only [hq, hc, hf, ne_eq, not_false_eq_true, or_false, and_self, if_true, if_false]
      omega
  · have hc : ¬ (n + 1) % 100 = 0 := by omega
    have hf : ¬ (n + 1) % 400 = 0 := by omega
    simp only [hq, hc, hf, false_and, if_false]
    omega

theorem daysBeforeYear_mono : Monotone daysBeforeYear := by
  refine monotone_nat_of_le_succ fun year => ?_
  by_cases h : 1 ≤ year
  · rw [daysBeforeYear_succ h]
    omega
  · obtain rfl : year = 0 := by omega
    decide

theorem dayOf_lt_next {year month day : Nat} (h : IsDate year month day) :
    dayOf year month day < daysBeforeYear (year + 1) := by
  have := daysBeforeMonthOf_lt h
  rw [daysBeforeYear_succ h.1]
  unfold dayOf
  omega

theorem dayOf_lt {year month day : Nat} (h : IsDate year month day) :
    dayOf year month day < 3652059 :=
  Nat.lt_of_lt_of_le (dayOf_lt_next h) (daysBeforeYear_mono (Nat.succ_le_succ h.2.1))

/-- `datetime.fromisoformat` of a time in UTC, in the format of `isoformat`; the other
formats that it knows are never stored. -/
def fromisoformat (s : Str) : Option Datetime := do
  let (year, s) ← readDigits 4 0 s
  let s ← expect '-' s
  let (month, s) ← readDigits 2 0 s
  let s ← expect '-' s
  let (day, s) ← readDigits 2 0 s
  let s ← expect 'T' s
  let (hour, s) ← readDigits 2 0 s
  let s ← expect ':' s
  let (minute, s) ← readDigits 2 0 s
  let s ← expect ':' s
  let (second, s) ← readDigits 2 0 s
  let (fraction, s) ← match expect '.' s with
    | some s => readDigits 6 0 s
    | none => some (0, s)
  if h : IsDate year month day ∧ hour < 24 ∧ minute < 60 ∧ second < 60 ∧ fraction < 1000000 ∧
      s = str "+00:00" then
    some ⟨dayOf year month day * 86400000000 + ((hour * 60 + minute) * 60 + second) * 1000000 +
      fraction, by have := dayOf_lt h.1; omega⟩
  else none

theorem bind_of_some {α β : Type} {x : Option α} {a : α} (h : x = some a) (f : α → Option β) :
    (x >>= f) = f a := by
  rw [h]
  rfl

/-- **Reading a printed time gives it back.** -/
theorem fromisoformat_isoformat (t : Datetime) : fromisoformat t.isoformat = some t := by
  have hday : t.micros / microsPerDay < 3652059 := by
    have := t.lt_end
    unfold microsPerDay
    omega
  obtain ⟨hdate, hnumber⟩ := dayOf_civil hday
  unfold isoformat
  generalize hciv : civil (t.micros / microsPerDay) = date at hdate hnumber
  obtain ⟨year, month, day⟩ := date
  simp only at hdate hnumber ⊢
  generalize hrest : t.micros % microsPerDay = rest
  have hlt : rest < 86400000000 := by
    rw [← hrest]
    exact Nat.mod_lt _ (by decide)
  have hmonth : daysInMonthOf year month ≤ 32 := by
    unfold daysInMonthOf daysInMonth leapDay
    split <;> split <;> (try split) <;> omega
  have hy := isField_zeroPadded 4 (n := year) (by decide) (by have := hdate.2.1; omega)
  have hmo := isField_zeroPadded 2 (n := month) (by decide)
    (by have := hdate.2.2.2.1; omega)
  have hd := isField_zeroPadded 2 (n := day) (by decide)
    (by have := hdate.2.2.2.2.2; omega)
  have hh := isField_zeroPadded 2 (n := rest / 1000000 / 3600) (by decide) (by omega)
  have hmi := isField_zeroPadded 2 (n := rest / 1000000 / 60 % 60) (by decide) (by omega)
  have hs := isField_zeroPadded 2 (n := rest / 1000000 % 60) (by decide) (by omega)
  have hf := isField_zeroPadded 6 (n := rest % 1000000) (by decide) (by omega)
  have hmicros : dayOf year month day * 86400000000 + ((rest / 1000000 / 3600 * 60 +
      rest / 1000000 / 60 % 60) * 60 + rest / 1000000 % 60) * 1000000 + rest % 1000000 = t.micros := by
    have := Nat.div_add_mod t.micros microsPerDay
    rw [hrest] at this
    rw [hnumber]
    unfold microsPerDay at this ⊢
    omega
  have hdash : str "-" = [CodePoint.ofChar '-'] := rfl
  have hT : str "T" = [CodePoint.ofChar 'T'] := rfl
  have hcolon : str ":" = [CodePoint.ofChar ':'] := rfl
  have hdot : str "." = [CodePoint.ofChar '.'] := rfl
  simp only [List.append_assoc, hdash, hT, hcolon, hdot, List.cons_append,
    List.nil_append]
  -- The fields and the separators between them, in the order of the text.
  unfold fromisoformat
  refine (bind_of_some (hy.read _) _).trans ?_
  refine (bind_of_some (expect_cons ..) _).trans ?_
  refine (bind_of_some (hmo.read _) _).trans ?_
  refine (bind_of_some (expect_cons ..) _).trans ?_
  refine (bind_of_some (hd.read _) _).trans ?_
  refine (bind_of_some (expect_cons ..) _).trans ?_
  refine (bind_of_some (hh.read _) _).trans ?_
  refine (bind_of_some (expect_cons ..) _).trans ?_
  refine (bind_of_some (hmi.read _) _).trans ?_
  refine (bind_of_some (expect_cons ..) _).trans ?_
  refine (bind_of_some (hs.read _) _).trans ?_
  dsimp only
  by_cases hzero : rest % 1000000 = 0
  · have hend : expect '.' (str "+00:00") = none := by decide
    rw [if_pos hzero, List.nil_append, hend]
    refine (bind_of_some rfl _).trans ?_
    dsimp only
    rw [dif_pos ⟨hdate, by omega, by omega, by omega, by omega, rfl⟩]
    refine congrArg some (ext_micros ?_)
    rw [hzero] at hmicros
    exact hmicros
  · rw [if_neg hzero, List.cons_append, expect_cons]
    refine (bind_of_some (hf.read _) _).trans ?_
    dsimp only
    rw [dif_pos ⟨hdate, by omega, by omega, by omega, by omega, rfl⟩]
    exact congrArg some (ext_micros hmicros)

/-! ## Printed times sort like the times -/

theorem append_lt_append_iff {a b : Str} (h : a.length = b.length) (x y : Str) :
    a ++ x < b ++ y ↔ a < b ∨ a = b ∧ x < y := by
  induction a generalizing b with
  | nil =>
    obtain rfl := List.length_eq_zero_iff.mp h.symm
    simp
  | cons c a ih =>
    cases b with
    | nil => cases h
    | cons d b =>
      simp only [List.cons_append, List.cons_lt_cons_iff, ih (Nat.succ.inj h), List.cons.injEq]
      tauto

/-- Digits with a larger value before them have a larger value. -/
theorem digitsFrom_bounds {s : Str} (hs : ∀ c ∈ s, ∃ v, digitValue c = some v) (acc : Nat) :
    ∃ n, digitsFrom acc s = some n ∧ acc * 10 ^ s.length ≤ n ∧ n < (acc + 1) * 10 ^ s.length := by
  induction s generalizing acc with
  | nil => exact ⟨acc, rfl, by simp, by simp⟩
  | cons c s ih =>
    obtain ⟨v, hv⟩ := hs c (List.mem_cons_self ..)
    obtain ⟨n, hn, hle, hlt⟩ := ih (fun d hd => hs d (List.mem_cons_of_mem _ hd)) (10 * acc + v)
    have hv9 : v ≤ 9 := by
      unfold digitValue at hv
      split at hv <;> cases hv
      omega
    have shift : ∀ m : Nat, m * 10 ^ (c :: s).length = 10 * m * 10 ^ s.length := fun m => by
      rw [List.length_cons, Nat.pow_succ, Nat.mul_comm (10 ^ s.length), ← Nat.mul_assoc,
        Nat.mul_comm m]
    refine ⟨n, (digitsFrom_cons hv s).trans hn, ?_, ?_⟩
    · rw [shift]
      exact Nat.le_trans (Nat.mul_le_mul_right _ (Nat.le_add_right ..)) hle
    · rw [shift]
      exact Nat.lt_of_lt_of_le hlt (Nat.mul_le_mul_right _ (by omega))

theorem digitValue_lt {c d : CodePoint} {v w : Nat} (hc : digitValue c = some v)
    (hd : digitValue d = some w) (h : v < w) : c < d := by
  unfold digitValue at hc hd
  split at hc <;> cases hc
  split at hd <;> cases hd
  exact Fin.lt_def.mpr (by omega)

theorem digitValue_inj {c d : CodePoint} {v : Nat} (hc : digitValue c = some v)
    (hd : digitValue d = some v) : c = d := by
  have value : ∀ {e : CodePoint}, digitValue e = some v → e.val = v + 48 := fun {e} he => by
    unfold digitValue at he
    split at he
    · have := Option.some.inj he
      omega
    · cases he
  exact Fin.ext ((value hc).trans (value hd).symm)

/-- Digits of one length sort like the numbers. -/
theorem digits_lt {s t : Str} (hs : ∀ c ∈ s, ∃ v, digitValue c = some v)
    (ht : ∀ c ∈ t, ∃ v, digitValue c = some v) (hlen : s.length = t.length) {acc m n : Nat}
    (hm : digitsFrom acc s = some m) (hn : digitsFrom acc t = some n) (h : m < n) : s < t := by
  induction s generalizing t acc with
  | nil =>
    obtain rfl := List.length_eq_zero_iff.mp hlen.symm
    rw [hm] at hn
    cases hn
    exact absurd h (Nat.lt_irrefl _)
  | cons c s ih =>
    cases t with
    | nil => cases hlen
    | cons d t =>
      obtain ⟨v, hv⟩ := hs c (List.mem_cons_self ..)
      obtain ⟨w, hw⟩ := ht d (List.mem_cons_self ..)
      have hs' := fun e he => hs e (List.mem_cons_of_mem c he)
      have ht' := fun e he => ht e (List.mem_cons_of_mem d he)
      rw [digitsFrom_cons hv] at hm
      rw [digitsFrom_cons hw] at hn
      rcases Nat.lt_trichotomy v w with hvw | rfl | hvw
      · exact List.cons_lt_cons_iff.mpr (.inl (digitValue_lt hv hw hvw))
      · have hcd := digitValue_inj hv hw
        exact List.cons_lt_cons_iff.mpr (.inr ⟨hcd, ih hs' ht' (Nat.succ.inj hlen) hm hn⟩)
      · -- a larger first digit makes a larger number
        obtain ⟨m', hm', hle, -⟩ := digitsFrom_bounds hs' (10 * acc + v)
        obtain ⟨n', hn', -, hlt⟩ := digitsFrom_bounds ht' (10 * acc + w)
        rw [hm] at hm'
        rw [hn] at hn'
        cases hm'
        cases hn'
        have hmul : (10 * acc + w + 1) * 10 ^ t.length ≤ (10 * acc + v) * 10 ^ s.length := by
          rw [Nat.succ.inj hlen]
          exact Nat.mul_le_mul_right _ (by omega)
        omega

theorem IsField.lt {width m n : Nat} {s t : Str} (hs : IsField width m s) (ht : IsField width n t)
    (h : m < n) : s < t :=
  digits_lt hs.digits ht.digits (hs.length.trans ht.length.symm) hs.value ht.value h

theorem lt_of_dayOf_lt {y m d y' m' d' : Nat} (h : IsDate y m d) (h' : IsDate y' m' d')
    (hlt : dayOf y m d < dayOf y' m' d') : y < y' ∨ y = y' ∧ (m < m' ∨ m = m' ∧ d < d') := by
  rcases Nat.lt_trichotomy y y' with hy | rfl | hy
  · exact .inl hy
  · refine .inr ⟨rfl, ?_⟩
    unfold dayOf at hlt
    rcases Nat.lt_trichotomy m m' with hm | rfl | hm
    · exact .inl hm
    · exact .inr ⟨rfl, by have := h.2.2.2.2.1; omega⟩
    · have hnext := daysBeforeMonthOf_next h' hm h.2.2.2.1
      have := h'.2.2.2.2
      omega
  · have := dayOf_lt_next h'
    have hmono := daysBeforeYear_mono (show y' + 1 ≤ y from hy)
    unfold dayOf at hlt this
    omega

theorem zeroPadded_append_lt {width m n : Nat} (hw : 0 < width) (hm : m < 10 ^ width)
    (hn : n < 10 ^ width) {x y : Str} (h : m < n ∨ m = n ∧ x < y) :
    zeroPadded width m ++ x < zeroPadded width n ++ y := by
  have hfm := isField_zeroPadded width hw hm
  have hfn := isField_zeroPadded width hw hn
  refine (append_lt_append_iff (hfm.length.trans hfn.length.symm) x y).mpr ?_
  rcases h with h | ⟨rfl, h⟩
  · exact .inl (hfm.lt hfn h)
  · exact .inr ⟨rfl, h⟩

/-- The text of a fraction of a second and of the offset. -/
theorem fraction_lt {f g : Nat} (hg : g < 1000000) (h : f < g) :
    (if f = 0 then [] else str "." ++ zeroPadded 6 f) ++ str "+00:00" <
      (if g = 0 then [] else str "." ++ zeroPadded 6 g) ++ str "+00:00" := by
  rw [if_neg (show ¬ g = 0 by omega), List.append_assoc]
  by_cases hf : f = 0
  · -- a plus sign sorts before a dot
    rw [if_pos hf]
    exact List.cons_lt_cons_iff.mpr (.inl (by decide))
  · rw [if_neg hf, List.append_assoc]
    exact List.append_left_lt (zeroPadded_append_lt (by decide) (by omega) (by omega) (.inl h))

/-- **Printed times sort as texts like the times.** -/
theorem isoformat_lt {a b : Datetime} (h : a < b) : a.isoformat < b.isoformat := by
  have hlt : a.micros < b.micros := h
  have ha := a.lt_end
  have hb := b.lt_end
  have hda : a.micros / microsPerDay < 3652059 := by
    unfold microsPerDay
    omega
  have hdb : b.micros / microsPerDay < 3652059 := by
    unfold microsPerDay
    omega
  obtain ⟨hdatea, hna⟩ := dayOf_civil hda
  obtain ⟨hdateb, hnb⟩ := dayOf_civil hdb
  have hrest : ∀ t : Datetime, t.micros % microsPerDay < 86400000000 := fun t =>
    Nat.mod_lt _ (by decide)
  have hmonth : ∀ {year month day}, IsDate year month day → day < 100 := fun {year month day} hd => by
    have := hd.2.2.2.2.2
    unfold daysInMonthOf daysInMonth leapDay at this
    split at this <;> split at this <;> (try split at this) <;> omega
  have hra := hrest a
  have hrb := hrest b
  unfold isoformat
  simp only [List.append_assoc]
  have hy : ∀ {year month day}, IsDate year month day → year < 10 ^ 4 := fun hd => by
    have := hd.2.1
    omega
  have hm : ∀ {year month day}, IsDate year month day → month < 10 ^ 2 := fun hd => by
    have := hd.2.2.2.1
    omega
  refine zeroPadded_append_lt (by decide) (hy hdatea) (hy hdateb) ?_
  by_cases hday : a.micros / microsPerDay = b.micros / microsPerDay
  · -- on one day the times of day decide
    rw [hday]
    have hlt' : a.micros % microsPerDay < b.micros % microsPerDay := by
      have h1 := Nat.div_add_mod a.micros microsPerDay
      have h2 := Nat.div_add_mod b.micros microsPerDay
      rw [hday] at h1
      omega
    refine .inr ⟨rfl, List.append_left_lt (List.append_left_lt (List.append_left_lt
      (List.append_left_lt (List.append_left_lt ?_))))⟩
    generalize a.micros % microsPerDay = r at hra hlt' ⊢
    generalize b.micros % microsPerDay = r' at hrb hlt' ⊢
    refine zeroPadded_append_lt (by decide) (by omega) (by omega) ?_
    by_cases hh : r / 1000000 / 3600 = r' / 1000000 / 3600
    · refine .inr ⟨hh, List.append_left_lt (zeroPadded_append_lt (by decide) (by omega) (by omega) ?_)⟩
      by_cases hmi : r / 1000000 / 60 % 60 = r' / 1000000 / 60 % 60
      · refine .inr ⟨hmi, List.append_left_lt
          (zeroPadded_append_lt (by decide) (by omega) (by omega) ?_)⟩
        by_cases hs : r / 1000000 % 60 = r' / 1000000 % 60
        · exact .inr ⟨hs, fraction_lt (by omega) (by omega)⟩
        · exact .inl (by omega)
      · exact .inl (by omega)
    · exact .inl (by omega)
  · have hdays : dayOf (civil (a.micros / microsPerDay)).1 (civil (a.micros / microsPerDay)).2.1
        (civil (a.micros / microsPerDay)).2.2 <
        dayOf (civil (b.micros / microsPerDay)).1 (civil (b.micros / microsPerDay)).2.1
          (civil (b.micros / microsPerDay)).2.2 := by
      rw [hna, hnb]
      have := Nat.div_le_div_right (c := microsPerDay) (Nat.le_of_lt hlt)
      omega
    rcases lt_of_dayOf_lt hdatea hdateb hdays with h | ⟨h, h' | ⟨h', h''⟩⟩
    · exact .inl h
    · exact .inr ⟨h, List.append_left_lt (zeroPadded_append_lt (by decide) (hm hdatea) (hm hdateb)
        (.inl h'))⟩
    · exact .inr ⟨h, List.append_left_lt (zeroPadded_append_lt (by decide) (hm hdatea) (hm hdateb)
        (.inr ⟨h', List.append_left_lt (zeroPadded_append_lt (by decide) (hmonth hdatea)
          (hmonth hdateb) (.inl h''))⟩))⟩

/-- Printed times sort like the times. -/
theorem isoformat_lt_iff {a b : Datetime} : a.isoformat < b.isoformat ↔ a < b := by
  constructor
  · intro h
    rcases lt_trichotomy a b with hlt | heq | hgt
    · exact hlt
    · rw [heq] at h
      exact absurd h (List.lt_irrefl _)
    · exact absurd h (List.lt_asymm (isoformat_lt hgt))
  · intro h
    exact isoformat_lt h

theorem isoformat_injective : Function.Injective isoformat := by
  intro a b h
  have := fromisoformat_isoformat a
  rw [h, fromisoformat_isoformat] at this
  exact (Option.some.inj this).symm

end Datetime
end Python
