import Mathlib.Algebra.GroupWithZero.Nat
import Mathlib.Data.List.Basic
import Mathlib.Data.List.Lex
import Mathlib.Order.Basic

/-!
# Python text

A Python `str` is a sequence of code points, lone surrogates included, so it is
not a Lean `String`.  This module has the operations on it that the rest of the
development needs: literals, decimal rendering and zero padding (`f"{n}"`,
`f"{n:06d}"`), `int(s)`, `s.rsplit(sep, maxsplit=1)` and the UTF-8 encoder.
-/
namespace Python

/-- A code point, surrogates included. -/
abbrev CodePoint := Fin 0x110000

instance neZero_codePoints : NeZero 0x110000 := ⟨by decide⟩

/-- A Python `str`. -/
abbrev Str := List CodePoint

/-- A Python `bytes`. -/
abbrev Bytes := List UInt8

theorem char_toNat_lt (c : Char) : c.toNat < 0x110000 := by
  rcases c.valid with h | h
  · exact Nat.lt_trans h (by decide)
  · exact h.2

/-- The code point of a Lean character. -/
def CodePoint.ofChar (c : Char) : CodePoint := ⟨c.toNat, char_toNat_lt c⟩

theorem CodePoint.ofChar_injective : Function.Injective CodePoint.ofChar := by
  intro c d h
  exact Char.toNat_inj.mp (Fin.mk.inj h)

/-- A string literal. -/
def str (s : String) : Str := s.toList.map CodePoint.ofChar

@[simp] theorem str_inj {a b : String} : str a = str b ↔ a = b := by
  constructor
  · intro h
    exact String.toList_injective (List.map_injective_iff.mpr CodePoint.ofChar_injective h)
  · exact congrArg str

/-! ## Decimal numbers -/

/-- `str(n)` for a natural number. -/
def decimal (n : Nat) : Str := (Nat.toDigits 10 n).map CodePoint.ofChar

/-- `str(z)` for an integer. -/
def decimalInt : Int → Str
  | .ofNat n => decimal n
  | .negSucc n => CodePoint.ofChar '-' :: decimal (n + 1)

/-- `f"{n:0{width}d}"`: `n` in decimal, padded with zeros on the left. -/
def zeroPadded (width n : Nat) : Str :=
  List.replicate (width - (decimal n).length) (CodePoint.ofChar '0') ++ decimal n

/-- The value of an ASCII digit. -/
def digitValue (c : CodePoint) : Option Nat :=
  if 48 ≤ c.val ∧ c.val ≤ 57 then some (c.val - 48) else none

/-- The rest of a decimal literal whose first digits have value `acc`: digits,
with single underscores between them. -/
def digitsFrom : Nat → Str → Option Nat
  | acc, [] => some acc
  | acc, [c] => (digitValue c).map (10 * acc + ·)
  | acc, c :: d :: rest =>
    match digitValue c with
    | some v => digitsFrom (10 * acc + v) (d :: rest)
    | none =>
      if c = CodePoint.ofChar '_' then
        match digitValue d with
        | some v => digitsFrom (10 * acc + v) rest
        | none => none
      else none

/-- A decimal literal: at least one digit, and only digits and underscores. -/
def parseDigits : Str → Option Nat
  | [] => none
  | c :: rest => (digitValue c).bind (digitsFrom · rest)

/-- White space, as `str.strip` understands it. -/
def isSpace (c : CodePoint) : Bool :=
  let n := c.val
  (9 ≤ n && n ≤ 13) || (28 ≤ n && n ≤ 32) || n == 0x85 || n == 0xA0 || n == 0x1680 ||
    (0x2000 ≤ n && n ≤ 0x200A) || n == 0x2028 || n == 0x2029 || n == 0x202F || n == 0x205F ||
    n == 0x3000

/-- `s.strip()`. -/
def strip (s : Str) : Str :=
  ((s.dropWhile isSpace).reverse.dropWhile isSpace).reverse

/-- `int(s)` on ASCII digits; `none` is `ValueError`. -/
def int (s : Str) : Option Int :=
  match strip s with
  | [] => none
  | c :: rest =>
    if c = CodePoint.ofChar '-' then (parseDigits rest).map (fun n => -(n : Int))
    else if c = CodePoint.ofChar '+' then (parseDigits rest).map Int.ofNat
    else (parseDigits (c :: rest)).map Int.ofNat

/-- `s.rsplit(sep, maxsplit=1)` for a one-character separator. -/
def rsplitOnce (sep : CodePoint) (s : Str) : List Str :=
  if sep ∈ s then
    [((s.reverse.dropWhile (· ≠ sep)).drop 1).reverse, (s.reverse.takeWhile (· ≠ sep)).reverse]
  else [s]

/-- Read one given character. -/
def expect (c : Char) : Str → Option Str
  | [] => none
  | d :: s => if d = CodePoint.ofChar c then some s else none

theorem expect_cons (c : Char) (rest : Str) : expect c (CodePoint.ofChar c :: rest) = some rest :=
  if_pos rfl

/-! ### What a decimal consists of -/

theorem isDigit_of_mem_toDigits {n : Nat} {c : Char} (h : c ∈ Nat.toDigits 10 n) :
    c.isDigit = true :=
  Nat.isDigit_of_mem_toDigits (by decide) (by decide) h

theorem digitValue_ofChar {c : Char} (h : c.isDigit = true) :
    digitValue (CodePoint.ofChar c) = some (c.toNat - 48) := by
  have hc := Char.isDigit_iff_toNat.mp h
  have hb : 48 ≤ (CodePoint.ofChar c).val ∧ (CodePoint.ofChar c).val ≤ 57 := hc
  rw [digitValue, if_pos hb]
  rfl

theorem decimal_digit {n : Nat} {c : CodePoint} (h : c ∈ decimal n) :
    ∃ v, digitValue c = some v := by
  obtain ⟨d, hd, rfl⟩ := List.mem_map.mp h
  exact ⟨_, digitValue_ofChar (isDigit_of_mem_toDigits hd)⟩

theorem decimal_ne_nil (n : Nat) : decimal n ≠ [] := by
  intro h
  exact Nat.toDigits_ne_nil (List.map_eq_nil_iff.mp h)

/-- A character that is no digit is not in a decimal. -/
theorem not_mem_decimal {c : CodePoint} (hc : digitValue c = none) (n : Nat) :
    c ∉ decimal n := by
  intro h
  obtain ⟨v, hv⟩ := decimal_digit h
  rw [hc] at hv
  cases hv

theorem digitsFrom_cons {acc v : Nat} {c : CodePoint} (hc : digitValue c = some v) (rest : Str) :
    digitsFrom acc (c :: rest) = digitsFrom (10 * acc + v) rest := by
  cases rest with
  | nil => simp [digitsFrom, hc]
  | cons d rest => simp [digitsFrom, hc]

theorem digitsFrom_map {l : List Char} (hl : ∀ c ∈ l, c.isDigit = true) (acc : Nat) :
    digitsFrom acc (l.map CodePoint.ofChar) = some (Nat.ofDigitChars 10 l acc) := by
  induction l generalizing acc with
  | nil => rfl
  | cons c l ih =>
    rw [List.map_cons, digitsFrom_cons (digitValue_ofChar (hl c (by simp))),
      ih (fun d hd => hl d (by simp [hd])), Nat.ofDigitChars_cons]
    rfl

/-- Parsing a rendered number gives it back. -/
theorem parseDigits_decimal (n : Nat) : parseDigits (decimal n) = some n := by
  have hd : ∀ c ∈ Nat.toDigits 10 n, c.isDigit = true :=
    fun _ hc => isDigit_of_mem_toDigits hc
  have hv := Nat.ofDigitChars_toDigits (n := n) (b := 10) (by decide) (by decide)
  unfold decimal
  cases hl : Nat.toDigits 10 n with
  | nil => exact absurd hl Nat.toDigits_ne_nil
  | cons c l =>
    rw [hl] at hd hv
    rw [List.map_cons, parseDigits, digitValue_ofChar (hd c (by simp)), Option.bind_some,
      digitsFrom_map (fun d h => hd d (by simp [h])), ← hv, Nat.ofDigitChars_cons]
    simp

theorem decimal_injective : Function.Injective decimal := by
  intro m n h
  have := parseDigits_decimal m
  rw [h, parseDigits_decimal] at this
  exact (Option.some.inj this).symm

/-- Zero padding keeps the value. -/
theorem digitsFrom_zeroPadded (width n : Nat) : digitsFrom 0 (zeroPadded width n) = some n := by
  have hz : digitValue (CodePoint.ofChar '0') = some 0 := by decide
  have hpad : ∀ k (s : Str), digitsFrom 0 (List.replicate k (CodePoint.ofChar '0') ++ s) =
      digitsFrom 0 s := by
    intro k s
    induction k with
    | zero => rfl
    | succ k ih => rw [List.replicate_succ, List.cons_append, digitsFrom_cons hz]; exact ih
  rw [zeroPadded, hpad]
  exact (digitsFrom_map (fun _ hc => isDigit_of_mem_toDigits hc) 0).trans
    (congrArg some (Nat.ofDigitChars_toDigits (by decide) (by decide)))

theorem zeroPadded_injective (width : Nat) : Function.Injective (zeroPadded width) := by
  intro m n h
  have := digitsFrom_zeroPadded width m
  rw [h, digitsFrom_zeroPadded] at this
  exact (Option.some.inj this).symm

theorem digitValue_of_isSpace {c : CodePoint} (h : isSpace c = true) : digitValue c = none := by
  unfold isSpace at h
  unfold digitValue
  rw [if_neg]
  simp only [Bool.or_eq_true, Bool.and_eq_true, decide_eq_true_eq, beq_iff_eq] at h
  omega

theorem not_isSpace_of_mem_decimal {n : Nat} {c : CodePoint} (h : c ∈ decimal n) :
    isSpace c = false := by
  obtain ⟨v, hv⟩ := decimal_digit h
  by_contra hs
  rw [digitValue_of_isSpace (by simpa using hs)] at hv
  cases hv

theorem strip_eq_self {s : Str} (h : ∀ c ∈ s, isSpace c = false) : strip s = s := by
  have hdrop : ∀ t : Str, (∀ c ∈ t, isSpace c = false) → t.dropWhile isSpace = t := by
    intro t ht
    cases t with
    | nil => rfl
    | cons c t => rw [List.dropWhile_cons_of_neg (by simp [ht c (by simp)])]
  rw [strip, hdrop s h, hdrop s.reverse (fun c hc => h c (List.mem_reverse.mp hc)),
    List.reverse_reverse]

/-- `int(str(n)) = n`. -/
theorem int_decimal (n : Nat) : int (decimal n) = some (n : Int) := by
  have hs := strip_eq_self (s := decimal n) (fun c hc => not_isSpace_of_mem_decimal hc)
  have hp := parseDigits_decimal n
  have hm := not_mem_decimal (c := CodePoint.ofChar '-') (by decide) n
  have hplus := not_mem_decimal (c := CodePoint.ofChar '+') (by decide) n
  unfold int
  rw [hs]
  cases hd : decimal n with
  | nil => exact absurd hd (decimal_ne_nil n)
  | cons c rest =>
    rw [hd] at hm hplus hp
    simp only [List.mem_cons, not_or] at hm hplus
    show (if c = CodePoint.ofChar '-' then _ else
      if c = CodePoint.ofChar '+' then _ else (parseDigits (c :: rest)).map Int.ofNat) = _
    rw [if_neg (Ne.symm hm.1), if_neg (Ne.symm hplus.1), hp]
    rfl

/-- Splitting at the last separator, when the text after it has none. -/
theorem rsplitOnce_append {sep : CodePoint} {tail : Str} (h : sep ∉ tail) (front : Str) :
    rsplitOnce sep (front ++ sep :: tail) = [front, tail] := by
  have hne : ∀ c ∈ tail.reverse, decide (c ≠ sep) = true := by
    intro c hc
    exact decide_eq_true (fun he => h (he ▸ List.mem_reverse.mp hc))
  have hrev : (front ++ sep :: tail).reverse = tail.reverse ++ sep :: front.reverse := by simp
  rw [rsplitOnce, if_pos (by simp), hrev, List.takeWhile_append_of_pos hne,
    List.dropWhile_append_of_pos hne]
  simp

/-! ## UTF-8 -/

/-- Surrogates are not encodable. -/
def isSurrogate (c : CodePoint) : Bool := 0xD800 ≤ c.val && c.val ≤ 0xDFFF

/-- The UTF-8 bytes of one code point that is no surrogate. -/
def encodeCodePoint (c : CodePoint) : Bytes :=
  let n := c.val
  if n < 0x80 then [UInt8.ofNat n]
  else if n < 0x800 then [UInt8.ofNat (0xC0 + n / 64), UInt8.ofNat (0x80 + n % 64)]
  else if n < 0x10000 then
    [UInt8.ofNat (0xE0 + n / 4096), UInt8.ofNat (0x80 + n / 64 % 64), UInt8.ofNat (0x80 + n % 64)]
  else
    [UInt8.ofNat (0xF0 + n / 262144), UInt8.ofNat (0x80 + n / 4096 % 64),
      UInt8.ofNat (0x80 + n / 64 % 64), UInt8.ofNat (0x80 + n % 64)]

/-- `s.encode("utf-8")`; `none` is `UnicodeEncodeError`. -/
def encodeUtf8 (s : Str) : Option Bytes :=
  if s.any isSurrogate then none else some (s.flatMap encodeCodePoint)

end Python
