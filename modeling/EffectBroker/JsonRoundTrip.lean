import EffectBroker.JsonText

/-!
# Reading what was written

`loads (dumps v)` is `normalize v`, and `dumps` cannot tell the two apart: a value that
is stored as canonical JSON and read again has the canonical JSON it had.
-/
namespace Python

/-! ## Strings -/

theorem hexValue_hexDigit : ∀ n < 16, hexValue (hexDigit n) = some n := by decide

theorem hex4_escape {n : Nat} (h : n < 32) :
    hex4 (CodePoint.ofChar '0') (CodePoint.ofChar '0') (hexDigit (n / 16)) (hexDigit (n % 16)) =
      some (Fin.ofNat 65536 n) := by
  have hzero : hexValue (CodePoint.ofChar '0') = some 0 := by decide
  rw [hex4, hzero, hexValue_hexDigit _ (by omega), hexValue_hexDigit _ (by omega)]
  simp only [Option.bind_eq_bind, Option.bind_some]
  refine congrArg (fun m => some (Fin.ofNat 65536 m)) ?_
  omega

/-- Reading an escaped character gives it back. -/
theorem parseChars_escape (c : CodePoint) (s : Str) :
    parseChars none (escape c ++ s) = (parseChars none s).map fun p => (c :: p.1, p.2) := by
  have hback : str "\\" = [CodePoint.ofChar '\\'] := rfl
  have short : ∀ e x : CodePoint, e ≠ CodePoint.ofChar 'u' → unescape e = some x →
      parseChars none (CodePoint.ofChar '\\' :: e :: s) =
        (parseChars none s).map fun p => (x :: p.1, p.2) := by
    intro e x he hx
    rw [parseChars.eq_def]
    simp only
    rw [if_neg (by decide), if_pos trivial, if_neg he, hx]
    rfl
  unfold escape
  by_cases hquote : c = CodePoint.ofChar '"'
  · rw [if_pos hquote, hquote]
    exact short (CodePoint.ofChar '"') _ (by decide) (by decide)
  rw [if_neg hquote]
  by_cases hslash : c = CodePoint.ofChar '\\'
  · rw [if_pos hslash, hslash]
    exact short (CodePoint.ofChar '\\') _ (by decide) (by decide)
  rw [if_neg hslash]
  by_cases h8 : c.val = 8
  · rw [if_pos h8, show c = 8 from Fin.ext h8]
    exact short (CodePoint.ofChar 'b') _ (by decide) (by decide)
  rw [if_neg h8]
  by_cases h9 : c.val = 9
  · rw [if_pos h9, show c = 9 from Fin.ext h9]
    exact short (CodePoint.ofChar 't') _ (by decide) (by decide)
  rw [if_neg h9]
  by_cases h10 : c.val = 10
  · rw [if_pos h10, show c = 10 from Fin.ext h10]
    exact short (CodePoint.ofChar 'n') _ (by decide) (by decide)
  rw [if_neg h10]
  by_cases h12 : c.val = 12
  · rw [if_pos h12, show c = 12 from Fin.ext h12]
    exact short (CodePoint.ofChar 'f') _ (by decide) (by decide)
  rw [if_neg h12]
  by_cases h13 : c.val = 13
  · rw [if_pos h13, show c = 13 from Fin.ext h13]
    exact short (CodePoint.ofChar 'r') _ (by decide) (by decide)
  rw [if_neg h13]
  by_cases h32 : c.val < 32
  · -- a control character is written as four hexadecimal digits
    rw [if_pos h32]
    have hval : (Fin.ofNat 65536 c.val).val = c.val := by
      rw [Fin.val_ofNat]
      omega
    show parseChars none (CodePoint.ofChar '\\' :: CodePoint.ofChar 'u' :: CodePoint.ofChar '0' ::
      CodePoint.ofChar '0' :: hexDigit (c.val / 16) :: hexDigit (c.val % 16) :: s) = _
    rw [parseChars.eq_def]
    simp only [hex4_escape h32, hval]
    rw [if_neg (by decide), if_pos trivial, if_pos trivial, if_neg (by omega)]
    have hc : Fin.ofNat 0x110000 c.val = c := Fin.ext (by
      rw [Fin.val_ofNat]
      omega)
    rw [hc]
  · rw [if_neg h32]
    show parseChars none (c :: s) = _
    rw [parseChars.eq_def]
    simp only
    rw [if_neg hquote, if_neg hslash, if_neg h32]
    rfl

/-- Reading a quoted string gives it back. -/
theorem parseChars_quote (s rest : Str) :
    parseChars none (s.flatMap escape ++ CodePoint.ofChar '"' :: rest) = some (s, rest) := by
  induction s with
  | nil =>
    show parseChars none (CodePoint.ofChar '"' :: rest) = _
    rw [parseChars.eq_def]
    exact if_pos rfl
  | cons c s ih =>
    rw [List.flatMap_cons, List.append_assoc, parseChars_escape, ih]
    rfl

theorem quote_append (s rest : Str) :
    quote s ++ rest = CodePoint.ofChar '"' :: (s.flatMap escape ++ CodePoint.ofChar '"' :: rest) := by
  show ([CodePoint.ofChar '"'] ++ s.flatMap escape ++ [CodePoint.ofChar '"']) ++ rest = _
  simp

/-! ## Numbers -/

/-- One digit or more. -/
def IsDigits (s : Str) : Prop := s ≠ [] ∧ ∀ c ∈ s, isDigit c = true

/-- `(0|[1-9][0-9]*)`. -/
def IsInteger (s : Str) : Prop :=
  s = [CodePoint.ofChar '0'] ∨ IsDigits s ∧ s.head? ≠ some (CodePoint.ofChar '0')

/-- `(\.[0-9]+)?`. -/
def IsFraction (s : Str) : Prop := s = [] ∨ ∃ digits, IsDigits digits ∧ s = CodePoint.ofChar '.' :: digits

/-- `([eE][-+]?[0-9]+)?`. -/
def IsExponent (s : Str) : Prop :=
  s = [] ∨ ∃ e sign digits, (e = CodePoint.ofChar 'e' ∨ e = CodePoint.ofChar 'E') ∧
    (sign = [] ∨ sign = [CodePoint.ofChar '-'] ∨ sign = [CodePoint.ofChar '+']) ∧ IsDigits digits ∧
    s = e :: sign ++ digits

/-- What `repr` prints for a finite float has this form. -/
def IsFloatText (s : Str) : Prop :=
  ∃ (negative : Bool) (digits fraction exponent : Str), IsInteger digits ∧ IsFraction fraction ∧
    IsExponent exponent ∧ (fraction ≠ [] ∨ exponent ≠ []) ∧
    s = (if negative then str "-" else []) ++ digits ++ fraction ++ exponent

/-- A number cannot go on with this text. -/
def Ends (rest : Str) : Prop :=
  ∀ c ∈ rest.head?, isDigit c = false ∧ c ≠ CodePoint.ofChar '.' ∧ c ≠ CodePoint.ofChar 'e' ∧
    c ≠ CodePoint.ofChar 'E'

theorem takeWhile_digits {digits rest : Str} (hd : ∀ c ∈ digits, isDigit c = true)
    (hr : ∀ c ∈ rest.head?, isDigit c = false) :
    (digits ++ rest).takeWhile isDigit = digits ∧ (digits ++ rest).dropWhile isDigit = rest := by
  have hrest : rest.takeWhile isDigit = [] ∧ rest.dropWhile isDigit = rest := by
    cases rest with
    | nil => exact ⟨rfl, rfl⟩
    | cons c rest =>
      have hc := hr c rfl
      exact ⟨List.takeWhile_cons_of_neg (by simp [hc]), List.dropWhile_cons_of_neg (by simp [hc])⟩
  rw [List.takeWhile_append_of_pos hd, List.dropWhile_append_of_pos hd, hrest.1, hrest.2]
  exact ⟨List.append_nil _, rfl⟩

theorem integerPart_append {digits rest : Str} (h : IsInteger digits)
    (hr : ∀ c ∈ rest.head?, isDigit c = false) : integerPart (digits ++ rest) = some (digits, rest) := by
  rcases h with rfl | ⟨⟨hne, hd⟩, hhead⟩
  · rfl
  · cases digits with
    | nil => exact absurd rfl hne
    | cons c digits =>
      have hc : c ≠ CodePoint.ofChar '0' := fun h => hhead (congrArg some h)
      obtain ⟨htake, hdrop⟩ := takeWhile_digits hd hr
      rw [List.cons_append] at htake hdrop ⊢
      simp only [integerPart]
      rw [if_neg hc, if_pos (hd c (List.mem_cons_self ..)), htake, hdrop]

theorem fractionPart_append {fraction rest : Str} (h : IsFraction fraction)
    (hr : ∀ c ∈ rest.head?, isDigit c = false ∧ (fraction = [] → c ≠ CodePoint.ofChar '.')) :
    fractionPart (fraction ++ rest) = (fraction, rest) := by
  rcases h with rfl | ⟨digits, ⟨hne, hd⟩, rfl⟩
  · cases rest with
    | nil => rfl
    | cons c rest =>
      have hc : expect '.' (c :: rest) = none := if_neg ((hr c rfl).2 rfl)
      simp only [List.nil_append, fractionPart, hc]
  · obtain ⟨htake, hdrop⟩ := takeWhile_digits hd fun c hc => (hr c hc).1
    rw [List.cons_append, fractionPart, expect_cons]
    simp only [htake, hdrop]
    rw [if_neg (by simpa using hne)]

theorem exponentPart_append {exponent rest : Str} (h : IsExponent exponent) (hr : Ends rest) :
    exponentPart (exponent ++ rest) = (exponent, rest) := by
  rcases h with rfl | ⟨e, sign, digits, he, hsign, ⟨hne, hd⟩, rfl⟩
  · cases rest with
    | nil => rfl
    | cons c rest =>
      have hc := hr c rfl
      show (if c = _ ∨ c = _ then _ else _) = _
      rw [if_neg (not_or.mpr ⟨hc.2.2.1, hc.2.2.2⟩)]
      rfl
  · obtain ⟨htake, hdrop⟩ := takeWhile_digits hd fun c hc => (hr c hc).1
    have hsigned : signPart (sign ++ (digits ++ rest)) = (sign, digits ++ rest) := by
      rcases hsign with rfl | rfl | rfl
      · cases digits with
        | nil => exact absurd rfl hne
        | cons d digits =>
          have hdigit := hd d (List.mem_cons_self ..)
          have hminus : ¬ (d = CodePoint.ofChar '-' ∨ d = CodePoint.ofChar '+') := by
            rintro (rfl | rfl) <;> exact absurd hdigit (by decide)
          show (if d = _ ∨ d = _ then _ else _) = _
          rw [if_neg hminus]
          rfl
      · rfl
      · rfl
    have happend : e :: sign ++ digits ++ rest = e :: (sign ++ (digits ++ rest)) := by simp
    rw [happend, exponentPart, if_pos he, hsigned]
    simp only [htake, hdrop]
    rw [if_neg (by simpa using hne)]

/-- Reading a number that is no integer gives its text. -/
theorem parseNumber_float {negative : Bool} {digits fraction exponent rest : Str}
    (hd : IsInteger digits) (hf : IsFraction fraction) (he : IsExponent exponent)
    (hne : fraction ≠ [] ∨ exponent ≠ []) (hr : Ends rest) :
    parseNumber negative (digits ++ fraction ++ exponent ++ rest) =
      some (.float (.finite ((if negative then str "-" else []) ++ digits ++ fraction ++ exponent)),
        rest) := by
  have hexponent : ∀ c ∈ (exponent ++ rest).head?, isDigit c = false ∧ c ≠ CodePoint.ofChar '.' := by
    intro c hc
    rcases he with rfl | ⟨e, sign, ds, he, -, -, rfl⟩
    · exact ⟨(hr c hc).1, (hr c hc).2.1⟩
    · obtain rfl : e = c := Option.some.inj hc
      rcases he with rfl | rfl <;> decide
  have hfraction : ∀ c ∈ (fraction ++ (exponent ++ rest)).head?, isDigit c = false := by
    intro c hc
    rcases hf with rfl | ⟨ds, -, rfl⟩
    · exact (hexponent c hc).1
    · obtain rfl : CodePoint.ofChar '.' = c := Option.some.inj hc
      decide
  rw [List.append_assoc, List.append_assoc, parseNumber, integerPart_append hd hfraction]
  simp only [Option.bind_eq_bind, Option.bind_some]
  rw [fractionPart_append hf fun c hc => ⟨(hexponent c hc).1, fun _ => (hexponent c hc).2⟩]
  simp only
  have hparts : ¬ (fraction.isEmpty && exponent.isEmpty) = true := fun h => by
    obtain ⟨h1, h2⟩ := Bool.and_eq_true_iff.mp h
    exact hne.elim (absurd (List.isEmpty_iff.mp h1)) (absurd (List.isEmpty_iff.mp h2))
  rw [exponentPart_append he hr, if_neg hparts]
  rfl

/-- Reading an integer gives it back. -/
theorem parseNumber_int {negative : Bool} {digits rest : Str} {n : Nat} (hd : IsInteger digits)
    (hn : parseDigits digits = some n) (hr : Ends rest) :
    parseNumber negative (digits ++ rest) =
      some (.int (if negative then -(n : Int) else n), rest) := by
  rw [parseNumber, integerPart_append hd fun c hc => (hr c hc).1]
  simp only [Option.bind_eq_bind, Option.bind_some]
  rw [show fractionPart rest = ([], rest) from
    fractionPart_append (.inl rfl) fun c hc => ⟨(hr c hc).1, fun _ => (hr c hc).2.1⟩]
  simp only
  rw [show exponentPart rest = ([], rest) from exponentPart_append (.inl rfl) hr,
    if_pos (show (([] : Str).isEmpty && ([] : Str).isEmpty) = true from rfl), hn]
  rfl

/-- A positive number is printed without a leading zero. -/
theorem head_toDigits {n : Nat} (h : 0 < n) : (Nat.toDigits 10 n).head? ≠ some '0' := by
  induction n using Nat.strongRecOn with
  | ind n ih =>
    by_cases hn : n < 10
    · rw [Nat.toDigits_of_lt_base hn]
      have hdigit : ∀ d < 10, 0 < d → Nat.digitChar d ≠ '0' := by decide
      exact fun he => hdigit n hn h (Option.some.inj he)
    · rw [Nat.toDigits_of_base_le (by decide) (by omega),
        List.head?_append_of_ne_nil _ Nat.toDigits_ne_nil]
      exact ih (n / 10) (by omega) (by omega)

theorem isInteger_decimal (n : Nat) : IsInteger (decimal n) := by
  by_cases hn : n = 0
  · subst hn
    exact .inl (by decide)
  · refine .inr ⟨⟨decimal_ne_nil n, fun c hc => ?_⟩, fun hhead => ?_⟩
    · obtain ⟨v, hv⟩ := decimal_digit hc
      unfold digitValue at hv
      split at hv
      · rename_i h
        simp [isDigit, h]
      · cases hv
    · rw [decimal, List.head?_map] at hhead
      obtain ⟨d, hd, he⟩ := Option.map_eq_some_iff.mp hhead
      rw [CodePoint.ofChar_injective he] at hd
      exact head_toDigits (by omega) hd

/-! ## Values -/

/-- How the text of a value starts. -/
def Opens (text : Str) : Prop :=
  ∃ c rest, text = c :: rest ∧ isJsonSpace c = false ∧ c ≠ CodePoint.ofChar ']'

/-- A text from which a value is read, whatever follows. -/
structure Parses (text : Str) (value : Value) : Prop where
  opens : Opens text
  parse : ∀ fuel rest, Ends rest → text.length ≤ fuel →
    parseValue fuel (text ++ rest) = some (value, rest)

theorem expectWord_of_ne {c d : CodePoint} (h : d ≠ c) (word s : Str) :
    expectWord (c :: word) (d :: s) = none := if_neg h

theorem expect_of_ne {c : Char} {d : CodePoint} (h : d ≠ CodePoint.ofChar c) (s : Str) :
    expect c (d :: s) = none := if_neg h

theorem skipSpace_cons {c : CodePoint} (h : isJsonSpace c = false) (s : Str) :
    skipSpace (c :: s) = c :: s := List.dropWhile_cons_of_neg (by simp [h])

theorem Opens.skipSpace {text : Str} (h : Opens text) (rest : Str) :
    skipSpace (text ++ rest) = text ++ rest := by
  obtain ⟨c, tail, rfl, hc, -⟩ := h
  exact skipSpace_cons hc _

/-- A text that starts with no quote, brace or bracket is an atom. -/
theorem parseValue_atom {c : CodePoint} (h₁ : c ≠ CodePoint.ofChar '"')
    (h₂ : c ≠ CodePoint.ofChar '\x7b') (h₃ : c ≠ CodePoint.ofChar '[') (fuel : Nat) (s : Str) :
    parseValue (fuel + 1) (c :: s) = parseAtom (c :: s) := by
  rw [parseValue]
  simp only [expect_of_ne h₁, expect_of_ne h₂, expect_of_ne h₃]

/-- A number is read by `parseNumber`. -/
theorem parseAtom_digit {c : CodePoint} (h : isDigit c = true) (s : Str) :
    parseAtom (c :: s) = parseNumber false (c :: s) := by
  have hne : ∀ d : CodePoint, isDigit d = false → c ≠ d := fun d hd he => by
    rw [he, hd] at h
    cases h
  have word : ∀ (d : CodePoint) (word : Str), isDigit d = false →
      expectWord (d :: word) (c :: s) = none := fun d word hd => expectWord_of_ne (hne d hd) word s
  have hnull : expectWord (str "null") (c :: s) = none := word (CodePoint.ofChar 'n') _ (by decide)
  have htrue : expectWord (str "true") (c :: s) = none := word (CodePoint.ofChar 't') _ (by decide)
  have hfalse : expectWord (str "false") (c :: s) = none := word (CodePoint.ofChar 'f') _ (by decide)
  have hnan : expectWord (str "NaN") (c :: s) = none := word (CodePoint.ofChar 'N') _ (by decide)
  have hinf : expectWord (str "Infinity") (c :: s) = none := word (CodePoint.ofChar 'I') _ (by decide)
  have hneg : expectWord (str "-Infinity") (c :: s) = none := word (CodePoint.ofChar '-') _ (by decide)
  have hminus : expect '-' (c :: s) = none := expect_of_ne (hne _ (by decide)) s
  rw [parseAtom, hnull, htrue, hfalse, hnan, hinf, hneg, hminus]

theorem parseAtom_minus {c : CodePoint} (h : isDigit c = true) (s : Str) :
    parseAtom (CodePoint.ofChar '-' :: c :: s) = parseNumber true (c :: s) := by
  have hne : c ≠ CodePoint.ofChar 'I' := fun he => by
    rw [he] at h
    exact absurd h (by decide)
  have word : ∀ (d : CodePoint) (word : Str), CodePoint.ofChar '-' ≠ d →
      expectWord (d :: word) (CodePoint.ofChar '-' :: c :: s) = none := fun d word hd =>
    expectWord_of_ne hd word _
  have hnull : expectWord (str "null") (CodePoint.ofChar '-' :: c :: s) = none :=
    word (CodePoint.ofChar 'n') _ (by decide)
  have htrue : expectWord (str "true") (CodePoint.ofChar '-' :: c :: s) = none :=
    word (CodePoint.ofChar 't') _ (by decide)
  have hfalse : expectWord (str "false") (CodePoint.ofChar '-' :: c :: s) = none :=
    word (CodePoint.ofChar 'f') _ (by decide)
  have hnan : expectWord (str "NaN") (CodePoint.ofChar '-' :: c :: s) = none :=
    word (CodePoint.ofChar 'N') _ (by decide)
  have hinf : expectWord (str "Infinity") (CodePoint.ofChar '-' :: c :: s) = none :=
    word (CodePoint.ofChar 'I') _ (by decide)
  have hneg : expectWord (str "-Infinity") (CodePoint.ofChar '-' :: c :: s) = none :=
    (if_pos rfl).trans (expectWord_of_ne hne _ _)
  rw [parseAtom, hnull, htrue, hfalse, hnan, hinf, hneg, expect_cons]

theorem IsInteger.head {digits : Str} (h : IsInteger digits) :
    ∃ c rest, digits = c :: rest ∧ isDigit c = true := by
  rcases h with rfl | ⟨⟨hne, hd⟩, -⟩
  · exact ⟨_, _, rfl, by decide⟩
  · cases digits with
    | nil => exact absurd rfl hne
    | cons c rest => exact ⟨c, rest, rfl, hd c (List.mem_cons_self ..)⟩

/-- A number, with its sign, is read as `parseNumber` reads it. -/
theorem parses_number (negative : Bool) {digits : Str} (tail : Str) {value : Value} (hd : IsInteger digits)
    (h : ∀ rest, Ends rest → parseNumber negative (digits ++ tail ++ rest) = some (value, rest)) :
    Parses ((if negative then str "-" else []) ++ digits ++ tail) value := by
  obtain ⟨c, ds, rfl, hc⟩ := hd.head
  have hne : ∀ d : CodePoint, isDigit d = false → c ≠ d := fun d hdigit he => by
    rw [he, hdigit] at hc
    cases hc
  have hspace : isJsonSpace c = false := by
    unfold isDigit at hc
    unfold isJsonSpace
    simp only [Bool.and_eq_true, decide_eq_true_eq] at hc
    simp only [Bool.or_eq_false_iff, decide_eq_false_iff_not]
    omega
  cases negative with
  | false =>
    refine ⟨⟨c, ds ++ tail, rfl, hspace, hne _ (by decide)⟩, fun fuel rest hr hf => ?_⟩
    obtain ⟨fuel, rfl⟩ : ∃ f, fuel = f + 1 := ⟨fuel - 1, by
      simp only [Bool.false_eq_true, if_false, List.nil_append, List.cons_append,
        List.length_cons] at hf
      omega⟩
    have hp := h rest hr
    show parseValue (fuel + 1) (c :: (ds ++ tail ++ rest)) = _
    rw [parseValue_atom (hne _ (by decide)) (hne _ (by decide)) (hne _ (by decide)),
      parseAtom_digit hc]
    exact hp
  | true =>
    refine ⟨⟨CodePoint.ofChar '-', c :: ds ++ tail, rfl, by decide, by decide⟩,
      fun fuel rest hr hf => ?_⟩
    obtain ⟨fuel, rfl⟩ : ∃ f, fuel = f + 1 := ⟨fuel - 1, by
      simp only [if_true, List.length_append, List.length_cons] at hf
      omega⟩
    have hp := h rest hr
    show parseValue (fuel + 1) (CodePoint.ofChar '-' :: c :: (ds ++ tail ++ rest)) = _
    rw [parseValue_atom (by decide) (by decide) (by decide), parseAtom_minus hc]
    exact hp

theorem parses_quote (s : Str) : Parses (quote s) (.str s) := by
  refine ⟨⟨CodePoint.ofChar '"', s.flatMap escape ++ [CodePoint.ofChar '"'], ?_, by decide, by decide⟩,
    fun fuel rest _ hf => ?_⟩
  · have := quote_append s []
    rwa [List.append_nil] at this
  · obtain ⟨fuel, rfl⟩ : ∃ f, fuel = f + 1 := ⟨fuel - 1, by
      have := congrArg List.length (quote_append s [])
      simp only [List.append_nil, List.length_cons] at this
      omega⟩
    rw [quote_append, parseValue, expect_cons]
    simp only [parseChars_quote]
    rfl

/-- A word of the grammar. -/
theorem parses_word {word : String} {value : Value} {c : CodePoint} {tail : Str}
    (hword : str word = c :: tail) (hspace : isJsonSpace c = false) (h₁ : c ≠ CodePoint.ofChar '"')
    (h₂ : c ≠ CodePoint.ofChar '\x7b') (h₃ : c ≠ CodePoint.ofChar '[') (h₄ : c ≠ CodePoint.ofChar ']')
    (h : ∀ rest, parseAtom (str word ++ rest) = some (value, rest)) : Parses (str word) value := by
  refine ⟨⟨c, tail, hword, hspace, h₄⟩, fun fuel rest _ hf => ?_⟩
  obtain ⟨fuel, rfl⟩ : ∃ f, fuel = f + 1 := ⟨fuel - 1, by
    rw [hword, List.length_cons] at hf
    omega⟩
  have hp := h rest
  rw [hword, List.cons_append] at hp ⊢
  rw [parseValue_atom h₁ h₂ h₃]
  exact hp

theorem ends_comma (s : Str) : Ends (str "," ++ s) := by
  intro c hc
  obtain rfl : CodePoint.ofChar ',' = c := Option.some.inj hc
  decide

theorem ends_bracket (s : Str) : Ends (str "]" ++ s) := by
  intro c hc
  obtain rfl : CodePoint.ofChar ']' = c := Option.some.inj hc
  decide

theorem ends_brace (s : Str) : Ends (str "\x7d" ++ s) := by
  intro c hc
  obtain rfl : CodePoint.ofChar '\x7d' = c := Option.some.inj hc
  decide

theorem joinCommas_cons_cons (a b : Str) (l : List Str) :
    joinCommas (a :: b :: l) = a ++ str "," ++ joinCommas (b :: l) := rfl

/-- Reading the elements of an array that was written. -/
theorem parseElements_join (items : List (Str × Value)) (hne : items ≠ [])
    (h : ∀ item ∈ items, Parses item.1 item.2) (fuel : Nat) (rest : Str)
    (hf : (joinCommas (items.map Prod.fst)).length < fuel) :
    parseElements fuel (joinCommas (items.map Prod.fst) ++ (str "]" ++ rest)) =
      some (items.map Prod.snd, rest) := by
  induction items generalizing fuel with
  | nil => exact absurd rfl hne
  | cons item items ih =>
    obtain ⟨fuel, rfl⟩ : ∃ f, fuel = f + 1 := ⟨fuel - 1, by omega⟩
    have hitem := h item (List.mem_cons_self ..)
    cases items with
    | nil =>
      have hp := hitem.parse fuel (str "]" ++ rest) (ends_bracket rest) (Nat.le_of_lt_succ hf)
      rw [parseElements]
      simp only [List.map_cons, List.map_nil, joinCommas]
      rw [hp]
      rfl
    | cons next items =>
      simp only [List.map_cons, joinCommas_cons_cons, List.length_append] at hf ih ⊢
      have hp := hitem.parse fuel
        (str "," ++ (joinCommas (next.1 :: items.map Prod.fst) ++ (str "]" ++ rest)))
        (ends_comma _) (by omega)
      have hnext := h next (List.mem_cons_of_mem _ (List.mem_cons_self ..))
      have hopen : skipSpace (joinCommas (next.1 :: items.map Prod.fst) ++ (str "]" ++ rest)) =
          joinCommas (next.1 :: items.map Prod.fst) ++ (str "]" ++ rest) := by
        cases items with
        | nil => exact hnext.opens.skipSpace _
        | cons => 
          rw [List.map_cons, joinCommas_cons_cons, List.append_assoc, List.append_assoc]
          exact hnext.opens.skipSpace _
      have htail := ih (by simp) (fun i hi => h i (List.mem_cons_of_mem _ hi)) fuel (by
        have : (str ",").length = 1 := rfl
        omega)
      have hcomma : ∀ s, skipSpace (str "," ++ s) = CodePoint.ofChar ',' :: s := fun s =>
        skipSpace_cons (by decide) s
      rw [parseElements, List.append_assoc, List.append_assoc, hp]
      simp only [hcomma, expect_cons, hopen, htail]
      rfl

/-- The text of a member of an object. -/
def memberText (member : Str × Str × Value) : Str := quote member.1 ++ str ":" ++ member.2.1

/-- Reading one member of an object that was written. -/
theorem parseMembers_member {member : Str × Str × Value} (h : Parses member.2.1 member.2.2)
    {fuel : Nat} {rest : Str} (hr : Ends rest) (hf : (memberText member).length ≤ fuel) :
    parseMembers (fuel + 1) (memberText member ++ rest) =
      match expect ',' (skipSpace rest) with
      | some s => (parseMembers fuel (skipSpace s)).map fun p =>
        ((member.1, member.2.2) :: p.1, p.2)
      | none => (expect '\x7d' (skipSpace rest)).map fun s => ([(member.1, member.2.2)], s) := by
  have hlen : member.2.1.length ≤ fuel := by
    simp only [memberText, List.length_append] at hf
    omega
  have hcolon : skipSpace (str ":" ++ (member.2.1 ++ rest)) =
      CodePoint.ofChar ':' :: (member.2.1 ++ rest) := skipSpace_cons (by decide) _
  rw [memberText, List.append_assoc, List.append_assoc, quote_append, parseMembers, expect_cons]
  cases hcomma : expect ',' (skipSpace rest) with
  | none =>
    simp only [parseChars_quote, hcolon, expect_cons, h.opens.skipSpace, h.parse fuel rest hr hlen,
      hcomma]
  | some s =>
    simp only [parseChars_quote, hcolon, expect_cons, h.opens.skipSpace, h.parse fuel rest hr hlen,
      hcomma]

theorem opens_member (member : Str × Str × Value) : Opens (memberText member) := by
  have htext : memberText member = CodePoint.ofChar '"' :: _ :=
    (List.append_assoc ..).trans (quote_append ..)
  exact ⟨_, _, htext, by decide, by decide⟩

/-- Reading the members of an object that was written. -/
theorem parseMembers_join (members : List (Str × Str × Value)) (hne : members ≠ [])
    (h : ∀ member ∈ members, Parses member.2.1 member.2.2) (fuel : Nat) (rest : Str)
    (hf : (joinCommas (members.map memberText)).length < fuel) :
    parseMembers fuel (joinCommas (members.map memberText) ++ (str "\x7d" ++ rest)) =
      some (members.map fun member => (member.1, member.2.2), rest) := by
  induction members generalizing fuel with
  | nil => exact absurd rfl hne
  | cons member members ih =>
    obtain ⟨fuel, rfl⟩ : ∃ f, fuel = f + 1 := ⟨fuel - 1, by omega⟩
    have hmember := h member (List.mem_cons_self ..)
    cases members with
    | nil =>
      simp only [List.map_cons, List.map_nil, joinCommas] at hf ⊢
      rw [parseMembers_member hmember (ends_brace rest) (Nat.le_of_lt_succ hf)]
      rfl
    | cons next members =>
      simp only [List.map_cons, joinCommas_cons_cons, List.length_append] at hf ih ⊢
      have hopen : skipSpace (joinCommas (memberText next :: members.map memberText) ++
          (str "\x7d" ++ rest)) =
          joinCommas (memberText next :: members.map memberText) ++ (str "\x7d" ++ rest) := by
        cases members with
        | nil => exact (opens_member next).skipSpace _
        | cons =>
          rw [List.map_cons, joinCommas_cons_cons, List.append_assoc, List.append_assoc]
          exact (opens_member next).skipSpace _
      have htail := ih (by simp) (fun m hm => h m (List.mem_cons_of_mem _ hm)) fuel (by
        have : (str ",").length = 1 := rfl
        omega)
      have hcomma : ∀ s, skipSpace (str "," ++ s) = CodePoint.ofChar ',' :: s := fun s =>
        skipSpace_cons (by decide) s
      rw [List.append_assoc, List.append_assoc,
        parseMembers_member hmember (ends_comma _) (by omega)]
      simp only [hcomma, expect_cons, hopen, htail]
      rfl

/-! ## What reading makes of a value -/

/-- The text of a key. -/
def keyText : Value → Str
  | .str s => s
  | _ => []

/-- The order of items by their keys. -/
def itemLe (a b : Value × Value) : Prop := keyText a.1 ≤ keyText b.1

instance : DecidableRel itemLe := fun a b => inferInstanceAs (Decidable (keyText a.1 ≤ keyText b.1))

mutual
/-- The value that is read where a value was written: tuples are lists, and the items of
dictionaries are sorted. -/
def normalize : Value → Value
  | .list items => .list (normalizeAll items)
  | .tuple items => .list (normalizeAll items)
  | .dict items => .dict ((normalizeItems items).insertionSort itemLe)
  | value => value

def normalizeAll : List Value → List Value
  | [] => []
  | value :: rest => normalize value :: normalizeAll rest

def normalizeItems : List (Value × Value) → List (Value × Value)
  | [] => []
  | (key, value) :: rest => (key, normalize value) :: normalizeItems rest
end

mutual
/-- What Python guarantees of a value: the keys of a mapping are distinct, and floats are
printed as `repr` prints them. -/
def Value.WellFormed : Value → Prop
  | .float (.finite repr) => IsFloatText repr
  | .list items => Value.AllWellFormed items
  | .tuple items => Value.AllWellFormed items
  | .dict items => (items.map Prod.fst).Nodup ∧ Value.ItemsWellFormed items
  | _ => True

def Value.AllWellFormed : List Value → Prop
  | [] => True
  | value :: rest => value.WellFormed ∧ Value.AllWellFormed rest

def Value.ItemsWellFormed : List (Value × Value) → Prop
  | [] => True
  | (_, value) :: rest => value.WellFormed ∧ Value.ItemsWellFormed rest
end

/-- A value and the text that `dumps` writes for it and `loads` reads. -/
structure Written (text : Str) (value : Value) : Prop extends Parses text value where
  dumps : dumps value = some text

/-- Items with distinct keys are the items of their dictionary. -/
theorem dictOf_nodup {pairs : List (Str × Value)} (h : (pairs.map Prod.fst).Nodup) :
    dictOf pairs = pairs.map fun p => (.str p.1, p.2) := by
  have hfold : ∀ (l acc : List (Str × Value)), ((acc ++ l).map Prod.fst).Nodup →
      l.foldl (fun items pair => Dict.setItems pair.1 pair.2 items) acc = acc ++ l := by
    intro l
    induction l with
    | nil => simp
    | cons p l ih =>
      intro acc hnodup
      have hp : p.1 ∉ acc.map Prod.fst := fun hm => by
        rw [List.map_append, List.map_cons] at hnodup
        exact (List.nodup_append'.mp hnodup).2.2 hm (List.mem_cons_self ..)
      rw [List.foldl_cons, Dict.setItems_of_not_mem hp, ih _ (by simpa using hnodup)]
      simp
  rw [dictOf, hfold pairs [] (by simpa using h), List.nil_append]

/-! ## Containers -/

theorem written_list {pairs : List (Str × Value)} (h : ∀ p ∈ pairs, Written p.1 p.2)
    (hdumps : dumpsAll (pairs.map Prod.snd) = some (pairs.map Prod.fst)) :
    Written (str "[" ++ joinCommas (pairs.map Prod.fst) ++ str "]") (.list (pairs.map Prod.snd)) := by
  refine ⟨⟨⟨CodePoint.ofChar '[', _, rfl, by decide, by decide⟩, fun fuel rest _ hf => ?_⟩, ?_⟩
  · have hone : (str "[").length = 1 ∧ (str "]").length = 1 := ⟨rfl, rfl⟩
    simp only [List.length_append, hone.1, hone.2] at hf
    obtain ⟨fuel, rfl⟩ : ∃ f, fuel = f + 1 := ⟨fuel - 1, by omega⟩
    have hopen : str "[" ++ joinCommas (pairs.map Prod.fst) ++ str "]" ++ rest =
        CodePoint.ofChar '[' :: (joinCommas (pairs.map Prod.fst) ++ (str "]" ++ rest)) := by
      rw [List.append_assoc, List.append_assoc]
      rfl
    rw [hopen, parseValue, expect_of_ne (by decide), expect_of_ne (by decide), expect_cons]
    cases pairs with
    | nil =>
      have hempty : skipSpace (joinCommas (([] : List (Str × Value)).map Prod.fst) ++
          (str "]" ++ rest)) =
        CodePoint.ofChar ']' :: rest := skipSpace_cons (by decide) _
      simp only [hempty, expect_cons]
      rfl
    | cons p pairs =>
      have helements := parseElements_join (p :: pairs) (by simp) (fun q hq => (h q hq).toParses) fuel
        rest (by omega)
      obtain ⟨c, text, hp, hspace, hbracket⟩ := (h p (List.mem_cons_self ..)).opens
      obtain ⟨tail, htail⟩ : ∃ tail, joinCommas ((p :: pairs).map Prod.fst) ++ (str "]" ++ rest) =
          c :: tail := by
        cases pairs with
        | nil => exact ⟨_, by rw [List.map_cons, List.map_nil, joinCommas, hp, List.cons_append]⟩
        | cons => exact ⟨_, by rw [List.map_cons, List.map_cons, joinCommas_cons_cons, hp,
            List.cons_append, List.cons_append, List.cons_append]⟩
      rw [htail] at helements ⊢
      simp only [skipSpace_cons hspace, expect_of_ne hbracket, helements]
      rfl
  · rw [Python.dumps, hdumps]
    rfl

/-- The text of an object with these members. -/
theorem written_dict {members : List (Str × Str × Value)}
    (h : ∀ member ∈ members, Written member.2.1 member.2.2)
    (hnodup : (members.map Prod.fst).Nodup)
    (hdumps : dumps (.dict (members.map fun member => (.str member.1, member.2.2))) =
      some (str "\x7b" ++ joinCommas (members.map memberText) ++ str "\x7d")) :
    Written (str "\x7b" ++ joinCommas (members.map memberText) ++ str "\x7d")
      (.dict (members.map fun member => (.str member.1, member.2.2))) := by
  refine ⟨⟨⟨CodePoint.ofChar '\x7b', _, rfl, by decide, by decide⟩, fun fuel rest _ hf => ?_⟩, hdumps⟩
  have hone : (str "\x7b").length = 1 ∧ (str "\x7d").length = 1 := ⟨rfl, rfl⟩
  simp only [List.length_append, hone.1, hone.2] at hf
  obtain ⟨fuel, rfl⟩ : ∃ f, fuel = f + 1 := ⟨fuel - 1, by omega⟩
  have hopen : str "\x7b" ++ joinCommas (members.map memberText) ++ str "\x7d" ++ rest =
      CodePoint.ofChar '\x7b' :: (joinCommas (members.map memberText) ++ (str "\x7d" ++ rest)) := by
    rw [List.append_assoc, List.append_assoc]
    rfl
  rw [hopen, parseValue, expect_of_ne (by decide), expect_cons]
  cases members with
  | nil =>
    have hempty : skipSpace (joinCommas ([].map memberText) ++ (str "\x7d" ++ rest)) =
      CodePoint.ofChar '\x7d' :: rest := skipSpace_cons (by decide) _
    simp only [hempty, expect_cons]
    rfl
  | cons member members =>
    have hmembers := parseMembers_join (member :: members) (by simp)
      (fun m hm => (h m hm).toParses) fuel rest (by omega)
    obtain ⟨tail, htail⟩ : ∃ tail, joinCommas ((member :: members).map memberText) ++
        (str "\x7d" ++ rest) = CodePoint.ofChar '"' :: tail := by
      have hquote : memberText member = CodePoint.ofChar '"' :: _ :=
        (List.append_assoc ..).trans (quote_append ..)
      cases members with
      | nil => exact ⟨_, by rw [List.map_cons, List.map_nil, joinCommas, hquote, List.cons_append]⟩
      | cons => exact ⟨_, by rw [List.map_cons, List.map_cons, joinCommas_cons_cons, hquote,
          List.cons_append, List.cons_append, List.cons_append]⟩
    rw [htail] at hmembers ⊢
    have hspace : isJsonSpace (CodePoint.ofChar '"') = false := by decide
    have hbrace : CodePoint.ofChar '"' ≠ CodePoint.ofChar '\x7d' := by decide
    simp only [skipSpace_cons hspace, expect_of_ne hbrace, hmembers, Option.map_some]
    rw [dictOf_nodup (by rw [List.map_map]; exact hnodup), List.map_map]
    rfl

/-! ## Every value -/

theorem parseAtom_words (rest : Str) :
    parseAtom (str "null" ++ rest) = some (.none, rest) ∧
    parseAtom (str "true" ++ rest) = some (.bool true, rest) ∧
    parseAtom (str "false" ++ rest) = some (.bool false, rest) := ⟨rfl, rfl, rfl⟩

theorem dumpsItems_map {members : List (Str × Str × Value)}
    (h : ∀ member ∈ members, dumps member.2.2 = some member.2.1) :
    dumpsItems (members.map fun member => (.str member.1, member.2.2)) =
      some (members.map fun member => (member.1, member.2.1)) := by
  induction members with
  | nil => rfl
  | cons member members ih =>
    rw [List.map_cons, dumpsItems, h member (List.mem_cons_self ..),
      ih fun m hm => h m (List.mem_cons_of_mem _ hm)]
    rfl

theorem dumpsAll_map {pairs : List (Str × Value)} (h : ∀ p ∈ pairs, dumps p.2 = some p.1) :
    dumpsAll (pairs.map Prod.snd) = some (pairs.map Prod.fst) := by
  induction pairs with
  | nil => rfl
  | cons p pairs ih =>
    rw [List.map_cons, dumpsAll, h p (List.mem_cons_self ..),
      ih fun q hq => h q (List.mem_cons_of_mem _ hq)]
    rfl

/-- The text of a dictionary lists the members in the order of their keys. -/
theorem sorted_members {members : List (Str × Str × Value)} :
    ((members.map fun m => (m.1, m.2.1)).insertionSort keyLe).map
        (fun p => quote p.1 ++ str ":" ++ p.2) =
      (members.insertionSort fun a b => a.1 ≤ b.1).map memberText ∧
    (members.map fun m => (Value.str m.1, m.2.2)).insertionSort itemLe =
      (members.insertionSort fun a b => a.1 ≤ b.1).map fun m => (Value.str m.1, m.2.2) := by
  constructor
  · rw [← List.map_insertionSort (r := fun a b : Str × Str × Value => a.1 ≤ b.1) (s := keyLe)
      (fun m => (m.1, m.2.1)) members (fun _ _ _ _ => Iff.rfl), List.map_map]
    rfl
  · exact (List.map_insertionSort (r := fun a b : Str × Str × Value => a.1 ≤ b.1) (s := itemLe)
      (fun m => (Value.str m.1, m.2.2)) members (fun _ _ _ _ => Iff.rfl)).symm

mutual
/-- **Reading what was written gives the value, normalized, and writing that gives the
same text.** -/
theorem written_normalize : ∀ (value : Value), value.WellFormed → ∀ {text : Str},
    dumps value = some text → Written text (normalize value)
  | .none, _, _, h => by
    cases h
    exact ⟨parses_word rfl (by decide) (by decide) (by decide) (by decide) (by decide) fun rest => (parseAtom_words rest).1, rfl⟩
  | .bool true, _, _, h => by
    cases h
    exact ⟨parses_word rfl (by decide) (by decide) (by decide) (by decide) (by decide) fun rest => (parseAtom_words rest).2.1, rfl⟩
  | .bool false, _, _, h => by
    cases h
    exact ⟨parses_word rfl (by decide) (by decide) (by decide) (by decide) (by decide) fun rest => (parseAtom_words rest).2.2, rfl⟩
  | .int z, _, _, h => by
    cases h
    refine ⟨?_, rfl⟩
    cases z with
    | ofNat n =>
      have hp := parses_number false [] (isInteger_decimal n) fun rest hr => by
        rw [List.append_nil]
        exact parseNumber_int (isInteger_decimal n) (parseDigits_decimal n) hr
      rw [List.append_nil] at hp
      exact hp
    | negSucc n =>
      have hp := parses_number true [] (isInteger_decimal (n + 1)) fun rest hr => by
        rw [List.append_nil]
        exact parseNumber_int (isInteger_decimal (n + 1)) (parseDigits_decimal (n + 1)) hr
      rw [List.append_nil] at hp
      exact hp
  | .float (.finite repr), hwf, _, h => by
    cases h
    obtain ⟨negative, digits, fraction, exponent, hd, hf, he, hne, rfl⟩ := hwf
    refine ⟨?_, rfl⟩
    have hp := parses_number negative (fraction ++ exponent) hd fun rest hr => by
      rw [← List.append_assoc]
      exact parseNumber_float hd hf he hne hr
    rwa [← List.append_assoc] at hp
  | .str s, _, _, h => by
    cases h
    exact ⟨parses_quote s, rfl⟩
  | .list items, hwf, _, h => by
    obtain ⟨texts, htexts, rfl⟩ := Option.map_eq_some_iff.mp h
    obtain ⟨pairs, hfst, hsnd, hwritten⟩ := written_all items hwf htexts
    have := written_list hwritten (dumpsAll_map fun p hp => (hwritten p hp).dumps)
    rwa [hfst, hsnd] at this
  | .tuple items, hwf, _, h => by
    obtain ⟨texts, htexts, rfl⟩ := Option.map_eq_some_iff.mp h
    obtain ⟨pairs, hfst, hsnd, hwritten⟩ := written_all items hwf htexts
    have := written_list hwritten (dumpsAll_map fun p hp => (hwritten p hp).dumps)
    rwa [hfst, hsnd] at this
  | .dict items, hwf, _, h => by
    obtain ⟨parts, hparts, rfl⟩ := Option.map_eq_some_iff.mp h
    obtain ⟨members, rfl, hitems, hkeys, hwritten⟩ := written_items items hwf.2 hparts
    have hsorted := List.perm_insertionSort (fun a b : Str × Str × Value => a.1 ≤ b.1) members
    have hmem : ∀ m ∈ members.insertionSort fun a b => a.1 ≤ b.1, Written m.2.1 m.2.2 :=
      fun m hm => hwritten m (hsorted.mem_iff.mp hm)
    have hnodup : ((members.insertionSort fun a b => a.1 ≤ b.1).map Prod.fst).Nodup := by
      refine (hsorted.map Prod.fst).nodup_iff.mpr ?_
      have hstr := hwf.1
      rw [hkeys] at hstr
      rw [show (fun m : Str × Str × Value => Value.str m.1) = Value.str ∘ Prod.fst from rfl,
        ← List.map_map] at hstr
      exact hstr.of_map
    have hdumps : dumps (.dict ((members.insertionSort fun a b => a.1 ≤ b.1).map
        fun m => (Value.str m.1, m.2.2))) = some (str "\x7b" ++ joinCommas
          ((members.insertionSort fun a b => a.1 ≤ b.1).map memberText) ++ str "\x7d") := by
      have hsorts := @sorted_members (members.insertionSort fun a b => a.1 ≤ b.1)
      rw [(List.pairwise_insertionSort _ members).insertionSort_eq] at hsorts
      rw [dumps, dumpsItems_map fun m hm => (hmem m hm).dumps, Option.map_some, hsorts.1]
    have := written_dict hmem hnodup hdumps
    rw [normalize, ← hitems, sorted_members.1, sorted_members.2]
    exact this

/-- The elements of a sequence. -/
theorem written_all : ∀ (items : List Value), Value.AllWellFormed items → ∀ {texts : List Str},
    dumpsAll items = some texts → ∃ pairs : List (Str × Value), pairs.map Prod.fst = texts ∧
      pairs.map Prod.snd = normalizeAll items ∧ ∀ p ∈ pairs, Written p.1 p.2
  | [], _, _, h => by
    cases h
    exact ⟨[], rfl, rfl, fun _ h => nomatch h⟩
  | value :: rest, hwf, _, h => by
    rw [dumpsAll] at h
    cases hvalue : dumps value with
    | none => simp [hvalue] at h
    | some text =>
      cases hrest : dumpsAll rest with
      | none => simp [hvalue, hrest] at h
      | some texts =>
        simp only [hvalue, hrest, Option.some.injEq] at h
        obtain ⟨pairs, hfst, hsnd, hwritten⟩ := written_all rest hwf.2 hrest
        have hv := written_normalize value hwf.1 hvalue
        refine ⟨(text, normalize value) :: pairs, ?_, ?_, ?_⟩
        · rw [List.map_cons, hfst, h]
        · rw [List.map_cons, hsnd, normalizeAll]
        · intro p hp
          rcases List.mem_cons.mp hp with rfl | hp
          · exact hv
          · exact hwritten p hp

/-- The items of a dictionary. -/
theorem written_items : ∀ (items : List (Value × Value)), Value.ItemsWellFormed items →
    ∀ {parts : List (Str × Str)}, dumpsItems items = some parts →
      ∃ members : List (Str × Str × Value), members.map (fun m => (m.1, m.2.1)) = parts ∧
        members.map (fun m => (Value.str m.1, m.2.2)) = normalizeItems items ∧
        items.map Prod.fst = members.map (fun m => Value.str m.1) ∧
        ∀ m ∈ members, Written m.2.1 m.2.2
  | [], _, _, h => by
    cases h
    exact ⟨[], rfl, rfl, rfl, fun _ h => nomatch h⟩
  | (.str k, value) :: rest, hwf, _, h => by
    rw [dumpsItems] at h
    cases hvalue : dumps value with
    | none => simp [hvalue] at h
    | some text =>
      cases hrest : dumpsItems rest with
      | none => simp [hvalue, hrest] at h
      | some parts =>
        simp only [hvalue, hrest, Option.some.injEq] at h
        obtain ⟨members, hparts, hitems, hkeys, hwritten⟩ := written_items rest hwf.2 hrest
        have hv := written_normalize value hwf.1 hvalue
        refine ⟨(k, text, normalize value) :: members, ?_, ?_, ?_, ?_⟩
        · rw [List.map_cons, hparts, h]
        · rw [List.map_cons, hitems, normalizeItems]
        · rw [List.map_cons, List.map_cons, hkeys]
        · intro m hm
          rcases List.mem_cons.mp hm with rfl | hm
          · exact hv
          · exact hwritten m hm
  | (.none, _) :: _, _, _, h => by cases h
  | (.bool _, _) :: _, _, _, h => by cases h
  | (.int _, _) :: _, _, _, h => by cases h
  | (.float _, _) :: _, _, _, h => by cases h
  | (.bytes _, _) :: _, _, _, h => by cases h
  | (.list _, _) :: _, _, _, h => by cases h
  | (.tuple _, _) :: _, _, _, h => by cases h
  | (.sequence _, _) :: _, _, _, h => by cases h
  | (.dict _, _) :: _, _, _, h => by cases h
  | (.mapping _, _) :: _, _, _, h => by cases h
  | (.object _, _) :: _, _, _, h => by cases h
end

theorem ends_nil : Ends [] := fun _ h => nomatch h

/-- A text that a value was written to is read as the value. -/
theorem Parses.loads {text : Str} {value : Value} (h : Parses text value) :
    loads text = some value := by
  have hparse := h.parse (text.length + 1) [] ends_nil (Nat.le_succ _)
  have hspace := h.opens.skipSpace []
  rw [List.append_nil] at hparse hspace
  rw [Python.loads, hspace, hparse]
  rfl

theorem loads_dumps {value : Value} {text : Str} (hwf : value.WellFormed)
    (h : dumps value = some text) : loads text = some (normalize value) :=
  (written_normalize value hwf h).toParses.loads

theorem dumps_normalize {value : Value} {text : Str} (hwf : value.WellFormed)
    (h : dumps value = some text) : dumps (normalize value) = some text :=
  (written_normalize value hwf h).dumps

end Python
