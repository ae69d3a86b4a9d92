import EffectBroker.Contracts
import EffectBroker.DurationSeconds
import EffectBroker.JsonText

/-!
# Loading contracts

`contract_from_mapping`: a contract from the values of a configuration, with durations
given as numbers of seconds.  `int()`, `float()` and `str()` are those of Python: they take the
decimal digits of every script, and between an integer and its text they go only up to a
limit of digits.
-/
namespace EffectBroker
open Python

/-- A Python float as a number. -/
inductive FloatValue where
  | finite (q : ℚ)
  | nan
  | infinite
deriving DecidableEq

/-- `ValueError`. -/
def valueError (message : Str) : Exc := .other (str "ValueError") message

/-- What conversions print and what they make of objects, which answer for themselves: with a
value, or with an exception of some class. -/
structure Conversions where
  repr : Value → Str
  str : Value → Except (Str × Str) Str
  int : Value → Except (Str × Str) Int
  float : Value → Except (Str × Str) FloatValue

/-- What an object answers. -/
def answered {α : Type} : Except (Str × Str) α → Except Exc α
  | .ok value => .ok value
  | .error (className, message) => .error (.other className message)

/-! ## Numerals -/

/-- The digits zero, each followed by those up to nine, of the scripts of Unicode 15, which
Python 3.12 and 3.13 have. -/
def digitZeros : List Nat :=
  [0x30, 0x660, 0x6F0, 0x7C0, 0x966, 0x9E6, 0xA66, 0xAE6, 0xB66, 0xBE6, 0xC66, 0xCE6, 0xD66,
    0xDE6, 0xE50, 0xED0, 0xF20, 0x1040, 0x1090, 0x17E0, 0x1810, 0x1946, 0x19D0, 0x1A80, 0x1A90,
    0x1B50, 0x1BB0, 0x1C40, 0x1C50, 0xA620, 0xA8D0, 0xA900, 0xA9D0, 0xA9F0, 0xAA50, 0xABF0, 0xFF10,
    0x104A0, 0x10D30, 0x11066, 0x110F0, 0x11136, 0x111D0, 0x112F0, 0x11450, 0x114D0, 0x11650,
    0x116C0, 0x11730, 0x118E0, 0x11950, 0x11C50, 0x11D50, 0x11DA0, 0x11F50, 0x16A60, 0x16AC0,
    0x16B50, 0x1D7CE, 0x1D7D8, 0x1D7E2, 0x1D7EC, 0x1D7F6, 0x1E140, 0x1E2F0, 0x1E4F0, 0x1E950, 0x1FBF0]

/-- The value of a decimal digit of any script. -/
def decimalDigit (c : CodePoint) : Option Nat :=
  (digitZeros.find? fun first => first ≤ c.val && c.val < first + 10).map (c.val - ·)

/-- A text as `int()` and `float()` read it: in ASCII, without digits and white space of other
scripts.  No numeral has a question mark. -/
def numeralText (text : Str) : Str :=
  text.map fun c =>
    if c.val < 127 then c
    else if isSpace c then CodePoint.ofChar ' '
    else match decimalDigit c with
      | some value => CodePoint.ofChar (Nat.digitChar value)
      | none => CodePoint.ofChar '?'

/-- White space of ASCII, without the separators of files, groups, records and units. -/
def isAsciiSpace (c : CodePoint) : Bool := (9 ≤ c.val && c.val ≤ 13) || c.val == 32

/-- A numeral without the white space around it. -/
def stripNumeral (s : Str) : Str :=
  ((s.dropWhile isAsciiSpace).reverse.dropWhile isAsciiSpace).reverse

/-- `sys.get_int_max_str_digits()`. -/
def maxStrDigits : Nat := 4300

/-- Digits with single underscores between them, without the underscores. -/
def dropUnderscores : Str → Option Str
  | [] => some []
  | [c] => if c = CodePoint.ofChar '_' then none else some [c]
  | c :: d :: rest =>
    if c = CodePoint.ofChar '_' then none
    else if d = CodePoint.ofChar '_' then
      if isDigit c && rest.head?.any isDigit then (dropUnderscores rest).map (c :: ·) else none
    else (dropUnderscores (d :: rest)).map (c :: ·)

/-- The exponent at the end of a decimal number, if there is one. -/
def decimalExponent (s : Str) : Option Int :=
  match s with
  | [] => some 0
  | c :: rest =>
    if c = CodePoint.ofChar 'e' ∨ c = CodePoint.ofChar 'E' then
      let (sign, digits) := signPart rest
      if digits.all isDigit then
        (parseDigits digits).map fun n => if sign = str "-" then -(n : Int) else n
      else none
    else none

/-- The exact value of a decimal number without its sign. -/
def unsignedDecimal (s : Str) : Option ℚ := do
  let whole := s.takeWhile isDigit
  let rest := s.dropWhile isDigit
  let (fraction, rest) := match expect '.' rest with
    | some rest => (rest.takeWhile isDigit, rest.dropWhile isDigit)
    | none => ([], rest)
  let digits ← parseDigits (whole ++ fraction)
  let exponent ← decimalExponent rest
  return digits * (10 : ℚ) ^ (exponent - fraction.length)

/-- The float nearest to a number; the largest ones are infinite. -/
def nearestFloat (q : ℚ) : FloatValue :=
  if 2 ^ 1024 - 2 ^ 970 ≤ |q| then .infinite else .finite (Binary64.round q)

/-- Lower case, of ASCII letters. -/
def asciiLower (s : Str) : Str :=
  s.map fun c => if 65 ≤ c.val ∧ c.val ≤ 90 then c + 32 else c

/-- `float(value)` of a numeral; `printed` is the value in the error. -/
def floatOfText (printed text : Str) : Except Exc FloatValue :=
  let (sign, digits) := signPart (stripNumeral text)
  let negative := decide (sign = str "-")
  if asciiLower digits = str "inf" ∨ asciiLower digits = str "infinity" then .ok .infinite
  else if asciiLower digits = str "nan" then .ok .nan
  else
    match (dropUnderscores digits).bind unsignedDecimal with
    | some q => .ok (nearestFloat (if negative then -q else q))
    | none => .error (valueError (str "could not convert string to float: " ++ printed))

/-- The text of ASCII bytes. -/
def asciiText (bytes : Bytes) : Str := bytes.map fun b => Fin.ofNat 0x110000 b.toNat

/-- `float(value)`. -/
def toFloat (conversions : Conversions) : Value → Except Exc FloatValue
  | .bool b => .ok (.finite (if b then 1 else 0))
  | .int z =>
    match nearestFloat z with
    | .finite q => .ok (.finite q)
    | _ => .error .overflowError
  | .float .nan => .ok .nan
  | .float (.finite repr) => floatOfText repr repr
  | .float _ => .ok .infinite
  | .str text => floatOfText (conversions.repr (.str text)) (numeralText text)
  | .bytes bytes => floatOfText (printBytes bytes) (asciiText bytes)
  | value@(.none) | value@(.list _) | value@(.tuple _) | value@(.dict _) =>
    .error (.typeError
      (str "float() argument must be a string or a real number, not '" ++ value.typeName ++ str "'"))
  | value => answered (conversions.float value)

/-- `int(value)` of a numeral. -/
def intOfText (printed text : Str) : Except Exc Int :=
  let (sign, digits) := signPart (stripNumeral text)
  match parseDigits digits with
  | none =>
    .error (valueError (str "invalid literal for int() with base 10: " ++ printed.take 200))
  | some n =>
    -- leading zeros count, underscores do not
    let count := digits.countP isDigit
    if maxStrDigits < count then
      .error (valueError (str "Exceeds the limit (" ++ decimal maxStrDigits ++
        str " digits) for integer string conversion: value has " ++ decimal count ++
        str " digits; use sys.set_int_max_str_digits() to increase the limit"))
    else .ok (if sign = str "-" then -n else n)

/-- `int(value)`. -/
def toInt (conversions : Conversions) : Value → Except Exc Int
  | .bool b => .ok (if b then 1 else 0)
  | .int z => .ok z
  | .float f =>
    match toFloat conversions (.float f) with
    | .ok (.finite q) => .ok (Binary64.truncate q)
    | .ok .nan => .error (valueError (str "cannot convert float NaN to integer"))
    | .ok .infinite => .error .overflowError
    | .error exc => .error exc
  | .str text => intOfText (conversions.repr (.str text)) (numeralText text)
  | .bytes bytes => intOfText (printBytes bytes) (asciiText bytes)
  | value@(.none) | value@(.list _) | value@(.tuple _) | value@(.dict _) =>
    .error (.typeError
      (str "int() argument must be a string, a bytes-like object or a real number, not '" ++
        value.typeName ++ str "'"))
  | value => answered (conversions.int value)

/-- `str(value)`. -/
def toText (conversions : Conversions) : Value → Except Exc Str
  | .none => .ok (str "None")
  | .bool b => .ok (if b then str "True" else str "False")
  | .int z =>
    if maxStrDigits < (decimal z.natAbs).length then
      .error (valueError (str "Exceeds the limit (" ++ decimal maxStrDigits ++
        str (" digits) for integer string conversion; use sys.set_int_max_str_digits() " ++
          "to increase the limit")))
    else .ok (decimalInt z)
  | .float f => .ok f.print
  | .str text => .ok text
  | .bytes bytes => .ok (printBytes bytes)
  | value => answered (conversions.str value)

/-- `timedelta(seconds=seconds)`. -/
def timedeltaOfFloat : FloatValue → Except Exc Timedelta
  | .finite q =>
    match Timedelta.ofFloatSeconds q with
    | some d => .ok d
    | none => .error .overflowError
  | .nan => .error (valueError (str "cannot convert float NaN to integer"))
  | .infinite => .error .overflowError

/-- The `_duration` of a field. -/
def durationField (conversions : Conversions) (data : Items) (field : String) :
    Except Exc (Option Timedelta) :=
  match data.get? (str field) with
  | none => .ok none
  | some .none => .ok none
  | some seconds => do
    let seconds ← toFloat conversions seconds
    let duration ← timedeltaOfFloat seconds
    return some duration

/-- `SafetyClass(data["safety"])`, with its error. -/
def safetyField (name : Str) (data : Items) : Except Exc SafetyClass :=
  match data.get? (str "safety") with
  | some (.str text) =>
    match SafetyClass.ofValue? text with
    | some safety => .ok safety
    | none => .error (.contractError (.unknownSafety name))
  | _ => .error (.contractError (.unknownSafety name))

/-- Build and validate a contract from a config mapping. -/
def contractFromMapping (conversions : Conversions) (name : Str) (data : Items) :
    Except Exc EffectContract := do
  let safety ← safetyField name data
  let version ← toText conversions ((data.get? (str "version")).getD (text "v1"))
  let retryLimit ← toInt conversions ((data.get? (str "retry_limit")).getD (.int 0))
  let keyRetention ← durationField conversions data "key_retention_seconds"
  let settlementBound ← durationField conversions data "settlement_bound_seconds"
  validateContract { name, version, safety, retryLimit, keyRetention, settlementBound }

theorem validateContract_ok {contract contract' : EffectContract}
    (h : validateContract contract = .ok contract') : contract' = contract := by
  unfold validateContract at h
  split at h
  · cases h
  · split at h <;> (try split at h) <;> (try split at h) <;> cases h <;> rfl

/-- A contract that is loaded is valid. -/
theorem contractFromMapping_valid {conversions : Conversions} {name : Str} {data : Items}
    {contract : EffectContract} (h : contractFromMapping conversions name data = .ok contract) :
    contract.Valid := by
  unfold contractFromMapping at h
  obtain ⟨safety, -, h⟩ := bind_eq_ok.mp h
  obtain ⟨version, -, h⟩ := bind_eq_ok.mp h
  obtain ⟨retryLimit, -, h⟩ := bind_eq_ok.mp h
  obtain ⟨keyRetention, -, h⟩ := bind_eq_ok.mp h
  obtain ⟨settlementBound, -, h⟩ := bind_eq_ok.mp h
  rw [← validateContract_ok h] at h
  exact h

/-- Conversions for values without objects, of which one text is printed. -/
def sampleConversions (printed : Str) : Conversions where
  repr _ := printed
  str _ := .error ([], [])
  int _ := .error ([], [])
  float _ := .error ([], [])

example : contractFromMapping (sampleConversions []) (str "charge")
    [(text "safety", text "reconcilable"), (text "settlement_bound_seconds", .float (.finite (str "0.5")))] =
    .ok ⟨str "charge", str "v1", .reconcilable, 0, none, some ⟨500000, by decide, by decide⟩⟩ := by
  decide +kernel

end EffectBroker
