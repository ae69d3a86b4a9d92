import EffectBroker.OrderedDict
import EffectBroker.PythonValue

/-!
# `json.loads`

The reader of the standard library, and what it makes of the texts that `json.dumps`
writes: the value that was written, up to tuples, which become lists, and the order of
the keys (`normalize`).
-/
namespace Python

/-! ## The reader -/

/-- White space between tokens. -/
def isJsonSpace (c : CodePoint) : Bool := c.val = 32 || c.val = 9 || c.val = 10 || c.val = 13

def skipSpace (s : Str) : Str := s.dropWhile isJsonSpace

/-- The value of a hexadecimal digit. -/
def hexValue (c : CodePoint) : Option Nat :=
  if 48 ≤ c.val ∧ c.val ≤ 57 then some (c.val - 48)
  else if 97 ≤ c.val ∧ c.val ≤ 102 then some (c.val - 87)
  else if 65 ≤ c.val ∧ c.val ≤ 70 then some (c.val - 55)
  else none

/-- The value of four hexadecimal digits. -/
def hex4 (a b c d : CodePoint) : Option (Fin 65536) := do
  let a ← hexValue a
  let b ← hexValue b
  let c ← hexValue c
  let d ← hexValue d
  return Fin.ofNat 65536 (((a * 16 + b) * 16 + c) * 16 + d)

/-- The character of a one-character escape. -/
def unescape (c : CodePoint) : Option CodePoint :=
  if c = CodePoint.ofChar '"' ∨ c = CodePoint.ofChar '\\' ∨ c = CodePoint.ofChar '/' then some c
  else if c = CodePoint.ofChar 'b' then some 8
  else if c = CodePoint.ofChar 'f' then some 12
  else if c = CodePoint.ofChar 'n' then some 10
  else if c = CodePoint.ofChar 'r' then some 13
  else if c = CodePoint.ofChar 't' then some 9
  else none

/-- The code point of a surrogate pair. -/
def joinSurrogates (high low : Nat) : CodePoint :=
  Fin.ofNat 0x110000 (0x10000 + (high - 0xD800) * 0x400 + (low - 0xDC00))

/-- The characters of a string up to its closing quote.  `pending` is an escaped high
surrogate just read: an escaped low one would join it. -/
def parseChars (pending : Option CodePoint) : Str → Option (Str × Str)
  | [] => none
  | c :: s =>
    if c = CodePoint.ofChar '"' then some (pending.toList, s)
    else if c = CodePoint.ofChar '\\' then
      match s with
      | [] => none
      | e :: s =>
        if e = CodePoint.ofChar 'u' then
          match s with
          | h₁ :: h₂ :: h₃ :: h₄ :: s =>
            match hex4 h₁ h₂ h₃ h₄, pending with
            | none, _ => none
            | some n, some high =>
              if 0xDC00 ≤ n.val ∧ n.val ≤ 0xDFFF then
                (parseChars none s).map fun p => (joinSurrogates high n :: p.1, p.2)
              else if 0xD800 ≤ n.val ∧ n.val ≤ 0xDBFF then
                (parseChars (some (Fin.ofNat _ n.val)) s).map fun p => (high :: p.1, p.2)
              else (parseChars none s).map fun p => (high :: Fin.ofNat _ n.val :: p.1, p.2)
            | some n, none =>
              if 0xD800 ≤ n.val ∧ n.val ≤ 0xDBFF then parseChars (some (Fin.ofNat _ n.val)) s
              else (parseChars none s).map fun p => (Fin.ofNat _ n.val :: p.1, p.2)
          | _ => none
        else
          match unescape e with
          | some x => (parseChars none s).map fun p => (pending.toList ++ x :: p.1, p.2)
          | none => none
    -- control characters are not allowed in strings
    else if c.val < 32 then none
    else (parseChars none s).map fun p => (pending.toList ++ c :: p.1, p.2)

def isDigit (c : CodePoint) : Bool := 48 ≤ c.val && c.val ≤ 57

/-- `(0|[1-9][0-9]*)`. -/
def integerPart (s : Str) : Option (Str × Str) :=
  match s with
  | [] => none
  | c :: rest =>
    if c = CodePoint.ofChar '0' then some ([c], rest)
    else if isDigit c then some (s.takeWhile isDigit, s.dropWhile isDigit)
    else none

/-- `(\.[0-9]+)?`. -/
def fractionPart (s : Str) : Str × Str :=
  match expect '.' s with
  | none => ([], s)
  | some rest =>
    if (rest.takeWhile isDigit).isEmpty then ([], s)
    else (CodePoint.ofChar '.' :: rest.takeWhile isDigit, rest.dropWhile isDigit)

/-- `[-+]?`. -/
def signPart (s : Str) : Str × Str :=
  match s with
  | [] => ([], [])
  | c :: rest =>
    if c = CodePoint.ofChar '-' ∨ c = CodePoint.ofChar '+' then ([c], rest) else ([], s)

/-- `([eE][-+]?[0-9]+)?`. -/
def exponentPart (s : Str) : Str × Str :=
  match s with
  | [] => ([], [])
  | c :: rest =>
    if c = CodePoint.ofChar 'e' ∨ c = CodePoint.ofChar 'E' then
      let (sign, digits) := signPart rest
      if (digits.takeWhile isDigit).isEmpty then ([], s)
      else (c :: sign ++ digits.takeWhile isDigit, digits.dropWhile isDigit)
    else ([], s)

/-- A number without its sign.  A float is the token that stands in the text, which is
the printed form where `dumps` wrote it. -/
def parseNumber (negative : Bool) (s : Str) : Option (Value × Str) := do
  let (digits, s) ← integerPart s
  let (fraction, s) := fractionPart s
  let (exponent, s) := exponentPart s
  let sign := if negative then str "-" else []
  if fraction.isEmpty && exponent.isEmpty then
    let n ← parseDigits digits
    return (.int (if negative then -(n : Int) else n), s)
  else return (.float (.finite (sign ++ digits ++ fraction ++ exponent)), s)

/-- Read a given word. -/
def expectWord : Str → Str → Option Str
  | [], s => some s
  | _ :: _, [] => none
  | c :: word, d :: s => if d = c then expectWord word s else none

/-- A word of the grammar, or a number. -/
def parseAtom (s : Str) : Option (Value × Str) :=
  match expectWord (str "null") s with
  | some s => some (.none, s)
  | none =>
  match expectWord (str "true") s with
  | some s => some (.bool true, s)
  | none =>
  match expectWord (str "false") s with
  | some s => some (.bool false, s)
  | none =>
  match expectWord (str "NaN") s with
  | some s => some (.float .nan, s)
  | none =>
  match expectWord (str "Infinity") s with
  | some s => some (.float .infinity, s)
  | none =>
  match expectWord (str "-Infinity") s with
  | some s => some (.float .negInfinity, s)
  | none =>
  match expect '-' s with
  | some s => parseNumber true s
  | none => parseNumber false s

/-- `dict(pairs)`: a later value of a key takes the place of an earlier one. -/
def dictOf (pairs : List (Str × Value)) : Items :=
  (pairs.foldl (fun items pair => Dict.setItems pair.1 pair.2 items) []).map
    fun p => (.str p.1, p.2)

mutual
/-- A value at the start of a text.  The fuel bounds the nesting and the number of
elements; the length of the text is enough. -/
def parseValue : Nat → Str → Option (Value × Str)
  | 0, _ => none
  | fuel + 1, s =>
    match expect '"' s with
    | some s => (parseChars none s).map fun p => (.str p.1, p.2)
    | none =>
    match expect '\x7b' s with
    | some s =>
      match expect '\x7d' (skipSpace s) with
      | some s => some (.dict [], s)
      | none => (parseMembers fuel (skipSpace s)).map fun p => (.dict (dictOf p.1), p.2)
    | none =>
    match expect '[' s with
    | some s =>
      match expect ']' (skipSpace s) with
      | some s => some (.list [], s)
      | none => (parseElements fuel (skipSpace s)).map fun p => (.list p.1, p.2)
    | none => parseAtom s

/-- The elements of an array up to its closing bracket. -/
def parseElements : Nat → Str → Option (List Value × Str)
  | 0, _ => none
  | fuel + 1, s =>
    match parseValue fuel s with
    | none => none
    | some (value, s) =>
      match expect ',' (skipSpace s) with
      | some s => (parseElements fuel (skipSpace s)).map fun p => (value :: p.1, p.2)
      | none => (expect ']' (skipSpace s)).map fun s => ([value], s)

/-- The members of an object up to its closing brace. -/
def parseMembers : Nat → Str → Option (List (Str × Value) × Str)
  | 0, _ => none
  | fuel + 1, s =>
    match expect '"' s with
    | none => none
    | some s =>
    match parseChars none s with
    | none => none
    | some (key, s) =>
    match expect ':' (skipSpace s) with
    | none => none
    | some s =>
    match parseValue fuel (skipSpace s) with
    | none => none
    | some (value, s) =>
      match expect ',' (skipSpace s) with
      | some s => (parseMembers fuel (skipSpace s)).map fun p => ((key, value) :: p.1, p.2)
      | none => (expect '\x7d' (skipSpace s)).map fun s => ([(key, value)], s)
end

/-- `json.loads(s)`; `none` is `JSONDecodeError`. -/
def loads (s : Str) : Option Value :=
  match parseValue (s.length + 1) (skipSpace s) with
  | some (value, rest) => if (skipSpace rest).isEmpty then some value else none
  | none => none

end Python
