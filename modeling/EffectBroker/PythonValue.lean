import Mathlib.Data.List.Sort
import EffectBroker.PythonText

/-!
# Python values and `json.dumps`

The values a caller or an adapter can hand to the broker: the JSON-like ones, the
other `Mapping`s and `Sequence`s, `bytes`, and any other object.  A finite float is
the token `repr` prints for it.
-/
namespace Python

/-- A Python `float`; a finite one is its printed form. -/
inductive Float where
  | finite (repr : Str)
  | nan
  | infinity
  | negInfinity
deriving DecidableEq

/-- A Python value.  `sequence` and `mapping` are the `Sequence`s other than
`str`, `bytes`, `list` and `tuple`, and the `Mapping`s other than `dict`. -/
inductive Value where
  | none
  | bool (b : Bool)
  | int (z : Int)
  | float (f : Float)
  | str (s : Str)
  | bytes (b : Bytes)
  | list (items : List Value)
  | tuple (items : List Value)
  | sequence (items : List Value)
  | dict (items : List (Value × Value))
  | mapping (items : List (Value × Value))
  | object (typeName : Str)

/-- A hexadecimal digit, in lower case. -/
def hexDigit (n : Nat) : CodePoint := CodePoint.ofChar (Nat.digitChar n)

/-- `repr(f)`. -/
def Float.print : Float → Str
  | finite repr => repr
  | nan => str "nan"
  | infinity => str "inf"
  | negInfinity => str "-inf"

/-- `repr(bytes)`. -/
def printBytes (bytes : Bytes) : Str :=
  let mark : CodePoint := if 39 ∈ bytes ∧ 34 ∉ bytes then 34 else 39
  str "b" ++ [mark] ++ bytes.flatMap (fun byte =>
    let c : CodePoint := Fin.ofNat 0x110000 byte.toNat
    if c = mark ∨ c = CodePoint.ofChar '\\' then [CodePoint.ofChar '\\', c]
    else if byte = 9 then str "\\t"
    else if byte = 10 then str "\\n"
    else if byte = 13 then str "\\r"
    else if byte < 32 ∨ 127 ≤ byte then
      str "\\x" ++ [hexDigit (byte.toNat / 16), hexDigit (byte.toNat % 16)]
    else [c]) ++ [mark]

/-- The items of a `Mapping`. -/
abbrev Items := List (Value × Value)

/-- A string literal as a value. -/
def text (s : String) : Value := .str (str s)

/-- Whether a value is the string `s`. -/
def Value.isStr (s : Str) : Value → Bool
  | .str t => t == s
  | _ => false

/-- `items.get(key)` for a string key. -/
def Items.get? (items : Items) (key : Str) : Option Value :=
  (items.find? (fun p => p.1.isStr key)).map Prod.snd

/-- The items a `Mapping` has; no other value has any. -/
def Value.items? : Value → Option Items
  | .dict items => some items
  | .mapping items => some items
  | _ => Option.none

/-- `type(value).__name__`. -/
def Value.typeName : Value → Str
  | .none => Python.str "NoneType"
  | .bool _ => Python.str "bool"
  | .int _ => Python.str "int"
  | .float _ => Python.str "float"
  | .str _ => Python.str "str"
  | .bytes _ => Python.str "bytes"
  | .list _ => Python.str "list"
  | .tuple _ => Python.str "tuple"
  | .sequence _ => Python.str "Sequence"
  | .dict _ => Python.str "dict"
  | .mapping _ => Python.str "Mapping"
  | .object name => name

/-- `repr(key)` of a key that is no `str`; the type stands for what has parts or an address. -/
def Value.printKey : Value → Str
  | .none => Python.str "None"
  | .bool b => if b then Python.str "True" else Python.str "False"
  | .int z => decimalInt z
  | .float f => f.print
  | .bytes b => printBytes b
  | key => Python.str "<" ++ key.typeName ++ Python.str ">"

/-! ## `json.dumps`

With `sort_keys=True`, `separators=(",", ":")`, `ensure_ascii=False` and
`allow_nan=False`. -/

/-- One character of a JSON string. -/
def escape (c : CodePoint) : Str :=
  if c = CodePoint.ofChar '"' then str "\\\""
  else if c = CodePoint.ofChar '\\' then str "\\\\"
  else if c.val = 8 then str "\\b"
  else if c.val = 9 then str "\\t"
  else if c.val = 10 then str "\\n"
  else if c.val = 12 then str "\\f"
  else if c.val = 13 then str "\\r"
  else if c.val < 32 then str "\\u00" ++ [hexDigit (c.val / 16), hexDigit (c.val % 16)]
  else [c]

/-- A JSON string. -/
def quote (s : Str) : Str := str "\"" ++ s.flatMap escape ++ str "\""

/-- `sep.join(parts)` for a comma. -/
def joinCommas : List Str → Str
  | [] => []
  | [part] => part
  | part :: rest => part ++ str "," ++ joinCommas rest

/-- The order of `sorted` on the keys of a dictionary of strings. -/
def keyLe (a b : Str × Str) : Prop := a.1 ≤ b.1

instance : DecidableRel keyLe := fun a b => inferInstanceAs (Decidable (a.1 ≤ b.1))

mutual
/-- `json.dumps(value)`; `none` is `TypeError` or `ValueError`. -/
def dumps : Value → Option Str
  | .none => some (str "null")
  | .bool true => some (str "true")
  | .bool false => some (str "false")
  | .int z => some (decimalInt z)
  | .float (.finite repr) => some repr
  | .str s => some (quote s)
  | .list items => (dumpsAll items).map (fun parts => str "[" ++ joinCommas parts ++ str "]")
  | .tuple items => (dumpsAll items).map (fun parts => str "[" ++ joinCommas parts ++ str "]")
  | .dict items =>
    (dumpsItems items).map fun parts =>
      str "\x7b" ++ joinCommas ((parts.insertionSort keyLe).map
        (fun p => quote p.1 ++ str ":" ++ p.2)) ++ str "\x7d"
  -- non-finite floats, bytes, and containers `json` does not know
  | _ => Option.none

/-- The texts of the elements of a sequence. -/
def dumpsAll : List Value → Option (List Str)
  | [] => some []
  | v :: rest =>
    match dumps v, dumpsAll rest with
    | some text, some texts => some (text :: texts)
    | _, _ => Option.none

/-- The keys and the texts of the values of a dictionary with string keys. -/
def dumpsItems : List (Value × Value) → Option (List (Str × Str))
  | [] => some []
  | (.str k, v) :: rest =>
    match dumps v, dumpsItems rest with
    | some text, some texts => some ((k, text) :: texts)
    | _, _ => Option.none
  | _ => Option.none
end

example : dumps (.dict [(text "b", .list [.int (-1), .none]), (text "a", text "\"\n")]) =
    some (str "\x7b\"a\":\"\\\"\\n\",\"b\":[-1,null]\x7d") := by decide

end Python
