import EffectBroker.Errors

/-!
# Canonical serialization and operation fingerprinting

`canonical.py`: the strict JSON encoding, the request hash that binds an operation
key to its payload, and the downstream key sent to the target on every attempt.
SHA-256 and HMAC-SHA-256 are parameters.
-/
namespace EffectBroker
open Python

/-- `hashlib.sha256(_).digest()` and `hmac.new(_, _, hashlib.sha256).digest()`. -/
structure Hashes where
  sha256 : Bytes → Bytes
  hmacSha256 : Bytes → Bytes → Bytes

mutual
/-- Reject any value that cannot be canonicalized reproducibly. -/
def validate (path : Str) : Value → Except Exc Unit
  | .none | .bool _ | .str _ | .int _ => .ok ()
  | .float (.finite _) => .ok ()
  | .float f =>
    .error (.canonicalizationError (str "non-finite float at " ++ path ++ str ": " ++ f.print))
  | .dict items => validateItems path items
  | .mapping items => validateItems path items
  | .bytes _ => .error (.canonicalizationError (str "bytes are not serializable at " ++ path))
  | .list items => validateAll path 0 items
  | .tuple items => validateAll path 0 items
  | .sequence items => validateAll path 0 items
  | .object name =>
    .error (.canonicalizationError (str "unsupported type at " ++ path ++ str ": " ++ name))

/-- The loop over the items of a `Mapping`. -/
def validateItems (path : Str) : List (Value × Value) → Except Exc Unit
  | [] => .ok ()
  | (.str key, item) :: rest =>
    match validate (path ++ str "." ++ key) item with
    | .ok () => validateItems path rest
    | .error exc => .error exc
  | (key, _) :: _ =>
    .error (.canonicalizationError
      (str "non-string object key at " ++ path ++ str ": " ++ key.printKey))

/-- The loop over the elements of a `Sequence`, from `index` on. -/
def validateAll (path : Str) (index : Nat) : List Value → Except Exc Unit
  | [] => .ok ()
  | item :: rest =>
    match validate (path ++ str "[" ++ decimal index ++ str "]") item with
    | .ok () => validateAll path (index + 1) rest
    | .error exc => .error exc
end

/-- The one canonical JSON string for a value. -/
def canonicalJson (value : Value) : Except Exc Str :=
  match validate (str "$") value with
  | .error exc => .error exc
  | .ok () =>
    match dumps value with
    | some text => .ok text
    | none => .error (.typeError (str "not JSON serializable"))

/-- `digest.hexdigest()`. -/
def hexdigest (bytes : Bytes) : Str :=
  bytes.flatMap fun b => [hexDigit (b.toNat / 16), hexDigit (b.toNat % 16)]

/-- `s.encode()`. -/
def encode (s : Str) : Except Exc Bytes :=
  match encodeUtf8 s with
  | some bytes => .ok bytes
  | none => .error .unicodeEncodeError

/-- The SHA-256 that binds an operation key to an exact payload and contract. -/
def requestHash (hashes : Hashes) (tool : Str) (arguments : Value)
    (contractName contractVersion : Str) : Except Exc Str := do
  let canonical ← canonicalJson (.dict [(text "tool", .str tool), (text "arguments", arguments),
    (text "contract_name", .str contractName), (text "contract_version", .str contractVersion)])
  let bytes ← encode canonical
  return hexdigest (hashes.sha256 bytes)

/-- A character of the URL-safe base64 alphabet. -/
def base64Char (n : Nat) : CodePoint :=
  if n < 26 then CodePoint.ofChar (Char.ofNat (65 + n))
  else if n < 52 then CodePoint.ofChar (Char.ofNat (71 + n))
  else if n < 62 then CodePoint.ofChar (Char.ofNat (n - 4))
  else if n = 62 then CodePoint.ofChar '-'
  else CodePoint.ofChar '_'

/-- `base64.urlsafe_b64encode(bytes).rstrip(b"=").decode("ascii")`. -/
def urlsafeBase64 : Bytes → Str
  | [] => []
  | [a] => [base64Char (a.toNat / 4), base64Char (a.toNat % 4 * 16)]
  | [a, b] =>
    [base64Char (a.toNat / 4), base64Char (a.toNat % 4 * 16 + b.toNat / 16),
      base64Char (b.toNat % 16 * 4)]
  | a :: b :: c :: rest =>
    [base64Char (a.toNat / 4), base64Char (a.toNat % 4 * 16 + b.toNat / 16),
      base64Char (b.toNat % 16 * 4 + c.toNat / 64), base64Char (c.toNat % 64)] ++ urlsafeBase64 rest

/-- The stable key propagated to the target on every attempt. -/
def downstreamKey (hashes : Hashes) (tenantKey : Bytes) (tenantId operationKey : Str) :
    Except Exc Str := do
  let message ← encode (tenantId ++ str "\x00" ++ operationKey)
  return urlsafeBase64 (hashes.hmacSha256 tenantKey message)

/-- `TenantKeyProvider`. -/
abbrev TenantKeyProvider := Str → Except Exc Bytes

/-- Derive per-tenant HMAC keys from one broker secret. -/
def tenantKeyProviderFromSecret (hashes : Hashes) (brokerSecret : Bytes) : TenantKeyProvider :=
  fun tenantId => do
    let message ← encode tenantId
    return hashes.hmacSha256 brokerSecret message

end EffectBroker
