import EffectBroker.Canonical
import EffectBroker.JsonRoundTrip

/-!
# Canonical JSON that is read again

What `canonical_json` writes and `json.loads` reads has the canonical JSON it had, so a
request hash can be computed again from a stored payload.
-/
namespace EffectBroker
open Python

mutual
/-- What `json.dumps` accepts is canonicalized. -/
theorem validate_of_dumps : ∀ (value : Value) (path : Str) {text : Str}, dumps value = some text →
    validate path value = .ok ()
  | .none, _, _, _ => rfl
  | .bool _, _, _, _ => rfl
  | .int _, _, _, _ => rfl
  | .str _, _, _, _ => rfl
  | .float (.finite _), _, _, _ => rfl
  | .list items, path, _, h => by
    obtain ⟨texts, htexts, -⟩ := Option.map_eq_some_iff.mp h
    exact validateAll_of_dumps items path 0 htexts
  | .tuple items, path, _, h => by
    obtain ⟨texts, htexts, -⟩ := Option.map_eq_some_iff.mp h
    exact validateAll_of_dumps items path 0 htexts
  | .dict items, path, _, h => by
    obtain ⟨parts, hparts, -⟩ := Option.map_eq_some_iff.mp h
    exact validateItems_of_dumps items path hparts

theorem validateAll_of_dumps : ∀ (items : List Value) (path : Str) (index : Nat) {texts : List Str},
    dumpsAll items = some texts → validateAll path index items = .ok ()
  | [], _, _, _, _ => rfl
  | value :: rest, path, index, _, h => by
    rw [dumpsAll] at h
    cases hvalue : dumps value with
    | none => simp [hvalue] at h
    | some text =>
      cases hrest : dumpsAll rest with
      | none => simp [hvalue, hrest] at h
      | some texts =>
        rw [validateAll, validate_of_dumps value _ hvalue]
        exact validateAll_of_dumps rest path (index + 1) hrest

theorem validateItems_of_dumps : ∀ (items : List (Value × Value)) (path : Str)
    {parts : List (Str × Str)}, dumpsItems items = some parts → validateItems path items = .ok ()
  | [], _, _, _ => rfl
  | (.str key, value) :: rest, path, _, h => by
    rw [dumpsItems] at h
    cases hvalue : dumps value with
    | none => simp [hvalue] at h
    | some text =>
      cases hrest : dumpsItems rest with
      | none => simp [hvalue, hrest] at h
      | some parts =>
        rw [validateItems, validate_of_dumps value _ hvalue]
        exact validateItems_of_dumps rest path hrest
end

/-- The canonical JSON of a value is what `json.dumps` writes. -/
theorem canonicalJson_eq_ok {value : Value} {text : Str} :
    canonicalJson value = .ok text ↔ dumps value = some text := by
  unfold canonicalJson
  constructor
  · intro h
    split at h
    · cases h
    · split at h
      · rename_i heq
        cases h
        exact heq
      · cases h
  · intro h
    simp only [validate_of_dumps value _ h, h]

theorem canonicalJson_normalize {value : Value} {text : Str} (hwf : value.WellFormed)
    (h : canonicalJson value = .ok text) : canonicalJson (normalize value) = .ok text :=
  canonicalJson_eq_ok.mpr (dumps_normalize hwf (canonicalJson_eq_ok.mp h))

/-- What a request hash is computed from. -/
def hashedRequest (tool : Str) (arguments : Value) (contractName contractVersion : Str) : Value :=
  .dict [(text "tool", .str tool), (text "arguments", arguments),
    (text "contract_name", .str contractName), (text "contract_version", .str contractVersion)]

theorem dumps_hashedRequest {tool contractName contractVersion : Str} {arguments : Value}
    {json : Str} (h : dumps (hashedRequest tool arguments contractName contractVersion) = some json) :
    ∃ argumentsText, dumps arguments = some argumentsText := by
  obtain ⟨parts, hparts, -⟩ := Option.map_eq_some_iff.mp h
  cases harguments : dumps arguments with
  | some argumentsText => exact ⟨argumentsText, rfl⟩
  | none => simp [dumpsItems, dumps, harguments, text] at hparts

theorem dumps_hashedRequest_congr {tool contractName contractVersion : Str} {a b : Value}
    (h : dumps a = dumps b) : dumps (hashedRequest tool a contractName contractVersion) =
      dumps (hashedRequest tool b contractName contractVersion) := by
  simp only [hashedRequest, dumps, dumpsItems, text, h]

/-- A request that has a hash has arguments that can be stored. -/
theorem dumps_of_requestHash {hashes : Hashes} {tool contractName contractVersion : Str}
    {arguments : Value} {hash : Str}
    (h : requestHash hashes tool arguments contractName contractVersion = .ok hash) :
    ∃ argumentsText, dumps arguments = some argumentsText := by
  obtain ⟨canonical, hcanonical, -⟩ := bind_eq_ok.mp h
  exact dumps_hashedRequest (canonicalJson_eq_ok.mp hcanonical)

/-- **The hash of a stored payload is the hash of the payload.** -/
theorem requestHash_normalize {hashes : Hashes} {tool contractName contractVersion : Str}
    {arguments : Value} {hash : Str} (hwf : arguments.WellFormed)
    (h : requestHash hashes tool arguments contractName contractVersion = .ok hash) :
    requestHash hashes tool (normalize arguments) contractName contractVersion = .ok hash := by
  obtain ⟨canonical, hcanonical, hrest⟩ := bind_eq_ok.mp h
  obtain ⟨argumentsText, htext⟩ := dumps_of_requestHash h
  have hsame : dumps (normalize arguments) = dumps arguments := by
    rw [dumps_normalize hwf htext, htext]
  refine bind_eq_ok.mpr ⟨canonical, canonicalJson_eq_ok.mpr ?_, hrest⟩
  exact (dumps_hashedRequest_congr hsame).trans (canonicalJson_eq_ok.mp hcanonical)

end EffectBroker
