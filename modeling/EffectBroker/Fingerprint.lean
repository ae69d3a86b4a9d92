import EffectBroker.CanonicalJson
import EffectBroker.EncodedBytes
import EffectBroker.JsonFidelity
import EffectBroker.System

/-!
# What a fingerprint tells

Two requests have one hash only if they are the same request.  A request that is rejected
should be rejected as not canonical, and for containers that `json` does not know and for
lone surrogates it is not: the validator lets them through.
-/
namespace EffectBroker
open Python

/-! ## Two recursions over values -/

mutual
/-- Containers are dictionaries, lists and tuples, all the way down. -/
def Concrete : Value → Prop
  | .list items | .tuple items => ConcreteAll items
  | .dict items => ConcreteItems items
  | .sequence _ | .mapping _ => False
  | _ => True

def ConcreteAll : List Value → Prop
  | [] => True
  | value :: rest => Concrete value ∧ ConcreteAll rest

def ConcreteItems : Items → Prop
  | [] => True
  | (_, value) :: rest => Concrete value ∧ ConcreteItems rest
end

/-- The validator raises nothing else. -/
def Canonicalization : Except Exc Unit → Prop
  | .ok () => True
  | .error exc => ∃ message, exc = .canonicalizationError message

mutual
theorem validate_raises : ∀ (path : Str) (value : Value), Canonicalization (validate path value)
  | _, .none | _, .bool _ | _, .str _ | _, .int _ | _, .float (.finite _) => trivial
  | _, .float .nan | _, .float .infinity | _, .float .negInfinity | _, .bytes _ | _, .object _ =>
    ⟨_, rfl⟩
  | path, .dict items | path, .mapping items => validateItems_raises path items
  | path, .list items | path, .tuple items | path, .sequence items => validateAll_raises path 0 items

theorem validateItems_raises : ∀ (path : Str) (items : Items),
    Canonicalization (validateItems path items)
  | _, [] => trivial
  | path, (.str key, value) :: rest => by
    have hvalue := validate_raises (path ++ str "." ++ key) value
    rw [validateItems]
    cases h : validate (path ++ str "." ++ key) value with
    | ok _ => exact validateItems_raises path rest
    | error exc =>
      rw [h] at hvalue
      exact hvalue
  | _, (.none, _) :: _ | _, (.bool _, _) :: _ | _, (.int _, _) :: _ | _, (.float _, _) :: _
  | _, (.bytes _, _) :: _ | _, (.list _, _) :: _ | _, (.tuple _, _) :: _ | _, (.sequence _, _) :: _
  | _, (.dict _, _) :: _ | _, (.mapping _, _) :: _ | _, (.object _, _) :: _ => ⟨_, rfl⟩

theorem validateAll_raises : ∀ (path : Str) (index : Nat) (items : List Value),
    Canonicalization (validateAll path index items)
  | _, _, [] => trivial
  | path, index, value :: rest => by
    have hvalue := validate_raises (path ++ str "[" ++ decimal index ++ str "]") value
    rw [validateAll]
    cases h : validate (path ++ str "[" ++ decimal index ++ str "]") value with
    | ok _ => exact validateAll_raises path (index + 1) rest
    | error exc =>
      rw [h] at hvalue
      exact hvalue
end

mutual
/-- What the validator accepts is JSON if its containers are those that `json` knows. -/
theorem jsonLike_iff : ∀ (path : Str) (value : Value), validate path value = .ok () →
    (JsonLike value ↔ Concrete value)
  | _, .none, _ | _, .bool _, _ | _, .str _, _ | _, .int _, _ | _, .float (.finite _), _ => Iff.rfl
  | _, .mapping _, _ | _, .sequence _, _ => Iff.rfl
  | path, .dict items, h => jsonLikeItems_iff path items h
  | path, .list items, h | path, .tuple items, h => jsonLikeAll_iff path 0 items h

theorem jsonLikeItems_iff : ∀ (path : Str) (items : Items), validateItems path items = .ok () →
    (JsonLikeItems items ↔ ConcreteItems items)
  | _, [], _ => Iff.rfl
  | path, (.str key, value) :: rest, h => by
    rw [validateItems] at h
    cases hvalue : validate (path ++ str "." ++ key) value with
    | ok _ =>
      rw [hvalue] at h
      exact and_congr (jsonLike_iff _ value hvalue) (jsonLikeItems_iff path rest h)
    | error exc =>
      rw [hvalue] at h
      cases h

theorem jsonLikeAll_iff : ∀ (path : Str) (index : Nat) (items : List Value),
    validateAll path index items = .ok () → (JsonLikeAll items ↔ ConcreteAll items)
  | _, _, [], _ => Iff.rfl
  | path, index, value :: rest, h => by
    rw [validateAll] at h
    cases hvalue : validate (path ++ str "[" ++ decimal index ++ str "]") value with
    | ok _ =>
      rw [hvalue] at h
      exact and_congr (jsonLike_iff _ value hvalue) (jsonLikeAll_iff path (index + 1) rest h)
    | error exc =>
      rw [hvalue] at h
      cases h
end

mutual
/-- What `json` writes is JSON-like. -/
theorem jsonLike_of_dumps : ∀ (value : Value) {json : Str}, dumps value = some json → JsonLike value
  | .none, _, _ | .bool _, _, _ | .int _, _, _ | .str _, _, _ | .float (.finite _), _, _ => trivial
  | .list items, _, h | .tuple items, _, h => by
    obtain ⟨texts, htexts, -⟩ := Option.map_eq_some_iff.mp h
    exact jsonLikeAll_of_dumps items htexts
  | .dict items, _, h => by
    obtain ⟨parts, hparts, -⟩ := Option.map_eq_some_iff.mp h
    exact jsonLikeItems_of_dumps items hparts

theorem jsonLikeAll_of_dumps : ∀ (items : List Value) {texts : List Str},
    dumpsAll items = some texts → JsonLikeAll items
  | [], _, _ => trivial
  | value :: rest, _, h => by
    rw [dumpsAll] at h
    cases hvalue : dumps value with
    | none => simp [hvalue] at h
    | some text =>
      cases hrest : dumpsAll rest with
      | none => simp [hvalue, hrest] at h
      | some texts => exact ⟨jsonLike_of_dumps value hvalue, jsonLikeAll_of_dumps rest hrest⟩

theorem jsonLikeItems_of_dumps : ∀ (items : Items) {parts : List (Str × Str)},
    dumpsItems items = some parts → JsonLikeItems items
  | [], _, _ => trivial
  | (.str _, value) :: rest, _, h => by
    rw [dumpsItems] at h
    cases hvalue : dumps value with
    | none => simp [hvalue] at h
    | some text =>
      cases hrest : dumpsItems rest with
      | none => simp [hvalue, hrest] at h
      | some parts => exact ⟨jsonLike_of_dumps value hvalue, jsonLikeItems_of_dumps rest hrest⟩
end

/-! ## What is hashed -/

/-- What a canonical encoding is for: JSON over all Unicode scalar values. -/
structure Canonicalizable (value : Value) : Prop where
  json : JsonLike value
  wellFormed : value.WellFormed
  scalars : Scalars value

section
variable {hashes : Hashes} {tool contractName contractVersion : Str} {arguments : Value}

theorem canonicalJson_jsonLike {value : Value} (h : JsonLike value) :
    ∃ text, canonicalJson value = .ok text := by
  obtain ⟨text, htext⟩ := dumps_jsonLike value h
  exact ⟨text, canonicalJson_eq_ok.mpr htext⟩

/-- The canonical texts of two values are equal exactly if the values are the same JSON. -/
theorem canonicalJson_eq_iff {v w : Value} (hv : JsonLike v) (hv' : v.WellFormed) (hw : JsonLike w)
    (hw' : w.WellFormed) : canonicalJson v = canonicalJson w ↔ SameJson v w := by
  rw [← dumps_eq_iff hv hv' hw hw']
  obtain ⟨text, htext⟩ := dumps_jsonLike v hv
  obtain ⟨text', htext'⟩ := dumps_jsonLike w hw
  rw [htext, htext', canonicalJson_eq_ok.mpr htext, canonicalJson_eq_ok.mpr htext', Except.ok.injEq,
    Option.some.injEq]

theorem wellFormed_hashedRequest (hwf : arguments.WellFormed) :
    (hashedRequest tool arguments contractName contractVersion).WellFormed := by
  refine ⟨?_, trivial, hwf, trivial, trivial, trivial⟩
  have hkeys : [str "tool", str "arguments", str "contract_name", str "contract_version"].Nodup := by
    decide
  show ([str "tool", str "arguments", str "contract_name", str "contract_version"].map
    Value.str).Nodup
  exact hkeys.map fun _ _ h => Value.str.inj h

theorem jsonLike_hashedRequest (h : JsonLike arguments) :
    JsonLike (hashedRequest tool arguments contractName contractVersion) :=
  ⟨trivial, h, trivial, trivial, trivial⟩

theorem scalars_hashedRequest :
    Scalars (hashedRequest tool arguments contractName contractVersion) ↔
      Python.Encodable tool ∧ Scalars arguments ∧ Python.Encodable contractName ∧ Python.Encodable contractVersion := by
  have hkey (s : String) : Scalars (text s) := encodable_str s
  show ((Scalars (text _) ∧ Python.Encodable tool) ∧ (Scalars (text _) ∧ Scalars arguments) ∧
    (Scalars (text _) ∧ Python.Encodable contractName) ∧ (Scalars (text _) ∧ Python.Encodable contractVersion) ∧
    True) ↔ _
  simp only [hkey, true_and, and_true]

/-- The hash of a request that can be written and encoded. -/
theorem requestHash_eq_ok {json : Str} {bytes : Bytes}
    (hjson : canonicalJson (hashedRequest tool arguments contractName contractVersion) = .ok json)
    (hbytes : encode json = .ok bytes) :
    requestHash hashes tool arguments contractName contractVersion =
      .ok (hexdigest (hashes.sha256 bytes)) :=
  bind_eq_ok.mpr ⟨json, hjson, bind_eq_ok.mpr ⟨bytes, hbytes, rfl⟩⟩

theorem sameJson_str {s t : Str} : SameJson (.str s) (.str t) ↔ s = t := by
  constructor
  · intro h
    cases h with
    | refl => rfl
    | array hs => cases hs
  · intro h
    rw [h]
    exact .refl _

/-- Hashed requests are the same JSON exactly if each part is. -/
theorem sameJson_hashedRequest {tool' contractName' contractVersion' : Str} {arguments' : Value} :
    SameJson (hashedRequest tool arguments contractName contractVersion)
        (hashedRequest tool' arguments' contractName' contractVersion') ↔
      tool = tool' ∧ SameJson arguments arguments' ∧ contractName = contractName' ∧
        contractVersion = contractVersion' := by
  rw [← sameJson_str, ← sameJson_str (s := contractName), ← sameJson_str (s := contractVersion)]
  constructor
  · intro h
    cases h with
    | refl => exact ⟨.refl _, .refl _, .refl _, .refl _⟩
    | array h => cases h
    | @dict _ ys _ hkeys hvalues hperm =>
      obtain ⟨⟨k₁, a⟩, ⟨k₂, b⟩, ⟨k₃, c⟩, ⟨k₄, d⟩, rfl⟩ : ∃ p q r s, ys = [p, q, r, s] := by
        have hlength := congrArg List.length hkeys
        match ys, hlength with
        | [p, q, r, s], _ => exact ⟨p, q, r, s, rfl⟩
      simp only [List.map_cons, List.map_nil, List.cons.injEq, and_true] at hkeys hvalues
      obtain ⟨rfl, rfl, rfl, rfl⟩ := hkeys
      have hmem : ∀ item ∈ [(text "tool", Value.str tool'), (text "arguments", arguments'),
          (text "contract_name", .str contractName'), (text "contract_version", .str contractVersion')],
          item ∈ [(text "tool", a), (text "arguments", b), (text "contract_name", c),
            (text "contract_version", d)] := fun item hm => hperm.mem_iff.mpr hm
      simp only [List.forall₂_cons] at hvalues
      simp [text] at hmem
      obtain ⟨rfl, rfl, rfl, rfl⟩ := hmem
      exact ⟨hvalues.1, hvalues.2.1, hvalues.2.2.1, hvalues.2.2.2.1⟩
  · rintro ⟨htool, harguments, hname, hversion⟩
    refine .dict ?_ ?_ (List.Perm.refl [(text "tool", .str tool'), (text "arguments", arguments'),
      (text "contract_name", .str contractName'), (text "contract_version", .str contractVersion')])
    · rfl
    · exact .cons htool (.cons harguments (.cons hname (.cons hversion .nil)))

end

/-- **Canonical JSON is faithful**, and so are request hashes. -/
theorem canonical_json_faithful (hashes : Hashes) (hsha : Function.Injective hashes.sha256) :
    (∀ v w, Canonicalizable v → Canonicalizable w →
      (canonicalJson v = canonicalJson w ↔ SameJson v w)) ∧
    (∀ v, Canonicalizable v → ∃ json back, canonicalJson v = .ok json ∧ loads json = some back ∧
      canonicalJson back = .ok json) ∧
    ∀ tool arguments contractName contractVersion tool' arguments' contractName' contractVersion',
      Canonicalizable arguments → Canonicalizable arguments' →
      (∀ s ∈ [tool, contractName, contractVersion, tool', contractName', contractVersion'],
        Python.Encodable s) →
      ∃ hash hash', requestHash hashes tool arguments contractName contractVersion = .ok hash ∧
        requestHash hashes tool' arguments' contractName' contractVersion' = .ok hash' ∧
        (hash = hash' ↔ tool = tool' ∧ SameJson arguments arguments' ∧
          contractName = contractName' ∧ contractVersion = contractVersion') := by
  refine ⟨fun v w hv hw => canonicalJson_eq_iff hv.json hv.wellFormed hw.json hw.wellFormed,
    fun v hv => ?_, ?_⟩
  · obtain ⟨json, hjson⟩ := canonicalJson_jsonLike hv.json
    exact ⟨json, normalize v, hjson, loads_dumps hv.wellFormed (canonicalJson_eq_ok.mp hjson),
      canonicalJson_normalize hv.wellFormed hjson⟩
  · intro tool arguments name version tool' arguments' name' version' h h' hscalars
    simp only [List.forall_mem_cons] at hscalars
    obtain ⟨htool, hname, hversion, htool', hname', hversion', -⟩ := hscalars
    have encoded : ∀ {tool arguments name version}, Canonicalizable arguments → Python.Encodable tool →
        Python.Encodable name → Python.Encodable version → ∃ json bytes,
          canonicalJson (hashedRequest tool arguments name version) = .ok json ∧
            encode json = .ok bytes := by
      intro tool arguments name version harguments htool hname hversion
      obtain ⟨json, hjson⟩ := canonicalJson_jsonLike (jsonLike_hashedRequest harguments.json)
      have hencodable := (encodable_dumps _ (wellFormed_hashedRequest harguments.wellFormed)
        (canonicalJson_eq_ok.mp hjson)).mpr
          (scalars_hashedRequest.mpr ⟨htool, harguments.scalars, hname, hversion⟩)
      obtain ⟨bytes, hbytes⟩ := encode_of_encodable hencodable
      exact ⟨json, bytes, hjson, hbytes⟩
    obtain ⟨json, bytes, hjson, hbytes⟩ := encoded h htool hname hversion
    obtain ⟨json', bytes', hjson', hbytes'⟩ := encoded h' htool' hname' hversion'
    refine ⟨_, _, requestHash_eq_ok hjson hbytes, requestHash_eq_ok hjson' hbytes', ?_⟩
    rw [← sameJson_hashedRequest, ← canonicalJson_eq_iff
      (jsonLike_hashedRequest h.json) (wellFormed_hashedRequest h.wellFormed)
      (jsonLike_hashedRequest h'.json) (wellFormed_hashedRequest h'.wellFormed),
      hjson, hjson', Except.ok.injEq, hexdigest_injective.eq_iff, hsha.eq_iff]
    constructor
    · intro he
      subst he
      exact encodeUtf8_injective (encode_eq_ok.mp hbytes) (encode_eq_ok.mp hbytes')
    · intro he
      subst he
      rw [hbytes] at hbytes'
      exact Except.ok.inj hbytes'

/-- A digest that hides nothing tells `true` from `1`. -/
theorem canonical_json_faithful_sample : ∃ hash hash',
    requestHash ⟨id, fun _ message => message⟩ (str "pay") (.dict [(text "paid", .bool true)])
      (str "pay") (str "1") = .ok hash ∧
    requestHash ⟨id, fun _ message => message⟩ (str "pay") (.dict [(text "paid", .int 1)])
      (str "pay") (str "1") = .ok hash' ∧
    (hash = hash' ↔ str "pay" = str "pay" ∧
      SameJson (.dict [(text "paid", .bool true)]) (.dict [(text "paid", .int 1)]) ∧
      str "pay" = str "pay" ∧ str "1" = str "1") := by
  refine (canonical_json_faithful ⟨id, fun _ message => message⟩ Function.injective_id).2.2 _ _ _ _ _
    _ _ _ ?_ ?_ ?_
  · exact ⟨⟨trivial, trivial⟩, ⟨List.nodup_singleton _, trivial, trivial⟩,
      ⟨⟨encodable_str _, trivial⟩, trivial⟩⟩
  · exact ⟨⟨trivial, trivial⟩, ⟨List.nodup_singleton _, trivial, trivial⟩,
      ⟨⟨encodable_str _, trivial⟩, trivial⟩⟩
  · simp only [List.forall_mem_cons, encodable_str, true_and]
    exact List.forall_mem_nil _

/-! ## What is rejected -/

/-- A digest, or `CanonicalizationError`. -/
def FailsAsDocumented : Except Exc Str → Prop
  | .ok _ => True
  | .error exc => ∃ message, exc = .canonicalizationError message

theorem validate_hashedRequest (tool contractName contractVersion : Str) (arguments : Value) :
    validate (str "$") (hashedRequest tool arguments contractName contractVersion) =
      validate (str "$.arguments") arguments := by
  have hpath : str "$" ++ str "." ++ str "arguments" = str "$.arguments" := by decide
  simp only [hashedRequest, validate, validateItems, text, hpath]
  cases validate (str "$.arguments") arguments <;> rfl

/-- **Fingerprinting fails as documented exactly if** the validator rejects the arguments, or
they have no containers but dictionaries, lists and tuples, and no lone surrogate is in
any text. -/
theorem fails_as_documented_iff {hashes : Hashes} {tool contractName contractVersion : Str}
    {arguments : Value} (hwf : arguments.WellFormed) :
    FailsAsDocumented (requestHash hashes tool arguments contractName contractVersion) ↔
      (∃ exc, validate (str "$.arguments") arguments = .error exc) ∨
      Concrete arguments ∧ Python.Encodable tool ∧ Scalars arguments ∧ Python.Encodable contractName ∧
        Python.Encodable contractVersion := by
  have hvalidate := validate_hashedRequest tool contractName contractVersion arguments
  have hraises := validate_raises (str "$.arguments") arguments
  show FailsAsDocumented (canonicalJson (hashedRequest tool arguments contractName contractVersion)
    >>= _) ↔ _
  unfold canonicalJson
  rw [hvalidate]
  cases hvalid : validate (str "$.arguments") arguments with
  | error exc =>
    rw [hvalid] at hraises
    exact iff_of_true hraises (.inl ⟨exc, rfl⟩)
  | ok _ =>
    have hlike := jsonLike_iff _ _ hvalid
    simp only [reduceCtorEq, exists_false, false_or]
    cases hjson : dumps (hashedRequest tool arguments contractName contractVersion) with
    | none =>
      refine iff_of_false (fun h => nomatch h.choose_spec) fun h => ?_
      obtain ⟨json, hjson'⟩ := dumps_jsonLike _ (jsonLike_hashedRequest (hlike.mpr h.1))
      rw [hjson] at hjson'
      cases hjson'
    | some json =>
      obtain ⟨-, hjsonLike, -⟩ := jsonLike_of_dumps _ hjson
      have hencodable := encodable_dumps _ (wellFormed_hashedRequest hwf) hjson
      rw [scalars_hashedRequest] at hencodable
      show FailsAsDocumented (encode json >>= _) ↔ _
      cases hbytes : encode json with
      | ok bytes =>
        exact iff_of_true trivial ⟨hlike.mp hjsonLike, hencodable.mp (encodable_of_encode hbytes)⟩
      | error exc =>
        refine iff_of_false (fun h => ?_) fun h => ?_
        · obtain ⟨message, rfl⟩ := h
          unfold encode at hbytes
          split at hbytes <;> cases hbytes
        · obtain ⟨bytes, hok⟩ := encode_of_encodable (hencodable.mpr h.2)
          rw [hbytes] at hok
          cases hok

theorem fails_as_documented_sample :
    (FailsAsDocumented (requestHash sampleHashes (str "charge") sampleRequest.arguments
      (str "charge") (str "1")) ↔
        (∃ exc, validate (str "$.arguments") sampleRequest.arguments = .error exc) ∨
        Concrete sampleRequest.arguments ∧ Python.Encodable (str "charge") ∧
          Scalars sampleRequest.arguments ∧ Python.Encodable (str "charge") ∧ Python.Encodable (str "1")) ∧
    Concrete sampleRequest.arguments :=
  ⟨fails_as_documented_iff ⟨List.nodup_singleton _, trivial, trivial⟩, trivial, trivial⟩

/-- A lone surrogate, and a `Mapping` that is no `dict`, pass the validator. -/
theorem fails_undocumented :
    requestHash sampleHashes (str "charge") (.dict [(text "note", .str [⟨0xD800, by decide⟩])])
      (str "charge") (str "1") = .error .unicodeEncodeError ∧
    requestHash sampleHashes (str "charge") (.dict [(text "item", .mapping [])]) (str "charge")
      (str "1") = .error (.typeError (str "not JSON serializable")) ∧
    ¬FailsAsDocumented (requestHash sampleHashes (str "charge")
      (.dict [(text "note", .str [⟨0xD800, by decide⟩])]) (str "charge") (str "1")) := by
  have hsurrogate : requestHash sampleHashes (str "charge")
      (.dict [(text "note", .str [⟨0xD800, by decide⟩])]) (str "charge") (str "1") =
        .error .unicodeEncodeError := by decide +kernel
  refine ⟨hsurrogate, by decide +kernel, fun h => ?_⟩
  rw [hsurrogate] at h
  obtain ⟨message, h⟩ := h
  cases h

end EffectBroker
