import EffectBroker.ContractLoading

/-!
# What loading a contract raises

`contract_from_mapping` wraps what is wrong with `safety` in `ContractError`, and
`validate_contract` raises nothing else.  What `str()`, `int()`, `float()` and `timedelta()`
raise on the other fields escapes as it is.
-/
namespace EffectBroker
open Python

/-- What a contract promises about retries, keys and settlement. -/
structure EffectContract.Honest (contract : EffectContract) : Prop where
  retries : 0 ≤ contract.retryLimit
  idempotent : contract.safety = .idempotent →
    ∃ retention, contract.keyRetention = some retention ∧ Timedelta.zero < retention
  reconcilable : contract.safety = .reconcilable →
    ∃ bound, contract.settlementBound = some bound ∧ Timedelta.zero ≤ bound
  unsafeClass : contract.safety = .unsafeClass → contract.retryLimit = 0

/-- Validation refuses with `ContractError`, and accepts what is honest. -/
theorem validateContract_cases (contract : EffectContract) :
    (∃ fault, validateContract contract = .error (.contractError fault) ∧ ¬contract.Honest) ∨
      validateContract contract = .ok contract ∧ contract.Honest := by
  unfold validateContract
  by_cases hretry : contract.retryLimit < 0
  · rw [if_pos hretry]
    exact .inl ⟨_, rfl, fun h => absurd h.retries (not_le.mpr hretry)⟩
  rw [if_neg hretry]
  have hretries : 0 ≤ contract.retryLimit := not_lt.mp hretry
  cases hsafety : contract.safety with
  | idempotent =>
    cases hretention : contract.keyRetention with
    | none =>
      refine .inl ⟨_, rfl, fun h => ?_⟩
      obtain ⟨retention, hsome, -⟩ := h.idempotent hsafety
      exact nomatch hretention.symm.trans hsome
    | some retention =>
      by_cases hpositive : retention ≤ Timedelta.zero
      · refine .inl ⟨_, if_pos hpositive, fun h => ?_⟩
        obtain ⟨retention', hsome, hlt⟩ := h.idempotent hsafety
        cases hretention.symm.trans hsome
        exact absurd hlt (not_lt.mpr hpositive)
      · refine .inr ⟨if_neg hpositive, hretries, fun _ => ⟨retention, hretention, not_le.mp hpositive⟩,
          fun h => ?_, fun h => ?_⟩
        · exact nomatch hsafety.symm.trans h
        · exact nomatch hsafety.symm.trans h
  | reconcilable =>
    cases hbound : contract.settlementBound with
    | none =>
      refine .inl ⟨_, rfl, fun h => ?_⟩
      obtain ⟨bound, hsome, -⟩ := h.reconcilable hsafety
      exact nomatch hbound.symm.trans hsome
    | some bound =>
      by_cases hnegative : bound < Timedelta.zero
      · refine .inl ⟨_, if_pos hnegative, fun h => ?_⟩
        obtain ⟨bound', hsome, hle⟩ := h.reconcilable hsafety
        cases hbound.symm.trans hsome
        exact absurd hle (not_le.mpr hnegative)
      · refine .inr ⟨if_neg hnegative, hretries, fun h => ?_, fun _ => ⟨bound, hbound, not_lt.mp hnegative⟩,
          fun h => ?_⟩
        · exact nomatch hsafety.symm.trans h
        · exact nomatch hsafety.symm.trans h
  | unsafeClass =>
    by_cases hzero : contract.retryLimit = 0
    · refine .inr ⟨if_neg (not_not.mpr hzero), hretries, fun h => ?_, fun h => ?_, fun _ => hzero⟩
      · exact nomatch hsafety.symm.trans h
      · exact nomatch hsafety.symm.trans h
    · exact .inl ⟨_, if_pos hzero, fun h => absurd (h.unsafeClass hsafety) hzero⟩
  | transactional =>
    refine .inr ⟨rfl, hretries, fun h => ?_, fun h => ?_, fun h => ?_⟩
    · exact nomatch hsafety.symm.trans h
    · exact nomatch hsafety.symm.trans h
    · exact nomatch hsafety.symm.trans h

/-! ## Specs -/

/-- `contract_from_mapping` of what a configuration says of a tool: a mapping, or null,
which has no items. -/
def contractFromSpec (conversions : Conversions) (name : Str) :
    Option Items → Except Exc EffectContract
  | some data => contractFromMapping conversions name data
  | none => .error (.typeError (str "'NoneType' object is not subscriptable"))

/-- The outcome is an honest contract or a `ContractError`. -/
def HonestOrRefused : Except Exc EffectContract → Prop
  | .ok contract => contract.Honest
  | .error exc => ∃ fault, exc = .contractError fault

/-- The spec names a safety class. -/
def NamesSafety (data : Items) : Prop :=
  ∃ text safety, data.get? (str "safety") = some (.str text) ∧ SafetyClass.ofValue? text = some safety

section
variable (conversions : Conversions)

/-- The version is missing or can be printed: no integer of too many digits, and no value
whose `str()` raises. -/
def VersionReadable (data : Items) : Prop :=
  ∀ value, data.get? (str "version") = some value → ∃ version, toText conversions value = .ok version

/-- The number of retries is missing or in the domain of `int()`. -/
def RetriesReadable (data : Items) : Prop :=
  ∀ value, data.get? (str "retry_limit") = some value → ∃ n, toInt conversions value = .ok n

/-- A number of seconds is missing, null, or a number in the domains of `float()` and
`timedelta()`. -/
def SecondsReadable (data : Items) (field : String) : Prop :=
  ∀ value, data.get? (str field) = some value → value ≠ .none →
    ∃ q, toFloat conversions value = .ok (.finite q) ∧ (Timedelta.ofFloatSeconds q).isSome

/-- A mapping whose safety class is refused, or whose version and numbers can be read. -/
def SpecReadable : Option Items → Prop
  | none => False
  | some data => NamesSafety data → VersionReadable conversions data ∧
      RetriesReadable conversions data ∧ SecondsReadable conversions data "key_retention_seconds" ∧
        SecondsReadable conversions data "settlement_bound_seconds"

end

/-! ## Fields -/

section
variable {conversions : Conversions} {name : Str} {data : Items} {field : String}

/-- What is wrong with the safety class is a `ContractError`. -/
theorem safetyField_cases (name : Str) (data : Items) :
    (∃ safety, safetyField name data = .ok safety ∧ NamesSafety data) ∨
      safetyField name data = .error (.contractError (.unknownSafety name)) ∧ ¬NamesSafety data := by
  unfold safetyField
  split
  · rename_i text hget
    cases hvalue : SafetyClass.ofValue? text with
    | some safety => exact .inl ⟨safety, rfl, text, safety, hget, hvalue⟩
    | none =>
      refine .inr ⟨rfl, ?_⟩
      rintro ⟨text', safety, hget', hvalue'⟩
      cases hget.symm.trans hget'
      exact nomatch hvalue.symm.trans hvalue'
  · rename_i hother
    refine .inr ⟨rfl, ?_⟩
    rintro ⟨text, safety, hget, -⟩
    exact hother text hget

/-- What an object raises is no `ContractError`. -/
theorem answered_error {α : Type} {answer : Except (Str × Str) α} {exc : Exc}
    (h : answered answer = .error exc) : ∀ fault, exc ≠ .contractError fault := by
  rintro fault rfl
  cases answer with
  | ok => cases h
  | error => cases h

/-- What `str()`, `int()`, `float()` and `timedelta()` raise is no `ContractError`. -/
theorem floatOfText_error {printed text : Str} {exc : Exc}
    (h : floatOfText printed text = .error exc) : ∀ fault, exc ≠ .contractError fault := by
  rintro fault rfl
  unfold floatOfText at h
  generalize signPart (stripNumeral text) = parts at h
  obtain ⟨sign, digits⟩ := parts
  dsimp only at h
  split at h
  · cases h
  · split at h
    · cases h
    · split at h <;> cases h

theorem toFloat_error {value : Value} {exc : Exc} (h : toFloat conversions value = .error exc) :
    ∀ fault, exc ≠ .contractError fault := by
  rintro fault rfl
  cases value with
  | none | bool | list | tuple | dict => cases h
  | int z =>
    unfold toFloat at h
    dsimp only at h
    split at h <;> cases h
  | float f =>
    cases f with
    | finite repr => exact floatOfText_error h fault rfl
    | nan | infinity | negInfinity => cases h
  | str | bytes => exact floatOfText_error h fault rfl
  | sequence | mapping | object => exact answered_error h fault rfl

theorem intOfText_error {printed text : Str} {exc : Exc}
    (h : intOfText printed text = .error exc) : ∀ fault, exc ≠ .contractError fault := by
  rintro fault rfl
  unfold intOfText at h
  generalize signPart (stripNumeral text) = parts at h
  obtain ⟨sign, digits⟩ := parts
  dsimp only at h
  split at h
  · cases h
  · split at h <;> cases h

theorem toInt_error {value : Value} {exc : Exc} (h : toInt conversions value = .error exc) :
    ∀ fault, exc ≠ .contractError fault := by
  rintro fault rfl
  cases value with
  | none | bool | int | list | tuple | dict => cases h
  | float f =>
    rw [toInt] at h
    split at h
    · cases h
    · cases h
    · cases h
    · rename_i exc' hexc
      cases h
      exact toFloat_error hexc fault rfl
  | str | bytes => exact intOfText_error h fault rfl
  | sequence | mapping | object => exact answered_error h fault rfl

theorem toText_error {value : Value} {exc : Exc} (h : toText conversions value = .error exc) :
    ∀ fault, exc ≠ .contractError fault := by
  rintro fault rfl
  cases value with
  | none | bool | float | str | bytes => cases h
  | int z =>
    rw [toText] at h
    split at h <;> cases h
  | list | tuple | dict | sequence | mapping | object => exact answered_error h fault rfl

/-- A duration is read if its seconds are readable, and nothing is raised for the contract. -/
theorem durationField_cases (conversions : Conversions) (data : Items) (field : String) :
    (∃ duration, durationField conversions data field = .ok duration ∧
        SecondsReadable conversions data field) ∨
      (∃ exc, durationField conversions data field = .error exc ∧
        ∀ fault, exc ≠ .contractError fault) ∧ ¬SecondsReadable conversions data field := by
  unfold durationField
  split
  · rename_i hget
    exact .inl ⟨none, rfl, fun value hvalue => nomatch hget.symm.trans hvalue⟩
  · rename_i hget
    refine .inl ⟨none, rfl, fun value hvalue hne => ?_⟩
    cases hget.symm.trans hvalue
    exact absurd rfl hne
  · rename_i seconds hne hget
    have unreadable : (∀ q, toFloat conversions seconds = .ok (.finite q) →
        Timedelta.ofFloatSeconds q = none) → ¬SecondsReadable conversions data field := by
      intro hdomain hreadable
      obtain ⟨q, hq, hsome⟩ := hreadable seconds hget hne
      rw [hdomain q hq] at hsome
      cases hsome
    cases hfloat : toFloat conversions seconds with
    | error exc =>
      exact .inr ⟨⟨exc, rfl, toFloat_error hfloat⟩, unreadable fun q hq => nomatch hfloat.symm.trans hq⟩
    | ok number =>
      cases number with
      | nan =>
        refine .inr ⟨⟨_, rfl, fun _ h => nomatch h⟩, unreadable fun q hq => ?_⟩
        exact nomatch hfloat.symm.trans hq
      | infinite =>
        refine .inr ⟨⟨_, rfl, fun _ h => nomatch h⟩, unreadable fun q hq => ?_⟩
        exact nomatch hfloat.symm.trans hq
      | finite q =>
        cases hduration : Timedelta.ofFloatSeconds q with
        | none =>
          refine .inr ⟨⟨.overflowError, ?_, fun _ h => nomatch h⟩, unreadable fun q' hq' => ?_⟩
          · rw [ok_bind, timedeltaOfFloat, hduration]
            rfl
          · cases hfloat.symm.trans hq'
            exact hduration
        | some duration =>
          refine .inl ⟨some duration, ?_, fun value hvalue _ => ?_⟩
          · rw [ok_bind, timedeltaOfFloat, hduration]
            rfl
          · cases hget.symm.trans hvalue
            exact ⟨q, hfloat, by rw [hduration]; rfl⟩

/-- A field with a default is read if its value is readable, and nothing is raised for the
contract. -/
theorem fieldOr_cases {α : Type} {read : Value → Except Exc α} {value : Value} {default : α}
    (hdefault : read value = .ok default)
    (hraises : ∀ {value exc}, read value = .error exc → ∀ fault, exc ≠ .contractError fault)
    (data : Items) (field : Str) :
    (∃ x, read ((data.get? field).getD value) = .ok x ∧
        ∀ value, data.get? field = some value → ∃ x, read value = .ok x) ∨
      (∃ exc, read ((data.get? field).getD value) = .error exc ∧
        ∀ fault, exc ≠ .contractError fault) ∧
        ¬∀ value, data.get? field = some value → ∃ x, read value = .ok x := by
  cases hget : data.get? field with
  | none => exact .inl ⟨default, hdefault, fun value hvalue => nomatch hvalue⟩
  | some value =>
    rw [Option.getD_some]
    cases hread : read value with
    | ok x =>
      refine .inl ⟨x, rfl, fun value' hvalue' => ?_⟩
      cases hvalue'
      exact ⟨x, hread⟩
    | error exc =>
      refine .inr ⟨⟨exc, rfl, hraises hread⟩, fun h => ?_⟩
      obtain ⟨x, hx⟩ := h value rfl
      exact nomatch hread.symm.trans hx

theorem versionField_cases (conversions : Conversions) (data : Items) :
    (∃ version, toText conversions ((data.get? (str "version")).getD (text "v1")) = .ok version ∧
        VersionReadable conversions data) ∨
      (∃ exc, toText conversions ((data.get? (str "version")).getD (text "v1")) = .error exc ∧
        ∀ fault, exc ≠ .contractError fault) ∧ ¬VersionReadable conversions data :=
  fieldOr_cases (rfl : toText conversions (text "v1") = .ok (str "v1")) toText_error data _

theorem retryField_cases (conversions : Conversions) (data : Items) :
    (∃ n, toInt conversions ((data.get? (str "retry_limit")).getD (.int 0)) = .ok n ∧
        RetriesReadable conversions data) ∨
      (∃ exc, toInt conversions ((data.get? (str "retry_limit")).getD (.int 0)) = .error exc ∧
        ∀ fault, exc ≠ .contractError fault) ∧ ¬RetriesReadable conversions data :=
  fieldOr_cases (rfl : toInt conversions (.int 0) = .ok 0) toInt_error data _

end

/-- **Loading a contract fails only with `ContractError`** on the specs whose version and
numbers can be read, and on those alone; and what it returns is honest. -/
theorem loads_honest_or_refuses_iff (conversions : Conversions) (name : Str) (spec : Option Items) :
    HonestOrRefused (contractFromSpec conversions name spec) ↔ SpecReadable conversions spec := by
  have escapes : ∀ {exc : Exc}, (∀ fault, exc ≠ .contractError fault) →
      ¬HonestOrRefused (.error exc) := fun hexc ⟨fault, h⟩ => hexc fault h
  cases spec with
  | none => exact iff_of_false (escapes fun _ h => nomatch h) id
  | some data =>
    show HonestOrRefused (contractFromMapping conversions name data) ↔ (NamesSafety data → _)
    unfold contractFromMapping
    rcases safetyField_cases name data with ⟨safety, hsafety, hnames⟩ | ⟨hsafety, hunnamed⟩
    · rw [hsafety, ok_bind, forall_prop_of_true hnames]
      rcases versionField_cases conversions data with
        ⟨version, hv, hversion⟩ | ⟨⟨exc, hv, hexc⟩, hversion⟩
      · rw [hv, ok_bind, and_iff_right hversion]
        rcases retryField_cases conversions data with
          ⟨n, hn, hretries⟩ | ⟨⟨exc, hn, hexc⟩, hretries⟩
        · rw [hn, ok_bind, and_iff_right hretries]
          rcases durationField_cases conversions data "key_retention_seconds" with
            ⟨retention, hr, hretention⟩ | ⟨⟨exc, hr, hexc⟩, hretention⟩
          · rw [hr, ok_bind, and_iff_right hretention]
            rcases durationField_cases conversions data "settlement_bound_seconds" with
              ⟨bound, hb, hbound⟩ | ⟨⟨exc, hb, hexc⟩, hbound⟩
            · rw [hb, ok_bind]
              refine iff_of_true ?_ hbound
              rcases validateContract_cases _ with ⟨fault, heq, -⟩ | ⟨heq, hhonest⟩ <;> rw [heq]
              · exact ⟨fault, rfl⟩
              · exact hhonest
            · rw [hb]
              exact iff_of_false (escapes hexc) hbound
          · rw [hr]
            exact iff_of_false (escapes hexc) fun h => hretention h.1
        · rw [hn]
          exact iff_of_false (escapes hexc) fun h => hretries h.1
      · rw [hv]
        exact iff_of_false (escapes hexc) fun h => hversion h.1
    · rw [hsafety]
      exact iff_of_true ⟨_, rfl⟩ fun h => absurd h hunnamed

/-- A spec whose number of retries is a word. -/
def wordySpec : Items := [(text "safety", text "unsafe"), (text "retry_limit", text "many")]

/-- The `ValueError` of `int()` escapes. -/
theorem retry_limit_escapes :
    contractFromSpec (sampleConversions (str "'many'")) (str "charge") (some wordySpec) =
      .error (valueError (str "invalid literal for int() with base 10: 'many'")) ∧
    ¬HonestOrRefused
      (contractFromSpec (sampleConversions (str "'many'")) (str "charge") (some wordySpec)) := by
  have hraised :
      contractFromSpec (sampleConversions (str "'many'")) (str "charge") (some wordySpec) =
        .error (valueError (str "invalid literal for int() with base 10: 'many'")) := rfl
  refine ⟨hraised, fun h => ?_⟩
  rw [hraised] at h
  obtain ⟨fault, h⟩ := h
  cases h

end EffectBroker
