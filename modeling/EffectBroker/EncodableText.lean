import EffectBroker.IsoFormat
import EffectBroker.JsonRoundTrip

/-!
# Text that can be encoded

A text without surrogates has a UTF-8 encoding.  The texts that the broker makes have
one whenever the texts they are made of do.
-/
namespace Python

/-- A text that has a UTF-8 encoding. -/
def Encodable (s : Str) : Prop := ∀ c ∈ s, isSurrogate c = false

instance (s : Str) : Decidable (Encodable s) := inferInstanceAs (Decidable (∀ c ∈ s, _))

theorem encodeUtf8_isSome {s : Str} : (encodeUtf8 s).isSome ↔ Encodable s := by
  unfold encodeUtf8 Encodable
  split
  · rename_i h
    simp only [Option.isSome_none, Bool.false_eq_true, false_iff]
    intro hall
    obtain ⟨c, hc, hs⟩ := List.any_eq_true.mp h
    rw [hall c hc] at hs
    cases hs
  · rename_i h
    simp only [Option.isSome_some, true_iff]
    intro c hc
    by_contra hs
    exact h (List.any_eq_true.mpr ⟨c, hc, by simpa using hs⟩)

theorem encodable_append {s t : Str} : Encodable (s ++ t) ↔ Encodable s ∧ Encodable t :=
  List.forall_mem_append

theorem encodable_nil : Encodable [] := fun _ h => nomatch h

/-- A Lean character is no surrogate. -/
theorem isSurrogate_ofChar (c : Char) : isSurrogate (CodePoint.ofChar c) = false := by
  have hval : (CodePoint.ofChar c).val = c.toNat := rfl
  unfold isSurrogate
  rw [hval]
  rcases c.valid with h | h
  · have hlt : c.toNat < 0xD800 := h
    simp only [Bool.and_eq_false_iff, decide_eq_false_iff_not]
    omega
  · have hlt : 0xDFFF < c.toNat := h.1
    simp only [Bool.and_eq_false_iff, decide_eq_false_iff_not]
    omega

theorem encodable_chars (chars : List Char) : Encodable (chars.map CodePoint.ofChar) := by
  intro c hc
  obtain ⟨d, -, rfl⟩ := List.mem_map.mp hc
  exact isSurrogate_ofChar d

theorem encodable_str (s : String) : Encodable (str s) := encodable_chars _

theorem encodable_decimal (n : Nat) : Encodable (decimal n) := encodable_chars _

theorem encodable_decimalInt (z : Int) : Encodable (decimalInt z) := by
  cases z with
  | ofNat n => exact encodable_decimal n
  | negSucc n =>
    intro c hc
    rcases List.mem_cons.mp hc with rfl | hc
    · exact isSurrogate_ofChar '-'
    · exact encodable_decimal (n + 1) c hc

theorem encodable_zeroPadded (width n : Nat) : Encodable (zeroPadded width n) := by
  refine encodable_append.mpr ⟨fun c hc => ?_, encodable_decimal n⟩
  rw [List.eq_of_mem_replicate hc]
  exact isSurrogate_ofChar '0'

theorem Datetime.encodable_isoformat (t : Datetime) : Encodable t.isoformat := by
  have hfraction (n : Nat) :
      Encodable (if n = 0 then [] else str "." ++ zeroPadded 6 n) := by
    split
    · exact encodable_nil
    · exact encodable_append.mpr ⟨encodable_str _, encodable_zeroPadded _ _⟩
  simp only [Datetime.isoformat, encodable_append, encodable_str, encodable_zeroPadded, hfraction,
    and_self]

/-! ## JSON -/

theorem encodable_escape (c : CodePoint) : Encodable (escape c) ↔ isSurrogate c = false := by
  have single : Encodable [c] ↔ isSurrogate c = false := List.forall_mem_singleton
  have hquote : c = CodePoint.ofChar '"' → isSurrogate c = false := fun h => h ▸ isSurrogate_ofChar _
  have hslash : c = CodePoint.ofChar '\\' → isSurrogate c = false := fun h =>
    h ▸ isSurrogate_ofChar _
  have hsmall : c.val < 32 → isSurrogate c = false := fun h => by
    simp only [isSurrogate, Bool.and_eq_false_iff, decide_eq_false_iff_not]
    omega
  have htext (s : String) (h : isSurrogate c = false) :
      Encodable (str s) ↔ isSurrogate c = false := iff_of_true (encodable_str s) h
  unfold escape
  by_cases h : c = CodePoint.ofChar '"'
  · rw [if_pos h]
    exact htext _ (hquote h)
  rw [if_neg h]
  by_cases h : c = CodePoint.ofChar '\\'
  · rw [if_pos h]
    exact htext _ (hslash h)
  rw [if_neg h]
  by_cases h32 : c.val < 32
  · have hlow := hsmall h32
    have hhex (n : Nat) : isSurrogate (hexDigit n) = false := isSurrogate_ofChar _
    refine iff_of_true ?_ hlow
    repeat' split
    all_goals first
      | exact encodable_str _
      | exact encodable_append.mpr ⟨encodable_str _, by simp [Encodable, hhex]⟩
  · rw [if_neg (by omega), if_neg (by omega), if_neg (by omega), if_neg (by omega),
      if_neg (by omega), if_neg h32]
    exact single

theorem encodable_quote {s : Str} : Encodable (quote s) ↔ Encodable s := by
  have hmiddle : Encodable (s.flatMap escape) ↔ Encodable s := by
    unfold Encodable
    simp only [List.mem_flatMap, forall_exists_index, and_imp]
    constructor
    · intro h c hc
      exact (encodable_escape c).mp fun d hd => h d c hc hd
    · intro h d c hc hd
      exact (encodable_escape c).mpr (h c hc) d hd
  unfold quote
  rw [encodable_append, encodable_append, hmiddle]
  exact ⟨fun h => h.1.2, fun h => ⟨⟨encodable_str _, h⟩, encodable_str _⟩⟩

theorem encodable_joinCommas {parts : List Str} :
    Encodable (joinCommas parts) ↔ ∀ part ∈ parts, Encodable part := by
  induction parts with
  | nil => exact iff_of_true encodable_nil fun _ h => nomatch h
  | cons part rest ih =>
    cases rest with
    | nil => exact List.forall_mem_singleton.symm
    | cons next rest =>
      rw [joinCommas_cons_cons, encodable_append, encodable_append, ih]
      constructor
      · intro h
        exact List.forall_mem_cons.mpr ⟨h.1.1, h.2⟩
      · intro h
        obtain ⟨hpart, hrest⟩ := List.forall_mem_cons.mp h
        exact ⟨⟨hpart, encodable_str _⟩, hrest⟩

/-- The canonical JSON of a dictionary can be encoded if its keys and the JSON of its values
can, and only then. -/
theorem encodable_dumps_dict {items : Items} {parts : List (Str × Str)} {json : Str}
    (hparts : dumpsItems items = some parts) (h : dumps (.dict items) = some json) :
    Encodable json ↔ ∀ part ∈ parts, Encodable part.1 ∧ Encodable part.2 := by
  rw [dumps, hparts] at h
  obtain rfl := Option.some.inj h
  rw [encodable_append, encodable_append, encodable_joinCommas]
  simp only [encodable_str, true_and, and_true, List.forall_mem_map, List.mem_insertionSort,
    encodable_append, encodable_quote]

end Python
