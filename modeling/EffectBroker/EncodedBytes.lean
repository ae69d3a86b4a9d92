import EffectBroker.Canonical
import EffectBroker.EncodableText

/-!
# Encodings that lose nothing

UTF-8, hexadecimal digits and unpadded base64 are injective: what is encoded can be told
from the encoding.
-/
namespace Python

/-- The first code point of a text can be told from its encoding. -/
theorem encodeCodePoint_append {c d : CodePoint} {s t : Bytes}
    (h : encodeCodePoint c ++ s = encodeCodePoint d ++ t) : c = d ∧ s = t := by
  have hc := c.isLt
  have hd := d.isLt
  unfold encodeCodePoint at h
  simp only [] at h
  -- the first byte tells how many bytes there are
  split_ifs at h <;>
    simp only [List.cons_append, List.nil_append, List.cons.injEq, ← UInt8.toNat_inj,
      UInt8.toNat_ofNat'] at h <;>
    first
      | omega
      | refine ⟨Fin.ext (by omega), ?_⟩
        simp only [h]

theorem flatMap_encodeCodePoint_injective :
    Function.Injective fun s : Str => s.flatMap encodeCodePoint := by
  have hne (c : CodePoint) : encodeCodePoint c ≠ [] := by
    unfold encodeCodePoint
    simp only []
    split_ifs <;> exact List.cons_ne_nil _ _
  intro s
  induction s with
  | nil =>
    intro t h
    cases t with
    | nil => rfl
    | cons d t => exact absurd (List.append_eq_nil_iff.mp h.symm).1 (hne d)
  | cons c s ih =>
    intro t h
    cases t with
    | nil => exact absurd (List.append_eq_nil_iff.mp h).1 (hne c)
    | cons d t =>
      obtain ⟨rfl, hrest⟩ := encodeCodePoint_append h
      rw [ih hrest]

/-- UTF-8 loses nothing. -/
theorem encodeUtf8_injective {s t : Str} {bytes : Bytes} (hs : encodeUtf8 s = some bytes)
    (ht : encodeUtf8 t = some bytes) : s = t := by
  unfold encodeUtf8 at hs ht
  split_ifs at hs ht
  refine flatMap_encodeCodePoint_injective ?_
  exact (Option.some.inj hs).trans (Option.some.inj ht).symm

end Python

namespace EffectBroker
open Python

theorem encode_eq_ok {s : Str} {bytes : Bytes} : encode s = .ok bytes ↔ encodeUtf8 s = some bytes := by
  unfold encode
  cases encodeUtf8 s with
  | none => exact ⟨fun h => (nomatch h), fun h => nomatch h⟩
  | some found => simp

theorem encodable_of_encode {s : Str} {bytes : Bytes} (h : encode s = .ok bytes) : Encodable s :=
  encodeUtf8_isSome.mp (by rw [encode_eq_ok.mp h]; rfl)

theorem encode_of_encodable {s : Str} (h : Encodable s) : ∃ bytes, encode s = .ok bytes := by
  obtain ⟨bytes, hbytes⟩ := Option.isSome_iff_exists.mp (encodeUtf8_isSome.mpr h)
  exact ⟨bytes, encode_eq_ok.mpr hbytes⟩

/-! ## Hexadecimal digits -/

theorem hexDigit_injective : ∀ m < 16, ∀ n < 16, hexDigit m = hexDigit n → m = n := by
  decide +kernel

theorem hexdigest_injective : Function.Injective hexdigest := by
  intro a
  induction a with
  | nil =>
    intro b h
    cases b with
    | nil => rfl
    | cons byte b => cases h
  | cons byte a ih =>
    intro b h
    cases b with
    | nil => cases h
    | cons byte' b =>
      obtain ⟨hhigh, h⟩ := List.cons.inj h
      obtain ⟨hlow, h⟩ := List.cons.inj h
      have hlt := byte.toNat_lt
      have hlt' := byte'.toNat_lt
      have hhigh := hexDigit_injective _ (by omega) _ (by omega) hhigh
      have hlow := hexDigit_injective _ (by omega) _ (by omega) hlow
      have hbyte : byte = byte' := UInt8.toNat_inj.mp (by omega)
      rw [hbyte, ih h]

/-! ## Base64 -/

theorem base64Char_injective : ∀ m < 64, ∀ n < 64, base64Char m = base64Char n → m = n := by
  decide +kernel

/-- Unpadded base64 loses nothing: the number of characters tells how many bytes there are. -/
theorem urlsafeBase64_injective : ∀ a b : Bytes, urlsafeBase64 a = urlsafeBase64 b → a = b := by
  have hchar : ∀ {m n : Nat}, base64Char m = base64Char n → m < 64 → n < 64 → m = n :=
    fun h hm hn => base64Char_injective _ hm _ hn h
  intro a
  induction a using urlsafeBase64.induct with
  | case1 =>
    intro b h
    match b with
    | [] => rfl
    | [_] | [_, _] | _ :: _ :: _ :: _ => cases h
  | case2 x =>
    intro b h
    match b with
    | [] | [_, _] | _ :: _ :: _ :: _ => simp [urlsafeBase64] at h
    | [x'] =>
      simp only [urlsafeBase64, List.cons.injEq, and_true] at h
      have := x.toNat_lt
      have := x'.toNat_lt
      have hhigh := hchar h.1 (by omega) (by omega)
      have hlow := hchar h.2 (by omega) (by omega)
      rw [UInt8.toNat_inj.mp (show x.toNat = x'.toNat by omega)]
  | case3 x y =>
    intro b h
    match b with
    | [] | [_] | _ :: _ :: _ :: _ => simp [urlsafeBase64] at h
    | [x', y'] =>
      simp only [urlsafeBase64, List.cons.injEq, and_true] at h
      have := x.toNat_lt
      have := x'.toNat_lt
      have := y.toNat_lt
      have := y'.toNat_lt
      have h₁ := hchar h.1 (by omega) (by omega)
      have h₂ := hchar h.2.1 (by omega) (by omega)
      have h₃ := hchar h.2.2 (by omega) (by omega)
      rw [UInt8.toNat_inj.mp (show x.toNat = x'.toNat by omega),
        UInt8.toNat_inj.mp (show y.toNat = y'.toNat by omega)]
  | case4 x y z rest ih =>
    intro b h
    match b with
    | [] | [_] | [_, _] => simp [urlsafeBase64] at h
    | x' :: y' :: z' :: rest' =>
      simp only [urlsafeBase64, List.cons_append, List.nil_append, List.cons.injEq] at h
      have := x.toNat_lt
      have := x'.toNat_lt
      have := y.toNat_lt
      have := y'.toNat_lt
      have := z.toNat_lt
      have := z'.toNat_lt
      have h₁ := hchar h.1 (by omega) (by omega)
      have h₂ := hchar h.2.1 (by omega) (by omega)
      have h₃ := hchar h.2.2.1 (by omega) (by omega)
      have h₄ := hchar h.2.2.2.1 (by omega) (by omega)
      rw [UInt8.toNat_inj.mp (show x.toNat = x'.toNat by omega),
        UInt8.toNat_inj.mp (show y.toNat = y'.toNat by omega),
        UInt8.toNat_inj.mp (show z.toNat = z'.toNat by omega), ih _ h.2.2.2.2]

end EffectBroker
