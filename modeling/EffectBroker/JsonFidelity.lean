import Mathlib.Data.List.Perm.Basic
import EffectBroker.EncodableText

/-!
# The text of a JSON value determines it

Two values have the same canonical text exactly if they are equal up to the order of the
items of dictionaries and up to tuples for lists: what `loads` reads of the text is the
normal form of both.
-/
namespace Python

/-! ## Equality of JSON values -/

mutual
/-- What `dumps` is made for: `list`, `tuple` and `dict` containers, texts for keys, and
finite floats. -/
def JsonLike : Value → Prop
  | .none | .bool _ | .int _ | .str _ | .float (.finite _) => True
  | .list items | .tuple items => JsonLikeAll items
  | .dict items => JsonLikeItems items
  | _ => False

def JsonLikeAll : List Value → Prop
  | [] => True
  | value :: rest => JsonLike value ∧ JsonLikeAll rest

def JsonLikeItems : Items → Prop
  | [] => True
  | (.str _, value) :: rest => JsonLike value ∧ JsonLikeItems rest
  | _ => False
end

/-- The elements of a `list` or of a `tuple`. -/
def Value.elements? : Value → Option (List Value)
  | .list items | .tuple items => some items
  | _ => Option.none

/-- Values that are equal up to the order of the items of dictionaries, and up to tuples
for lists. -/
inductive SameJson : Value → Value → Prop
  | refl (value) : SameJson value value
  | array {v w xs ys} : v.elements? = some xs → w.elements? = some ys →
      List.Forall₂ SameJson xs ys → SameJson v w
  | dict {xs ys zs : Items} : xs.map Prod.fst = ys.map Prod.fst →
      List.Forall₂ SameJson (xs.map Prod.snd) (ys.map Prod.snd) → ys.Perm zs →
      SameJson (.dict xs) (.dict zs)

/-! ## What is read is what was written -/

mutual
/-- A value is read back as the same JSON. -/
theorem sameJson_normalize : ∀ value : Value, SameJson value (normalize value)
  | .list items | .tuple items => .array rfl rfl (sameJson_normalizeAll items)
  | .dict items =>
    .dict (sameJson_normalizeItems items).1 (sameJson_normalizeItems items).2
      (List.perm_insertionSort itemLe _).symm
  | .none | .bool _ | .int _ | .float _ | .str _ | .bytes _ | .sequence _ | .mapping _ | .object _ =>
    .refl _

theorem sameJson_normalizeAll : ∀ items : List Value, List.Forall₂ SameJson items (normalizeAll items)
  | [] => .nil
  | value :: rest => .cons (sameJson_normalize value) (sameJson_normalizeAll rest)

theorem sameJson_normalizeItems : ∀ items : Items,
    items.map Prod.fst = (normalizeItems items).map Prod.fst ∧
      List.Forall₂ SameJson (items.map Prod.snd) ((normalizeItems items).map Prod.snd)
  | [] => ⟨rfl, .nil⟩
  | (key, value) :: rest =>
    ⟨congrArg (key :: ·) (sameJson_normalizeItems rest).1,
      .cons (sameJson_normalize value) (sameJson_normalizeItems rest).2⟩
end

/-! ## What can be written -/

mutual
/-- A JSON-like value has a text. -/
theorem dumps_jsonLike : ∀ value : Value, JsonLike value → ∃ json, dumps value = some json
  | .none, _ => ⟨_, rfl⟩
  | .bool true, _ => ⟨_, rfl⟩
  | .bool false, _ => ⟨_, rfl⟩
  | .int _, _ => ⟨_, rfl⟩
  | .str _, _ => ⟨_, rfl⟩
  | .float (.finite _), _ => ⟨_, rfl⟩
  | .list items, h => by
    obtain ⟨texts, htexts⟩ := dumpsAll_jsonLike items h
    rw [dumps, htexts]
    exact ⟨_, rfl⟩
  | .tuple items, h => by
    obtain ⟨texts, htexts⟩ := dumpsAll_jsonLike items h
    rw [dumps, htexts]
    exact ⟨_, rfl⟩
  | .dict items, h => by
    obtain ⟨parts, hparts⟩ := dumpsItems_jsonLike items h
    rw [dumps, hparts]
    exact ⟨_, rfl⟩

theorem dumpsAll_jsonLike : ∀ items : List Value, JsonLikeAll items →
    ∃ texts, dumpsAll items = some texts
  | [], _ => ⟨_, rfl⟩
  | value :: rest, h => by
    obtain ⟨json, hjson⟩ := dumps_jsonLike value h.1
    obtain ⟨texts, htexts⟩ := dumpsAll_jsonLike rest h.2
    rw [dumpsAll, hjson, htexts]
    exact ⟨_, rfl⟩

theorem dumpsItems_jsonLike : ∀ items : Items, JsonLikeItems items →
    ∃ parts, dumpsItems items = some parts
  | [], _ => ⟨_, rfl⟩
  | (.str key, value) :: rest, h => by
    obtain ⟨json, hjson⟩ := dumps_jsonLike value h.1
    obtain ⟨parts, hparts⟩ := dumpsItems_jsonLike rest h.2
    rw [dumpsItems, hjson, hparts]
    exact ⟨_, rfl⟩
end

/-! ## What can be encoded -/

mutual
/-- The texts in a value have no lone surrogates, its keys included. -/
def Scalars : Value → Prop
  | .str s => Encodable s
  | .list items | .tuple items | .sequence items => ScalarsAll items
  | .dict items | .mapping items => ScalarsItems items
  | _ => True

def ScalarsAll : List Value → Prop
  | [] => True
  | value :: rest => Scalars value ∧ ScalarsAll rest

def ScalarsItems : Items → Prop
  | [] => True
  | (key, value) :: rest => (Scalars key ∧ Scalars value) ∧ ScalarsItems rest
end

theorem encodable_digits {s : Str} (h : ∀ c ∈ s, isDigit c = true) : Encodable s := by
  intro c hc
  have hdigit := h c hc
  unfold isDigit at hdigit
  unfold isSurrogate
  simp only [Bool.and_eq_true, decide_eq_true_eq] at hdigit
  simp only [Bool.and_eq_false_iff, decide_eq_false_iff_not]
  omega

/-- The text of a float can be encoded. -/
theorem encodable_float {s : Str} (h : IsFloatText s) : Encodable s := by
  obtain ⟨negative, digits, fraction, exponent, hdigits, hfraction, hexponent, -, rfl⟩ := h
  have hsign : Encodable (if negative then str "-" else []) := by
    split
    · exact encodable_str _
    · exact encodable_nil
  have hinteger : Encodable digits := by
    rcases hdigits with rfl | ⟨hdigits, -⟩
    · exact encodable_str "0"
    · exact encodable_digits hdigits.2
  have hfraction : Encodable fraction := by
    rcases hfraction with rfl | ⟨digits, hdigits, rfl⟩
    · exact encodable_nil
    · exact List.forall_mem_cons.mpr ⟨isSurrogate_ofChar '.', encodable_digits hdigits.2⟩
  have hexponent : Encodable exponent := by
    rcases hexponent with rfl | ⟨e, sign, digits, he, hsign, hdigits, rfl⟩
    · exact encodable_nil
    · have he : isSurrogate e = false := by
        rcases he with rfl | rfl <;> exact isSurrogate_ofChar _
      have hsign : Encodable sign := by
        rcases hsign with rfl | rfl | rfl
        · exact encodable_nil
        · exact encodable_str "-"
        · exact encodable_str "+"
      exact List.forall_mem_cons.mpr
        ⟨he, encodable_append.mpr ⟨hsign, encodable_digits hdigits.2⟩⟩
  simp only [encodable_append]
  exact ⟨⟨⟨hsign, hinteger⟩, hfraction⟩, hexponent⟩

theorem encodable_brackets {parts : List Str} :
    Encodable (str "[" ++ joinCommas parts ++ str "]") ↔ ∀ part ∈ parts, Encodable part := by
  rw [encodable_append, encodable_append, encodable_joinCommas]
  simp only [encodable_str, true_and, and_true]

mutual
/-- The text of a value can be encoded exactly if the texts in the value can. -/
theorem encodable_dumps : ∀ (value : Value) {json : Str}, value.WellFormed →
    dumps value = some json → (Encodable json ↔ Scalars value)
  | .none, _, _, h => by
    cases h
    exact iff_of_true (encodable_str _) trivial
  | .bool true, _, _, h => by
    cases h
    exact iff_of_true (encodable_str _) trivial
  | .bool false, _, _, h => by
    cases h
    exact iff_of_true (encodable_str _) trivial
  | .int z, _, _, h => by
    cases h
    exact iff_of_true (encodable_decimalInt z) trivial
  | .float (.finite _), _, hwf, h => by
    cases h
    exact iff_of_true (encodable_float hwf) trivial
  | .str s, _, _, h => by
    cases h
    exact encodable_quote
  | .list items, _, hwf, h => by
    obtain ⟨texts, htexts, rfl⟩ := Option.map_eq_some_iff.mp h
    exact encodable_brackets.trans (encodable_dumpsAll items hwf htexts)
  | .tuple items, _, hwf, h => by
    obtain ⟨texts, htexts, rfl⟩ := Option.map_eq_some_iff.mp h
    exact encodable_brackets.trans (encodable_dumpsAll items hwf htexts)
  | .dict items, _, hwf, h => by
    obtain ⟨parts, hparts, -⟩ := Option.map_eq_some_iff.mp h
    exact (encodable_dumps_dict hparts h).trans (encodable_dumpsItems items hwf.2 hparts)

theorem encodable_dumpsAll : ∀ (items : List Value) {texts : List Str},
    Value.AllWellFormed items → dumpsAll items = some texts →
      ((∀ text ∈ texts, Encodable text) ↔ ScalarsAll items)
  | [], _, _, h => by
    cases h
    exact iff_of_true (fun _ hm => nomatch hm) trivial
  | value :: rest, _, hwf, h => by
    rw [dumpsAll] at h
    cases hvalue : dumps value with
    | none => simp [hvalue] at h
    | some text =>
      cases hrest : dumpsAll rest with
      | none => simp [hvalue, hrest] at h
      | some texts =>
        simp only [hvalue, hrest, Option.some.injEq] at h
        subst h
        rw [List.forall_mem_cons]
        exact and_congr (encodable_dumps value hwf.1 hvalue) (encodable_dumpsAll rest hwf.2 hrest)

theorem encodable_dumpsItems : ∀ (items : Items) {parts : List (Str × Str)},
    Value.ItemsWellFormed items → dumpsItems items = some parts →
      ((∀ part ∈ parts, Encodable part.1 ∧ Encodable part.2) ↔ ScalarsItems items)
  | [], _, _, h => by
    cases h
    exact iff_of_true (fun _ hm => nomatch hm) trivial
  | (.str key, value) :: rest, _, hwf, h => by
    rw [dumpsItems] at h
    cases hvalue : dumps value with
    | none => simp [hvalue] at h
    | some text =>
      cases hrest : dumpsItems rest with
      | none => simp [hvalue, hrest] at h
      | some parts =>
        simp only [hvalue, hrest, Option.some.injEq] at h
        subst h
        rw [List.forall_mem_cons]
        exact and_congr (and_congr Iff.rfl (encodable_dumps value hwf.1 hvalue))
          (encodable_dumpsItems rest hwf.2 hrest)
end

/-! ## Normal forms -/

/-- An item with its value normalized. -/
def normalItem (item : Value × Value) : Value × Value := (item.1, normalize item.2)

theorem normalizeItems_eq_map (items : Items) : normalizeItems items = items.map normalItem := by
  induction items with
  | nil => rfl
  | cons item rest ih => rw [normalizeItems, ih, List.map_cons, normalItem]

/-- Lists with images that are permutations have one order of the second that has the image
of the first. -/
theorem exists_perm_of_map_perm {α β : Type} {f : α → β} {xs zs : List α}
    (h : (xs.map f).Perm (zs.map f)) : ∃ ys : List α, xs.map f = ys.map f ∧ ys.Perm zs := by
  have hcomp := congrFun (congrFun (List.eq_map_comp_perm f) (xs.map f)) zs
  exact hcomp.mpr h

/-- Items with distinct texts for keys have one sorted order. -/
theorem sorted_unique {xs ys : Items} (hperm : xs.Perm ys) (hnodup : (xs.map Prod.fst).Nodup)
    (hkeys : ∀ item ∈ xs, ∃ key, item.1 = .str key) :
    xs.insertionSort itemLe = ys.insertionSort itemLe := by
  have htotal : Std.Total itemLe := ⟨fun a b => le_total (keyText a.1) (keyText b.1)⟩
  have htrans : IsTrans (Value × Value) itemLe := ⟨fun _ _ _ h h' => le_trans h h'⟩
  have hsame : (xs.insertionSort itemLe).Perm (ys.insertionSort itemLe) :=
    (List.perm_insertionSort itemLe xs).trans (hperm.trans (List.perm_insertionSort itemLe ys).symm)
  refine List.Perm.eq_of_pairwise (fun a b ha hb hab hba => ?_)
    (List.pairwise_insertionSort itemLe xs) (List.pairwise_insertionSort itemLe ys) hsame
  have ha := (List.mem_insertionSort itemLe).mp ha
  have hb := hperm.mem_iff.mpr ((List.mem_insertionSort itemLe).mp hb)
  obtain ⟨key, hkey⟩ := hkeys a ha
  obtain ⟨key', hkey'⟩ := hkeys b hb
  have htext : keyText a.1 = keyText b.1 := le_antisymm hab hba
  rw [hkey, hkey'] at htext
  have hfst : a.1 = b.1 := by
    rw [hkey, hkey']
    exact congrArg Value.str htext
  exact List.inj_on_of_nodup_map hnodup ha hb hfst

mutual
/-- Values with the same normal form are the same JSON. -/
theorem same_of_normalize : ∀ v w : Value, normalize v = normalize w → SameJson v w
  | .list xs, w, h => by
    cases w with
    | list ys | tuple ys =>
      simp only [normalize, Value.list.injEq] at h
      exact .array rfl rfl (same_of_normalizeAll xs ys h)
    | _ => simp [normalize] at h
  | .tuple xs, w, h => by
    cases w with
    | list ys | tuple ys =>
      simp only [normalize, Value.list.injEq] at h
      exact .array rfl rfl (same_of_normalizeAll xs ys h)
    | _ => simp [normalize] at h
  | .dict xs, w, h => by
    cases w with
    | dict zs =>
      -- the items of `zs`, in the order of those of `xs`
      simp only [normalize, Value.dict.injEq, normalizeItems_eq_map] at h
      have hperm : (xs.map normalItem).Perm (zs.map normalItem) :=
        (List.perm_insertionSort itemLe _).symm.trans (h ▸ List.perm_insertionSort itemLe _)
      obtain ⟨ys, hmap, hys⟩ := exists_perm_of_map_perm hperm
      have hkeys : xs.map Prod.fst = ys.map Prod.fst := by
        have hfst := congrArg (List.map Prod.fst) hmap
        rwa [List.map_map, List.map_map] at hfst
      exact .dict hkeys (same_of_normalItems xs ys hmap) hys
    | _ => simp [normalize] at h
  | .none, w, h | .bool _, w, h | .int _, w, h | .float _, w, h | .str _, w, h | .bytes _, w, h
  | .sequence _, w, h | .mapping _, w, h | .object _, w, h => by
    cases w <;> cases h
    exact .refl _

theorem same_of_normalizeAll : ∀ xs ys : List Value, normalizeAll xs = normalizeAll ys →
    List.Forall₂ SameJson xs ys
  | [], [], _ => .nil
  | x :: xs, y :: ys, h => by
    obtain ⟨hhead, htail⟩ := List.cons.inj h
    exact .cons (same_of_normalize x y hhead) (same_of_normalizeAll xs ys htail)

theorem same_of_normalItems : ∀ xs ys : Items, xs.map normalItem = ys.map normalItem →
    List.Forall₂ SameJson (xs.map Prod.snd) (ys.map Prod.snd)
  | [], [], _ => .nil
  | (_, x) :: xs, (_, y) :: ys, h => by
    obtain ⟨hhead, htail⟩ := List.cons.inj h
    exact .cons (same_of_normalize x y (Prod.mk.inj hhead).2) (same_of_normalItems xs ys htail)
end

theorem str_key {items : Items} (h : JsonLikeItems items) :
    ∀ item ∈ items, ∃ key, item.1 = .str key := by
  induction items with
  | nil => exact fun _ hm => nomatch hm
  | cons item rest ih =>
    obtain ⟨key, value⟩ := item
    cases key with
    | str s => exact List.forall_mem_cons.mpr ⟨⟨s, rfl⟩, ih h.2⟩
    | _ => exact h.elim

mutual
/-- JSON values that are the same have one normal form. -/
theorem normalize_of_same : ∀ v w : Value, SameJson v w → JsonLike v → v.WellFormed →
    normalize v = normalize w
  | .list xs, w, h, hlike, hwf => by
    cases h with
    | refl => rfl
    | array hv hw hall =>
      cases hv
      have hitems := normalizeAll_of_same _ _ hall hlike hwf
      cases w <;> cases hw <;> exact congrArg Value.list hitems
  | .tuple xs, w, h, hlike, hwf => by
    cases h with
    | refl => rfl
    | array hv hw hall =>
      cases hv
      have hitems := normalizeAll_of_same _ _ hall hlike hwf
      cases w <;> cases hw <;> exact congrArg Value.list hitems
  | .dict xs, w, h, hlike, hwf => by
    cases h with
    | refl => rfl
    | array hv => cases hv
    | @dict _ ys zs hkeys hvalues hperm =>
      have hitems := normalItems_of_same xs ys hkeys hvalues hlike hwf.2
      have hnodup : ((xs.map normalItem).map Prod.fst).Nodup := by
        rw [List.map_map]
        exact hwf.1
      have hstr : ∀ item ∈ xs.map normalItem, ∃ key, item.1 = .str key :=
        List.forall_mem_map.mpr (str_key hlike)
      simp only [normalize, normalizeItems_eq_map]
      rw [sorted_unique (hitems ▸ hperm.map normalItem) hnodup hstr]
  | .none, w, h, _, _ | .bool _, w, h, _, _ | .int _, w, h, _, _ | .float _, w, h, _, _
  | .str _, w, h, _, _ => by
    cases h with
    | refl => rfl
    | array hv => cases hv

theorem normalizeAll_of_same : ∀ xs ys : List Value, List.Forall₂ SameJson xs ys →
    JsonLikeAll xs → Value.AllWellFormed xs → normalizeAll xs = normalizeAll ys
  | [], _, h, _, _ => by
    cases h
    rfl
  | x :: xs, _, h, hlike, hwf => by
    cases h with
    | cons hhead htail =>
      rw [normalizeAll, normalizeAll, normalize_of_same x _ hhead hlike.1 hwf.1,
        normalizeAll_of_same xs _ htail hlike.2 hwf.2]

theorem normalItems_of_same : ∀ xs ys : Items, xs.map Prod.fst = ys.map Prod.fst →
    List.Forall₂ SameJson (xs.map Prod.snd) (ys.map Prod.snd) → JsonLikeItems xs →
    Value.ItemsWellFormed xs → xs.map normalItem = ys.map normalItem
  | [], ys, hkeys, _, _, _ => by
    rw [List.map_eq_nil_iff.mp hkeys.symm]
  | (.str key, x) :: xs, [], hkeys, _, _, _ => by cases hkeys
  | (.str key, x) :: xs, (key', y) :: ys, hkeys, h, hlike, hwf => by
    obtain ⟨hkey, hkeys⟩ := List.cons.inj hkeys
    cases h with
    | cons hhead htail =>
      have hkey : key' = .str key := hkey.symm
      rw [List.map_cons, List.map_cons, normalItem, normalItem, hkey,
        normalize_of_same x y hhead hlike.1 hwf.1,
        normalItems_of_same xs ys hkeys htail hlike.2 hwf.2]
end

/-- **The text of a value determines it**, up to the order of items and up to tuples for
lists. -/
theorem dumps_eq_iff {v w : Value} (hv : JsonLike v) (hv' : v.WellFormed) (hw : JsonLike w)
    (hw' : w.WellFormed) : dumps v = dumps w ↔ SameJson v w := by
  obtain ⟨text, htext⟩ := dumps_jsonLike v hv
  obtain ⟨text', htext'⟩ := dumps_jsonLike w hw
  constructor
  · intro h
    have hsame : text = text' := by
      rw [htext, htext'] at h
      exact Option.some.inj h
    refine same_of_normalize v w (Option.some.inj ?_)
    rw [← loads_dumps hv' htext, ← loads_dumps hw' htext', hsame]
  · intro h
    rw [htext, ← dumps_normalize hv' htext, normalize_of_same v w h hv hv',
      dumps_normalize hw' htext', htext']

end Python
