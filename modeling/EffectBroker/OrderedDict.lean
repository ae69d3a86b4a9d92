import Mathlib.Data.List.Basic
import Mathlib.Data.List.Nodup

/-!
# Insertion-ordered dictionaries

A Python `dict` iterates over its items in the order in which their keys were
first inserted; assigning to a present key keeps its place.  `Dict` is such a
dictionary with the distinctness of its keys as a field, so no operation has to
re-establish it.
-/
namespace Python

/-- A dictionary: its items in insertion order, with distinct keys. -/
structure Dict (κ ν : Type) where
  items : List (κ × ν)
  nodup : (items.map Prod.fst).Nodup

namespace Dict
variable {κ ν : Type}

/-- `{}`. -/
def empty : Dict κ ν := ⟨[], List.nodup_nil⟩

instance : Inhabited (Dict κ ν) := ⟨empty⟩

/-- The keys in insertion order. -/
def keys (d : Dict κ ν) : List κ := d.items.map Prod.fst

/-- The values in insertion order. -/
def values (d : Dict κ ν) : List ν := d.items.map Prod.snd

/-- `len(d)`. -/
def size (d : Dict κ ν) : Nat := d.items.length

variable [DecidableEq κ]

/-- `d.get(k)`. -/
def get? (d : Dict κ ν) (k : κ) : Option ν := d.items.lookup k

/-- Assign to a key: in place if it is present, at the end if not. -/
def setItems (k : κ) (v : ν) : List (κ × ν) → List (κ × ν)
  | [] => [(k, v)]
  | (k', v') :: rest => if k' = k then (k, v) :: rest else (k', v') :: setItems k v rest

theorem mem_keys_setItems {k k' : κ} {v : ν} {l : List (κ × ν)} :
    k' ∈ (setItems k v l).map Prod.fst ↔ k' = k ∨ k' ∈ l.map Prod.fst := by
  induction l with
  | nil => simp [setItems]
  | cons p l ih =>
    unfold setItems
    split
    · rename_i h
      subst h
      simp
    · rw [List.map_cons, List.mem_cons, ih, List.map_cons, List.mem_cons]
      tauto

theorem nodup_setItems (k : κ) (v : ν) {l : List (κ × ν)} (h : (l.map Prod.fst).Nodup) :
    ((setItems k v l).map Prod.fst).Nodup := by
  induction l with
  | nil => simp [setItems]
  | cons p l ih =>
    obtain ⟨hp, hl⟩ := List.nodup_cons.mp h
    unfold setItems
    split
    · rename_i he
      subst he
      exact h
    · rename_i he
      refine List.nodup_cons.mpr ⟨fun hm => ?_, ih hl⟩
      rcases mem_keys_setItems.mp hm with hk | hm
      · exact he hk
      · exact hp hm

/-- `d[k] = v`. -/
def set (d : Dict κ ν) (k : κ) (v : ν) : Dict κ ν := ⟨setItems k v d.items, nodup_setItems k v d.nodup⟩

/-- `d.pop(k, None)`. -/
def erase (d : Dict κ ν) (k : κ) : Dict κ ν :=
  ⟨d.items.filter (fun p => p.1 ≠ k), (List.filter_sublist.map _).nodup d.nodup⟩

/-! ## Reading back -/

@[simp] theorem get?_empty (k : κ) : (empty : Dict κ ν).get? k = none := rfl

theorem lookup_setItems_self (k : κ) (v : ν) (l : List (κ × ν)) :
    (setItems k v l).lookup k = some v := by
  induction l with
  | nil => simp [setItems]
  | cons p l ih =>
    unfold setItems
    split
    · simp
    · rename_i h
      rw [List.lookup_cons, beq_false_of_ne (Ne.symm h)]
      exact ih

theorem lookup_setItems_ne {k k' : κ} (h : k' ≠ k) (v : ν) (l : List (κ × ν)) :
    (setItems k v l).lookup k' = l.lookup k' := by
  induction l with
  | nil => rw [setItems, List.lookup_cons, beq_false_of_ne h]
  | cons p l ih =>
    obtain ⟨a, b⟩ := p
    unfold setItems
    split
    · rename_i he
      subst he
      simp only [List.lookup_cons, beq_false_of_ne h]
    · simp only [List.lookup_cons, ih]

@[simp] theorem get?_set_self (d : Dict κ ν) (k : κ) (v : ν) : (d.set k v).get? k = some v :=
  lookup_setItems_self k v d.items

@[simp] theorem get?_set_ne (d : Dict κ ν) {k k' : κ} (h : k' ≠ k) (v : ν) :
    (d.set k v).get? k' = d.get? k' :=
  lookup_setItems_ne h v d.items

theorem get?_set (d : Dict κ ν) (k k' : κ) (v : ν) :
    (d.set k v).get? k' = if k' = k then some v else d.get? k' := by
  split
  · rename_i h
    rw [h, get?_set_self]
  · rename_i h
    exact get?_set_ne d h v

theorem lookup_filter_ne (k k' : κ) (l : List (κ × ν)) :
    (l.filter (fun p => p.1 ≠ k)).lookup k' = if k' = k then none else l.lookup k' := by
  induction l with
  | nil => split <;> rfl
  | cons p l ih =>
    by_cases hp : p.1 = k
    · rw [List.filter_cons_of_neg (by simpa using hp), ih]
      split
      · rfl
      · rename_i h
        rw [List.lookup_cons, beq_false_of_ne (fun he => h (he.trans hp))]
    · rw [List.filter_cons_of_pos (by simpa using hp), List.lookup_cons, List.lookup_cons, ih]
      by_cases hk : k' = p.1
      · subst hk
        simp [hp]
      · rw [beq_false_of_ne hk]

@[simp] theorem get?_erase_self (d : Dict κ ν) (k : κ) : (d.erase k).get? k = none :=
  (lookup_filter_ne k k d.items).trans (if_pos rfl)

@[simp] theorem get?_erase_ne (d : Dict κ ν) {k k' : κ} (h : k' ≠ k) :
    (d.erase k).get? k' = d.get? k' :=
  (lookup_filter_ne k k' d.items).trans (if_neg h)

theorem mem_items_of_get? {d : Dict κ ν} {k : κ} {v : ν} (h : d.get? k = some v) :
    (k, v) ∈ d.items := by
  obtain ⟨l₁, l₂, he, _⟩ := List.lookup_eq_some_iff.mp h
  rw [he]
  simp

theorem get?_of_mem_items {d : Dict κ ν} {k : κ} {v : ν} (h : (k, v) ∈ d.items) :
    d.get? k = some v := by
  obtain ⟨items, nodup⟩ := d
  unfold get?
  simp only at h ⊢
  induction items with
  | nil => cases h
  | cons p l ih =>
    obtain ⟨hp, hl⟩ := List.nodup_cons.mp nodup
    rcases List.mem_cons.mp h with rfl | h
    · simp
    · have hne : k ≠ p.1 := by
        rintro rfl
        exact hp (List.mem_map.mpr ⟨_, h, rfl⟩)
      rw [List.lookup_cons, beq_false_of_ne hne]
      exact ih hl h

theorem mem_keys_of_get? {d : Dict κ ν} {k : κ} {v : ν} (h : d.get? k = some v) : k ∈ d.keys :=
  List.mem_map_of_mem (f := Prod.fst) (mem_items_of_get? h)

theorem mem_values_of_get? {d : Dict κ ν} {k : κ} {v : ν} (h : d.get? k = some v) : v ∈ d.values :=
  List.mem_map_of_mem (f := Prod.snd) (mem_items_of_get? h)

theorem setItems_of_not_mem {k : κ} {v : ν} {l : List (κ × ν)} (h : k ∉ l.map Prod.fst) :
    setItems k v l = l ++ [(k, v)] := by
  induction l with
  | nil => rfl
  | cons p l ih =>
    rw [List.map_cons, List.mem_cons, not_or] at h
    rw [setItems, if_neg (Ne.symm h.1), ih h.2]
    rfl

theorem keys_setItems_of_mem {k : κ} {l : List (κ × ν)} (h : k ∈ l.map Prod.fst) (v : ν) :
    (setItems k v l).map Prod.fst = l.map Prod.fst := by
  induction l with
  | nil => cases h
  | cons p l ih =>
    by_cases hp : p.1 = k
    · subst hp
      rw [setItems, if_pos rfl]
      rfl
    · rw [setItems, if_neg hp, List.map_cons, List.map_cons, ih]
      exact (List.mem_cons.mp h).resolve_left fun he => hp he.symm

/-- Assigning to a present key keeps the order of the keys. -/
theorem keys_set_of_get? {d : Dict κ ν} {k : κ} {v : ν} (h : d.get? k = some v) (v' : ν) :
    (d.set k v').keys = d.keys :=
  keys_setItems_of_mem (mem_keys_of_get? h) v'

/-- A new key comes last. -/
theorem items_set_of_get?_none {d : Dict κ ν} {k : κ} (h : d.get? k = none) (v : ν) :
    (d.set k v).items = d.items ++ [(k, v)] := by
  refine setItems_of_not_mem fun hm => ?_
  obtain ⟨⟨k', v'⟩, hitem, rfl⟩ := List.mem_map.mp hm
  rw [get?_of_mem_items hitem] at h
  cases h

end Dict
end Python
