import Mathlib.Algebra.BigOperators.Group.Finset.Basic
import Mathlib.Algebra.GroupWithZero.Nat
import EffectBroker.OrderedDict

/-!
# Totals over dictionaries

The sum of a weight over the values of a dictionary.  It depends on what the keys map to
and not on their order, so a change of one key changes it by the weights of that key.
-/
namespace Python.Dict
variable {κ ν : Type} [DecidableEq κ]

/-- The sum of the weights of the values. -/
def total (weight : ν → Nat) (d : Dict κ ν) : Nat := (d.values.map weight).sum

/-- The weight at a key. -/
def weightAt (weight : ν → Nat) (d : Dict κ ν) (k : κ) : Nat := ((d.get? k).map weight).getD 0

section
variable {weight : ν → Nat} {d d' : Dict κ ν}

theorem weightAt_of_mem_items {item : κ × ν} (h : item ∈ d.items) :
    d.weightAt weight item.1 = weight item.2 := by
  rw [weightAt, get?_of_mem_items h]
  rfl

theorem weightAt_of_not_mem {k : κ} (h : k ∉ d.keys) : d.weightAt weight k = 0 := by
  cases hget : d.get? k with
  | none => rw [weightAt, hget]; rfl
  | some v => exact absurd (mem_keys_of_get? hget) h

/-- The total is a sum over any keys that include those of the dictionary. -/
theorem total_eq_sum {domain : Finset κ} (h : d.keys.toFinset ⊆ domain) :
    d.total weight = ∑ k ∈ domain, d.weightAt weight k := by
  have hvalues : d.values.map weight = d.keys.map (d.weightAt weight) := by
    unfold values keys
    rw [List.map_map, List.map_map]
    exact List.map_congr_left fun item hm => (weightAt_of_mem_items hm).symm
  have hkeys : ∑ k ∈ d.keys.toFinset, d.weightAt weight k = ∑ k ∈ domain, d.weightAt weight k := by
    refine Finset.sum_subset h fun k _ hk => weightAt_of_not_mem ?_
    exact fun hm => hk (List.mem_toFinset.mpr hm)
  have hnodup : d.keys.Nodup := d.nodup
  rw [← hkeys, List.sum_toFinset _ hnodup, total, hvalues]

/-- Dictionaries with the same weight at each key have the same total. -/
theorem total_congr {ν' : Type} {weight' : ν' → Nat} {d' : Dict κ ν'}
    (h : ∀ k, d'.weightAt weight' k = d.weightAt weight k) : d'.total weight' = d.total weight := by
  have hkeys : d.keys.toFinset ⊆ d.keys.toFinset ∪ d'.keys.toFinset := Finset.subset_union_left
  have hkeys' : d'.keys.toFinset ⊆ d.keys.toFinset ∪ d'.keys.toFinset := Finset.subset_union_right
  rw [total_eq_sum hkeys, total_eq_sum hkeys']
  exact Finset.sum_congr rfl fun k _ => h k

/-- A change at one key changes the total by the weights of that key. -/
theorem total_update {k : κ} (h : ∀ k' ≠ k, d'.weightAt weight k' = d.weightAt weight k') :
    d'.total weight + d.weightAt weight k = d.total weight + d'.weightAt weight k := by
  have hkeys : d.keys.toFinset ⊆ insert k (d.keys.toFinset ∪ d'.keys.toFinset) :=
    Finset.subset_union_left.trans (Finset.subset_insert ..)
  have hkeys' : d'.keys.toFinset ⊆ insert k (d.keys.toFinset ∪ d'.keys.toFinset) :=
    Finset.subset_union_right.trans (Finset.subset_insert ..)
  have hrest : ∑ k' ∈ (insert k (d.keys.toFinset ∪ d'.keys.toFinset)).erase k,
      d'.weightAt weight k' = ∑ k' ∈ (insert k (d.keys.toFinset ∪ d'.keys.toFinset)).erase k,
        d.weightAt weight k' :=
    Finset.sum_congr rfl fun k' hk => h k' (Finset.ne_of_mem_erase hk)
  rw [total_eq_sum hkeys, total_eq_sum hkeys', ← Finset.add_sum_erase _ _ (Finset.mem_insert_self ..),
    ← Finset.add_sum_erase _ _ (Finset.mem_insert_self k _), hrest]
  omega

/-! ## Entries -/

theorem mem_values_iff {v : ν} : v ∈ d.values ↔ ∃ k, d.get? k = some v := by
  constructor
  · intro h
    obtain ⟨item, hitem, rfl⟩ := List.mem_map.mp h
    exact ⟨item.1, get?_of_mem_items hitem⟩
  · rintro ⟨k, hget⟩
    exact List.mem_map.mpr ⟨(k, v), mem_items_of_get? hget, rfl⟩

/-- Setting other keys leaves an entry alone. -/
theorem get?_foldl_set_of_not_mem (f : κ → ν) {keys : List κ} (d : Dict κ ν) {k : κ} (h : k ∉ keys) :
    (keys.foldl (fun d k => d.set k (f k)) d).get? k = d.get? k := by
  induction keys generalizing d with
  | nil => rfl
  | cons k' keys ih =>
    obtain ⟨hne, hrest⟩ := List.ne_and_not_mem_of_not_mem_cons h
    rw [List.foldl_cons, ih _ hrest, get?_set_ne _ hne]

/-- Entries that are computed from their keys, one after another. -/
theorem get?_foldl_set_of_mem (f : κ → ν) {keys : List κ} (d : Dict κ ν) {k : κ} (h : k ∈ keys) :
    (keys.foldl (fun d k => d.set k (f k)) d).get? k = some (f k) := by
  induction keys generalizing d with
  | nil => cases h
  | cons k' keys ih =>
    rw [List.foldl_cons]
    by_cases hrest : k ∈ keys
    · exact ih _ hrest
    · obtain rfl := (List.mem_cons.mp h).resolve_right hrest
      rw [get?_foldl_set_of_not_mem f _ hrest, get?_set_self]

omit [DecidableEq κ] in
theorem size_eq_total (d : Dict κ ν) : d.size = d.total fun _ => 1 := by
  have hones : d.values.map (fun _ => 1) = List.replicate d.items.length 1 := by
    unfold values
    rw [List.map_const', List.length_map]
  rw [total, hones, List.sum_replicate]
  exact (Nat.mul_one _).symm

omit [DecidableEq κ] in
theorem countP_eq_total (p : ν → Bool) (d : Dict κ ν) :
    d.values.countP p = d.total fun v => if p v then 1 else 0 := by
  unfold total
  induction d.values with
  | nil => rfl
  | cons v values ih => rw [List.countP_cons, ih, List.map_cons, List.sum_cons, Nat.add_comm]

end
end Python.Dict
