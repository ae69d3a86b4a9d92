import EffectBroker.EffectLedger

/-!
# The ledgers of a store

A book has the ledgers of all effects, in the order in which they were reserved.  It is
what the stores have in common: each of them holds a book, and each call takes it one
step further.
-/
namespace EffectBroker
open Python

/-- The effect of a ledger. -/
def EffectLedger.id (l : EffectLedger) : Str := l.record.effectId

/-- The tenant and the operation of a ledger. -/
def EffectLedger.identity (l : EffectLedger) : Str × Str :=
  (l.record.tenantId, l.record.request.operationKey)

/-- The ledgers, the oldest first. -/
abbrev Book := List EffectLedger

namespace Book

/-- The ledger of an effect. -/
def ledger (b : Book) (e : Str) : Option EffectLedger := b.find? (·.id = e)

/-- The ledger of an operation of a tenant. -/
def reserved (b : Book) (tenantId operationKey : Str) : Option EffectLedger :=
  b.find? (·.identity = (tenantId, operationKey))

/-- Change the ledger of an effect. -/
def modify (b : Book) (e : Str) (f : EffectLedger → EffectLedger) : Book :=
  b.map fun l => if l.id = e then f l else l

/-- Effects have their own ids and their own identities. -/
structure Unique (b : Book) : Prop where
  ids : (b.map EffectLedger.id).Nodup
  identities : (b.map EffectLedger.identity).Nodup

/-- What every book of a store is. -/
structure Good (b : Book) : Prop extends Unique b where
  sound : ∀ l ∈ b, l.Sound

/-- What a call can do to a book. -/
inductive Step (b : Book) : Book → Prop
  | reserve {record : EffectRecord} : b.ledger record.effectId = none →
      b.reserved record.tenantId record.request.operationKey = none →
      record.status = .prepared → record.version = 0 → Step b (b ++ [.reserved record])
  | change {f : EffectLedger → EffectLedger} :
      (∀ l ∈ b, f l = l ∨ LedgerStep (some l) (f l)) → Step b (b.map f)

end Book

/-! ## One ledger -/

theorem LedgerStep.same {l l' : EffectLedger} (h : LedgerStep (some l) l') :
    SameEffect l.record l'.record := by
  cases h <;> rfl

theorem LedgerStep.id {l l' : EffectLedger} (h : LedgerStep (some l) l') : l'.id = l.id := by
  cases h <;> rfl

theorem LedgerStep.identity {l l' : EffectLedger} (h : LedgerStep (some l) l') :
    l'.identity = l.identity := by
  cases h <;> rfl

namespace Book
variable {b b' : Book} {e : Str} {l : EffectLedger}

/-! ## Finding ledgers -/

theorem mem_of_ledger (h : b.ledger e = some l) : l ∈ b ∧ l.id = e :=
  ⟨List.mem_of_find?_eq_some h, by simpa using List.find?_some h⟩

theorem mem_of_reserved {tenantId operationKey : Str} (h : b.reserved tenantId operationKey = some l) :
    l ∈ b ∧ l.identity = (tenantId, operationKey) :=
  ⟨List.mem_of_find?_eq_some h, by simpa using List.find?_some h⟩

theorem ledger_eq_none : b.ledger e = none ↔ ∀ l ∈ b, l.id ≠ e := by
  unfold ledger
  rw [List.find?_eq_none]
  exact forall_congr' fun l => imp_congr Iff.rfl (by simp)

theorem reserved_eq_none {tenantId operationKey : Str} :
    b.reserved tenantId operationKey = none ↔ ∀ l ∈ b, l.identity ≠ (tenantId, operationKey) := by
  unfold reserved
  rw [List.find?_eq_none]
  exact forall_congr' fun l => imp_congr Iff.rfl (by simp)

/-- Where keys are distinct, a member is found by its key. -/
theorem find?_of_nodup {α κ : Type} [DecidableEq κ] {key : α → κ} {list : List α} {a : α}
    (hnodup : (list.map key).Nodup) (hm : a ∈ list) :
    list.find? (fun x => key x = key a) = some a := by
  cases hfind : list.find? (fun x => key x = key a) with
  | none => exact absurd (List.find?_eq_none.mp hfind a hm) (by simp)
  | some b =>
    have hkey : key b = key a := by simpa using List.find?_some hfind
    rw [List.inj_on_of_nodup_map hnodup (List.mem_of_find?_eq_some hfind) hm hkey]

/-- Where keys are distinct, a member is the only one with its key. -/
theorem filter_of_nodup {α κ : Type} [DecidableEq κ] {key : α → κ} {list : List α} {a : α}
    (hnodup : (list.map key).Nodup) (hm : a ∈ list) :
    list.filter (fun x => key x = key a) = [a] := by
  induction list with
  | nil => cases hm
  | cons first rest ih =>
    obtain ⟨hnot, hrest⟩ := List.nodup_cons.mp hnodup
    rcases List.mem_cons.mp hm with rfl | hm
    · have hnone : rest.filter (fun x => key x = key a) = [] := by
        refine List.filter_eq_nil_iff.mpr fun x hx hkey => hnot ?_
        exact List.mem_map.mpr ⟨x, hx, of_decide_eq_true hkey⟩
      rw [List.filter_cons_of_pos (by simp), hnone]
    · have hne : key first ≠ key a := fun h => hnot (List.mem_map.mpr ⟨a, hm, h.symm⟩)
      rw [List.filter_cons_of_neg (by simpa using hne)]
      exact ih hrest hm

/-- A ledger of the book is found by its id. -/
theorem Unique.ledger_of_mem (h : b.Unique) (hm : l ∈ b) : b.ledger l.id = some l :=
  find?_of_nodup h.ids hm

theorem Unique.reserved_of_mem (h : b.Unique) (hm : l ∈ b) :
    b.reserved l.record.tenantId l.record.request.operationKey = some l :=
  find?_of_nodup h.identities hm

/-! ## Changing ledgers -/

theorem map_id_modify {f : EffectLedger → EffectLedger} (hf : ∀ l, (f l).id = l.id) :
    (b.modify e f).map EffectLedger.id = b.map EffectLedger.id := by
  unfold modify
  rw [List.map_map]
  refine List.map_congr_left fun l _ => ?_
  show (if l.id = e then f l else l).id = l.id
  split
  · exact hf l
  · rfl

theorem ledger_modify {f : EffectLedger → EffectLedger} (hf : ∀ l, (f l).id = l.id) (e' : Str) :
    (b.modify e f).ledger e' = if e' = e then (b.ledger e).map f else b.ledger e' := by
  induction b with
  | nil =>
    split <;> rfl
  | cons first rest ih =>
    have hcons : modify (first :: rest) e f =
        (if first.id = e then f first else first) :: modify rest e f := rfl
    have hid : (if first.id = e then f first else first).id = first.id := by
      split
      · exact hf first
      · rfl
    unfold ledger at ih ⊢
    rw [hcons]
    by_cases hfirst : first.id = e'
    · rw [List.find?_cons_of_pos (by simpa [hid] using hfirst)]
      by_cases he : e' = e
      · rw [if_pos (hfirst.trans he), if_pos he,
          List.find?_cons_of_pos (by simpa using hfirst.trans he)]
        rfl
      · rw [if_neg (fun h => he (hfirst.symm.trans h)), if_neg he,
          List.find?_cons_of_pos (by simpa using hfirst)]
    · rw [List.find?_cons_of_neg (by simpa [hid] using hfirst), ih]
      by_cases he : e' = e
      · rw [if_pos he, if_pos he,
          List.find?_cons_of_neg (by simpa using fun h => hfirst (h.trans he.symm))]
      · rw [if_neg he, if_neg he, List.find?_cons_of_neg (by simpa using hfirst)]

theorem ledger_modify_self {f : EffectLedger → EffectLedger} (hf : ∀ l, (f l).id = l.id)
    (hl : b.ledger e = some l) : (b.modify e f).ledger e = some (f l) := by
  rw [ledger_modify hf, if_pos rfl, hl]
  rfl

theorem ledger_modify_ne {f : EffectLedger → EffectLedger} (hf : ∀ l, (f l).id = l.id) {e' : Str}
    (he : e' ≠ e) : (b.modify e f).ledger e' = b.ledger e' := by
  rw [ledger_modify hf, if_neg he]

theorem ledger_append (e : Str) :
    Book.ledger (b ++ [l]) e = (b.ledger e).or (if l.id = e then some l else none) := by
  unfold ledger
  rw [List.find?_append, List.find?_singleton]
  simp

/-- A change of one ledger is a step. -/
theorem step_modify (h : b.Unique) {f : EffectLedger → EffectLedger} (hl : b.ledger e = some l)
    (hstep : LedgerStep (some l) (f l)) : Step b (b.modify e f) := by
  refine .change fun l' hm => ?_
  by_cases he : l'.id = e
  · rw [if_pos he]
    have hfound := h.ledger_of_mem hm
    rw [he, hl] at hfound
    cases hfound
    exact .inr hstep
  · rw [if_neg he]
    exact .inl rfl

/-! ## What steps keep -/

theorem Step.good (h : Step b b') (hb : b.Good) : b'.Good := by
  cases h with
  | @reserve record hid hidentity hs hv =>
    refine ⟨⟨?_, ?_⟩, fun l hl => ?_⟩
    · rw [List.map_append, List.nodup_append']
      refine ⟨hb.ids, List.nodup_singleton _, ?_⟩
      rw [List.map_singleton, List.disjoint_singleton]
      intro hm
      obtain ⟨l, hl, he⟩ := List.mem_map.mp hm
      exact ledger_eq_none.mp hid l hl he
    · rw [List.map_append, List.nodup_append']
      refine ⟨hb.identities, List.nodup_singleton _, ?_⟩
      rw [List.map_singleton, List.disjoint_singleton]
      intro hm
      obtain ⟨l, hl, he⟩ := List.mem_map.mp hm
      exact reserved_eq_none.mp hidentity l hl he
    · rcases List.mem_append.mp hl with hl | hl
      · exact hb.sound l hl
      · obtain rfl := List.mem_singleton.mp hl
        exact (LedgerStep.reserved hs hv).sound fun _ h => nomatch h
  | @change f hf =>
    have hids : (b.map f).map EffectLedger.id = b.map EffectLedger.id := by
      rw [List.map_map]
      refine List.map_congr_left fun l hl => ?_
      rcases hf l hl with h | h
      · exact congrArg EffectLedger.id h
      · exact h.id
    have hidentities : (b.map f).map EffectLedger.identity = b.map EffectLedger.identity := by
      rw [List.map_map]
      refine List.map_congr_left fun l hl => ?_
      rcases hf l hl with h | h
      · exact congrArg EffectLedger.identity h
      · exact h.identity
    refine ⟨⟨hids ▸ hb.ids, hidentities ▸ hb.identities⟩, fun l' hl' => ?_⟩
    obtain ⟨l, hl, rfl⟩ := List.mem_map.mp hl'
    rcases hf l hl with h | h
    · rw [h]
      exact hb.sound l hl
    · refine h.sound fun before hbefore => ?_
      cases hbefore
      exact hb.sound l hl

end Book
end EffectBroker
