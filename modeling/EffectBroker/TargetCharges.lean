import EffectBroker.SimulatedTarget

/-!
# What a dispatch charges

The charges of a key, and the three ways in which a dispatch to the simulated target can
end: it is refused, it finds its charge, or it makes one.
-/
namespace EffectBroker
open Python Concurrency

namespace SimulatedTarget
variable {target : SimulatedTarget}

/-! ## The charges of a key -/

theorem get?_of_listed {key id : Str} (h : id ∈ target.idsForKey key) :
    ∃ charge, target.charges.get? id = some charge := by
  obtain ⟨charge, hget, -⟩ := target.listed_of_mem h
  exact ⟨charge, hget⟩

/-- No listed charge is missing. -/
theorem firstByDownstreamKey_eq (target : SimulatedTarget) (key : Str) :
    target.firstByDownstreamKey key = (target.chargesForKey key).head? := by
  unfold firstByDownstreamKey chargesForKey
  cases hids : target.idsForKey key with
  | nil => rfl
  | cons id ids =>
    have hm : id ∈ target.idsForKey key := hids ▸ List.mem_cons_self ..
    obtain ⟨charge, hget⟩ := get?_of_listed hm
    rw [List.head?_cons, Option.bind_some, List.filterMap_cons_some hget, List.head?_cons, hget]

theorem chargesForKey_congr {target' : SimulatedTarget} (hcharges : target'.charges = target.charges)
    (hkeys : target'.byDownstreamKey = target.byDownstreamKey) (key : Str) :
    target'.chargesForKey key = target.chargesForKey key := by
  unfold chargesForKey idsForKey
  rw [hcharges, hkeys]

/-- A listed id is older than the next one. -/
theorem ne_chargeIdOf_of_listed {key id : Str} (h : id ∈ target.idsForKey key) :
    id ≠ chargeIdOf target.nextChargeId := by
  rintro rfl
  obtain ⟨charge, hget⟩ := get?_of_listed h
  obtain ⟨n, hn, hid⟩ := target.numbered _ _ hget
  have heq := chargeIdOf_injective hid
  omega

/-- A charge is added to its own key. -/
theorem chargesForKey_addCharge (charge : SimulatedCharge)
    (hid : charge.externalId = chargeIdOf target.nextChargeId) (key : Str) :
    (target.addCharge charge hid).chargesForKey key =
      target.chargesForKey key ++ if key = charge.downstreamKey then [charge] else [] := by
  -- the listed charges stay what they are
  have hsame : ∀ key', (target.idsForKey key').filterMap (target.addCharge charge hid).charges.get? =
      target.chargesForKey key' := by
    intro key'
    refine List.filterMap_congr fun id hm => ?_
    have hne : id ≠ charge.externalId := hid ▸ ne_chargeIdOf_of_listed hm
    exact (Dict.get?_set ..).trans (if_neg hne)
  have hnew : (target.addCharge charge hid).charges.get? charge.externalId = some charge :=
    (Dict.get?_set ..).trans (if_pos rfl)
  have hids : (target.addCharge charge hid).idsForKey key =
      target.idsForKey key ++ if key = charge.downstreamKey then [charge.externalId] else [] := by
    unfold idsForKey addCharge
    rw [Dict.get?_set]
    split
    · rename_i hkey
      rw [hkey]
      rfl
    · rw [List.append_nil]
  rw [chargesForKey, hids, List.filterMap_append, hsame]
  split
  · rw [List.filterMap_cons_some hnew, List.filterMap_nil]
  · rfl

end SimulatedTarget

/-! ## A dispatch -/

/-- How a commit of an effect, or what is answered to it, can end at a target with these
charges. -/
inductive Charges {α : Type} (before : Str → List SimulatedCharge) (effect : EffectRecord)
    (dedupe : Prop) (Shows : SimulatedCharge → Except Exc α → Prop) :
    Except Exc α × SimulatedTarget → Prop where
  | refused {exc target} : (∀ key, target.chargesForKey key = before key) →
      (∀ message, exc ≠ .ambiguousDispatch message) →
      Charges before effect dedupe Shows (.error exc, target)
  | found {charge answer target} : dedupe → (before effect.downstreamKey).head? = some charge →
      (∀ key, target.chargesForKey key = before key) → Shows charge answer →
      Charges before effect dedupe Shows (answer, target)
  | charged {charge answer target} : (dedupe → before effect.downstreamKey = []) →
      (∀ key, target.chargesForKey key =
        before key ++ if key = effect.downstreamKey then [charge] else []) → Shows charge answer →
      Charges before effect dedupe Shows (answer, target)

namespace SimulatedTarget
variable {target : SimulatedTarget} {effect : EffectRecord}

theorem charges_charge {before : Str → List SimulatedCharge} {dedupe : Prop}
    (hbefore : ∀ key, target.chargesForKey key = before key)
    (hnone : dedupe → before effect.downstreamKey = []) :
    Charges before effect dedupe (fun charge answer => answer = .ok charge) (target.charge effect) := by
  unfold charge
  cases hamount : amountOf effect.request with
  | error exc =>
    unfold amountOf at hamount
    split at hamount <;> cases hamount
    exact .refused hbefore fun _ h => nomatch h
  | ok amount =>
    refine .charged hnone (fun key => ?_) rfl
    rw [chargesForKey_addCharge, hbefore]

theorem charges_commit (target : SimulatedTarget) (effect : EffectRecord) (dedupe : Bool) :
    Charges target.chargesForKey effect (dedupe = true) (fun charge answer => answer = .ok charge)
      (target.commit effect dedupe) := by
  have hfirst := target.firstByDownstreamKey_eq effect.downstreamKey
  unfold commit
  extract_lets counted
  have hcounted : ∀ key, counted.chargesForKey key = target.chargesForKey key :=
    chargesForKey_congr rfl rfl
  rw [show counted.firstByDownstreamKey effect.downstreamKey =
    target.firstByDownstreamKey effect.downstreamKey from rfl, hfirst]
  cases hhead : (target.chargesForKey effect.downstreamKey).head? with
  | none =>
    exact charges_charge hcounted fun _ => List.head?_eq_none_iff.mp hhead
  | some existing =>
    dsimp only
    by_cases hdrift : existing.requestHash ≠ effect.requestHash
    · rw [if_pos hdrift]
      exact .refused hcounted fun _ h => nomatch h
    · rw [if_neg hdrift]
      by_cases hdedupe : dedupe = true
      · rw [if_pos hdedupe]
        exact .found hdedupe hhead hcounted rfl
      · rw [if_neg hdedupe]
        exact charges_charge hcounted fun h => absurd h hdedupe

end SimulatedTarget

namespace SimulatedAdapter

/-- The target deduplicates the retries of the effect. -/
def Deduplicated (effect : EffectRecord) : Prop :=
  effect.contract.safety = .idempotent ∨ effect.contract.safety = .transactional

/-- What is answered once there is a charge: its id, or nothing. -/
inductive Reports (charge : SimulatedCharge) : Except Exc DispatchResult → Prop where
  | returned {output} : Reports charge (.ok ⟨some charge.externalId, output, true⟩)
  | lost {message} : Reports charge (.error (.ambiguousDispatch message))

/-- **What a dispatch charges.** -/
theorem charges_dispatch (target : SimulatedTarget) (effect : EffectRecord) :
    Charges target.chargesForKey effect (Deduplicated effect) Reports (dispatch target effect) := by
  have hcommit := target.charges_commit effect
    (decide (effect.contract.safety = .idempotent ∨ effect.contract.safety = .transactional))
  rw [decide_eq_true_iff] at hcommit
  unfold dispatch
  extract_lets dedupe
  -- losing the response changes no charge
  have answered : ∀ (charge : SimulatedCharge) (committed : SimulatedTarget)
      (P : Except Exc DispatchResult × SimulatedTarget → Prop),
      (∀ answer after, Reports charge answer →
        (∀ key, after.chargesForKey key = committed.chargesForKey key) → P (answer, after)) →
      P (if committed.loseNextResponseAfterCommit then
          (.error (.ambiguousDispatch (str "response lost after target commit")),
            { committed with loseNextResponseAfterCommit := false })
        else (.ok ⟨some charge.externalId, [(text "external_id", .str charge.externalId)], true⟩,
          committed)) := by
    intro charge committed P h
    split
    · exact h _ _ .lost (SimulatedTarget.chargesForKey_congr rfl rfl)
    · exact h _ _ .returned fun _ => rfl
  generalize target.commit effect _ = out at hcommit ⊢
  cases hcommit with
  | refused hsame hexc => exact .refused hsame hexc
  | found hdedupe hhead hsame hshows =>
    subst hshows
    refine answered _ _ _ fun answer after hreports hafter => ?_
    exact .found hdedupe hhead (fun key => (hafter key).trans (hsame key)) hreports
  | charged hnone hadded hshows =>
    subst hshows
    refine answered _ _ _ fun answer after hreports hafter => ?_
    exact .charged hnone (fun key => (hafter key).trans (hadded key)) hreports

end SimulatedAdapter
end EffectBroker
