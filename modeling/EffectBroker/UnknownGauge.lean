import EffectBroker.MeteredRuns

/-!
# The gauge of unknown outcomes is exact

The metrics keep the unknown effects in a dictionary of their own, and recount the gauge
of every label that a transition or an entry names.  While nobody acts between a transition
and its record, the dictionary holds what the ledger holds, and no label is forgotten: an
entry that leaves takes the label of the record before the transition, which is recounted.
-/
namespace EffectBroker
open Python Concurrency

theorem SafetyClass.value_injective : Function.Injective SafetyClass.value := by
  intro a b h
  cases a <;> cases b <;> first | rfl | exact absurd h (by decide)

/-- The entry that tells of a record among the observed unknown effects. -/
def unknownEntry (record : EffectRecord) : Option (Str × Str × Datetime) :=
  if record.status = .outcomeUnknown then some (unknownKey record) else none

namespace Metrics

/-- The gauge of a label; a label that was never set counts as zero. -/
def gauge (m : Metrics) (labels : Str × Str) : Nat := (m.outcomeUnknownEffects.get? labels).getD 0

/-- The observed unknown effects with a label. -/
def observed (m : Metrics) (labels : Str × Str) : Nat :=
  (m.unknownByEffectId.values.filter fun key => labelsOf key = labels).length

/-- The gauges count the observed unknown effects. -/
def Gauged (m : Metrics) : Prop := ∀ labels, m.gauge labels = m.observed labels

section
variable {m : Metrics} {before after : EffectRecord}

/-- The observed effects after a transition of one of them. -/
theorem trackUnknown_unknown (hid : after.effectId = before.effectId) (e : Str) :
    (m.trackUnknown before after).unknownByEffectId.get? e =
      if e = before.effectId then
        (if after.status = .outcomeUnknown then some (unknownKey after)
          else if before.status = .outcomeUnknown then none else m.unknownByEffectId.get? e)
      else m.unknownByEffectId.get? e := by
  show (if after.status = .outcomeUnknown then m.unknownByEffectId.set after.effectId (unknownKey after)
    else if before.status = .outcomeUnknown then m.unknownByEffectId.erase before.effectId
    else m.unknownByEffectId).get? e = _
  by_cases hafter : after.status = .outcomeUnknown
  · rw [if_pos hafter, if_pos hafter, Dict.get?_set, hid]
  · rw [if_neg hafter, if_neg hafter]
    by_cases hbefore : before.status = .outcomeUnknown
    · rw [if_pos hbefore, if_pos hbefore]
      by_cases he : e = before.effectId
      · rw [if_pos he, he, Dict.get?_erase_self]
      · rw [if_neg he, Dict.get?_erase_ne _ he]
    · rw [if_neg hbefore, if_neg hbefore, ite_self]

/-- The observed effects tell the record after a transition, if they told the one before. -/
theorem trackUnknown_entry (hid : after.effectId = before.effectId)
    (hentry : m.unknownByEffectId.get? before.effectId = unknownEntry before) :
    (m.trackUnknown before after).unknownByEffectId.get? before.effectId = unknownEntry after := by
  rw [trackUnknown_unknown hid, if_pos rfl, hentry]
  unfold unknownEntry
  by_cases hafter : after.status = .outcomeUnknown
  · rw [if_pos hafter, if_pos hafter]
  · rw [if_neg hafter, if_neg hafter]
    exact ite_eq_left_iff.mpr fun hbefore => if_neg hbefore

theorem observed_eq_zero {labels : Str × Str}
    (h : ∀ e key, m.unknownByEffectId.get? e = some key → labelsOf key ≠ labels) :
    m.observed labels = 0 := by
  refine List.length_eq_zero_iff.mpr (List.filter_eq_nil_iff.mpr fun key hkey => ?_)
  obtain ⟨e, hget⟩ := Dict.mem_values_iff.mp hkey
  exact fun heq => h e key hget (of_decide_eq_true heq)

/-- **A recount forgets no label**: one that it leaves out has no effect, before or after. -/
theorem Gauged.trackUnknown (h : m.Gauged) (hid : after.effectId = before.effectId)
    (hentry : m.unknownByEffectId.get? before.effectId = unknownEntry before) :
    (m.trackUnknown before after).Gauged := by
  intro labels
  let recounted := labelsOf (unknownKey before) :: labelsOf (unknownKey after) ::
    (m.trackUnknown before after).unknownByEffectId.values.map labelsOf
  by_cases hm : labels ∈ recounted
  · exact congrArg (Option.getD · 0)
      (Dict.get?_foldl_set_of_mem (m.trackUnknown before after).observed m.outcomeUnknownEffects hm)
  · have hleft : (m.trackUnknown before after).gauge labels = m.gauge labels :=
      congrArg (Option.getD · 0) (Dict.get?_foldl_set_of_not_mem
        (m.trackUnknown before after).observed m.outcomeUnknownEffects hm)
    have hafter : ∀ e key, (m.trackUnknown before after).unknownByEffectId.get? e = some key →
        labelsOf key ≠ labels := by
      rintro e key hkey rfl
      have hvalue := List.mem_map_of_mem (f := labelsOf) (Dict.mem_values_iff.mpr ⟨e, hkey⟩)
      exact hm (List.mem_cons_of_mem _ (List.mem_cons_of_mem _ hvalue))
    have hbefore : ∀ e key, m.unknownByEffectId.get? e = some key → labelsOf key ≠ labels := by
      intro e key hkey
      by_cases he : e = before.effectId
      · -- the entry of the effect itself has the label of the record before
        rw [he, hentry] at hkey
        unfold unknownEntry at hkey
        split at hkey <;> cases hkey
        rintro rfl
        exact hm (List.mem_cons_self ..)
      · refine hafter e key ?_
        rw [trackUnknown_unknown hid, if_neg he]
        exact hkey
    have hnone : m.gauge labels = 0 := (h labels).trans (observed_eq_zero hbefore)
    exact hleft.trans (hnone.trans (observed_eq_zero hafter).symm)

/-- Recording a transition tracks it; the counters have no part in it. -/
theorem recordTransition_tracks (m : Metrics) (hne : before.status ≠ after.status) :
    (m.recordTransition before after).unknownByEffectId =
        (m.trackUnknown before after).unknownByEffectId ∧
      (m.recordTransition before after).outcomeUnknownEffects =
        (m.trackUnknown before after).outcomeUnknownEffects := by
  unfold recordTransition
  rw [if_neg hne]
  cases after.status with
  | _ => exact ⟨rfl, rfl⟩

theorem Gauged.congr {m' : Metrics} (h : m.Gauged)
    (hunknown : m'.unknownByEffectId = m.unknownByEffectId)
    (hgauge : m'.outcomeUnknownEffects = m.outcomeUnknownEffects) : m'.Gauged := by
  intro labels
  unfold gauge observed
  rw [hunknown, hgauge]
  exact h labels

end
end Metrics

/-- What the caller has to record is a transition. -/
def Due.isMove : Due → Bool
  | .moved .. => true
  | _ => false

/-- Nobody acts between a transition and its record. -/
def Prompt (older : List BrokerEvent) (event : BrokerEvent) : Prop :=
  ∀ c, (dueOf older c).isMove = true → event.caller = c

instance (older : List BrokerEvent) (event : BrokerEvent) : Decidable (Prompt older event) :=
  decidable_of_iff (∀ e ∈ older, (dueOf older e.caller).isMove = true → event.caller = e.caller) <| by
    refine ⟨fun h c hc => ?_, fun h e _ => h e.caller⟩
    unfold dueOf at hc
    cases hl : localOf meterProtocol older c with
    | none =>
      rw [hl] at hc
      cases hc
    | some l =>
      -- who has something to record has called something
      have hcalled := mem_of_taskOf (taskOf_of_localOf hl)
      refine h _ hcalled ?_
      show (dueIn (localOf meterProtocol older c)).isMove = true
      exact hc

/-- The gauges tell the unknown effects of the ledger. -/
def GaugeExact (s : InMemoryStore) (m : Metrics) : Prop :=
  ∀ (name : Str) (safety : SafetyClass), m.gauge (name, safety.value) =
    s.records.values.countP fun record => record.status = .outcomeUnknown &&
      record.contract.name = name && record.contract.safety = safety

/-- The observed effects are those of the ledger; an effect whose transition is not yet
recorded is observed as it was before. -/
structure Mirrors (s : InMemoryStore) (m : Metrics) (locals : Nat → Option MeterState) : Prop where
  gauged : m.Gauged
  settled : (∀ c, (dueIn (locals c)).isMove = false) →
    ∀ e, m.unknownByEffectId.get? e = (s.records.get? e).bind unknownEntry
  pending : ∀ c l e version after, locals c = some l → l.due = .moved e version after →
    s.records.get? e = some after ∧
    (∀ e' ≠ e, m.unknownByEffectId.get? e' = (s.records.get? e').bind unknownEntry) ∧
    ∀ before ∈ l.known, before.effectId = e → before.version = version →
      m.unknownByEffectId.get? e = unknownEntry before

section
variable {s s' : InMemoryStore} {m m' : Metrics} {locals : Nat → Option MeterState}

/-- A caller that has no transition to record leaves nothing pending. -/
theorem Mirrors.calm (hgauged : m.Gauged) {c : Nat} {l : MeterState}
    (hothers : ∀ d ≠ c, (dueIn (locals d)).isMove = false) (hdue : l.due.isMove = false)
    (hsettled : ∀ e, m.unknownByEffectId.get? e = (s.records.get? e).bind unknownEntry) :
    Mirrors s m (Function.update locals c (some l)) := by
  refine ⟨hgauged, fun _ => hsettled, fun d l' e version after hd hmoved => ?_⟩
  exfalso
  by_cases hdc : d = c
  · rw [hdc, Function.update_self] at hd
    cases hd
    rw [hmoved] at hdue
    cases hdue
  · rw [Function.update_of_ne hdc] at hd
    have hnot := hothers d hdc
    rw [hd] at hnot
    change l'.due.isMove = false at hnot
    rw [hmoved] at hnot
    cases hnot

theorem Mirrors.called (h : Mirrors s m locals) {c : Nat} {task : Procedure} (hnone : locals c = none) :
    Mirrors s m (Function.update locals c (some (meterProtocol.start task))) := by
  have hdues : dueIn ∘ Function.update locals c (some (meterProtocol.start task)) = dueIn ∘ locals := by
    rw [Function.comp_update]
    refine Function.update_eq_self_iff.mpr ?_
    rw [Function.comp_apply, hnone]
    rfl
  refine ⟨h.gauged, fun hcalm => h.settled fun d => ?_, fun d l e version after hd hmoved => ?_⟩
  · rw [← hcalm d]
    exact congrArg Due.isMove (congrFun hdues d).symm
  · by_cases hdc : d = c
    · rw [hdc, Function.update_self] at hd
      cases hd
      cases hmoved
    · rw [Function.update_of_ne hdc] at hd
      exact h.pending d l e version after hd hmoved

/-- An entry is read off the face of a record. -/
theorem InMemoryStore.SameFaces.unknownEntry (h : InMemoryStore.SameFaces s s') (e : Str) :
    (s'.records.get? e).bind unknownEntry = (s.records.get? e).bind EffectBroker.unknownEntry := by
  have hface : ∀ found : Option EffectRecord, found.bind EffectBroker.unknownEntry =
      (found.map EffectRecord.face).bind fun face =>
        if face.1 = .outcomeUnknown then some face.2 else none := by
    intro found
    cases found with
    | none => rfl
    | some record => rfl
  rw [hface, hface, h.records]

/-- What an answer to a prompt caller keeps. -/
theorem Mirrors.answered (h : Mirrors s m locals) {c : Nat} {l : MeterState} (hl : locals c = some l)
    (hdeparted : Departed l) (hothers : ∀ d ≠ c, (dueIn (locals d)).isMove = false) {r : Request}
    {response : Response r} (hstep : MeterStep s s' m m' l r response) :
    Mirrors s' m' (Function.update locals c (some (l.after r response))) := by
  have hsettled : l.due.isMove = false →
      ∀ e, m.unknownByEffectId.get? e = (s.records.get? e).bind unknownEntry := by
    refine fun hdue => h.settled fun d => ?_
    by_cases hdc : d = c
    · rw [hdc, hl]
      exact hdue
    · exact hothers d hdc
  cases hstep with
  | plain hdue hafter hfaces hsamples =>
    have hstays := hsettled (by rw [hdue]; rfl)
    refine .calm (h.gauged.congr hsamples.unknown hsamples.gauge) hothers (by rw [hafter]; rfl) ?_
    intro e
    rw [hsamples.unknown, hstays, hfaces.unknownEntry]
  | replayed hdue _ hs hm =>
    subst hs hm
    exact .calm h.gauged hothers rfl (hsettled (by rw [hdue]; rfl))
  | @created _ _ _ record next hdue hunused hprepared hs hm =>
    subst hs hm
    have hstays := hsettled (by rw [hdue]; rfl)
    refine .calm h.gauged hothers rfl fun e => ?_
    rw [hstays, InMemoryStore.insertEffect_records]
    by_cases he : e = record.effectId
    · -- a prepared effect is not observed, nor is one that does not exist
      have hnot : record.status ≠ .outcomeUnknown := by
        rw [hprepared]
        decide
      rw [if_pos he, he, hunused]
      exact (if_neg hnot).symm
    · rw [if_neg he]
  | @moved e before target now data hdue hget hid hallowed hsame hsilent hs hm =>
    subst hs hm
    have hstays := hsettled (by rw [hdue]; rfl)
    have hother : ∀ e' ≠ e, m'.unknownByEffectId.get? e' =
        ((s.moveRecord before now e target data).records.get? e').bind unknownEntry := by
      intro e' he'
      rw [InMemoryStore.moveRecord_records, if_neg he']
      exact hstays e'
    by_cases hrecords : l.procedure.recordsMoves = true
    · have hmoved : (l.after (.transition e before.version target data)
          (.ok (movedRecord before target now))).due =
          .moved e before.version (movedRecord before target now) := if_pos hrecords
      refine ⟨h.gauged, fun hcalm => ?_, fun d l' e' version after hd hdue' => ?_⟩
      · have hcaller := hcalm c
        rw [Function.update_self] at hcaller
        change (l.after _ _).due.isMove = false at hcaller
        rw [hmoved] at hcaller
        cases hcaller
      · by_cases hdc : d = c
        · rw [hdc, Function.update_self] at hd
          cases hd
          rw [hmoved] at hdue'
          cases hdue'
          refine ⟨?_, hother, fun known hknown he hv => ?_⟩
          · rw [InMemoryStore.moveRecord_records, if_pos rfl]
          · have hbefore : known = before := by
              rcases List.mem_cons.mp hknown with rfl | hknown
              · -- the record after the move has the next version
                have hnext : before.version + 1 = before.version := by exact_mod_cast hv
                omega
              · exact hsame known hknown he (by exact_mod_cast hv)
            rw [hstays, hget, hbefore]
            rfl
        · rw [Function.update_of_ne hdc] at hd
          have hnot := hothers d hdc
          rw [hd] at hnot
          change l'.due.isMove = false at hnot
          rw [hdue'] at hnot
          cases hnot
    · -- a resolution is not recorded, and it neither leaves nor enters an unknown outcome
      obtain ⟨hreview, hresolution⟩ := hsilent (Bool.eq_false_iff.mpr hrecords)
      have hdue' : (l.after (.transition e before.version target data)
          (.ok (movedRecord before target now))).due = .nothing := if_neg hrecords
      refine .calm h.gauged hothers (by rw [hdue']; rfl) fun e' => ?_
      by_cases he' : e' = e
      · have hnotBefore : before.status ≠ .outcomeUnknown := by
          rw [hreview]
          decide
        have hnotTarget : target ≠ .outcomeUnknown := by
          rintro rfl
          cases hresolution
        rw [he', hstays, hget, InMemoryStore.moveRecord_records, if_pos rfl]
        exact (if_neg hnotBefore).trans (if_neg hnotTarget).symm
      · exact hother e' he'
  | @submitRecorded reservation hdue hs hm =>
    subst hs hm
    have hgauged : (m.recordSubmit reservation).Gauged := h.gauged.congr rfl rfl
    exact .calm hgauged hothers rfl (hsettled (by rw [hdue]; rfl))
  | @moveRecorded before after hdue hbefore hs hm =>
    subst hs hm
    obtain ⟨hid, source, hallowed, -, hsame⟩ := hdeparted _ _ _ hdue
    obtain ⟨hget, hother, hpending⟩ := h.pending c l _ _ _ hl hdue
    have hentry := hpending before hbefore rfl rfl
    have hne : before.status ≠ after.status := by
      rw [hsame before hbefore rfl rfl]
      intro heq
      rw [heq, not_isAllowed_self] at hallowed
      cases hallowed
    obtain ⟨hunknown, hgauge⟩ := m.recordTransition_tracks hne
    refine .calm ((h.gauged.trackUnknown hid hentry).congr hunknown hgauge) hothers rfl fun e => ?_
    rw [hunknown]
    by_cases he : e = before.effectId
    · rw [he, Metrics.trackUnknown_entry hid hentry, hget]
      rfl
    · rw [Metrics.trackUnknown_unknown hid, if_neg he]
      exact hother e he

/-- Gauges that count what the ledger holds are exact. -/
theorem gaugeExact_of_settled (hgauged : m.Gauged)
    (hsettled : ∀ e, m.unknownByEffectId.get? e = (s.records.get? e).bind unknownEntry) :
    GaugeExact s m := by
  intro name safety
  rw [hgauged, Metrics.observed, ← List.countP_eq_length_filter, Dict.countP_eq_total,
    Dict.countP_eq_total]
  refine Dict.total_congr fun e => ?_
  unfold Dict.weightAt
  rw [hsettled]
  cases s.records.get? e with
  | none => rfl
  | some record =>
    show ((unknownEntry record).map _).getD 0 = if _ then 1 else 0
    unfold unknownEntry
    by_cases hunknown : record.status = .outcomeUnknown
    · rw [if_pos hunknown]
      refine if_congr ?_ rfl rfl
      rw [decide_eq_true_iff, hunknown]
      simp [Metrics.labelsOf, unknownKey, SafetyClass.value_injective.eq_iff]
    · rw [if_neg hunknown]
      refine (if_neg ?_).symm
      simp [hunknown]

end

section
variable {Target Decision : Type} {adapters : Adapters Target Decision} {hashes : Hashes}
  {tenantKeyProvider : TenantKeyProvider} {target : Target}
  {w : World Response Exc Procedure Reply (Shared InMemoryStore Target)}

/-- **The gauge of unknown outcomes is exact** whenever no transition is left to record, in
every run in which nobody acts between a transition and its record; a call that has ended
has nothing left. -/
theorem gauge_exact
    (h : (memoryBroker adapters).Reachable (.initial hashes tenantKeyProvider target) w)
    (hprompt : Throughout Prompt w.log) :
    ((∀ c, (dueOf w.log c).isMove = false) → GaugeExact w.shared.store w.shared.metrics) ∧
      ∀ c, AtRest w c → dueOf w.log c = .nothing := by
  refine ⟨fun hcalm => ?_, fun c hc => due_of_atRest h hc⟩
  have hmirrors : Mirrors w.shared.store w.shared.metrics (localOf meterProtocol w.log) := by
    refine metered_invariant (reachable_metered h) hprompt ?_ (fun hI hnone => hI.called hnone) ?_
    · exact ⟨fun _ => rfl, fun _ _ => rfl, fun _ _ _ _ _ hnone => nomatch hnone⟩
    · intro s s' m m' older c l r response hI _ hl hdeparted hstep hP
      refine hI.answered hl hdeparted (fun d hd => ?_) hstep
      exact Bool.eq_false_iff.mpr fun hdue => hd (hP d hdue).symm
  exact gaugeExact_of_settled hmirrors.gauged (hmirrors.settled hcalm)

theorem gauge_exact_sample :
    ((∀ c, (dueOf (sampleWorld reviewedRun).log c).isMove = false) →
      GaugeExact (sampleWorld reviewedRun).shared.store (sampleWorld reviewedRun).shared.metrics) ∧
      ∀ c, AtRest (sampleWorld reviewedRun) c → dueOf (sampleWorld reviewedRun).log c = .nothing :=
  gauge_exact (sampleWorld_reachable reviewedRun) (by decide +kernel)

end
end EffectBroker
