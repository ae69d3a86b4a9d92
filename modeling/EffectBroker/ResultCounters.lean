import EffectBroker.MeteredRuns

/-!
# Result counters agree with the ledger

A counter is behind the ledger by the calls that have changed the ledger and not recorded
it yet.  Every call records what it has done before it ends, but for the resolutions of an
operator, which no counter is told of.
-/
namespace EffectBroker
open Python Concurrency

/-- The results that `effects_total` is said to count in the ledger. -/
inductive Result where
  | submitted
  | succeeded
  | failed
  | unknown
  deriving DecidableEq

namespace Result

/-- The label of a result. -/
def label : Result → Str
  | .submitted => str "submitted"
  | .succeeded => str "succeeded"
  | .failed => str "failed"
  | .unknown => str "unknown"

/-- What there is of a result in the ledger. -/
def stock (s : InMemoryStore) : Result → Nat
  | .submitted => s.records.size
  | .succeeded => s.tally .succeeded
  | .failed => s.tally .failedFinal
  | .unknown => s.movesInto .outcomeUnknown

/-- The result of a move into a status. -/
def ofMove : EffectStatus → Option Result
  | .succeeded => some .succeeded
  | .failedFinal => some .failed
  | .outcomeUnknown => some .unknown
  | _ => none

theorem label_injective : Function.Injective label := by
  intro a b h
  cases a <;> cases b <;> first | rfl | exact absurd h (by decide)

end Result

/-- The counters tell the state of the ledger. -/
def CountersAgree (s : InMemoryStore) (m : Metrics) : Prop :=
  ∀ result : Result, m.count result.label = result.stock s

/-- The result that a caller has to record. -/
def Due.result? : Due → Option Result
  | .nothing => none
  | .submitted reservation => if reservation.created then some .submitted else none
  | .moved _ _ after => Result.ofMove after.status

/-- One, if it is this result. -/
def Result.once (result : Result) (due : Option Result) : Nat := if due = some result then 1 else 0

/-! ## Metrics and ledger, step by step -/

theorem count_recordSubmit (m : Metrics) (reservation : Reservation) (result : Result) :
    (m.recordSubmit reservation).count result.label =
      m.count result.label + result.once (Due.submitted reservation).result? := by
  refine count_inc.trans (congrArg (m.count result.label + ·) ?_)
  show _ = if (if reservation.created then some Result.submitted else none) = some result then 1 else 0
  cases reservation.created with
  | true => cases result <;> decide
  | false => cases result <;> decide

theorem count_recordTransition (m : Metrics) {before after : EffectRecord}
    (hne : before.status ≠ after.status) (result : Result) :
    (m.recordTransition before after).count result.label =
      m.count result.label + result.once (Result.ofMove after.status) := by
  have counted : ∀ {label : Str} {target : Result}, label = target.label →
      ((inc m.effectsTotal label).get? result.label).getD 0 =
        m.count result.label + result.once (some target) := by
    intro label target hlabel
    refine count_inc.trans (congrArg (m.count result.label + ·) ?_)
    rw [hlabel]
    refine if_congr (Result.label_injective.eq_iff.trans ?_) rfl rfl
    exact eq_comm.trans Option.some_inj.symm
  unfold Metrics.recordTransition
  rw [if_neg hne]
  cases after.status with
  | succeeded => exact counted rfl
  | failedFinal => exact counted rfl
  | outcomeUnknown => exact counted rfl
  | prepared | dispatching | retryable | reconciling | manualReview | compensated | cancelled => rfl

/-- The results are not the label of conflicts. -/
theorem Result.label_ne_conflicted (result : Result) : result.label ≠ str "conflicted" := by
  cases result <;> decide

namespace InMemoryStore
variable {s s' : InMemoryStore}

theorem SameFaces.stock (h : SameFaces s s') (result : Result) : result.stock s' = result.stock s := by
  cases result with
  | submitted => exact h.size
  | succeeded | failed => exact h.tally _
  | unknown => exact h.movesInto _

theorem stock_insertEffect (howned : s.Owned) {record : EffectRecord} {next : Nat}
    (hunused : s.records.get? record.effectId = none) (hprepared : record.status = .prepared)
    (result : Result) :
    result.stock ({ s with nextEffectId := next }.insertEffect record) =
      result.stock s + result.once (some .submitted) := by
  obtain ⟨hsize, htally, hmoves⟩ := @insertEffect_tallies s howned record next hunused hprepared
  cases result with
  | submitted => exact hsize
  | succeeded => exact htally .succeeded (by decide)
  | failed => exact htally .failedFinal (by decide)
  | unknown => exact hmoves .outcomeUnknown

theorem stock_moveRecord {e : Str} {record : EffectRecord} (hget : s.records.get? e = some record)
    {target : EffectStatus} (hallowed : isAllowed record.status target = true) (now : Datetime)
    (data : Items) (result : Result) :
    result.stock (s.moveRecord record now e target data) =
      result.stock s + result.once (Result.ofMove target) := by
  obtain ⟨hsize, htally, hmoves⟩ := moveRecord_tallies hget now target data
  -- nothing leaves a terminal status
  have stays : ∀ status, allowed status = [] → (s.moveRecord record now e target data).tally status =
      s.tally status + if target = status then 1 else 0 := by
    intro status hterminal
    have hne : record.status ≠ status := by
      rintro rfl
      rw [isAllowed, hterminal] at hallowed
      cases hallowed
    have h := htally status
    rwa [if_neg hne, Nat.add_zero] at h
  cases result with
  | submitted => cases target <;> exact hsize
  | succeeded =>
    refine (stays .succeeded rfl).trans (congrArg (s.tally .succeeded + ·) ?_)
    cases target <;> rfl
  | failed =>
    refine (stays .failedFinal rfl).trans (congrArg (s.tally .failedFinal + ·) ?_)
    cases target <;> rfl
  | unknown =>
    refine (hmoves .outcomeUnknown).trans (congrArg (s.movesInto .outcomeUnknown + ·) ?_)
    cases target <;> rfl

end InMemoryStore

/-! ## Runs -/

/-- A call of `resolve`. -/
def Procedure.isResolve : Procedure → Bool
  | .resolve .. => true
  | _ => false

/-- A call of `resolve` settles an effect. -/
def SettlesByHand (older : List BrokerEvent) : BrokerEvent → Prop
  | .answered c (.transition _ _ target _) (.ok _ : Except Exc EffectRecord) =>
    (taskOf older c).any Procedure.isResolve ∧ (target = .succeeded ∨ target = .failedFinal)
  | _ => False

instance (older : List BrokerEvent) : (event : BrokerEvent) → Decidable (SettlesByHand older event)
  | .answered c (.transition _ _ target _) (.ok _ : Except Exc EffectRecord) =>
    inferInstanceAs (Decidable ((taskOf older c).any Procedure.isResolve = true ∧
      (target = .succeeded ∨ target = .failedFinal)))
  | .answered _ (.transition ..) (.error _ : Except Exc EffectRecord) => .isFalse id
  | .answered _ (.reserve ..) _ | .answered _ (.claimDue ..) _ | .answered _ (.startAttempt ..) _
  | .answered _ (.get ..) _ | .answered _ .clock _ | .answered _ (.adapterFor _) _
  | .answered _ (.dispatch ..) _ | .answered _ (.probe _) _ | .answered _ (.record _) _
  | .called .. | .began .. | .landed .. | .stopped _ => .isFalse id

/-- What a request adds to the ledger is recorded, or due. -/
theorem MeterStep.result_law {s s' : InMemoryStore} {m m' : Metrics} {l : MeterState} {r : Request}
    {response : Response r} (h : MeterStep s s' m m' l r response) (howned : s.Owned)
    (hdeparted : Departed l) {older : List BrokerEvent} {c : Nat}
    (htask : taskOf older c = some l.procedure)
    (hmanual : ¬SettlesByHand older (.answered c r response)) (result : Result) :
    m'.count result.label + result.once (l.after r response).due.result? + result.stock s =
      m.count result.label + result.once l.due.result? + result.stock s' := by
  cases h with
  | plain hdue hafter hfaces hsamples =>
    rw [hdue, hafter, hfaces.stock, hsamples.counts _ result.label_ne_conflicted]
  | @replayed _ _ _ reservation hdue hreplayed hs hm =>
    have hnone : (Due.submitted reservation).result? = none := if_neg (by simp [hreplayed])
    rw [hs, hm, hdue]
    show _ + result.once (Due.submitted reservation).result? + _ = _ + result.once none + _
    rw [hnone]
  | created hdue hunused hprepared hs hm =>
    rw [hs, hm, hdue, InMemoryStore.stock_insertEffect howned hunused hprepared]
    show _ + result.once (some .submitted) + _ = _ + result.once none + _
    have hzero : result.once none = 0 := rfl
    omega
  | @moved e before target now data hdue hget hid hallowed hsame hsilent hs hm =>
    rw [hs, hm, hdue, InMemoryStore.stock_moveRecord hget hallowed]
    have hzero : result.once none = 0 := rfl
    show _ + result.once (Due.result? (if l.procedure.recordsMoves = true then
      Due.moved e before.version (movedRecord before target now) else .nothing)) + _ =
      _ + result.once none + _
    by_cases hrecords : l.procedure.recordsMoves = true
    · rw [if_pos hrecords]
      show _ + result.once (Result.ofMove target) + _ = _
      omega
    · -- a resolution is not recorded, and here it does not settle the effect
      rw [if_neg hrecords]
      obtain ⟨-, hresolution⟩ := hsilent (Bool.eq_false_iff.mpr hrecords)
      have hnot : ¬(target = .succeeded ∨ target = .failedFinal) := by
        refine fun htarget => hmanual ⟨?_, htarget⟩
        rw [htask]
        generalize l.procedure = procedure at hrecords
        cases procedure with
        | resolve => rfl
        | submit | get | reconcile | cancel | dispatchOnce => exact absurd rfl hrecords
      have hnone : Result.ofMove target = none := by
        cases target with
        | succeeded => exact absurd (.inl rfl) hnot
        | failedFinal => exact absurd (.inr rfl) hnot
        | outcomeUnknown => cases hresolution
        | prepared | dispatching | retryable | reconciling | manualReview | compensated
        | cancelled => rfl
      rw [hnone]
      show _ + result.once none + _ = _
      omega
  | submitRecorded hdue hs hm =>
    rw [hs, hm, hdue, count_recordSubmit]
    rfl
  | @moveRecorded before after hdue hbefore hs hm =>
    obtain ⟨-, source, hallowed, -, hsame⟩ := hdeparted _ _ _ hdue
    have hne : before.status ≠ after.status := by
      rw [hsame before hbefore rfl rfl]
      intro heq
      rw [heq, not_isAllowed_self] at hallowed
      cases hallowed
    rw [hs, hm, hdue, count_recordTransition m hne]
    rfl

/-- A counter is behind a stock by the callers that have this result to record. -/
def Behind (result : Result) (dues : Nat → Due) (count stock : Nat) : Prop :=
  ∃ callers : Finset Nat, (∀ c, c ∈ callers ↔ (dues c).result? = some result) ∧
    count + callers.card = stock

theorem Behind.update {result : Result} {dues : Nat → Due} {count count' stock stock' : Nat}
    (h : Behind result dues count stock) (c : Nat) (due : Due)
    (hlaw : count' + result.once due.result? + stock =
      count + result.once (dues c).result? + stock') :
    Behind result (Function.update dues c due) count' stock' := by
  obtain ⟨callers, hcallers, hcount⟩ := h
  -- the other callers that are behind
  have hothers : (callers.erase c).card + result.once (dues c).result? = callers.card := by
    unfold Result.once
    by_cases hc : (dues c).result? = some result
    · rw [if_pos hc]
      exact Finset.card_erase_add_one ((hcallers c).mpr hc)
    · rw [if_neg hc, Finset.erase_eq_of_notMem fun hm => hc ((hcallers c).mp hm)]
      rfl
  by_cases hdue : due.result? = some result
  · refine ⟨insert c (callers.erase c), fun d => ?_, ?_⟩
    · by_cases hd : d = c
      · subst hd
        rw [Function.update_self]
        exact iff_of_true (Finset.mem_insert_self ..) hdue
      · rw [Function.update_of_ne hd, Finset.mem_insert, Finset.mem_erase, ← hcallers d]
        simp [hd]
    · have hone : result.once due.result? = 1 := if_pos hdue
      rw [Finset.card_insert_of_notMem (Finset.notMem_erase c callers)]
      omega
  · refine ⟨callers.erase c, fun d => ?_, ?_⟩
    · by_cases hd : d = c
      · subst hd
        rw [Function.update_self]
        exact iff_of_false (Finset.notMem_erase d callers) hdue
      · rw [Function.update_of_ne hd, Finset.mem_erase, ← hcallers d]
        simp [hd]
    · have hzero : result.once due.result? = 0 := if_neg hdue
      omega

theorem Behind.of_nothing {result : Result} {dues : Nat → Due} {count stock : Nat}
    (h : Behind result dues count stock) (hdues : ∀ c, dues c = .nothing) : count = stock := by
  obtain ⟨callers, hcallers, hcount⟩ := h
  have hempty : callers = ∅ := by
    refine Finset.eq_empty_of_forall_notMem fun c hc => ?_
    have hresult := (hcallers c).mp hc
    rw [hdues] at hresult
    cases hresult
  rw [hempty, Finset.card_empty] at hcount
  exact hcount

section
variable {Target Decision : Type} {adapters : Adapters Target Decision} {hashes : Hashes}
  {tenantKeyProvider : TenantKeyProvider} {target : Target}
  {w : World Response Exc Procedure Reply (Shared InMemoryStore Target)}

/-- **Result counters agree with the ledger** whenever no call has anything left to record, in
every run over the in-memory store in which no effect is settled by hand; a call that has ended
has nothing left. -/
theorem counters_agree
    (h : (memoryBroker adapters).Reachable (.initial hashes tenantKeyProvider target) w)
    (hmanual : Throughout (fun older event => ¬SettlesByHand older event) w.log) :
    ((∀ c, dueOf w.log c = .nothing) → CountersAgree w.shared.store w.shared.metrics) ∧
      ∀ c, AtRest w c → dueOf w.log c = .nothing := by
  refine ⟨fun hdues result => ?_, fun c hc => due_of_atRest h hc⟩
  have hbehind : Behind result (dueIn ∘ localOf meterProtocol w.log)
      (w.shared.metrics.count result.label) (result.stock w.shared.store) := by
    refine metered_invariant (I := fun s m locals =>
      Behind result (dueIn ∘ locals) (m.count result.label) (result.stock s)) (reachable_metered h)
      hmanual ?_ ?_ ?_
    · refine ⟨∅, fun c => iff_of_false (Finset.notMem_empty c) nofun, ?_⟩
      cases result <;> rfl
    · intro s m locals c task hI hnone
      rw [Function.comp_update]
      refine hI.update c _ ?_
      rw [Function.comp_apply, hnone]
      rfl
    · intro s s' m m' older c l r response hI howned hl hdeparted hstep hP
      rw [Function.comp_update]
      refine hI.update c _ ?_
      rw [Function.comp_apply, hl]
      exact hstep.result_law howned hdeparted (taskOf_of_localOf hl) hP result
  exact hbehind.of_nothing hdues

theorem counters_agree_sample :
    ((∀ c, dueOf (sampleWorld reviewedRun).log c = .nothing) →
      CountersAgree (sampleWorld reviewedRun).shared.store (sampleWorld reviewedRun).shared.metrics) ∧
      ∀ c, AtRest (sampleWorld reviewedRun) c → dueOf (sampleWorld reviewedRun).log c = .nothing :=
  counters_agree (sampleWorld_reachable reviewedRun) (by decide +kernel)

/-- Then the operator resolves it, and the counter of successes is not told. -/
def resolvedRun : List (Choice Procedure (Surroundings AnyAnswer)) :=
  let surroundings : Surroundings AnyAnswer :=
    ⟨sampleTime 0, [], .ok (), .error .overflowError, .error .overflowError⟩
  reviewedRun ++ .call 3 (.resolve sampleTenant (effectIdOf 1) .succeeded []) ::
    List.replicate 2 (.answer 3 surroundings)

theorem resolution_not_counted : ∃ w : World Response Exc Procedure Reply (Shared InMemoryStore Unit),
    (memoryBroker anyAdapters).Reachable (.initial sampleHashes sampleKeys ()) w ∧
      (∀ c, AtRest w c) ∧ ¬CountersAgree w.shared.store w.shared.metrics := by
  refine ⟨_, sampleWorld_reachable resolvedRun, fun c => ?_, fun hagree => ?_⟩
  · by_cases hc : c < 4
    · have hcalled : ∀ c < 4, AtRest (sampleWorld resolvedRun) c := by decide +kernel
      exact hcalled c hc
    · have hcallers : ∀ choice ∈ resolvedRun.map Choice.caller?, ∃ d < 4, choice = some d := by
        decide +kernel
      refine .inl (System.after_callers _ _ fun choice hm heq => ?_)
      obtain ⟨d, hd, hchoice⟩ := hcallers _ (List.mem_map_of_mem hm)
      cases heq.symm.trans hchoice
      exact hc hd
  · have hsucceeded := hagree .succeeded
    revert hsucceeded
    decide +kernel

end
end EffectBroker
