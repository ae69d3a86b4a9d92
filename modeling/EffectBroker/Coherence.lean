import EffectBroker.Conformance
import EffectBroker.EffectHistory
import EffectBroker.MemoryOperations

/-!
# The ledger, the callers and the lives of effects

Over an in-memory store, every run of the caller protocol gives every effect a life:
its moments in the log form one, whose phase is the record of the ledger, held by the
caller that says so.  `reachable_coherent` is the refinement: the code keeps this true
in every reachable world, whatever the adapters do.
-/
namespace EffectBroker
open Python Concurrency

/-! ## Coherence -/

/-- What a caller holds. -/
def holdOf (log : List BrokerEvent) (c : Nat) : Hold :=
  ((localOf callerProtocol log c).map CallerState.hold).getD .free

theorem holdOf_eq {log : List BrokerEvent} {c : Nat} {l : CallerState}
    (h : localOf callerProtocol log c = some l) : holdOf log c = l.hold := by
  simp [holdOf, h]

/-- The phase is held exactly by the callers that say they hold the effect. -/
structure HeldBy (log : List BrokerEvent) (e : Str) (phase : Phase) : Prop where
  holder : ∀ c, (holdOf log c).effectId? = some e → ∃ calling, phase = .held c (holdOf log c) calling
  hold : ∀ c hold calling, phase = .held c hold calling →
    holdOf log c = hold ∧ outstanding log c = if calling then hold.call? else none

/-- The effect has a life that the ledger and the callers agree with. -/
def Tracked (s : InMemoryStore) (log : List BrokerEvent) (e : Str) : Prop :=
  ∃ phase, Life e (momentsOf e log) phase ∧ s.records.get? e = phase.record? ∧ HeldBy log e phase

/-- A record that somebody has read: the ledger is as new, and equal if it is no newer. -/
def Current (s : InMemoryStore) (effect : EffectRecord) : Prop :=
  ∃ current, s.records.get? effect.effectId = some current ∧ effect.version ≤ current.version ∧
    (effect.version = current.version → effect = current)

/-- The ledger, the callers and the log agree. -/
structure Coherent (s : InMemoryStore) (log : List BrokerEvent) : Prop where
  tracked : ∀ e, Tracked s log e
  known : ∀ c l, localOf callerProtocol log c = some l → ∀ effect ∈ l.known, Current s effect
  fresh : ∀ e effect, s.records.get? e = some effect → ∃ n < s.nextEffectId, e = effectIdOf n
  mover : ∀ c l, localOf callerProtocol log c = some l →
    moverOf log c = ⟨c, some l.procedure, l.clock⟩
  unread : ∀ c, localOf callerProtocol log c = none → lastClock log c = none
  calls : ∀ c r, outstanding log c = some r → (holdOf log c).call? = some r
  attempts : ∀ e, s.rowsOf e = attemptRows (momentsOf e log)

section
variable {s s' : InMemoryStore} {log log' : List BrokerEvent} {e : Str}

/-- A caller that holds the effect is the phase's holder. -/
theorem HeldBy.of_held {c d : Nat} {hold : Hold} {calling : Bool}
    (h : HeldBy log e (.held c hold calling)) (hd : (holdOf log d).effectId? = some e) : d = c := by
  obtain ⟨_, heq⟩ := h.holder d hd
  cases heq
  rfl

theorem HeldBy.not_held {effect : EffectRecord} (h : HeldBy log e (.resting effect)) (d : Nat) :
    (holdOf log d).effectId? ≠ some e := by
  intro hd
  obtain ⟨_, heq⟩ := h.holder d hd
  cases heq

/-- An effect without a record is unborn: it has no moments, and nobody holds it. -/
theorem Tracked.unborn (h : Tracked s log e) (hnone : s.records.get? e = none) :
    momentsOf e log = [] ∧ ∀ d, (holdOf log d).effectId? ≠ some e := by
  obtain ⟨phase, hlife, hrec, hheld⟩ := h
  rw [hnone] at hrec
  have hphase : phase = .unborn := by
    cases phase with
    | unborn => rfl
    | resting effect => cases hrec
    | held d hold calling =>
      obtain ⟨effect, hr, -⟩ := hlife.fits.held _ _ _ rfl
      rw [Phase.record?, hr] at hrec
      cases hrec
  subst hphase
  refine ⟨hlife.unborn_moments, fun d hd => ?_⟩
  obtain ⟨_, heq⟩ := hheld.holder d hd
  cases heq

/-- What happens to nobody who holds the effect, and to no record of it, changes
nothing. -/
theorem Tracked.frame (h : Tracked s log e) (hm : momentsOf e log' = momentsOf e log)
    (hr : s'.records.get? e = s.records.get? e)
    (hd : ∀ d, (holdOf log d).effectId? = some e ∨ (holdOf log' d).effectId? = some e →
      holdOf log' d = holdOf log d ∧ outstanding log' d = outstanding log d) :
    Tracked s' log' e := by
  obtain ⟨phase, hlife, hrec, hheld⟩ := h
  refine ⟨phase, hm ▸ hlife, hr.trans hrec, ⟨fun d hde => ?_, fun d hold calling heq => ?_⟩⟩
  · have hsame := (hd d (.inr hde)).1
    rw [hsame] at hde ⊢
    exact hheld.holder d hde
  · obtain ⟨hh, ho⟩ := hheld.hold d hold calling heq
    have hde : (holdOf log d).effectId? = some e := by
      subst heq
      obtain ⟨effect, hre, -⟩ := hlife.fits.held _ _ _ rfl
      have := hlife.fits.effectId effect hre
      rw [hh, Hold.effectId?, hre, Option.map_some, this]
    obtain ⟨hh', ho'⟩ := hd d (.inl hde)
    exact ⟨hh'.trans hh, ho'.trans ho⟩

/-- The phase a caller holds, when no other caller holds the effect. -/
theorem HeldBy.intro {c : Nat} {hold : Hold} {calling : Bool}
    (hother : ∀ d, d ≠ c → (holdOf log d).effectId? ≠ some e) (hh : holdOf log c = hold)
    (ho : outstanding log c = if calling then hold.call? else none) :
    HeldBy log e (.held c hold calling) := by
  refine ⟨fun d hd => ?_, fun d _ _ heq => ?_⟩
  · by_cases hdc : d = c
    · subst hdc
      exact ⟨calling, by rw [hh]⟩
    · exact absurd hd (hother d hdc)
  · cases heq
    exact ⟨hh, ho⟩

/-- A phase that nobody holds. -/
theorem HeldBy.rest {effect : EffectRecord} (h : ∀ d, (holdOf log d).effectId? ≠ some e) :
    HeldBy log e (.resting effect) :=
  ⟨fun d hd => absurd hd (h d), fun _ _ _ heq => nomatch heq⟩

/-- The holder's phase. -/
theorem Tracked.holder (h : Tracked s log e) {c : Nat} (hc : (holdOf log c).effectId? = some e) :
    ∃ calling, Life e (momentsOf e log) (.held c (holdOf log c) calling) ∧
      s.records.get? e = (holdOf log c).record? ∧ (∀ d ≠ c, (holdOf log d).effectId? ≠ some e) ∧
      outstanding log c = if calling then (holdOf log c).call? else none := by
  obtain ⟨phase, hlife, hrec, hheld⟩ := h
  obtain ⟨calling, rfl⟩ := hheld.holder c hc
  refine ⟨calling, hlife, hrec, fun d hd he => hd (hheld.of_held he), ?_⟩
  exact (hheld.hold c _ calling rfl).2

/-- A holder without an outstanding call. -/
theorem Tracked.idle_holder (h : Tracked s log e) {c : Nat} (hc : (holdOf log c).effectId? = some e)
    (ho : outstanding log c = none) :
    Life e (momentsOf e log) (.held c (holdOf log c) false) ∧
      s.records.get? e = (holdOf log c).record? ∧
      ∀ d ≠ c, (holdOf log d).effectId? ≠ some e := by
  obtain ⟨calling, hlife, hrec, hother, hout⟩ := h.holder hc
  cases calling with
  | false => exact ⟨hlife, hrec, hother⟩
  | true =>
    obtain ⟨r, hr⟩ := hlife.fits.calling _ _ rfl
    rw [ho, if_pos rfl, hr] at hout
    cases hout

/-- A holder whose call is outstanding. -/
theorem Tracked.calling_holder (h : Tracked s log e) {c : Nat}
    (hc : (holdOf log c).effectId? = some e) (ho : outstanding log c ≠ none) :
    Life e (momentsOf e log) (.held c (holdOf log c) true) ∧
      s.records.get? e = (holdOf log c).record? ∧
      (∀ d ≠ c, (holdOf log d).effectId? ≠ some e) := by
  obtain ⟨calling, hlife, hrec, hother, hout⟩ := h.holder hc
  cases calling with
  | true => exact ⟨hlife, hrec, hother⟩
  | false => exact absurd hout ho

/-! ## One answer -/

/-- Records only advance. -/
def Advances (s s' : InMemoryStore) : Prop :=
  ∀ e current, s.records.get? e = some current → ∃ current', s'.records.get? e = some current' ∧
    (current' = current ∨ current.version < current'.version)

theorem Current.advance {effect : EffectRecord} (h : Current s effect) (ha : Advances s s') :
    Current s' effect := by
  obtain ⟨current, hget, hle, heq⟩ := h
  obtain ⟨current', hget', rfl | hlt⟩ := ha _ _ hget
  · exact ⟨current', hget', hle, heq⟩
  · exact ⟨current', hget', by omega, fun hv => by omega⟩

theorem Current.of_get {effect : EffectRecord} (h : s.records.get? effect.effectId = some effect) :
    Current s effect := ⟨effect, h, le_rfl, fun _ => rfl⟩

theorem localOf_answered {c d : Nat} {r : Request} {response : Response r} {l : CallerState}
    (hl : localOf callerProtocol log c = some l) :
    localOf callerProtocol (.answered c r response :: log) d =
      if d = c then some (l.after r response) else localOf callerProtocol log d := by
  simp only [localOf]
  split
  · rename_i h
    subst h
    rw [hl]
    rfl
  · rfl

theorem holdOf_answered {c d : Nat} {r : Request} {response : Response r} {l : CallerState}
    (hl : localOf callerProtocol log c = some l) :
    holdOf (.answered c r response :: log) d =
      if d = c then (l.after r response).hold else holdOf log d := by
  unfold holdOf
  rw [localOf_answered hl]
  split <;> rfl

theorem outstanding_answered {c d : Nat} {r : Request} {response : Response r} :
    outstanding (.answered c r response :: log : List BrokerEvent) d =
      if d = c then none else outstanding log d := rfl

theorem lastClock_answered {c d : Nat} {r : Request} {response : Response r} :
    lastClock (.answered c r response :: log) d =
      if d = c then clockAfter (lastClock log d) r response else lastClock log d := by
  cases r with
  | clock => rfl
  | _ => simp [lastClock, clockAfter]

theorem mover_answered {c d : Nat} {r : Request} {response : Response r} :
    moverOf (.answered c r response :: log) d =
      if d = c then ⟨d, taskOf log d, clockAfter (lastClock log d) r response⟩ else moverOf log d := by
  have htask : taskOf (.answered c r response :: log) d = taskOf log d := rfl
  unfold moverOf
  rw [lastClock_answered, htask]
  split <;> rfl

/-- What an answer has to keep for coherence. -/
theorem Coherent.answered (h : Coherent s log) {c : Nat} {l : CallerState} {r : Request}
    {response : Response r} (hl : localOf callerProtocol log c = some l)
    (htracked : ∀ e, Tracked s' (.answered c r response :: log) e) (hadv : Advances s s')
    (hreturned : ∀ effect ∈ returned r response, Current s' effect)
    (hfresh : ∀ e effect, s'.records.get? e = some effect → ∃ n < s'.nextEffectId, e = effectIdOf n)
    (hattempts : ∀ e, s'.rowsOf e = attemptRows (momentsOf e (.answered c r response :: log))) :
    Coherent s' (.answered c r response :: log) := by
  refine ⟨htracked, fun d l' hd effect hk => ?_, hfresh, fun d l' hd => ?_, fun d hd => ?_,
    fun d r' hd => ?_, hattempts⟩
  · rw [localOf_answered hl] at hd
    by_cases hdc : d = c
    · rw [if_pos hdc] at hd
      cases hd
      rcases List.mem_append.mp hk with hk | hk
      · exact hreturned effect hk
      · exact (h.known c l hl effect hk).advance hadv
    · rw [if_neg hdc] at hd
      exact (h.known d l' hd effect hk).advance hadv
  · rw [localOf_answered hl] at hd
    rw [mover_answered]
    by_cases hdc : d = c
    · subst hdc
      rw [if_pos rfl] at hd
      cases hd
      obtain ⟨-, htask, hclock⟩ := Mover.mk.inj (h.mover d l hl)
      rw [if_pos rfl, htask, hclock]
      rfl
    · rw [if_neg hdc] at hd ⊢
      exact h.mover d l' hd
  · rw [localOf_answered hl] at hd
    by_cases hdc : d = c
    · rw [if_pos hdc] at hd
      cases hd
    · rw [if_neg hdc] at hd
      rw [lastClock_answered, if_neg hdc]
      exact h.unread d hd
  · rw [outstanding_answered] at hd
    by_cases hdc : d = c
    · rw [if_pos hdc] at hd
      cases hd
    · rw [if_neg hdc] at hd
      rw [holdOf_answered hl, if_neg hdc]
      exact h.calls d r' hd

/-- An answer that means nothing for `e`, to a caller whose hold stays or is not about
`e`. -/
theorem Tracked.answered (h : Tracked s log e) {c : Nat} {l : CallerState} {r : Request}
    {response : Response r} (hl : localOf callerProtocol log c = some l)
    (hm : answerMoment e (moverOf log c) r response = none)
    (hr : s'.records.get? e = s.records.get? e)
    (hc : (l.hold.effectId? ≠ some e ∧ (l.after r response).hold.effectId? ≠ some e) ∨
      ((l.after r response).hold = l.hold ∧ outstanding log c = none)) :
    Tracked s' (.answered c r response :: log) e := by
  refine h.frame (momentsOf_answered_none hm) hr fun d hd => ?_
  rw [holdOf_answered hl, outstanding_answered] at *
  by_cases hdc : d = c
  · subst hdc
    rw [holdOf_eq hl, if_pos rfl] at *
    rcases hc with ⟨hold, hnew⟩ | ⟨hsame, hnone⟩
    · exact absurd hd (not_or.mpr ⟨hold, hnew⟩)
    · exact ⟨hsame, by rw [if_pos rfl, hnone]⟩
  · rw [if_neg hdc, if_neg hdc]
    exact ⟨rfl, rfl⟩

/-- An answer that changes no record, means nothing for any effect, and leaves the hold. -/
theorem Coherent.quiet (h : Coherent s log) {c : Nat} {l : CallerState} {r : Request}
    {response : Response r} (hl : localOf callerProtocol log c = some l)
    (ho : outstanding log c = none) (hhold : (l.after r response).hold = l.hold)
    (hm : ∀ e, answerMoment e (moverOf log c) r response = none)
    (hrecords : s'.records = s.records) (hattempts : s'.attempts = s.attempts)
    (hnext : s.nextEffectId ≤ s'.nextEffectId)
    (hreturned : ∀ effect ∈ returned r response, Current s effect) :
    Coherent s' (.answered c r response :: log) := by
  have hadv : Advances s s' := fun e current hget => ⟨current, by rw [hrecords, hget], .inl rfl⟩
  refine h.answered hl (fun e => ?_) hadv (fun effect he => (hreturned effect he).advance hadv)
    (fun e effect hget => ?_) (fun e => ?_)
  · exact (h.tracked e).answered hl (hm e) (by rw [hrecords]) (.inr ⟨hhold, ho⟩)
  · rw [hrecords] at hget
    obtain ⟨n, hn, he⟩ := h.fresh e effect hget
    exact ⟨n, by omega, he⟩
  · rw [momentsOf_answered_none (hm e), ← h.attempts e, InMemoryStore.rowsOf_congr hattempts]

theorem Coherent.attempts_length (h : Coherent s log) (e : Str) :
    (s.attemptsOf e).length = attemptsIn (momentsOf e log) := by
  rw [← s.length_rowsOf, h.attempts, length_attemptRows]

/-- The next id is not in the ledger. -/
theorem Coherent.next_unused (h : Coherent s log) :
    s.records.get? (effectIdOf s.nextEffectId) = none := by
  cases hget : s.records.get? (effectIdOf s.nextEffectId) with
  | none => rfl
  | some effect =>
    obtain ⟨n, hn, he⟩ := h.fresh _ _ hget
    have := effectIdOf_injective he
    omega

/-! ## The requests, one by one -/

variable {c : Nat} {l : CallerState}

theorem coherent_reserve (h : Coherent s log) (hl : localOf callerProtocol log c = some l)
    (ho : outstanding log c = none) (now : Datetime) (tenantId : Str) (request : EffectRequest)
    (contract : EffectContract) :
    Coherent (s.reserve now tenantId request contract).2
      (.answered c (.reserve tenantId request contract)
        (s.reserve now tenantId request contract).1 :: log) := by
  rcases s.reserve_cases now tenantId request contract with
    ⟨exc, next, heq, hnext⟩ | ⟨existing, heq, effectId, -, hget⟩ |
    ⟨record, heq, hid, -, -, -, hstatus, hversion, -, -⟩ <;> rw [heq]
  · exact h.quiet hl ho rfl (fun _ => rfl) rfl rfl hnext (fun _ he => nomatch he)
  · refine h.quiet hl ho rfl (fun e => by simp [answerMoment]) rfl rfl le_rfl fun effect he => ?_
    obtain rfl := List.mem_singleton.mp he
    obtain ⟨phase, hlife, hrec, -⟩ := h.tracked effectId
    rw [hget] at hrec
    have hid := hlife.fits.effectId effect hrec.symm
    exact .of_get (hid ▸ hget)
  · -- the new id is not in the ledger, so the effect is unborn and nobody holds it
    have hnone : s.records.get? record.effectId = none := hid ▸ h.next_unused
    obtain ⟨hmoments, hfree⟩ := (h.tracked record.effectId).unborn hnone
    have hreserved : momentsOf record.effectId (.answered c (.reserve tenantId request contract)
        (.ok ⟨record, true, false⟩ : Except Exc Reservation) :: log) = [.reserved record] := by
      rw [momentsOf_answered_some (m := .reserved record) (by simp [answerMoment]), hmoments]
    have hrecords := InMemoryStore.insertEffect_records
      { s with nextEffectId := s.nextEffectId + 1 } record
    have hquiet : ∀ e, e ≠ record.effectId → answerMoment e (moverOf log c)
        (.reserve tenantId request contract)
        (.ok ⟨record, true, false⟩ : Except Exc Reservation) = none := fun e he => by
      simp [answerMoment, Ne.symm he]
    refine h.answered hl (fun e => ?_) (fun e current hget => ⟨current, ?_, .inl rfl⟩)
      (fun effect he => ?_) (fun e effect hget => ?_) (fun e => ?_)
    · by_cases he : e = record.effectId
      · subst he
        refine ⟨.resting record, hreserved ▸ .reserved rfl hstatus hversion,
          by rw [hrecords, if_pos rfl]; rfl, .rest fun d hd => ?_⟩
        rw [holdOf_answered hl] at hd
        split at hd
        · rename_i hdc
          subst hdc
          exact hfree d (by rw [holdOf_eq hl]; exact hd)
        · exact hfree d hd
      · exact (h.tracked e).answered hl (hquiet e he) (by rw [hrecords, if_neg he]) (.inr ⟨rfl, ho⟩)
    · have hne : e ≠ record.effectId := by
        rintro rfl
        rw [hnone] at hget
        cases hget
      rw [hrecords, if_neg hne]
      exact hget
    · obtain rfl := List.mem_singleton.mp he
      exact .of_get (by rw [hrecords, if_pos rfl])
    · rw [hrecords] at hget
      split at hget
      · rename_i he
        exact ⟨s.nextEffectId, Nat.lt_succ_self _, he.trans hid⟩
      · obtain ⟨n, hn, he⟩ := h.fresh e effect hget
        exact ⟨n, Nat.lt_succ_of_lt hn, he⟩
    · rw [InMemoryStore.insertEffect_rows]
      by_cases he : e = record.effectId
      · subst he
        rw [if_pos rfl, hreserved]
        rfl
      · rw [if_neg he, momentsOf_answered_none (hquiet e he), ← h.attempts e]
        rfl

theorem coherent_claimDue (h : Coherent s log) (hl : localOf callerProtocol log c = some l)
    (ho : outstanding log c = none) (workerId : Str) (now : Datetime) (leaseFor : Timedelta)
    (limit : Int) :
    Coherent (s.claimDue workerId now leaseFor limit).2
      (.answered c (.claimDue workerId now leaseFor limit)
        (s.claimDue workerId now leaseFor limit).1 :: log) := by
  obtain ⟨hclaims, hresults⟩ := s.claimDue_spec workerId now leaseFor limit
  generalize s.claimDue workerId now leaseFor limit = out at hclaims hresults ⊢
  obtain ⟨result, s'⟩ := out
  have hm : ∀ e, answerMoment e (moverOf log c) (.claimDue workerId now leaseFor limit) result
      = none := fun e => by cases result <;> rfl
  have hhold : (l.after (.claimDue workerId now leaseFor limit) result).hold = l.hold := by
    cases result <;> rfl
  refine h.answered hl (fun e => ?_) (fun e current hget => ?_) (fun effect he => ?_)
    (fun e effect hget => ?_) (fun e => ?_)
  · rcases hclaims.records e with hsame | ⟨record, hget, hclaimable, hget'⟩
    · exact (h.tracked e).answered hl (hm e) hsame (.inr ⟨hhold, ho⟩)
    · obtain ⟨phase, hlife, hrec, hheld⟩ := h.tracked e
      obtain rfl := hlife.fits.of_claimable (hrec.symm.trans hget) hclaimable
      refine ⟨.resting (claimedRecord record now), ?_, hget', .rest fun d hd => ?_⟩
      · rw [momentsOf_answered_none (hm e)]
        exact hlife.claimed now hclaimable
      · rw [holdOf_answered hl] at hd
        split at hd
        · rename_i hdc
          subst hdc
          exact hheld.not_held d (by rw [holdOf_eq hl, ← hhold]; exact hd)
        · exact hheld.not_held d hd
  · rcases hclaims.records e with hsame | ⟨record, hget', -, hclaimed⟩
    · exact ⟨current, hsame.trans hget, .inl rfl⟩
    · rw [hget] at hget'
      cases hget'
      exact ⟨_, hclaimed, .inr (Nat.lt_succ_self _)⟩
  · cases result with
    | error _ => cases he
    | ok results =>
      obtain ⟨e, record, hget, -, rfl, hget'⟩ := hresults results rfl effect he
      obtain ⟨phase, hlife, hrec, -⟩ := h.tracked e
      have hid := hlife.fits.effectId record (hrec.symm.trans hget)
      exact .of_get (by show s'.records.get? record.effectId = _; rw [hid, hget'])
  · rw [hclaims.nextEffectId]
    rcases hclaims.records e with hsame | ⟨record, hget', -, -⟩
    · exact h.fresh e effect (hsame ▸ hget)
    · exact h.fresh e record hget'
  · rw [momentsOf_answered_none (hm e), ← h.attempts e]
    exact InMemoryStore.rowsOf_congr hclaims.attempts e

/-- The record that a lookup finds. -/
theorem InMemoryStore.get_some {s : InMemoryStore} {tenantId effectId : Str} {effect : EffectRecord}
    (h : s.get tenantId effectId = some effect) : s.records.get? effectId = some effect := by
  unfold InMemoryStore.get at h
  split at h
  · rename_i hr
    split at h <;> cases h
    exact hr
  · cases h

theorem coherent_get (h : Coherent s log) (hl : localOf callerProtocol log c = some l)
    (ho : outstanding log c = none) (tenantId effectId : Str) :
    Coherent s (.answered c (.get tenantId effectId)
      (.ok (s.get tenantId effectId) : Except Exc (Option EffectRecord)) :: log) := by
  cases hget : s.get tenantId effectId with
  | none => exact h.quiet hl ho rfl (fun _ => rfl) rfl rfl le_rfl (fun _ he => nomatch he)
  | some effect =>
    refine h.quiet hl ho rfl (fun _ => rfl) rfl rfl le_rfl fun effect' he => ?_
    obtain rfl := List.mem_singleton.mp he
    have hrec := InMemoryStore.get_some hget
    obtain ⟨phase, hlife, hphase, -⟩ := h.tracked effectId
    exact .of_get (by rw [hlife.fits.effectId effect' (hphase.symm.trans hrec), hrec])

/-- A holder comes further with its effect `e`, and no record changes. -/
theorem Coherent.advance_hold (h : Coherent s log) (hl : localOf callerProtocol log c = some l)
    {r : Request} {response : Response r} {hold : Hold} {m : Moment}
    (hbefore : l.hold.effectId? = some e) (hother : ∀ d ≠ c, (holdOf log d).effectId? ≠ some e)
    (hlife : Life e (m :: momentsOf e log) (.held c hold false))
    (hrec : s.records.get? e = hold.record?) (hafter : (l.after r response).hold = hold)
    (hmoment : ∀ e', answerMoment e' (moverOf log c) r response = if e = e' then some m else none)
    (hrecords : s'.records = s.records) (hnext : s'.nextEffectId = s.nextEffectId)
    (hreturned : returned r response = [])
    (hself : s'.rowsOf e = attemptRows (m :: momentsOf e log))
    (helse : ∀ e', e' ≠ e → s'.rowsOf e' = s.rowsOf e') :
    Coherent s' (.answered c r response :: log) := by
  have hid : hold.effectId? = some e := by
    obtain ⟨effect, hr, -⟩ := hlife.fits.held _ _ _ rfl
    rw [Hold.effectId?, hr, Option.map_some, hlife.fits.effectId effect hr]
  refine h.answered hl (fun e' => ?_)
    (fun e' current hget => ⟨current, by rw [hrecords, hget], .inl rfl⟩)
    (fun _ he => by rw [hreturned] at he; cases he) (fun e' effect hget => ?_) (fun e' => ?_)
  · by_cases he : e' = e
    · subst he
      refine ⟨.held c hold false, ?_, by rw [hrecords]; exact hrec, .intro (fun d hd => ?_) ?_ ?_⟩
      · rw [momentsOf_answered_some ((hmoment e').trans (if_pos rfl))]
        exact hlife
      · rw [holdOf_answered hl, if_neg hd]
        exact hother d hd
      · rw [holdOf_answered hl, if_pos rfl, hafter]
      · rw [outstanding_answered, if_pos rfl]
        rfl
    · refine (h.tracked e').answered hl ((hmoment e').trans (if_neg (Ne.symm he)))
        (by rw [hrecords]) (.inl ⟨fun hx => ?_, fun hx => ?_⟩)
      · exact he (Option.some.inj (hx.symm.trans hbefore))
      · rw [hafter] at hx
        exact he (Option.some.inj (hx.symm.trans hid))
  · rw [hrecords] at hget
    rw [hnext]
    exact h.fresh e' effect hget
  · by_cases he : e' = e
    · subst he
      rw [momentsOf_answered_some ((hmoment e').trans (if_pos rfl))]
      exact hself
    · rw [momentsOf_answered_none ((hmoment e').trans (if_neg (Ne.symm he))), helse e' he]
      exact h.attempts e'

theorem coherent_startAttempt (h : Coherent s log) (hl : localOf callerProtocol log c = some l)
    (ho : outstanding log c = none) {route : Route} {effect : EffectRecord} {workerId : Str}
    (hhold : l.hold = .entered route effect) (now : Datetime) :
    Coherent (s.startAttempt now effect.effectId effect.version workerId).2
      (.answered c (.startAttempt effect.effectId effect.version workerId)
        (s.startAttempt now effect.effectId effect.version workerId).1 :: log) := by
  rcases s.startAttempt_cases now effect.effectId effect.version workerId with
    ⟨exc, heq⟩ | ⟨record, hget, -, heq⟩ <;> rw [heq]
  · exact h.quiet hl ho rfl (fun _ => rfl) rfl rfl le_rfl (fun _ he => nomatch he)
  · have hc : (holdOf log c).effectId? = some effect.effectId := by
      rw [holdOf_eq hl, hhold]
      rfl
    obtain ⟨hlife, hrec, hother⟩ := (h.tracked effect.effectId).idle_holder hc ho
    rw [holdOf_eq hl, hhold] at hlife hrec
    obtain rfl : record = effect := Option.some.inj (hget.symm.trans hrec)
    have hnext := hlife.attempted
    rw [h.attempts_length record.effectId]
    refine h.advance_hold hl (by rw [hhold]; rfl) hother hnext hrec
      (by simp [CallerState.after, Hold.after, Hold.started, hhold]) (fun _ => rfl) rfl rfl rfl ?_
      (fun e' he => ?_)
    · rw [InMemoryStore.addAttempt_rows, if_pos rfl, h.attempts, h.attempts_length]
      rfl
    · rw [InMemoryStore.addAttempt_rows, if_neg he]

theorem coherent_adapterFor (h : Coherent s log) (hl : localOf callerProtocol log c = some l)
    (ho : outstanding log c = none) {effect : EffectRecord} (answer : Except Exc Unit)
    (hhold : (∃ route attemptId, l.hold = .attempted route effect attemptId) ∨
      l.hold = .reconciling effect) :
    Coherent s (.answered c (.adapterFor effect) answer :: log) := by
  have hc : l.hold.effectId? = some effect.effectId := by
    rcases hhold with ⟨route, attemptId, hh⟩ | hh <;> rw [hh] <;> rfl
  obtain ⟨hlife, hrec, hother⟩ :=
    (h.tracked effect.effectId).idle_holder (by rw [holdOf_eq hl]; exact hc) ho
  rw [holdOf_eq hl] at hlife hrec
  rcases hhold with ⟨route, attemptId, hh⟩ | hh <;> rw [hh] at hlife hrec
  · exact h.advance_hold hl hc hother (hlife.built answer) hrec
      (by simp [CallerState.after, Hold.after, Hold.builtWith, hh]) (fun _ => rfl) rfl rfl rfl
      (h.attempts _) (fun _ _ => rfl)
  · exact h.advance_hold hl hc hother (hlife.probeBuilt answer) hrec
      (by simp [CallerState.after, Hold.after, Hold.builtWith, hh]) (fun _ => rfl) rfl rfl rfl
      (h.attempts _) (fun _ _ => rfl)

theorem coherent_dispatch (h : Coherent s log) (hl : localOf callerProtocol log c = some l)
    {route : Route} {effect : EffectRecord} {attemptId : Str}
    (hhold : l.hold = .built route effect attemptId (.ok ()))
    (ho : outstanding log c = some (.dispatch effect attemptId))
    (answer : Except Exc DispatchReturn) :
    Coherent s (.answered c (.dispatch effect attemptId) answer :: log) := by
  have hc : l.hold.effectId? = some effect.effectId := by
    rw [hhold]
    rfl
  obtain ⟨hlife, hrec, hother⟩ := (h.tracked effect.effectId).calling_holder
    (by rw [holdOf_eq hl]; exact hc) (by rw [ho]; exact fun h => nomatch h)
  rw [holdOf_eq hl, hhold] at hlife hrec
  exact h.advance_hold hl hc hother (hlife.dispatched answer) hrec
    (by simp [CallerState.after, Hold.after, Hold.dispatchedWith, hhold]) (fun _ => rfl) rfl rfl rfl (h.attempts _)
    (fun _ _ => rfl)

theorem coherent_probe (h : Coherent s log) (hl : localOf callerProtocol log c = some l)
    {effect : EffectRecord} (hhold : l.hold = .probeBuilt effect (.ok ()))
    (ho : outstanding log c = some (.probe effect)) (answer : Except Exc ProbeReturn) :
    Coherent s (.answered c (.probe effect) answer :: log) := by
  have hc : l.hold.effectId? = some effect.effectId := by
    rw [hhold]
    rfl
  obtain ⟨hlife, hrec, hother⟩ := (h.tracked effect.effectId).calling_holder
    (by rw [holdOf_eq hl]; exact hc) (by rw [ho]; exact fun h => nomatch h)
  rw [holdOf_eq hl, hhold] at hlife hrec
  exact h.advance_hold hl hc hother (hlife.probed answer) hrec
    (by simp [CallerState.after, Hold.after, Hold.probedWith, hhold]) (fun _ => rfl) rfl rfl rfl (h.attempts _)
    (fun _ _ => rfl)

/-- Whoever has moved the effect holds what the move says. -/
theorem HeldBy.entering {route : Route} {after : EffectRecord}
    (hother : ∀ d ≠ c, (holdOf log d).effectId? ≠ some e)
    (hh : holdOf log c = Hold.entering route after) (ho : outstanding log c = none) :
    HeldBy log e (Phase.entering c route after) := by
  unfold Phase.entering
  split
  · rename_i hfree
    refine .rest fun d => ?_
    by_cases hd : d = c
    · subst hd
      rw [hh, hfree]
      exact fun h => nomatch h
    · exact hother d hd
  · exact .intro hother hh ho

/-- A caller moves an effect that no other caller holds. -/
theorem Coherent.move (h : Coherent s log) (hl : localOf callerProtocol log c = some l)
    {record : EffectRecord} {target : EffectStatus} {data : Items} {version : Int} (now : Datetime)
    (hget : s.records.get? e = some record)
    (hother : ∀ d ≠ c, (holdOf log d).effectId? ≠ some e)
    (hbefore : ∀ x, l.hold.effectId? = some x → x = e)
    (hlife : Life e (.moved (moverOf log c) (movedRecord record target now) data ::
      momentsOf e log) (.entering c l.procedure.route (movedRecord record target now))) :
    Coherent (s.moveRecord record now e target data)
      (.answered c (.transition e version target data)
        (.ok (movedRecord record target now) : Except Exc EffectRecord) :: log) := by
  have hrecords := s.moveRecord_records record now e target data
  have hid : (movedRecord record target now).effectId = e := by
    obtain ⟨phase, hlife', hrec, -⟩ := h.tracked e
    exact hlife'.fits.effectId record (hrec.symm.trans hget)
  have hmoment : ∀ e', answerMoment e' (moverOf log c) (.transition e version target data)
      (.ok (movedRecord record target now) : Except Exc EffectRecord) =
      if e = e' then some (.moved (moverOf log c) (movedRecord record target now) data)
      else none := fun _ => rfl
  refine h.answered hl (fun e' => ?_) (fun e' current hcur => ?_) (fun effect he => ?_)
    (fun e' effect hget' => ?_) (fun e' => ?_)
  · by_cases he : e' = e
    · subst he
      refine ⟨.entering c l.procedure.route (movedRecord record target now), ?_, ?_,
        HeldBy.entering (fun d hd => ?_) ?_ ?_⟩
      · rw [momentsOf_answered_some ((hmoment e').trans (if_pos rfl))]
        exact hlife
      · rw [hrecords, if_pos rfl, Phase.record?_entering]
      · rw [holdOf_answered hl, if_neg hd]
        exact hother d hd
      · rw [holdOf_answered hl, if_pos rfl]
        rfl
      · rw [outstanding_answered, if_pos rfl]
    · refine (h.tracked e').answered hl ((hmoment e').trans (if_neg (Ne.symm he)))
        (by rw [hrecords, if_neg he]) (.inl ⟨fun hx => he (hbefore e' hx), fun hx => ?_⟩)
      have hfits := Hold.effectId?_entering (show (Hold.entering l.procedure.route _).effectId? = some e' from hx)
      exact he (hfits.symm.trans hid)
  · rw [hrecords]
    by_cases he : e' = e
    · subst he
      rw [hget] at hcur
      cases hcur
      exact ⟨_, if_pos rfl, .inr (Nat.lt_succ_self _)⟩
    · exact ⟨current, by rw [if_neg he, hcur], .inl rfl⟩
  · obtain rfl := List.mem_singleton.mp he
    exact .of_get (by rw [hid, hrecords, if_pos rfl])
  · rw [InMemoryStore.moveRecord_nextEffectId]
    rw [hrecords] at hget'
    split at hget'
    · rename_i he
      subst he
      exact h.fresh e' record hget
    · exact h.fresh e' effect hget'
  · rw [InMemoryStore.rowsOf_congr (s.moveRecord_attempts record now e target data), h.attempts e']
    by_cases he : e = e'
    · rw [momentsOf_answered_some ((hmoment e').trans (if_pos he))]
      rfl
    · rw [momentsOf_answered_none ((hmoment e').trans (if_neg he))]

theorem coherent_transition (h : Coherent s log) (hl : localOf callerProtocol log c = some l)
    (ho : outstanding log c = none) {effect : EffectRecord} {target : EffectStatus} {data : Items}
    (now : Datetime)
    (hallowed : (l.hold = .free ∧ effect ∈ l.known ∧ Starts l.procedure l.clock effect target data) ∨
      (l.hold.record? = some effect ∧ Settles l.hold target data)) :
    Coherent (s.transition now effect.effectId effect.version target data).2
      (.answered c (.transition effect.effectId effect.version target data)
        (s.transition now effect.effectId effect.version target data).1 :: log) := by
  rcases s.transition_cases now effect.effectId effect.version target data with
    ⟨exc, heq, -⟩ | ⟨record, hget, hversion, hedge, heq⟩ <;> rw [heq]
  · exact h.quiet hl ho rfl (fun _ => rfl) rfl rfl le_rfl (fun _ he => nomatch he)
  · rcases hallowed with ⟨hfree, hknown, hstarts⟩ | ⟨hrec, hsettles⟩
    · -- the caller has read this version, so the ledger holds what it has read
      obtain ⟨current, hcurrent, -, hsame⟩ := h.known c l hl effect hknown
      rw [hget] at hcurrent
      cases hcurrent
      obtain rfl := hsame (by omega)
      obtain ⟨phase, hlife, hrec, hheld⟩ := h.tracked effect.effectId
      have hrest : phase = .resting effect := hlife.fits.of_not_held (hrec.symm.trans hget)
        (hstarts.not_held hedge (hlife.fits.probed effect (hrec.symm.trans hget)))
      subst hrest
      refine h.move hl now hget (fun d _ => hheld.not_held d) (fun x hx => ?_) ?_
      · rw [hfree] at hx
        cases hx
      · rw [h.mover c l hl]
        exact hlife.started c now hstarts hedge
    · have hc : (holdOf log c).effectId? = some effect.effectId := by
        rw [holdOf_eq hl, Hold.effectId?, hrec]
        rfl
      obtain ⟨hlife, hcurrent, hother⟩ := (h.tracked effect.effectId).idle_holder hc ho
      rw [holdOf_eq hl] at hlife hcurrent hc
      rw [hget, hrec] at hcurrent
      cases hcurrent
      refine h.move hl now hget hother (fun x hx => Option.some.inj (hx.symm.trans hc)) ?_
      rw [Phase.entering_of_not_held hsettles.not_held]
      exact hlife.settled now hrec hsettles hedge

end

/-! ## Whole runs -/

section
variable {s : InMemoryStore} {log : List BrokerEvent} {c : Nat}

theorem serve_store {Target Decision : Type} (adapters : Adapters Target Decision)
    (surroundings : Surroundings Decision) (shared : Shared InMemoryStore Target) :
    ∀ r : Request, (serve memoryStore adapters r surroundings shared).2.store =
      match r with
      | .reserve tenantId request contract =>
        (shared.store.reserve surroundings.now tenantId request contract).2
      | .claimDue workerId now leaseFor limit =>
        (shared.store.claimDue workerId now leaseFor limit).2
      | .startAttempt effectId expectedVersion workerId =>
        (shared.store.startAttempt surroundings.now effectId expectedVersion workerId).2
      | .transition effectId expectedVersion target data =>
        (shared.store.transition surroundings.now effectId expectedVersion target data).2
      | _ => shared.store := by
  intro r
  cases r <;> rfl

theorem localOf_called {procedure : Procedure} {d : Nat} :
    localOf callerProtocol (.called c procedure :: log) d =
      if d = c then some (callerProtocol.start procedure) else localOf callerProtocol log d := rfl

/-- A new caller holds nothing and has read nothing. -/
theorem Coherent.called (h : Coherent s log) {procedure : Procedure}
    (hc : localOf callerProtocol log c = none) : Coherent s (.called c procedure :: log) := by
  have hhold : ∀ d, holdOf (.called c procedure :: log) d = holdOf log d := by
    intro d
    unfold holdOf
    rw [localOf_called]
    split
    · rename_i hd
      rw [hd, hc]
      rfl
    · rfl
  refine ⟨fun e => (h.tracked e).frame rfl rfl fun d _ => ⟨hhold d, rfl⟩, fun d l hd effect hk => ?_,
    h.fresh, fun d l hd => ?_, fun d hd => ?_, fun d r hd => ?_, h.attempts⟩
  · rw [localOf_called] at hd
    split at hd
    · cases hd
      cases hk
    · exact h.known d l hd effect hk
  · rw [localOf_called] at hd
    split at hd
    · rename_i hdc
      cases hd
      subst hdc
      simp only [moverOf, taskOf, lastClock, if_true, h.unread d hc]
      rfl
    · rename_i hdc
      have hmover := h.mover d l hd
      simp only [moverOf, taskOf, lastClock, if_neg hdc] at hmover ⊢
      exact hmover
  · rw [localOf_called] at hd
    split at hd
    · cases hd
    · exact h.unread d hd
  · rw [hhold]
    exact h.calls d r hd

theorem Hold.external_of_call? {hold : Hold} {r : Request} (h : hold.call? = some r) :
    r.external = true := by
  unfold Hold.call? at h
  split at h <;> cases h <;> rfl

theorem Allowed.call?_of_external {l : CallerState} {r : Request} (h : Allowed l r)
    (he : r.external = true) : l.hold.call? = some r := by
  cases h with
  | call h => exact h
  | _ => cases he

/-- An event about the call of a holder, which is outstanding afterwards, moves its
effect on to `m` and nothing else. -/
theorem Coherent.calling (h : Coherent s log) {l : CallerState} {r : Request} {event : BrokerEvent}
    (hl : localOf callerProtocol log c = some l) (hcall : l.hold.call? = some r)
    (hlocal : localOf callerProtocol (event :: log) = localOf callerProtocol log)
    (hmover : moverOf (event :: log) = moverOf log)
    (hclock : lastClock (event :: log) = lastClock log)
    (hout : ∀ d, outstanding (event :: log) d = if d = c then some r else outstanding log d)
    (hmoment : ∀ e, l.hold.effectId? ≠ some e → momentOf e log event = none)
    (hlife : ∀ e, l.hold.effectId? = some e →
      Life e (momentsOf e (event :: log)) (.held c l.hold true) ∧
        attemptRows (momentsOf e (event :: log)) = attemptRows (momentsOf e log)) :
    Coherent s (event :: log) := by
  have hhold : ∀ d, holdOf (event :: log) d = holdOf log d := fun d => by simp only [holdOf, hlocal]
  refine ⟨fun e => ?_, by rw [hlocal]; exact h.known, h.fresh, by rw [hlocal, hmover]; exact h.mover,
    by rw [hlocal, hclock]; exact h.unread, fun d r' hd => ?_, fun e => ?_⟩
  · by_cases he : l.hold.effectId? = some e
    · obtain ⟨_, -, hrec, hother, -⟩ := (h.tracked e).holder (by rw [holdOf_eq hl]; exact he)
      rw [holdOf_eq hl] at hrec
      refine ⟨.held c l.hold true, (hlife e he).1, hrec, .intro (fun d hd => ?_) ?_ ?_⟩
      · rw [hhold]
        exact hother d hd
      · rw [hhold, holdOf_eq hl]
      · rw [hout, if_pos rfl, if_pos rfl, hcall]
    · refine (h.tracked e).frame (momentsOf_cons_none (hmoment e he)) rfl fun d hd => ?_
      rw [hhold, or_self] at hd
      have hdc : d ≠ c := by
        rintro rfl
        exact he (by rw [← holdOf_eq hl]; exact hd)
      exact ⟨hhold d, by rw [hout, if_neg hdc]⟩
  · rw [hhold]
    rw [hout] at hd
    split at hd
    · rename_i hdc
      cases hd
      rw [hdc, holdOf_eq hl]
      exact hcall
    · exact h.calls d r' hd
  · by_cases he : l.hold.effectId? = some e
    · rw [(hlife e he).2, h.attempts e]
    · rw [momentsOf_cons_none (hmoment e he), h.attempts e]

theorem Coherent.began (h : Coherent s log) {l : CallerState} {r : Request}
    (hl : localOf callerProtocol log c = some l) (hcall : l.hold.call? = some r)
    (ho : outstanding log c = none) : Coherent s (.began c r :: log) := by
  refine h.calling hl hcall rfl rfl rfl (fun d => rfl) (fun e he => ?_) (fun e he => ?_)
  · unfold Hold.call? at hcall
    split at hcall <;> cases hcall <;> rename_i hh <;> rw [hh] at he <;>
      exact if_neg fun hx => he (congrArg some hx)
  · obtain ⟨hlife, -, -⟩ := (h.tracked e).idle_holder (by rw [holdOf_eq hl]; exact he) ho
    rw [holdOf_eq hl] at hlife
    unfold Hold.call? at hcall
    split at hcall <;> cases hcall <;> rename_i hh <;> rw [hh] at he hlife ⊢
    · rw [momentsOf_began (Option.some.inj he)]
      exact ⟨hlife.began, rfl⟩
    · rw [momentsOf_probeBegan (Option.some.inj he)]
      exact ⟨hlife.probeBegan, rfl⟩

theorem Coherent.landed (h : Coherent s log) {r : Request} (ho : outstanding log c = some r) :
    Coherent s (.landed c r :: log) := by
  have hcall := h.calls c r ho
  cases hl : localOf callerProtocol log c with
  | none =>
    rw [holdOf, hl] at hcall
    cases hcall
  | some l =>
    rw [holdOf_eq hl] at hcall
    refine h.calling hl hcall rfl rfl rfl (fun d => ?_) (fun e he => ?_) (fun e he => ?_)
    · split
      · rename_i hd
        rw [hd]
        exact ho
      · rfl
    · unfold Hold.call? at hcall
      split at hcall <;> cases hcall <;> rename_i hh <;> rw [hh] at he
      · exact if_neg fun hx => he (congrArg some hx)
      · rfl
    · obtain ⟨hlife, -, -⟩ := (h.tracked e).calling_holder (by rw [holdOf_eq hl]; exact he)
        (by rw [ho]; exact fun h => nomatch h)
      rw [holdOf_eq hl] at hlife
      unfold Hold.call? at hcall
      split at hcall <;> cases hcall <;> rename_i hh <;> rw [hh] at he hlife ⊢
      · rw [momentsOf_landed (Option.some.inj he)]
        exact ⟨hlife.landed, rfl⟩
      · rw [momentsOf_cons_none rfl]
        exact ⟨hlife, rfl⟩

theorem coherent_initial (hashes : Hashes) (tenantKeyProvider : TenantKeyProvider) :
    Coherent (.initial hashes tenantKeyProvider) [] := by
  refine ⟨fun e => ⟨.unborn, .unborn, rfl, fun _ h => (nomatch h), fun _ _ _ h => (nomatch h)⟩,
    fun _ _ h => (nomatch h), fun _ _ h => (nomatch h), fun _ _ h => (nomatch h), fun _ _ => rfl,
    fun _ _ h => (nomatch h), fun _ => rfl⟩

variable {Target Decision : Type} {adapters : Adapters Target Decision}

/-- Every answer keeps coherence. -/
theorem Coherent.answer {shared : Shared InMemoryStore Target} (h : Coherent shared.store log)
    {l : CallerState} {r : Request} (surroundings : Surroundings Decision)
    (hl : localOf callerProtocol log c = some l) (hallowed : Allowed l r)
    (ho : outstanding log c = if r.external then some r else none) :
    Coherent (serve memoryStore adapters r surroundings shared).2.store
      (.answered c r (serve memoryStore adapters r surroundings shared).1 :: log) := by
  cases r with
  | reserve tenantId request contract => exact coherent_reserve h hl ho _ _ _ _
  | claimDue workerId now leaseFor limit => exact coherent_claimDue h hl ho _ _ _ _
  | get tenantId effectId => exact coherent_get h hl ho _ _
  | clock | record => exact h.quiet hl ho rfl (fun _ => rfl) rfl rfl le_rfl (fun _ he => nomatch he)
  | startAttempt effectId expectedVersion workerId =>
    cases hallowed with
    | attempt hh => exact coherent_startAttempt h hl ho hh _
    | call hh => cases Hold.external_of_call? hh
  | transition effectId expectedVersion target data =>
    cases hallowed with
    | start hfree hknown hstarts =>
      exact coherent_transition h hl ho _ (.inl ⟨hfree, hknown, hstarts⟩)
    | settle hrec hsettles => exact coherent_transition h hl ho _ (.inr ⟨hrec, hsettles⟩)
    | call hh => cases Hold.external_of_call? hh
  | adapterFor effect =>
    cases hallowed with
    | build hh => exact coherent_adapterFor h hl ho _ (.inl ⟨_, _, hh⟩)
    | buildProbe hh => exact coherent_adapterFor h hl ho _ (.inr hh)
    | call hh => cases Hold.external_of_call? hh
  | dispatch effect attemptId =>
    have hcall := hallowed.call?_of_external rfl
    unfold Hold.call? at hcall
    split at hcall <;> cases hcall
    rename_i hh
    exact coherent_dispatch h hl hh ho _
  | probe effect =>
    have hcall := hallowed.call?_of_external rfl
    unfold Hold.call? at hcall
    split at hcall <;> cases hcall
    rename_i hh
    exact coherent_probe h hl hh ho _

/-- **Protocol runs over an in-memory store are coherent.** -/
theorem coherent_of_protocolRun {hashes : Hashes} {tenantKeyProvider : TenantKeyProvider}
    {target : Target} {shared : Shared InMemoryStore Target}
    (h : ProtocolRun (memoryBroker adapters) callerProtocol
      (.initial hashes tenantKeyProvider target) shared log) : Coherent shared.store log := by
  induction h with
  | initial => exact coherent_initial hashes tenantKeyProvider
  | call _ hc ih => exact ih.called hc
  | begin _ hl ha ho he ih => exact ih.began hl (ha.call?_of_external he) ho
  | land _ ho ih => exact ih.landed ho
  | answer input _ hl ha ho ih => exact ih.answer input hl ha ho
  | stop _ ih =>
    exact ⟨fun e => (ih.tracked e).frame rfl rfl fun _ _ => ⟨rfl, rfl⟩, ih.known, ih.fresh, ih.mover,
      ih.unread, ih.calls, ih.attempts⟩
  | disturb input _ ih => exact ih

/-- The in-memory store only answers what the protocol takes for possible. -/
theorem Coherent.possible_serve {shared : Shared InMemoryStore Target}
    (h : Coherent shared.store log) (r : Request) (surroundings : Surroundings Decision) :
    Possible r (serve memoryStore adapters r surroundings shared).1 := by
  cases r with
  | transition effectId expectedVersion target data =>
    show Possible (.transition effectId expectedVersion target data)
      (shared.store.transition surroundings.now effectId expectedVersion target data).1
    rcases shared.store.transition_cases surroundings.now effectId expectedVersion target data with
      ⟨exc, heq, hexc⟩ | ⟨record, -, -, -, heq⟩ <;> rw [heq]
    · exact hexc
    · rfl
  | claimDue workerId now leaseFor limit =>
    show Possible (.claimDue workerId now leaseFor limit)
      (shared.store.claimDue workerId now leaseFor limit).1
    obtain ⟨-, hresults⟩ := shared.store.claimDue_spec workerId now leaseFor limit
    cases hr : (shared.store.claimDue workerId now leaseFor limit).1 with
    | error _ => trivial
    | ok results =>
      intro effect he
      obtain ⟨_, record, -, hclaimable, rfl, -⟩ := hresults results hr effect he
      exact hclaimable
  | get tenantId effectId =>
    show Possible (.get tenantId effectId)
      (.ok (shared.store.get tenantId effectId) : Except Exc (Option EffectRecord))
    cases hget : shared.store.get tenantId effectId with
    | none => trivial
    | some effect =>
      obtain ⟨phase, hlife, hrec, -⟩ := h.tracked effectId
      exact hlife.fits.effectId effect (hrec.symm.trans (InMemoryStore.get_some hget))
  | _ => trivial

variable {hashes : Hashes} {tenantKeyProvider : TenantKeyProvider} {target : Target}
  {w : World Response Exc Procedure Reply (Shared InMemoryStore Target)}

/-- So every answer in the log of a run is a possible one. -/
theorem possible_of_answered {shared : Shared InMemoryStore Target}
    (h : ProtocolRun (memoryBroker adapters) callerProtocol
      (.initial hashes tenantKeyProvider target) shared log) {r : Request} {response : Response r}
    (hm : .answered c r response ∈ log) : Possible r response := by
  induction h with
  | initial => cases hm
  | answer input hrun _ _ _ ih =>
    rcases List.mem_cons.mp hm with heq | hm
    · cases heq
      exact (coherent_of_protocolRun hrun).possible_serve r input
    · exact ih hm
  | call _ _ ih | begin _ _ _ _ _ ih | land _ _ ih | stop _ ih =>
    exact ih ((List.mem_cons.mp hm).resolve_left fun heq => nomatch heq)
  | disturb _ _ ih => exact ih hm

/-- Runs of the broker's procedures are runs of the caller protocol. -/
theorem reachable_runs
    (h : (memoryBroker adapters).Reachable (.initial hashes tenantKeyProvider target) w) :
    ProtocolRun (memoryBroker adapters) callerProtocol (.initial hashes tenantKeyProvider target)
      w.shared w.log ∧ ∀ c, Conforms (memoryBroker adapters) callerProtocol w.log c (w.callers c) :=
  reachable_protocolRun program_follows (fun hrun => (coherent_of_protocolRun hrun).possible_serve) h

/-- **Every reachable world over an in-memory store is coherent**, whatever the adapters
do. -/
theorem reachable_coherent
    (h : (memoryBroker adapters).Reachable (.initial hashes tenantKeyProvider target) w) :
    Coherent w.shared.store w.log :=
  coherent_of_protocolRun (reachable_runs h).1

theorem localOf_of_called {procedure : Procedure} (h : .called c procedure ∈ log) :
    localOf callerProtocol log c ≠ none := by
  induction log with
  | nil => cases h
  | cons event log ih =>
    cases event with
    | called d task =>
      rw [localOf_called]
      split
      · exact Option.some_ne_none _
      · rename_i hne
        rcases List.mem_cons.mp h with h | h
        · cases h
          exact absurd rfl hne
        · exact ih h
    | answered d r response =>
      have hlocal := ih ((List.mem_cons.mp h).resolve_left (by rintro ⟨⟩))
      simp only [localOf]
      split
      · rename_i hd
        subst hd
        cases hl : localOf callerProtocol log c with
        | none => exact absurd hl hlocal
        | some l => exact Option.some_ne_none _
      · exact hlocal
    | _ => exact ih ((List.mem_cons.mp h).resolve_left (by rintro ⟨⟩))

/-- A caller runs one procedure. -/
theorem taskOf_of_called {shared : Shared InMemoryStore Target}
    (h : ProtocolRun (memoryBroker adapters) callerProtocol
      (.initial hashes tenantKeyProvider target) shared log) {procedure : Procedure}
    (hc : .called c procedure ∈ log) : taskOf log c = some procedure := by
  induction h with
  | initial => cases hc
  | call _ hnone ih =>
    simp only [taskOf]
    split
    · rename_i hd
      subst hd
      rcases List.mem_cons.mp hc with hc | hc
      · cases hc
        rfl
      · exact absurd hnone (localOf_of_called hc)
    · rename_i hne
      rcases List.mem_cons.mp hc with hc | hc
      · cases hc
        exact absurd rfl hne
      · exact ih hc
  | disturb _ _ ih => exact ih hc
  | begin _ _ _ _ _ ih | land _ _ ih | answer _ _ _ _ _ ih | stop _ ih =>
    exact ih ((List.mem_cons.mp hc).resolve_left (by rintro ⟨⟩))

end
end EffectBroker
