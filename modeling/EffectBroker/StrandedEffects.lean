import EffectBroker.AttemptPayload
import EffectBroker.BrokerRuns
import EffectBroker.DurableLedger

/-!
# Effects that are stranded

A call that wins the first transition of an effect has it in its hands until it moves it
on.  The worker catches whatever an adapter raises and whatever cannot be written, so it
never leaves an effect in `dispatching`.  The reconciler catches what the dispatch raises
and nothing else: when it cannot build the adapter, when the probe raises, or when it
cannot read or write what the adapter returned, the effect stays in its hands for good.
-/
namespace EffectBroker
open Python Concurrency

/-! ## What a call has won -/

/-- The exchange is a transition of the effect. -/
def Wins (e : Str) : Exchange Response → Prop
  | ⟨.transition effectId _ _ _, (.ok _ : Except Exc EffectRecord)⟩ => effectId = e
  | _ => False

instance decidableWins (e : Str) : DecidablePred (Wins e)
  | ⟨.transition effectId _ _ _, (.ok _ : Except Exc EffectRecord)⟩ =>
    inferInstanceAs (Decidable (effectId = e))
  | ⟨.transition _ _ _ _, (.error _ : Except Exc EffectRecord)⟩ => isFalse id
  | ⟨.reserve .., _⟩ | ⟨.claimDue .., _⟩ | ⟨.startAttempt .., _⟩ | ⟨.get .., _⟩ | ⟨.clock, _⟩
  | ⟨.adapterFor _, _⟩ | ⟨.dispatch .., _⟩ | ⟨.probe _, _⟩ | ⟨.record _, _⟩ => isFalse id

/-- A transition of the effect has succeeded. -/
def Won (e : Str) (t : List (Exchange Response)) : Prop := ∃ x ∈ t, Wins e x

instance decidableWon (e : Str) (t : List (Exchange Response)) : Decidable (Won e t) :=
  inferInstanceAs (Decidable (∃ x ∈ t, Wins e x))

/-- What adapters raise has a class name that UTF-8 encodes. -/
def NamedAnswer : (r : Request) → Response r → Prop
  | .adapterFor _, (answer : Except Exc Unit) => Named answer
  | .dispatch _ _, (answer : Except Exc DispatchReturn) =>
    Named answer ∧ ∀ result, answer = .ok result →
      Named result.committed ∧ Named result.externalId ∧ Named result.output
  | _, _ => True

/-- What a probe found can be read and written, given its evidence and its status. -/
def ProbeValid (Valid : Items → Prop) (probe : ProbeReturn) (evidence : Items) :
    ReportedStatus → Prop
  | .known .committed => ∃ externalId output, probe.externalId = .ok externalId ∧
      probe.output = .ok output ∧
      Valid [(text "external_id", externalId), (text "output", .dict (output.getD [])),
        (text "evidence", .dict evidence)]
  | .known .notCommitted => Valid [(text "evidence", .dict evidence)]
  | _ => Valid [(text "evidence", .dict evidence), (text "reason", text "probe_unknown")]

/-- An adapter gave an answer that can be read and written. -/
def Persistable (Valid : Items → Prop) : Exchange Response → Prop
  | ⟨.adapterFor _, (answer : Except Exc Unit)⟩ => answer = .ok ()
  | ⟨.dispatch _ attemptId, (answer : Except Exc DispatchReturn)⟩ =>
    ∀ result, answer = .ok result → ∃ committed, result.committed = .ok committed ∧
      (committed = true → ∃ externalId output, result.externalId = .ok externalId ∧
        result.output = .ok output ∧
        Valid [(text "attempt_id", .str attemptId), (text "external_id", externalId),
          (text "output", .dict output)])
  | ⟨.probe _, (answer : Except Exc ProbeReturn)⟩ =>
    ∃ probe status evidence, answer = .ok probe ∧ probe.status = .ok status ∧
      probe.evidence = .ok evidence ∧ ProbeValid Valid probe evidence status
  | _ => True

/-- Every adapter answered so. -/
def AllPersistable (Valid : Items → Prop) (t : List (Exchange Response)) : Prop :=
  ∀ x ∈ t, Persistable Valid x

section
variable {Store Target Decision : Type} {store : EffectStore Store}

/-- The surroundings, as far as adapters raise exceptions. -/
def NamedAnswers (store : EffectStore Store) (adapters : Adapters Target Decision)
    (input : Surroundings Decision) : Prop :=
  ∀ r s, NamedAnswer r (serve store adapters r input s).1

/-- Once the call has won the effect, nobody else changes it, and the store performs every
valid write about it. -/
def DurableStore.Unchanged (D : DurableStore store) (e : Str) : Rely Response (Shared Store Target) :=
  fun t s s' => Won e t → D.state s'.store e = D.state s.store e ∧ D.Performs s'.store e

/-- The effect is won and persisted so. -/
structure DurableStore.At (D : DurableStore store) (e : Str) (status : EffectStatus) (version : Nat)
    (t : List (Exchange Response)) (s : Shared Store Target) : Prop where
  won : Won e t
  state : D.state s.store e = some (status, version)

/-- If the effect is won, it is in nobody's hands. -/
def DurableStore.Settled (D : DurableStore store) (e : Str) (t : List (Exchange Response))
    (s : Shared Store Target) : Prop :=
  Won e t → ∃ status version, D.state s.store e = some (status, version) ∧ status.isHeld = false

/-! ## Requests -/

section
variable {e : Str} {x : Exchange Response} {t : List (Exchange Response)} {D : DurableStore store}
  {adapters : Adapters Target Decision} {s : Shared Store Target} {status : EffectStatus}
  {version : Nat}

theorem won_cons : Won e (x :: t) ↔ Wins e x ∨ Won e t := List.exists_mem_cons_iff ..

theorem allPersistable_cons {Valid : Items → Prop} :
    AllPersistable Valid (x :: t) ↔ Persistable Valid x ∧ AllPersistable Valid t :=
  List.forall_mem_cons

/-- What is outside the store changes nothing in it. -/
theorem ends_outside {r : Request} (hr : r.isOutside = true) (h : D.At e status version t s) :
    Always (broker store adapters) (D.Unchanged e) (NamedAnswers store adapters)
      (Coroutine.request r) t s fun t' s' result =>
        ∃ response, result = .ok response ∧ t' = ⟨r, response⟩ :: t ∧ NamedAnswer r response ∧
          D.At e status version t' s' := by
  refine always_request.mpr fun middle input hrely hnamed => ?_
  have hstate := (hrely h.won).1
  refine ⟨_, rfl, rfl, hnamed r middle, ⟨won_cons.mpr (.inr h.won), ?_⟩⟩
  show D.state (serve store adapters r input middle).2.store e = _
  rw [serve_outside hr, hstate, h.state]

/-- What a transition of a won effect comes to: the effect is moved, or the data cannot be
written and it is where it was. -/
def DurableStore.Moved (D : DurableStore store) (e : Str) (status : EffectStatus) (version : Nat)
    (target : EffectStatus) (data : Items) (t : List (Exchange Response))
    (s : Shared Store Target) (result : Except Exc EffectRecord) : Prop :=
  (∃ after, result = .ok after ∧ D.Valid data ∧ D.At e target after.version t s) ∨
  ∃ exc, result = .error exc ∧ ¬ D.Valid data ∧ Python.Encodable exc.className ∧
    D.At e status version t s

theorem serve_transition (adapters : Adapters Target Decision) {effectId : Str} {expectedVersion : Int} {target : EffectStatus}
    {data : Items} {input : Surroundings Decision} {response : Except Exc EffectRecord}
    {after : Store} (h : store.transition s.store input.now effectId expectedVersion target data =
      (response, after)) :
    serve store adapters (.transition effectId expectedVersion target data) input s =
      (response, { s with store := after }) := by
  rw [serve, h]

/-- The tail of a transition that raised: it may be counted. -/
theorem ends_counted {α : Type} {exc : Exc} {Q : List (Exchange Response) → Shared Store Target →
      Except Exc α → Prop}
    (hrecorded : ∀ t' s', (AllPersistable D.Valid t' ↔ AllPersistable D.Valid t) →
      (Won e t' ↔ Won e t) → (Won e t → D.state s'.store e = D.state s.store e) →
      Q t' s' (.error exc)) :
    Always (broker store adapters) (D.Unchanged e) (NamedAnswers store adapters)
      (if exc.isVersionConflict then do
        Program.record .fencedStaleWrite
        throw exc
      else throw exc) t s Q := by
  by_cases hconflict : exc.isVersionConflict = true
  · rw [if_pos hconflict]
    refine always_bind.mpr (always_request.mpr fun middle input hrely _ => ?_)
    refine hrecorded _ _ ?_ ?_ fun hwon => (hrely hwon).1
    · rw [allPersistable_cons]
      exact ⟨fun h => h.2, fun h => ⟨trivial, h⟩⟩
    · rw [won_cons]
      exact ⟨fun h => h.resolve_left id, Or.inr⟩
  · rw [if_neg hconflict]
    exact hrecorded t s Iff.rfl Iff.rfl fun _ => rfl

/-- A transition, whoever has the effect. -/
theorem ends_transition {effect : EffectRecord} {target : EffectStatus} {data : Items}
    (hid : effect.effectId = e) :
    Always (broker store adapters) (D.Unchanged e) (NamedAnswers store adapters)
      (transitionAndRecord effect target data) t s fun t' s' result =>
        (AllPersistable D.Valid t' ↔ AllPersistable D.Valid t) ∧
        ((∃ after, result = .ok after ∧ after.effectId = e ∧ D.Valid data ∧
            D.At e target after.version t' s') ∨
          ∃ exc, result = .error exc ∧ Python.Encodable exc.className ∧ (Won e t' ↔ Won e t) ∧
            (Won e t → D.state s'.store e = D.state s.store e ∧
              ∀ status, D.state s.store e = some (status, effect.version) →
                isAllowed status target = true → ¬ D.Valid data)) := by
  subst hid
  refine always_bind.mpr (always_tryCatch.mpr (always_transition.mpr fun middle input hrely _ => ?_))
  rcases hresult : store.transition middle.store input.now effect.effectId effect.version target
    data with ⟨response, after⟩
  cases response with
  | ok record =>
    obtain ⟨hvalid, hrecord, hstate⟩ := D.transition_ok hresult
    -- the move is recorded, and the effect stays where it has been moved
    have hat : D.At effect.effectId target record.version
        (⟨.transition effect.effectId effect.version target data, .ok record⟩ :: t)
        { middle with store := after } :=
      ⟨won_cons.mpr (.inl rfl), by rw [hstate, Function.update_self]⟩
    refine always_bind.mpr ((ends_outside rfl hat).mono fun t' s' result hrecorded => ?_)
    obtain ⟨_, rfl, rfl, -, hat'⟩ := hrecorded
    refine ⟨?_, .inl ⟨record, rfl, hrecord, hvalid, hat'⟩⟩
    rw [allPersistable_cons, allPersistable_cons]
    exact ⟨fun h => h.2.2, fun h => ⟨trivial, trivial, h⟩⟩
  | error exc =>
    obtain ⟨hstate, hname⟩ := D.transition_error hresult
    refine ends_counted fun t' s' hpersistable hwon hkept => ⟨?_, .inr ⟨exc, rfl, hname, ?_⟩⟩
    · rw [hpersistable, allPersistable_cons]
      exact ⟨fun h => h.2, fun h => ⟨trivial, h⟩⟩
    · have hsame : Won effect.effectId t' ↔ Won effect.effectId t := by
        rw [hwon, won_cons]
        exact ⟨fun h => h.resolve_left id, Or.inr⟩
      refine ⟨hsame, fun hw => ?_⟩
      obtain ⟨hunchanged, hperforms⟩ := hrely hw
      constructor
      · rw [hkept (hwon.mp (hsame.mpr hw)), ← hunchanged]
        exact congrFun hstate _
      · intro status hstatus hedge hvalid
        -- the store would have performed the write
        obtain ⟨record, s'', hok⟩ :=
          (hperforms input.now status _ (hunchanged.trans hstatus)).1 target data hedge hvalid
        rw [hresult] at hok
        cases hok

/-- A transition of a won effect, along an edge. -/
theorem ends_move {effect : EffectRecord} {target : EffectStatus} {data : Items}
    (hid : effect.effectId = e) (h : D.At e status effect.version t s)
    (hedge : isAllowed status target = true) :
    Always (broker store adapters) (D.Unchanged e) (NamedAnswers store adapters)
      (transitionAndRecord effect target data) t s fun t' s' result =>
        (AllPersistable D.Valid t' ↔ AllPersistable D.Valid t) ∧
          D.Moved e status effect.version target data t' s' result := by
  refine (ends_transition hid).mono fun t' s' result ⟨hpersistable, hresult⟩ => ⟨hpersistable, ?_⟩
  rcases hresult with ⟨after, hok, -, hvalid, hat⟩ | ⟨exc, herror, hname, hwon, hkept⟩
  · exact .inl ⟨after, hok, hvalid, hat⟩
  · obtain ⟨hstate, hinvalid⟩ := hkept h.won
    refine .inr ⟨exc, herror, hinvalid status h.state hedge, hname, hwon.mpr h.won, ?_⟩
    rw [hstate, h.state]

/-- The move of a won effect with data that can be written. -/
theorem ends_settle {effect : EffectRecord} {target : EffectStatus} {data : Items}
    (hid : effect.effectId = e) (h : D.At e status effect.version t s)
    (hedge : isAllowed status target = true) (hvalid : D.Valid data) :
    Always (broker store adapters) (D.Unchanged e) (NamedAnswers store adapters)
      (transitionAndRecord effect target data) t s fun t' s' _ =>
        (AllPersistable D.Valid t' ↔ AllPersistable D.Valid t) ∧
          ∃ version, D.At e target version t' s' := by
  refine (ends_move hid h hedge).mono fun t' s' result ⟨hpersistable, hmoved⟩ => ?_
  rcases hmoved with ⟨after, -, -, hat⟩ | ⟨exc, -, hinvalid, -⟩
  · exact ⟨hpersistable, after.version, hat⟩
  · exact absurd hvalid hinvalid

/-- An attempt of a won effect. -/
theorem ends_startAttempt {effect : EffectRecord} {workerId : Str} (hid : effect.effectId = e)
    (h : D.At e status effect.version t s) (hworker : Python.Encodable workerId) :
    Always (broker store adapters) (D.Unchanged e) (NamedAnswers store adapters)
      (Program.startAttempt effect.effectId effect.version workerId) t s fun t' s' result =>
        (AllPersistable D.Valid t' ↔ AllPersistable D.Valid t) ∧
          ∃ attemptId, result = .ok attemptId ∧ Python.Encodable attemptId ∧
            D.At e status effect.version t' s' := by
  subst hid
  refine always_startAttempt.mpr fun middle input hrely _ => ?_
  obtain ⟨hstate, hperforms⟩ := hrely h.won
  rw [h.state] at hstate
  obtain ⟨attemptId, after, hok⟩ := (hperforms input.now status _ hstate).2 workerId hworker
  rw [hok]
  refine ⟨?_, attemptId, rfl, D.startAttempt_ok hok, won_cons.mpr (.inr h.won), ?_⟩
  · rw [allPersistable_cons]
    exact ⟨fun h => h.2, fun h => ⟨trivial, h⟩⟩
  · have hkept : D.state (store.startAttempt middle.store input.now effect.effectId effect.version
        workerId).2 = D.state middle.store := D.startAttempt_state
    rw [hok] at hkept
    show D.state after effect.effectId = _
    rw [hkept, hstate]

/-! ## The worker -/

/-- The effect is won, and in nobody's hands. -/
def DurableStore.Placed (D : DurableStore store) (e : Str) (t : List (Exchange Response))
    (s : Shared Store Target) : Prop :=
  ∃ status version, D.At e status version t s ∧ status.isHeld = false

theorem DurableStore.Placed.settled (h : D.Placed e t s) : D.Settled e t s := by
  obtain ⟨status, version, hat, hheld⟩ := h
  exact fun _ => ⟨status, version, hat.state, hheld⟩

/-- Data of texts that can be encoded. -/
theorem valid_two {k k' : String} {v v' : Str} (h : Python.Encodable v) (h' : Python.Encodable v') :
    D.Valid [(text k, .str v), (text k', .str v')] := by
  refine D.valid_texts [(str k, v), (str k', v')] ?_
  simp only [List.forall_mem_cons, encodable_str, h, h', true_and]
  exact List.forall_mem_nil _

theorem valid_three {k k' k'' : String} {v v' v'' : Str} (h : Python.Encodable v)
    (h' : Python.Encodable v') (h'' : Python.Encodable v'') :
    D.Valid [(text k, .str v), (text k', .str v'), (text k'', .str v'')] := by
  refine D.valid_texts [(str k, v), (str k', v'), (str k'', v'')] ?_
  simp only [List.forall_mem_cons, encodable_str, h, h', h'', true_and]
  exact List.forall_mem_nil _

/-- The `try` block places the effect, or raises and leaves it where it is. -/
def DurableStore.Tried (D : DurableStore store) (e : Str) (version : Nat)
    (t : List (Exchange Response)) (s : Shared Store Target) : Except Exc EffectRecord → Prop
  | .ok _ => D.Placed e t s
  | .error exc => Python.Encodable exc.className ∧ D.At e .dispatching version t s

theorem ends_transitionCommitted {dispatching : EffectRecord} {attemptId : Str}
    {answer : DispatchReturn} (hid : dispatching.effectId = e)
    (h : D.At e .dispatching dispatching.version t s) (hexternal : Named answer.externalId)
    (houtput : Named answer.output) :
    Always (broker store adapters) (D.Unchanged e) (NamedAnswers store adapters)
      (transitionCommitted dispatching attemptId answer) t s
      (D.Tried e dispatching.version) := by
  refine always_bind.mpr (always_ofExcept.mpr ?_)
  cases hread : answer.externalId with
  | error exc => exact ⟨hexternal exc hread, h⟩
  | ok externalId =>
    refine always_bind.mpr (always_ofExcept.mpr ?_)
    cases hread : answer.output with
    | error exc => exact ⟨houtput exc hread, h⟩
    | ok output =>
      refine (ends_move hid h rfl).mono fun t' s' result ⟨_, hmoved⟩ => ?_
      rcases hmoved with ⟨after, rfl, -, hat⟩ | ⟨exc, rfl, -, hname, hat⟩
      · exact ⟨_, _, hat, rfl⟩
      · exact ⟨hname, hat⟩

theorem ends_callAndRecord {dispatching : EffectRecord} {attemptId : Str}
    (hid : dispatching.effectId = e) (h : D.At e .dispatching dispatching.version t s)
    (hattempt : Python.Encodable attemptId) :
    Always (broker store adapters) (D.Unchanged e) (NamedAnswers store adapters)
      (callAndRecord dispatching attemptId) t s (D.Tried e dispatching.version) := by
  refine always_bind.mpr (always_bind.mpr
    ((ends_outside rfl h).mono fun t₁ s₁ result hadapter => ?_))
  obtain ⟨built, rfl, rfl, hnamed, h₁⟩ := hadapter
  refine always_ofExcept.mpr ?_
  cases built with
  | error exc => exact ⟨hnamed exc rfl, h₁⟩
  | ok _ =>
    refine always_bind.mpr (always_bind.mpr
      ((ends_outside rfl h₁).mono fun t₂ s₂ result hdispatch => ?_))
    obtain ⟨answer, rfl, rfl, ⟨hraised, hreads⟩, h₂⟩ := hdispatch
    refine always_ofExcept.mpr ?_
    cases answer with
    | error exc => exact ⟨hraised exc rfl, h₂⟩
    | ok answer =>
      obtain ⟨hcommitted, hexternal, houtput⟩ := hreads answer rfl
      refine always_bind.mpr (always_ofExcept.mpr ?_)
      cases hread : answer.committed with
      | error exc => exact ⟨hcommitted exc hread, h₂⟩
      | ok committed =>
        cases committed with
        | true => exact ends_transitionCommitted hid h₂ hexternal houtput
        | false =>
          refine (ends_move hid h₂ rfl).mono fun t' s' result ⟨_, hmoved⟩ => ?_
          rcases hmoved with ⟨after, rfl, -, hat⟩ | ⟨exc, rfl, hinvalid, -⟩
          · exact ⟨_, _, hat, rfl⟩
          · exact absurd (valid_two hattempt (encodable_str _)) hinvalid

/-- The handlers place the effect. -/
theorem ends_recordFailure {dispatching : EffectRecord} {attemptId : Str} {exc : Exc}
    (hid : dispatching.effectId = e) (h : D.At e .dispatching dispatching.version t s)
    (hattempt : Python.Encodable attemptId) (hname : Python.Encodable exc.className) :
    Always (broker store adapters) (D.Unchanged e) (NamedAnswers store adapters)
      (recordFailure dispatching attemptId exc) t s fun t' s' _ => D.Placed e t' s' := by
  by_cases hadapter : exc.isAdapterError = true
  · rw [recordFailure, if_pos hadapter, transitionProvenNonCommit]
    have hedge : isAllowed .dispatching (nonCommitTarget dispatching attemptId) = true ∧
        (nonCommitTarget dispatching attemptId).isHeld = false := by
      unfold nonCommitTarget
      split
      · exact ⟨rfl, rfl⟩
      · exact ⟨rfl, rfl⟩
    refine (ends_settle hid h hedge.1 (valid_three hattempt hname (encodable_str _))).mono ?_
    rintro t' s' result ⟨-, version, hat⟩
    exact ⟨_, version, hat, hedge.2⟩
  · rw [recordFailure, if_neg hadapter]
    refine (ends_settle hid h rfl (valid_three hattempt hname (encodable_str _))).mono ?_
    rintro t' s' result ⟨-, version, hat⟩
    exact ⟨_, version, hat, rfl⟩

/-- The loop body, for the effect. -/
theorem ends_dispatchEffect {workerId : Str} {effect : EffectRecord} (hid : effect.effectId = e)
    (h : D.Settled e t s) :
    Always (broker store adapters) (D.Unchanged e) (NamedAnswers store adapters)
      (dispatchEffect workerId effect) t s fun t' s' _ => D.Settled e t' s' := by
  refine always_bind.mpr ((ends_transition hid).mono fun t₁ s₁ result ⟨_, hresult⟩ => ?_)
  rcases hresult with ⟨dispatching, rfl, hdispatching, hvalid, h₁⟩ | ⟨exc, rfl, -, hwon, hkept⟩
  · refine always_bind.mpr ((ends_startAttempt hdispatching h₁ (D.encodable_worker hvalid)).mono
      fun t₂ s₂ result ⟨_, attempt⟩ => ?_)
    obtain ⟨attemptId, rfl, hattempt, h₂⟩ := attempt
    refine always_bind.mpr ((ends_outside rfl h₂).mono fun t₃ s₃ result hrecorded => ?_)
    obtain ⟨_, rfl, rfl, -, h₃⟩ := hrecorded
    refine always_tryCatch.mpr ((ends_callAndRecord hdispatching h₃ hattempt).mono
      fun t₄ s₄ result htried => ?_)
    cases result with
    | ok after => exact htried.settled
    | error exc =>
      exact (ends_recordFailure hdispatching htried.2 hattempt htried.1).mono
        fun _ _ _ hplaced => hplaced.settled
  · -- a transition that raised has changed nothing
    intro hw
    obtain ⟨hstate, -⟩ := hkept (hwon.mp hw)
    rw [hstate]
    exact h (hwon.mp hw)

/-! ## Other effects of a batch -/

/-- They settle no less than was settled before. -/
theorem spares_settled : Spares store adapters (D.Unchanged e) (NamedAnswers store adapters) e
    (D.Settled e) := by
  intro r hr t s h
  refine always_request.mpr fun middle input hrely _ => ?_
  have hserved : ¬ Wins e ⟨r, (serve store adapters r input middle).1⟩ ∧
      D.state (serve store adapters r input middle).2.store e = D.state middle.store e ∧
      r.returns (serve store adapters r input middle).1 := by
    cases r with
    | transition effectId expectedVersion target data =>
      rcases hresult : store.transition middle.store input.now effectId expectedVersion target
        data with ⟨response, after⟩
      rw [serve_transition adapters hresult]
      cases response with
      | ok record =>
        obtain ⟨-, hrecord, hstate⟩ := D.transition_ok hresult
        refine ⟨hr, ?_, fun _ hok => ?_⟩
        · show D.state after e = _
          rw [hstate, Function.update_of_ne (Ne.symm hr)]
        · cases hok
          exact hrecord
      | error exc =>
        refine ⟨id, congrFun (D.transition_error hresult).1 e, fun _ herror => ?_⟩
        cases herror
    | startAttempt effectId expectedVersion workerId =>
      exact ⟨id, congrFun D.startAttempt_state e, trivial⟩
    | reserve | claimDue | get => cases hr
    | clock | adapterFor | dispatch | probe | record => exact ⟨id, rfl, trivial⟩
  obtain ⟨hwins, hstate, hreturns⟩ := hserved
  refine ⟨fun hwon => ?_, fun _ hok => ?_⟩
  · have hw : Won e t := (won_cons.mp hwon).resolve_left hwins
    show ∃ status version, D.state (serve store adapters r input middle).2.store e = _ ∧ _
    rw [hstate, (hrely hw).1]
    exact h hw
  · cases hok
    exact hreturns

/-! ## The loop -/

theorem ends_dispatchAll {workerId : Str} {claimed : List EffectRecord} (h : D.Settled e t s) :
    Always (broker store adapters) (D.Unchanged e) (NamedAnswers store adapters)
      (dispatchAll workerId claimed) t s fun t' s' _ => D.Settled e t' s' := by
  induction claimed generalizing t s with
  | nil => exact h
  | cons effect claimed ih =>
    have hbody : Always (broker store adapters) (D.Unchanged e) (NamedAnswers store adapters)
        (dispatchEffect workerId effect) t s fun t' s' _ => D.Settled e t' s' := by
      by_cases hid : effect.effectId = e
      · exact ends_dispatchEffect hid h
      · exact (spares_settled.dispatchEffect hid t s h).mono fun _ _ _ h => h.1
    refine always_bind.mpr (hbody.mono fun t' s' result hsettled => ?_)
    cases result with
    | error exc => exact hsettled
    | ok after =>
      refine always_bind.mpr ((ih hsettled).mono fun t'' s'' result' hsettled' => ?_)
      cases result' with
      | error exc => exact hsettled'
      | ok results => exact hsettled'

/-- **The worker strands nothing.** -/
theorem ends_dispatchOnce {workerId : Str} {now : Datetime} {leaseFor : Timedelta} {limit : Int} :
    Always (broker store adapters) (D.Unchanged e) (NamedAnswers store adapters)
      (dispatchOnce workerId now leaseFor limit) [] s fun t' s' _ => D.Settled e t' s' := by
  refine always_bind.mpr (always_bind.mpr (always_request.mpr fun middle input _ _ =>
    always_ofExcept.mpr ?_))
  have hnone : ∀ response : Except Exc (List EffectRecord),
      ¬ Won e [⟨.claimDue workerId now leaseFor limit, response⟩] := fun _ hwon =>
    (won_cons.mp hwon).elim id fun ⟨_, hm, _⟩ => List.not_mem_nil hm
  cases hclaimed : ((broker store adapters).exec (.claimDue workerId now leaseFor limit) input
    middle).1 with
  | error exc => exact fun hwon => absurd hwon (hnone _)
  | ok claimed => exact ends_dispatchAll fun hwon => absurd hwon (hnone _)

/-! ## The reconciler -/

/-- If the effect is won, then it is in nobody's hands just if every adapter gave an answer
that can be read and written. -/
def DurableStore.Decided (D : DurableStore store) (e : Str) (t : List (Exchange Response))
    (s : Shared Store Target) : Prop :=
  Won e t → ((∃ status version, D.state s.store e = some (status, version) ∧
    status.isHeld = false) ↔ AllPersistable D.Valid t)

theorem DurableStore.At.decided (h : D.At e status version t s)
    (hheld : status.isHeld = false ↔ AllPersistable D.Valid t) : D.Decided e t s := by
  intro _
  rw [← hheld]
  constructor
  · rintro ⟨status', version', hstate, hheld'⟩
    rw [h.state] at hstate
    cases hstate
    exact hheld'
  · exact fun hfree => ⟨status, version, h.state, hfree⟩

/-- The effect stays in the hands of the call. -/
theorem DurableStore.At.stranded (h : D.At e status version t s) (hheld : status.isHeld = true)
    (hbad : ¬ AllPersistable D.Valid t) : D.Decided e t s := by
  refine h.decided (iff_of_false ?_ hbad)
  rw [hheld]
  exact Bool.noConfusion

/-- A metric is recorded. -/
theorem ends_metric {metric : Metric} (h : D.At e status version t s) :
    Always (broker store adapters) (D.Unchanged e) (NamedAnswers store adapters)
      (Program.record metric) t s fun t' s' result => result = .ok () ∧
        (AllPersistable D.Valid t' ↔ AllPersistable D.Valid t) ∧ D.At e status version t' s' := by
  refine (ends_outside rfl h).mono fun t' s' result hrecorded => ?_
  obtain ⟨_, rfl, rfl, -, hat⟩ := hrecorded
  refine ⟨rfl, ?_, hat⟩
  rw [allPersistable_cons]
  exact ⟨fun h => h.2, fun h => ⟨trivial, h⟩⟩

/-- The last move of a reconciliation, of data that can be written just if every adapter gave
an answer that can. -/
theorem ends_lastMove {effect : EffectRecord} {target : EffectStatus} {data : Items}
    (hid : effect.effectId = e) (h : D.At e status effect.version t s)
    (hedge : isAllowed status target = true) (hheld : status.isHeld = true)
    (hfree : target.isHeld = false) (hdata : D.Valid data ↔ AllPersistable D.Valid t) :
    Always (broker store adapters) (D.Unchanged e) (NamedAnswers store adapters)
      (transitionAndRecord effect target data) t s fun t' s' _ => D.Decided e t' s' := by
  refine (ends_move hid h hedge).mono fun t' s' result ⟨hpersistable, hmoved⟩ => ?_
  rcases hmoved with ⟨after, -, hvalid, hat⟩ | ⟨exc, -, hinvalid, -, hat⟩
  · exact hat.decided (iff_of_true hfree (hpersistable.mpr (hdata.mp hvalid)))
  · exact hat.stranded hheld fun hall => hinvalid (hdata.mpr (hpersistable.mp hall))

/-- What follows a redispatch that returned. -/
theorem ends_recordRedispatch {dispatching : EffectRecord} {attemptId : Str}
    {answer : DispatchReturn} (hid : dispatching.effectId = e)
    (h : D.At e .dispatching dispatching.version t s) (hattempt : Python.Encodable attemptId)
    (hall : AllPersistable D.Valid t ↔
      Persistable D.Valid ⟨.dispatch dispatching attemptId, (.ok answer : Except Exc DispatchReturn)⟩) :
    Always (broker store adapters) (D.Unchanged e) (NamedAnswers store adapters)
      (recordRedispatch dispatching attemptId answer) t s fun t' s' _ => D.Decided e t' s' := by
  refine always_bind.mpr (always_ofExcept.mpr ?_)
  cases hcommitted : answer.committed with
  | error exc =>
    refine h.stranded rfl fun hgood => ?_
    obtain ⟨committed, hread, -⟩ := hall.mp hgood answer rfl
    rw [hcommitted] at hread
    cases hread
  | ok committed =>
    cases committed with
    | false =>
      refine always_bind.mpr ((ends_metric h).mono fun t₁ s₁ result hrecorded => ?_)
      obtain ⟨rfl, hpersistable, h₁⟩ := hrecorded
      refine ends_lastMove hid h₁ rfl rfl rfl (iff_of_true (valid_two hattempt (encodable_str _)) ?_)
      refine hpersistable.mpr (hall.mpr fun _ hok => ?_)
      cases hok
      exact ⟨false, hcommitted, fun h => nomatch h⟩
    | true =>
      -- the result is good just if its attributes can be read and written
      have hgood : AllPersistable D.Valid t ↔ ∃ externalId output,
          answer.externalId = .ok externalId ∧ answer.output = .ok output ∧
            D.Valid [(text "attempt_id", .str attemptId), (text "external_id", externalId),
              (text "output", .dict output)] := by
        rw [hall]
        constructor
        · intro hread
          obtain ⟨committed, hread, hvalid⟩ := hread answer rfl
          rw [hcommitted] at hread
          cases hread
          exact hvalid rfl
        · intro hvalid _ hok
          cases hok
          exact ⟨true, hcommitted, fun _ => hvalid⟩
      refine always_bind.mpr ((ends_metric h).mono fun t₁ s₁ result hrecorded => ?_)
      obtain ⟨rfl, hpersistable, h₁⟩ := hrecorded
      rw [hgood] at hpersistable
      refine always_bind.mpr (always_ofExcept.mpr ?_)
      cases hexternal : answer.externalId with
      | error exc =>
        refine h₁.stranded rfl fun hall₁ => ?_
        obtain ⟨externalId, output, hread, -⟩ := hpersistable.mp hall₁
        rw [hexternal] at hread
        cases hread
      | ok externalId =>
        refine always_bind.mpr (always_ofExcept.mpr ?_)
        cases houtput : answer.output with
        | error exc =>
          refine h₁.stranded rfl fun hall₁ => ?_
          obtain ⟨_, output, -, hread, -⟩ := hpersistable.mp hall₁
          rw [houtput] at hread
          cases hread
        | ok output =>
          refine ends_lastMove hid h₁ rfl rfl rfl (Iff.symm (hpersistable.trans ?_))
          rw [hexternal, houtput]
          constructor
          · rintro ⟨externalId', output', hread, hread', hvalid⟩
            cases hread
            cases hread'
            exact hvalid
          · exact fun hvalid => ⟨externalId, output, rfl, rfl, hvalid⟩

/-- What follows a redispatch that raised. -/
theorem ends_recordRedispatchFailure {dispatching : EffectRecord} {attemptId : Str} {exc : Exc}
    (hid : dispatching.effectId = e) (h : D.At e .dispatching dispatching.version t s)
    (hattempt : Python.Encodable attemptId) (hname : Python.Encodable exc.className)
    (hall : AllPersistable D.Valid t) :
    Always (broker store adapters) (D.Unchanged e) (NamedAnswers store adapters)
      (recordRedispatchFailure dispatching attemptId exc) t s fun t' s' _ => D.Decided e t' s' := by
  unfold recordRedispatchFailure
  split
  all_goals
    refine always_bind.mpr ((ends_metric h).mono fun t₁ s₁ result hrecorded => ?_)
    obtain ⟨rfl, hpersistable, h₁⟩ := hrecorded
    exact ends_lastMove hid h₁ rfl rfl rfl
      (iff_of_true (valid_three hattempt hname (encodable_str _)) (hpersistable.mpr hall))

/-- What is known of an effect before the call has won it. -/
def DurableStore.Unwon (D : DurableStore store) (e : Str) (t : List (Exchange Response)) : Prop :=
  ¬ Won e t ∧ AllPersistable D.Valid t

theorem DurableStore.Unwon.decided (h : D.Unwon e t) : D.Decided e t s :=
  fun hwon => absurd hwon h.1

/-- A request that only reads, or that nothing reads, wins no effect. -/
theorem keeps_unwon {r : Request} (hwins : ∀ response, ¬ Wins e ⟨r, response⟩)
    (hpersistable : ∀ response, Persistable D.Valid ⟨r, response⟩) :
    Keeps (broker store adapters) (D.Unchanged e) (NamedAnswers store adapters)
      (fun t _ => D.Unwon e t) (Coroutine.request r) fun _ => True :=
  fun _ _ h => always_request.mpr fun _ _ _ _ =>
    ⟨⟨fun hwon => (won_cons.mp hwon).elim (hwins _) h.1,
      allPersistable_cons.mpr ⟨hpersistable _, h.2⟩⟩, fun _ _ => trivial⟩

theorem unwon_record {metric : Metric} :
    Keeps (broker store adapters) (D.Unchanged e) (NamedAnswers store adapters)
      (fun t _ => D.Unwon e t) (Program.record metric) fun _ => True :=
  keeps_unwon (fun _ => id) fun _ => trivial

theorem unwon_clock : Keeps (broker store adapters) (D.Unchanged e) (NamedAnswers store adapters)
    (fun t _ => D.Unwon e t) Program.clock fun _ => True :=
  keeps_unwon (fun _ => id) fun _ => trivial

/-- The first transition of a reconciliation: it wins the effect, or nothing. -/
theorem ends_firstMove {effect : EffectRecord} {target : EffectStatus} {data : Items}
    (hid : effect.effectId = e) (h : D.Unwon e t) :
    Always (broker store adapters) (D.Unchanged e) (NamedAnswers store adapters)
      (transitionAndRecord effect target data) t s fun t' s' result =>
        AllPersistable D.Valid t' ∧
        ((∃ after, result = .ok after ∧ after.effectId = e ∧ D.At e target after.version t' s') ∨
          ∃ exc, result = .error exc ∧ D.Unwon e t') := by
  refine (ends_transition hid).mono fun t' s' result ⟨hpersistable, hresult⟩ => ?_
  have hall := hpersistable.mpr h.2
  rcases hresult with ⟨after, hok, hafter, -, hat⟩ | ⟨exc, herror, -, hwon, -⟩
  · exact ⟨hall, .inl ⟨after, hok, hafter, hat⟩⟩
  · exact ⟨hall, .inr ⟨exc, herror, fun hw => h.1 (hwon.mp hw), hall⟩⟩

/-- A transition out of everybody's hands, which is all that a reconciliation does. -/
theorem ends_onlyMove {effect : EffectRecord} {target : EffectStatus} {data : Items}
    (hid : effect.effectId = e) (hfree : target.isHeld = false) (h : D.Unwon e t) :
    Always (broker store adapters) (D.Unchanged e) (NamedAnswers store adapters)
      (transitionAndRecord effect target data) t s fun t' s' _ => D.Decided e t' s' := by
  refine (ends_firstMove hid h).mono fun t' s' result ⟨hall, hresult⟩ => ?_
  rcases hresult with ⟨after, -, -, hat⟩ | ⟨exc, -, hunwon⟩
  · exact hat.decided (iff_of_true hfree hall)
  · exact hunwon.decided

theorem ends_redispatch {effect : EffectRecord} (hid : effect.effectId = e) (h : D.Unwon e t) :
    Always (broker store adapters) (D.Unchanged e) (NamedAnswers store adapters)
      (redispatch effect) t s fun t' s' _ => D.Decided e t' s' := by
  have hremaining : Keeps (broker store adapters) (D.Unchanged e) (NamedAnswers store adapters)
      (fun t _ => D.Unwon e t) (recordRetentionRemaining effect) fun _ => True :=
    keeps_recordRetentionRemaining (fun _ => unwon_record) unwon_clock
  refine always_bind.mpr ((hremaining t s h).mono fun t₁ s₁ result ⟨h₁, _⟩ => ?_)
  cases result with
  | error exc => exact h₁.decided
  | ok _ =>
  refine always_bind.mpr ((keeps_keyRetentionValid unwon_clock t₁ s₁ h₁).mono
    fun t₂ s₂ result ⟨h₂, _⟩ => ?_)
  cases result with
  | error exc => exact h₂.decided
  | ok valid =>
  cases valid with
  | false =>
    refine always_bind.mpr ((unwon_record t₂ s₂ h₂).mono fun t₃ s₃ result ⟨h₃, _⟩ => ?_)
    cases result with
    | error exc => exact h₃.decided
    | ok _ => exact ends_onlyMove hid rfl h₃
  | true =>
    refine always_bind.mpr ((ends_firstMove hid h₂).mono fun t₃ s₃ result ⟨hall, hresult⟩ => ?_)
    rcases hresult with ⟨dispatching, rfl, hdispatching, h₃⟩ | ⟨exc, rfl, hunwon⟩
    · refine always_bind.mpr ((ends_startAttempt hdispatching h₃ (encodable_str _)).mono
        fun t₄ s₄ result ⟨hpersistable, hstarted⟩ => ?_)
      obtain ⟨attemptId, rfl, hattempt, h₄⟩ := hstarted
      have hall₄ := hpersistable.mpr hall
      refine always_bind.mpr ((ends_metric h₄).mono fun t₅ s₅ result hrecorded => ?_)
      obtain ⟨rfl, hpersistable, h₅⟩ := hrecorded
      have hall₅ := hpersistable.mpr hall₄
      refine always_bind.mpr (always_bind.mpr
        ((ends_outside rfl h₅).mono fun t₆ s₆ result hadapter => ?_))
      obtain ⟨built, rfl, rfl, -, h₆⟩ := hadapter
      refine always_ofExcept.mpr ?_
      cases built with
      | error exc =>
        -- the exception escapes, and nothing moves the effect on
        refine h₆.stranded rfl fun hall₆ => ?_
        have hbuilt : (.error exc : Except Exc Unit) = .ok () := (allPersistable_cons.mp hall₆).1
        cases hbuilt
      | ok _ =>
        refine always_bind.mpr ((ends_outside rfl h₆).mono fun t₇ s₇ result hdispatch => ?_)
        obtain ⟨answer, rfl, rfl, ⟨hraised, -⟩, h₇⟩ := hdispatch
        have hbuilt : AllPersistable D.Valid
            (⟨.adapterFor dispatching, (.ok () : Except Exc Unit)⟩ :: t₅) :=
          allPersistable_cons.mpr ⟨rfl, hall₅⟩
        cases answer with
        | ok answer =>
          refine ends_recordRedispatch hdispatching h₇ hattempt ?_
          rw [allPersistable_cons]
          exact ⟨fun h => h.1, fun h => ⟨h, hbuilt⟩⟩
        | error exc =>
          refine ends_recordRedispatchFailure hdispatching h₇ hattempt (hraised exc rfl) ?_
          exact allPersistable_cons.mpr ⟨fun _ hok => (nomatch hok), hbuilt⟩
    · exact hunwon.decided

theorem persistable_probe {Valid : Items → Prop} {reconciling : EffectRecord} {probe : ProbeReturn}
    {found : ReportedStatus} (hstatus : probe.status = .ok found) :
    Persistable Valid ⟨.probe reconciling, (.ok probe : Except Exc ProbeReturn)⟩ ↔
      ∃ evidence, probe.evidence = .ok evidence ∧ ProbeValid Valid probe evidence found := by
  constructor
  · rintro ⟨answer, status, evidence, hok, hread, hevidence, hvalid⟩
    cases hok
    rw [hstatus] at hread
    cases hread
    exact ⟨evidence, hevidence, hvalid⟩
  · rintro ⟨evidence, hevidence, hvalid⟩
    exact ⟨probe, found, evidence, rfl, hstatus, hevidence, hvalid⟩

/-- What follows a probe that returned. -/
theorem ends_recordProbe {reconciling : EffectRecord} {probe : ProbeReturn}
    (hid : reconciling.effectId = e) (h : D.At e .reconciling reconciling.version t s)
    (hall : AllPersistable D.Valid t ↔
      Persistable D.Valid ⟨.probe reconciling, (.ok probe : Except Exc ProbeReturn)⟩) :
    Always (broker store adapters) (D.Unchanged e) (NamedAnswers store adapters)
      (recordProbe reconciling probe) t s fun t' s' _ => D.Decided e t' s' := by
  refine always_bind.mpr (always_ofExcept.mpr ?_)
  cases hstatus : probe.status with
  | error exc =>
    refine h.stranded rfl fun hgood => ?_
    obtain ⟨answer, status, evidence, hok, hread, -⟩ := hall.mp hgood
    cases hok
    rw [hstatus] at hread
    cases hread
  | ok status =>
    refine always_bind.mpr ((ends_metric h).mono fun t₁ s₁ result hrecorded => ?_)
    obtain ⟨rfl, hpersistable, h₁⟩ := hrecorded
    have hgood := hpersistable.trans (hall.trans (persistable_probe hstatus))
    -- the last move, once the evidence is read
    have moves : ∀ {target : EffectStatus} {data : Items → Items},
        isAllowed .reconciling target = true → target.isHeld = false →
        (AllPersistable D.Valid t₁ ↔ ∃ evidence, probe.evidence = .ok evidence ∧
          D.Valid (data evidence)) →
        Always (broker store adapters) (D.Unchanged e) (NamedAnswers store adapters)
          (do let evidence ← Coroutine.ofExcept probe.evidence
              transitionAndRecord reconciling target (data evidence)) t₁ s₁
          fun t' s' _ => D.Decided e t' s' := by
      intro target data hedge hfree hread
      refine always_bind.mpr (always_ofExcept.mpr ?_)
      cases hevidence : probe.evidence with
      | error exc =>
        refine h₁.stranded rfl fun hall₁ => ?_
        obtain ⟨evidence, hok, -⟩ := hread.mp hall₁
        rw [hevidence] at hok
        cases hok
      | ok evidence =>
        refine ends_lastMove hid h₁ hedge rfl hfree (Iff.symm (hread.trans ?_))
        rw [hevidence]
        constructor
        · rintro ⟨evidence', hok, hvalid⟩
          cases hok
          exact hvalid
        · exact fun hvalid => ⟨evidence, rfl, hvalid⟩
    cases status with
    | foreign label => exact moves rfl rfl hgood
    | known status =>
      cases status with
      | notCommitted => exact moves rfl rfl hgood
      | unknown => exact moves rfl rfl hgood
      | committed =>
        refine always_bind.mpr (always_ofExcept.mpr ?_)
        cases hexternal : probe.externalId with
        | error exc =>
          refine h₁.stranded rfl fun hall₁ => ?_
          obtain ⟨_, -, externalId, output, hread, -⟩ := hgood.mp hall₁
          rw [hexternal] at hread
          cases hread
        | ok externalId =>
          refine always_bind.mpr (always_ofExcept.mpr ?_)
          cases houtput : probe.output with
          | error exc =>
            refine h₁.stranded rfl fun hall₁ => ?_
            obtain ⟨_, -, _, output, -, hread, -⟩ := hgood.mp hall₁
            rw [houtput] at hread
            cases hread
          | ok output =>
            refine moves rfl rfl (hgood.trans (exists_congr fun evidence => and_congr_right
              fun _ => ?_))
            constructor
            · rintro ⟨externalId', output', hread, hread', hvalid⟩
              rw [hexternal] at hread
              rw [houtput] at hread'
              cases hread
              cases hread'
              exact hvalid
            · exact fun hvalid => ⟨externalId, output, hexternal, houtput, hvalid⟩

theorem ends_probeTarget {effect : EffectRecord} (hid : effect.effectId = e) (h : D.Unwon e t) :
    Always (broker store adapters) (D.Unchanged e) (NamedAnswers store adapters)
      (probeTarget effect) t s fun t' s' _ => D.Decided e t' s' := by
  refine always_bind.mpr ((ends_firstMove hid h).mono fun t₁ s₁ result ⟨hall, hresult⟩ => ?_)
  rcases hresult with ⟨reconciling, rfl, hreconciling, h₁⟩ | ⟨exc, rfl, hunwon⟩
  · refine always_bind.mpr (always_bind.mpr
      ((ends_outside rfl h₁).mono fun t₂ s₂ result hadapter => ?_))
    obtain ⟨built, rfl, rfl, -, h₂⟩ := hadapter
    refine always_ofExcept.mpr ?_
    cases built with
    | error exc =>
      refine h₂.stranded rfl fun hall₂ => ?_
      have hbuilt : (.error exc : Except Exc Unit) = .ok () := (allPersistable_cons.mp hall₂).1
      cases hbuilt
    | ok _ =>
      have hbuilt : AllPersistable D.Valid
          (⟨.adapterFor reconciling, (.ok () : Except Exc Unit)⟩ :: t₁) :=
        allPersistable_cons.mpr ⟨rfl, hall⟩
      refine always_bind.mpr (always_bind.mpr
        ((ends_outside rfl h₂).mono fun t₃ s₃ result hprobe => ?_))
      obtain ⟨answer, rfl, rfl, -, h₃⟩ := hprobe
      refine always_ofExcept.mpr ?_
      cases answer with
      | error exc =>
        refine h₃.stranded rfl fun hall₃ => ?_
        obtain ⟨probe, _, _, hok, -⟩ := (allPersistable_cons.mp hall₃).1
        cases hok
      | ok probe =>
        refine ends_recordProbe hreconciling h₃ ?_
        rw [allPersistable_cons]
        exact ⟨fun h => h.1, fun h => ⟨h, hbuilt⟩⟩
  · exact hunwon.decided

theorem ends_handOver {effect : EffectRecord} (hid : effect.effectId = e) (h : D.Unwon e t) :
    Always (broker store adapters) (D.Unchanged e) (NamedAnswers store adapters)
      (handOver effect) t s fun t' s' _ => D.Decided e t' s' := by
  refine always_bind.mpr ((unwon_record t s h).mono fun t₁ s₁ result ⟨h₁, _⟩ => ?_)
  cases result with
  | error exc => exact h₁.decided
  | ok _ => exact ends_onlyMove hid rfl h₁

/-- **When the reconciler strands an effect.** -/
theorem ends_reconcileOnce {effect : EffectRecord} :
    Always (broker store adapters) (D.Unchanged effect.effectId) (NamedAnswers store adapters)
      (reconcileOnce effect) [] s fun t' s' _ => D.Decided effect.effectId t' s' := by
  have hunwon : D.Unwon effect.effectId [] :=
    ⟨fun ⟨_, hm, _⟩ => List.not_mem_nil hm, List.forall_mem_nil _⟩
  unfold reconcileOnce
  split
  · exact ends_redispatch rfl hunwon
  · exact ends_probeTarget rfl hunwon
  · exact ends_handOver rfl hunwon

end

/-- **When a call strands an effect that it has won.**  The worker never does; the reconciler
does unless every adapter gives an answer that can be read and written. -/
theorem stranded_iff (D : DurableStore store) (adapters : Adapters Target Decision) (e : Str)
    (t : List (Exchange Response)) (s s' : Shared Store Target) :
    (∀ workerId now leaseFor limit result,
      Runs (broker store adapters) (D.Unchanged e) (NamedAnswers store adapters)
        (dispatchOnce workerId now leaseFor limit) [] s t s' result → Won e t →
      ∃ status version, D.state s'.store e = some (status, version) ∧ status.isHeld = false) ∧
    ∀ (effect : EffectRecord) (result : Except Exc EffectRecord), effect.effectId = e →
      Runs (broker store adapters) (D.Unchanged e) (NamedAnswers store adapters)
        (reconcileOnce effect) [] s t s' result → Won e t →
      ((∃ status version, D.state s'.store e = some (status, version) ∧ status.isHeld = false) ↔
        AllPersistable D.Valid t) := by
  constructor
  · intro workerId now leaseFor limit result hruns hwon
    exact hruns.satisfies ends_dispatchOnce hwon
  · rintro effect result rfl hruns hwon
    exact hruns.satisfies ends_reconcileOnce hwon

end

/-! ## A stranded effect -/

/-- What adapters answer that raise exceptions with these names. -/
theorem namedAnswers_any {Store : Type} {store : EffectStore Store}
    {input : Surroundings AnyAnswer} (hadapter : Named input.decision.adapterFor)
    (hdispatch : NamedAnswer (.dispatch (sampleEffect (sampleContract .idempotent 0) .prepared 0) [])
      input.decision.dispatch) : NamedAnswers store anyAdapters input := by
  intro r s
  cases r with
  | adapterFor effect => exact hadapter
  | dispatch effect attemptId => exact hdispatch
  | reserve | claimDue | startAttempt | transition | get | clock | probe | record => trivial

/-- The dispatch times out, and then no adapter can be built. -/
def unbuilt : Surroundings AnyAnswer :=
  ⟨sampleTime 0, str "1", .error (.runtimeError []), .error (.other (str "TimeoutError") []),
    .error .overflowError⟩

/-- The effect has been reserved, in tables. -/
def doubtfulWorld : World Response Exc Procedure Reply (Shared SqliteStore Unit) :=
  (sqliteBroker anyAdapters).after (World.initial (.initialSqlite sampleHashes sampleKeys ()))
    (submitSample 0 (sampleContract .idempotent 0) unbuilt ++
      claimSample 1 (sampleTime 0) ⟨sampleTime 0, str "1", .ok (),
        .error (.other (str "TimeoutError") []), .error .overflowError⟩ ++
      List.replicate 3 (.answer 1 unbuilt))

theorem doubtfulWorld_reachable :
    (sqliteBroker anyAdapters).Reachable (.initialSqlite sampleHashes sampleKeys ())
      doubtfulWorld :=
  System.reachableFrom_after _ _ _

/-- The effect, as it is read. -/
def doubtfulEffect : EffectRecord :=
  ((doubtfulWorld.shared.store.get sampleTenant (str "eff_1")).toOption.bind id).getD
    (sampleEffect (sampleContract .idempotent 0) .outcomeUnknown 3)

/-- A program runs alone over a SQLite database, and the surroundings answer so throughout. -/
def soloTrace {α : Type} (p : Program α) (input : Surroundings AnyAnswer)
    (s : Shared SqliteStore Unit) : List (Exchange Response) :=
  p.exchanged (fun r s => (sqliteBroker anyAdapters).exec r input s) s []

/-- What it leaves. -/
def soloEnd {α : Type} (p : Program α) (input : Surroundings AnyAnswer)
    (s : Shared SqliteStore Unit) : Except Exc α × Shared SqliteStore Unit :=
  p.evaluate (fun r s => (sqliteBroker anyAdapters).exec r input s) s

/-- The tables have room throughout, and adapters raise what has a name. -/
theorem solo_runs {α : Type} {p : Program α} {input : Surroundings AnyAnswer}
    {s : Shared SqliteStore Unit} {e : Str} (hnamed : NamedAnswers sqliteStore anyAdapters input)
    (hroom : ∀ s' ∈ p.visited (fun r s => (sqliteBroker anyAdapters).exec r input s) s,
      s'.store.Roomy e) :
    Runs (sqliteBroker anyAdapters) (sqliteDurable.Unchanged e)
      (NamedAnswers sqliteStore anyAdapters) p [] s (soloTrace p input s) (soloEnd p input s).2
      (soloEnd p input s).1 :=
  runs_exchanged hnamed _ _ _ fun s' hm _ _ => ⟨rfl, sqlite_performs (hroom s' hm)⟩

theorem unbuilt_named : NamedAnswers sqliteStore anyAdapters unbuilt := by
  refine namedAnswers_any (fun exc hexc => ?_) ⟨fun exc hexc => ?_, fun _ hok => nomatch hok⟩
  · cases hexc
    exact encodable_str _
  · cases hexc
    exact encodable_str _

theorem doubtful_runs : Runs (sqliteBroker anyAdapters)
    (sqliteDurable.Unchanged doubtfulEffect.effectId) (NamedAnswers sqliteStore anyAdapters)
    (reconcileOnce doubtfulEffect) [] doubtfulWorld.shared
    (soloTrace (reconcileOnce doubtfulEffect) unbuilt doubtfulWorld.shared)
    (soloEnd (reconcileOnce doubtfulEffect) unbuilt doubtfulWorld.shared).2
    (soloEnd (reconcileOnce doubtfulEffect) unbuilt doubtfulWorld.shared).1 :=
  solo_runs unbuilt_named (by decide +kernel)

/-- The effect is still in the hands of the call that has ended. -/
theorem doubtful_held : ¬ ∃ status version, sqliteDurable.state
      (soloEnd (reconcileOnce doubtfulEffect) unbuilt doubtfulWorld.shared).2.store
      doubtfulEffect.effectId = some (status, version) ∧ status.isHeld = false := by
  have hstate : sqliteDurable.state
      (soloEnd (reconcileOnce doubtfulEffect) unbuilt doubtfulWorld.shared).2.store
      doubtfulEffect.effectId = some (.dispatching, 4) := by
    decide +kernel
  rintro ⟨status, version, hfree, hheld⟩
  rw [hstate] at hfree
  cases hfree
  cases hheld

theorem doubtful_get : doubtfulWorld.shared.store.get sampleTenant doubtfulEffect.effectId =
    .ok (some doubtfulEffect) := by
  have hid : doubtfulEffect.effectId = str "eff_1" := by decide +kernel
  have hfound : ((doubtfulWorld.shared.store.get sampleTenant (str "eff_1")).toOption.bind id).isSome =
      true := by
    decide +kernel
  rw [hid]
  unfold doubtfulEffect
  cases hget : doubtfulWorld.shared.store.get sampleTenant (str "eff_1") with
  | error exc =>
    rw [hget] at hfound
    cases hfound
  | ok found =>
    rw [hget] at hfound
    obtain ⟨effect, heffect⟩ := Option.isSome_iff_exists.mp hfound
    obtain rfl : found = some effect := heffect
    rfl

/-- `adapter_for` raises within `reconcile_once`, and the effect stays in `dispatching`. -/
theorem reconciler_strands : ∃ (w : World Response Exc Procedure Reply (Shared SqliteStore Unit))
      (effect : EffectRecord) (t : List (Exchange Response)) (s' : Shared SqliteStore Unit)
      (result : Except Exc EffectRecord),
    (sqliteBroker anyAdapters).Reachable (.initialSqlite sampleHashes sampleKeys ()) w ∧
    w.shared.store.get sampleTenant effect.effectId = .ok (some effect) ∧ effect.contract.Valid ∧
    Runs (sqliteBroker anyAdapters) (sqliteDurable.Unchanged effect.effectId)
      (NamedAnswers sqliteStore anyAdapters) (reconcileOnce effect) [] w.shared t s' result ∧
    Won effect.effectId t ∧
    ¬ ∃ status version, sqliteDurable.state s'.store effect.effectId = some (status, version) ∧
      status.isHeld = false :=
  ⟨doubtfulWorld, doubtfulEffect, _, _, _, doubtfulWorld_reachable, doubtful_get,
    by decide +kernel, doubtful_runs,
    by decide +kernel, doubtful_held⟩

/-- The adapter returns what no ledger can write. -/
def unwritable : Surroundings AnyAnswer :=
  ⟨sampleTime 0, str "1", .ok (), .ok ⟨.ok true, .ok .none, .ok [(.int 1, .none)]⟩,
    .error .overflowError⟩

/-- The worker places an effect whose output cannot be written; the reconciler, for which no
adapter can be built, does not place one. -/
theorem stranded_iff_sample :
    (∃ status version, sqliteDurable.state
      (soloEnd (dispatchOnce (str "w") (sampleTime 0) .zero 1) unwritable
        (reservedWorld (sampleContract .idempotent 0)).shared).2.store (str "eff_1") =
          some (status, version) ∧ status.isHeld = false) ∧
    ¬ AllPersistable sqliteDurable.Valid
      (soloTrace (reconcileOnce doubtfulEffect) unbuilt doubtfulWorld.shared) := by
  constructor
  · have hnamed : NamedAnswers sqliteStore anyAdapters unwritable := by
      refine namedAnswers_any (fun _ h => nomatch h) ⟨fun _ h => (nomatch h), fun _ hok => ?_⟩
      cases hok
      exact ⟨fun _ h => (nomatch h), fun _ h => (nomatch h), fun _ h => (nomatch h)⟩
    exact (stranded_iff sqliteDurable anyAdapters (str "eff_1") _ _ _).1 _ _ _ _ _
      (solo_runs hnamed (by decide +kernel)) (by decide +kernel)
  · have hiff := (stranded_iff sqliteDurable anyAdapters doubtfulEffect.effectId _ _ _).2
      doubtfulEffect _ rfl doubtful_runs (by decide +kernel)
    exact fun hall => doubtful_held (hiff.mpr hall)

end EffectBroker
