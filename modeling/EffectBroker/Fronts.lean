import EffectBroker.RelyGuarantee

/-!
# Fronts of systems

A front takes tasks of its own.  It answers some of them at once, some by one read of the
shared state, and hands the others on to a system behind it, and renders their results.
`reachable_front` says that a front adds nothing: what is behind it in a reachable world is a
reachable world of the system, with the same shared state, and every result that a caller of
the front gets is the front's own, or rendered from one of the system.
-/
namespace Concurrency

/-- What becomes of a task of a front. -/
inductive Admission {Read : Type} (ReadResponse : Read → Type) (ε Value' Task Value : Type) where
  | answered (result : Except ε Value')
  | reads (query : Read) (reply : ReadResponse query → Except ε Value')
  | handed (task : Task) (render : Except ε Value → Except ε Value')

section
variable {Request Read : Type} {Response : Request → Type} {ReadResponse : Read → Type}
  {ε Task Task' Value Value' Shared Input : Type}

/-- The task that is handed on. -/
def Admission.task? : Admission ReadResponse ε Value' Task Value → Option Task
  | .handed task _ => some task
  | _ => none

/-- Run `p` behind a front, and end with what `render` makes of its result. -/
def Coroutine.rendered (render : Except ε Value → Except ε Value') :
    Coroutine Response ε Value → Coroutine (Sum.elim Response ReadResponse) ε Value'
  | .done value => .ofExcept (render (.ok value))
  | .raised exc => .ofExcept (render (.error exc))
  | .await r resume => .await (.inl r) fun response => (resume response).rendered render

/-- How a caller has ended. -/
def Caller.result? : Caller Response ε Value → Option (Except ε Value)
  | .running (.done value) => some (.ok value)
  | .running (.raised exc) => some (.error exc)
  | _ => none

theorem Caller.result?_ofExcept (result : Except ε Value) :
    (Caller.running (.ofExcept result) : Caller Response ε Value).result? = some result := by
  cases result <;> rfl

theorem Caller.result?_rendered (render : Except ε Value → Except ε Value')
    (p : Coroutine Response ε Value) :
    (Caller.running (p.rendered render) :
        Caller (Sum.elim Response ReadResponse) ε Value').result? =
      (Caller.running p).result?.map render := by
  cases p with
  | done | raised => exact Caller.result?_ofExcept _
  | await => rfl

/-- A system with a front. -/
def System.front (S : System Response ε Task Value Shared Input)
    (read : (query : Read) → Shared → ReadResponse query)
    (admits : Task' → Admission ReadResponse ε Value' Task Value) :
    System (Sum.elim Response ReadResponse) ε Task' Value' Shared Input where
  program task := match admits task with
    | .answered result => .ofExcept result
    | .reads query reply => .await (.inr query) fun response => .ofExcept (reply response)
    | .handed task render => (S.program task).rendered render
  external
    | .inl r => S.external r
    | .inr _ => false
  exec
    | .inl r, input, shared => S.exec r input shared
    | .inr query, _, shared => (read query shared, shared)
  disturb := S.disturb

/-- The task of a caller. -/
def taskIn : List (Event Response Task) → Nat → Option Task
  | [], _ => none
  | .called d task :: log, c => if c = d then some task else taskIn log c
  | _ :: log, c => taskIn log c

theorem mem_of_taskIn {log : List (Event Response Task)} {c : Nat} {task : Task}
    (h : taskIn log c = some task) : .called c task ∈ log := by
  induction log with
  | nil => cases h
  | cons event log ih =>
    cases event with
    | called d task' =>
      unfold taskIn at h
      by_cases hd : c = d
      · rw [if_pos hd] at h
        cases h
        exact hd ▸ List.mem_cons_self ..
      · rw [if_neg hd] at h
        exact List.mem_cons_of_mem _ (ih h)
    | began | landed | answered | stopped => exact List.mem_cons_of_mem _ (ih h)

theorem taskIn_of_called {log : List (Event Response Task)} {c : Nat} {task : Task}
    (h : .called c task ∈ log) : ∃ task', taskIn log c = some task' := by
  induction log with
  | nil => cases h
  | cons event log ih =>
    cases event with
    | called d task' =>
      by_cases hd : c = d
      · exact ⟨task', if_pos hd⟩
      · obtain ⟨found, hfound⟩ := ih ((List.mem_cons.mp h).resolve_left fun heq => by
          cases heq
          exact hd rfl)
        exact ⟨found, (if_neg hd).trans hfound⟩
    | began | landed | answered | stopped =>
      exact ih ((List.mem_cons.mp h).resolve_left fun heq => by cases heq)

/-- The local state of a caller is about its task. -/
theorem taskIn_of_localOf {Local : Type} {P : Protocol Response Task Local} (taskOf : Local → Task)
    (hstart : ∀ task, taskOf (P.start task) = task)
    (hafter : ∀ l r response, taskOf (P.after l r response) = taskOf l)
    {log : List (Event Response Task)} {c : Nat} {l : Local} (h : localOf P log c = some l) :
    taskIn log c = some (taskOf l) := by
  induction log generalizing l with
  | nil => cases h
  | cons event log ih =>
    cases event with
    | called d task =>
      unfold localOf at h
      unfold taskIn
      by_cases hd : c = d
      · rw [if_pos hd] at h ⊢
        cases h
        rw [hstart]
      · rw [if_neg hd] at h ⊢
        exact ih h
    | answered d r response =>
      unfold localOf at h
      by_cases hd : c = d
      · rw [if_pos hd] at h
        obtain ⟨l', hl', rfl⟩ := Option.map_eq_some_iff.mp h
        rw [hafter]
        exact ih hl'
      · rw [if_neg hd] at h
        exact ih h
    | began | landed | stopped => exact ih h

section
variable (admits : Task' → Admission ReadResponse ε Value' Task Value)

/-- The task that a caller hands on. -/
def handedIn (log : List (Event (Sum.elim Response ReadResponse) Task')) (c : Nat) : Option Task :=
  (taskIn log c).bind fun task => (admits task).task?

/-- What the system behind a front sees of a log. -/
def behind : List (Event (Sum.elim Response ReadResponse) Task') → List (Event Response Task)
  | [] => []
  | .called c task :: log => match admits task with
    | .handed task _ => .called c task :: behind log
    | _ => behind log
  | .began c (.inl r) :: log => .began c r :: behind log
  | .landed c (.inl r) :: log => .landed c r :: behind log
  | .answered c (.inl r) response :: log => .answered c r response :: behind log
  | .stopped c :: log => if (handedIn admits log c).isSome then .stopped c :: behind log else behind log
  | _ :: log => behind log

/-- What a caller of a front is to the system behind it. -/
inductive Fronts (log : List (Event (Sum.elim Response ReadResponse) Task')) (c : Nat) :
    Caller (Sum.elim Response ReadResponse) ε Value' → Caller Response ε Value → Prop
  | absent : taskIn log c = none → Fronts log c .absent .absent
  | answered {task result} : taskIn log c = some task → admits task = .answered result →
      Fronts log c (.running (.ofExcept result)) .absent
  | reading {task query reply} : taskIn log c = some task → admits task = .reads query reply →
      Fronts log c (.running (.await (.inr query) fun response => .ofExcept (reply response))) .absent
  | read {task query reply response} : taskIn log c = some task → admits task = .reads query reply →
      .answered c (.inr query) response ∈ log → Fronts log c (.running (.ofExcept (reply response))) .absent
  | handed {task task' render p} : taskIn log c = some task → admits task = .handed task' render →
      Fronts log c (.running (p.rendered render)) (.running p)
  | gone : handedIn admits log c = none → Fronts log c .stopped .absent
  | stopped : (handedIn admits log c).isSome = true → Fronts log c .stopped .stopped

end

variable {admits : Task' → Admission ReadResponse ε Value' Task Value}
  {log log' : List (Event (Sum.elim Response ReadResponse) Task')} {c : Nat}
  {caller : Caller (Sum.elim Response ReadResponse) ε Value'} {caller' : Caller Response ε Value}

/-- What others do changes nothing. -/
theorem Fronts.frame (h : Fronts admits log c caller caller') (htask : taskIn log' c = taskIn log c)
    (hlog : log ⊆ log') : Fronts admits log' c caller caller' := by
  have hhands : handedIn admits log' c = handedIn admits log c := by
    unfold handedIn
    rw [htask]
  cases h with
  | absent h => exact .absent (htask.trans h)
  | answered h hadmits => exact .answered (htask.trans h) hadmits
  | reading h hadmits => exact .reading (htask.trans h) hadmits
  | read h hadmits hm => exact .read (htask.trans h) hadmits (hlog hm)
  | handed h hadmits => exact .handed (htask.trans h) hadmits
  | gone h => exact .gone (hhands.trans h)
  | stopped h => exact .stopped (hhands ▸ h)

theorem ofExcept_ne_await {result : Except ε Value} {r : Request}
    {resume : Response r → Coroutine Response ε Value} :
    Coroutine.ofExcept result ≠ .await r resume := by
  cases result <;> exact fun h => by cases h

/-- A caller that awaits the system is behind the front as well. -/
theorem Fronts.of_await {r : Request}
    {resume : Response r → Coroutine (Sum.elim Response ReadResponse) ε Value'}
    (h : Fronts admits log c (.running (.await (.inl r) resume)) caller') :
    ∃ task task' render resume', taskIn log c = some task ∧ admits task = .handed task' render ∧
      caller' = .running (.await r resume') ∧
      resume = fun response => (resume' response).rendered render := by
  generalize hcaller : (Caller.running (.await (.inl r) resume) :
    Caller (Sum.elim Response ReadResponse) ε Value') = caller at h
  cases h with
  | absent | gone | stopped => cases hcaller
  | answered | read => exact absurd (Caller.running.inj hcaller).symm ofExcept_ne_await
  | reading => cases hcaller
  | @handed task task' render p htask hadmits =>
    cases p with
    | done | raised => exact absurd (Caller.running.inj hcaller).symm ofExcept_ne_await
    | await r' resume' =>
      cases hcaller
      exact ⟨task, task', render, resume', htask, hadmits, rfl, rfl⟩

/-- A caller that awaits a read is not behind the front. -/
theorem Fronts.of_reading {query : Read}
    {resume : ReadResponse query → Coroutine (Sum.elim Response ReadResponse) ε Value'}
    (h : Fronts admits log c (.running (.await (.inr query) resume)) caller') :
    ∃ task reply, taskIn log c = some task ∧ admits task = .reads query reply ∧ caller' = .absent ∧
      resume = fun response => .ofExcept (reply response) := by
  generalize hcaller : (Caller.running (.await (.inr query) resume) :
    Caller (Sum.elim Response ReadResponse) ε Value') = caller at h
  cases h with
  | absent | gone | stopped => cases hcaller
  | answered | read => exact absurd (Caller.running.inj hcaller).symm ofExcept_ne_await
  | @reading task query' reply htask hadmits =>
    cases hcaller
    exact ⟨task, reply, htask, hadmits, rfl, rfl⟩
  | @handed task task' render p htask hadmits =>
    cases p with
    | done | raised => exact absurd (Caller.running.inj hcaller).symm ofExcept_ne_await
    | await => cases hcaller

/-- Any caller that runs is behind the front if it has handed its task on. -/
theorem Fronts.of_running {p : Coroutine (Sum.elim Response ReadResponse) ε Value'}
    (h : Fronts admits log c (.running p) caller') :
    (handedIn admits log c = none ∧ caller' = .absent) ∨
      (handedIn admits log c).isSome = true ∧ ∃ q, caller' = .running q := by
  have hhands : ∀ {task}, taskIn log c = some task →
      handedIn admits log c = (admits task).task? := fun htask => by
    unfold handedIn
    rw [htask]
    rfl
  generalize hcaller : Caller.running p = caller at h
  cases h with
  | absent | gone | stopped => cases hcaller
  | answered htask hadmits | reading htask hadmits | read htask hadmits =>
    exact .inl ⟨by rw [hhands htask, hadmits]; rfl, rfl⟩
  | handed htask hadmits => exact .inr ⟨by rw [hhands htask, hadmits]; rfl, _, rfl⟩

/-- A world of a front, and the world behind it. -/
structure IsBehind (admits : Task' → Admission ReadResponse ε Value' Task Value)
    (w : World (Sum.elim Response ReadResponse) ε Task' Value' Shared)
    (v : World Response ε Task Value Shared) : Prop where
  shared : v.shared = w.shared
  log : v.log = behind admits w.log
  callers : ∀ c, Fronts admits w.log c (w.callers c) (v.callers c)
  tasks : ∀ c, taskIn v.log c = handedIn admits w.log c
  calls : ∀ c, outstanding w.log c = (outstanding v.log c).map .inl
  idle : ∀ c, v.callers c = .absent → outstanding v.log c = none

theorem taskIn_cons_of_ne {log : List (Event Response Task)} {event : Event Response Task} {d : Nat}
    (h : d ≠ event.caller) : taskIn (event :: log) d = taskIn log d := by
  cases event with
  | called => exact if_neg h
  | _ => rfl

section
variable {S : System Response ε Task Value Shared Input}
  {read : (query : Read) → Shared → ReadResponse query}
  {w w' : World (Sum.elim Response ReadResponse) ε Task' Value' Shared}
  {v v' : World Response ε Task Value Shared}

/-- One caller has done something, before the front and perhaps behind it. -/
theorem IsBehind.of_one (h : IsBehind admits w v)
    (event : Event (Sum.elim Response ReadResponse) Task') (hw : w'.log = event :: w.log)
    (hv : v'.log = v.log ∨ ∃ event', event'.caller = event.caller ∧ v'.log = event' :: v.log)
    (hothers : ∀ d, d ≠ event.caller → w'.callers d = w.callers d ∧ v'.callers d = v.callers d)
    (hshared : v'.shared = w'.shared) (hlog : v'.log = behind admits w'.log)
    (hcaller : Fronts admits w'.log event.caller (w'.callers event.caller) (v'.callers event.caller))
    (htasks : taskIn v'.log event.caller = handedIn admits w'.log event.caller)
    (houtstanding : outstanding w'.log event.caller = (outstanding v'.log event.caller).map .inl)
    (hidle : v'.callers event.caller = .absent → outstanding v'.log event.caller = none) :
    IsBehind admits w' v' := by
  have hsame : ∀ d, d ≠ event.caller → outstanding v'.log d = outstanding v.log d := by
    intro d hd
    rcases hv with hv | ⟨event', hevent, hv⟩
    · rw [hv]
    · rw [hv]
      exact outstanding_cons_of_ne (hevent ▸ Ne.symm hd)
  refine ⟨hshared, hlog, fun d => ?_, fun d => ?_, fun d => ?_, fun d => ?_⟩
  · by_cases hd : d = event.caller
    · rw [hd]
      exact hcaller
    · rw [(hothers d hd).1, (hothers d hd).2]
      refine (h.callers d).frame ?_ ?_
      · rw [hw]
        exact taskIn_cons_of_ne hd
      · rw [hw]
        exact List.subset_cons_self ..
  · by_cases hd : d = event.caller
    · rw [hd]
      exact htasks
    · have hsame : taskIn v'.log d = taskIn v.log d := by
        rcases hv with hv | ⟨event', hevent, hv⟩
        · rw [hv]
        · rw [hv]
          exact taskIn_cons_of_ne (hevent ▸ hd)
      unfold handedIn
      rw [hsame, hw, taskIn_cons_of_ne hd]
      exact h.tasks d
  · by_cases hd : d = event.caller
    · rw [hd]
      exact houtstanding
    · rw [hsame d hd, hw, outstanding_cons_of_ne (Ne.symm hd)]
      exact h.calls d
  · by_cases hd : d = event.caller
    · rw [hd]
      exact hidle
    · rw [hsame d hd, (hothers d hd).2]
      exact h.idle d

theorem Fronts.of_absent (h : Fronts admits log c .absent caller') :
    taskIn log c = none ∧ caller' = .absent := by
  cases h with
  | absent htask => exact ⟨htask, rfl⟩

/-- A call is handed on, or it stays with the front. -/
theorem IsBehind.call (h : IsBehind admits w v) {c : Nat} (task : Task')
    (habsent : w.callers c = .absent) :
    ∃ v', (v' = v ∨ ∃ choice' : Choice Task Input, S.step v choice' = some v') ∧
      IsBehind admits ⟨w.shared, Function.update w.callers c (.running ((S.front read admits).program task)),
        .called c task :: w.log⟩ v' := by
  have hc := h.callers c
  rw [habsent] at hc
  obtain ⟨habsentTask, hbehind⟩ := hc.of_absent
  have htask : taskIn (.called c task :: w.log) c = some task := if_pos rfl
  have hhanded : handedIn admits (.called c task :: w.log) c = (admits task).task? := by
    unfold handedIn
    rw [htask]
    rfl
  have hnone : taskIn v.log c = none := by
    rw [h.tasks c, handedIn, habsentTask]
    rfl
  cases hadmits : admits task with
  | answered result =>
    have hprogram : (S.front read admits).program task = .ofExcept result := by
      simp only [System.front, hadmits]
    refine ⟨v, .inl rfl, h.of_one (.called c task) rfl (.inl rfl)
      (fun d hd => ⟨Function.update_of_ne hd _ _, rfl⟩) h.shared ?_ ?_ ?_ (h.calls c) (h.idle c)⟩
    · simp only [behind, hadmits]
      exact h.log
    · show Fronts _ _ c (Function.update w.callers c _ c) (v.callers c)
      rw [Function.update_self, hbehind, hprogram]
      exact .answered htask hadmits
    · exact hnone.trans (hhanded.trans (congrArg Admission.task? hadmits)).symm
  | reads query reply =>
    have hprogram : (S.front read admits).program task =
        .await (.inr query) fun response => .ofExcept (reply response) := by
      simp only [System.front, hadmits]
    refine ⟨v, .inl rfl, h.of_one (.called c task) rfl (.inl rfl)
      (fun d hd => ⟨Function.update_of_ne hd _ _, rfl⟩) h.shared ?_ ?_ ?_ (h.calls c) (h.idle c)⟩
    · simp only [behind, hadmits]
      exact h.log
    · show Fronts _ _ c (Function.update w.callers c _ c) (v.callers c)
      rw [Function.update_self, hbehind, hprogram]
      exact .reading htask hadmits
    · exact hnone.trans (hhanded.trans (congrArg Admission.task? hadmits)).symm
  | handed task' render =>
    have hprogram : (S.front read admits).program task = (S.program task').rendered render := by
      simp only [System.front, hadmits]
    refine ⟨⟨v.shared, Function.update v.callers c (.running (S.program task')),
      .called c task' :: v.log⟩, .inr ⟨.call c task', ?_⟩,
      h.of_one (.called c task) rfl (.inr ⟨.called c task', rfl, rfl⟩)
        (fun d hd => ⟨Function.update_of_ne hd _ _, Function.update_of_ne hd _ _⟩) h.shared ?_ ?_ ?_
        (h.calls c) fun _ => h.idle c hbehind⟩
    · simp only [System.step, hbehind]
    · simp only [behind, hadmits]
      exact congrArg (List.cons _) h.log
    · show Fronts _ _ c (Function.update w.callers c _ c) (Function.update v.callers c _ c)
      rw [Function.update_self, Function.update_self, hprogram]
      exact .handed htask hadmits
    · exact (if_pos rfl).trans (hhanded.trans (congrArg Admission.task? hadmits)).symm

/-- A read is answered by the front, and any other request by the system. -/
theorem IsBehind.answer (h : IsBehind admits w v) {c : Nat} (input : Input) {r : Request ⊕ Read}
    {resume : Sum.elim Response ReadResponse r → Coroutine (Sum.elim Response ReadResponse) ε Value'}
    (hrunning : w.callers c = .running (.await r resume))
    (hnow : ¬((S.front read admits).external r = true ∧ (outstanding w.log c).isNone = true)) :
    ∃ v', (v' = v ∨ ∃ choice', S.step v choice' = some v') ∧
      IsBehind admits ⟨((S.front read admits).exec r input w.shared).2, Function.update w.callers c
        (.running (resume ((S.front read admits).exec r input w.shared).1)),
        .answered c r ((S.front read admits).exec r input w.shared).1 :: w.log⟩ v' := by
  have hc := h.callers c
  rw [hrunning] at hc
  cases r with
  | inr query =>
    obtain ⟨task, reply, htask, hadmits, hbehind, rfl⟩ := hc.of_reading
    refine ⟨v, .inl rfl, h.of_one (.answered c (.inr query) (read query w.shared)) rfl
      (.inl rfl) (fun d hd => ⟨Function.update_of_ne hd _ _, rfl⟩) h.shared h.log ?_ (h.tasks c) ?_ (h.idle c)⟩
    · show Fronts _ _ c (Function.update w.callers c _ c) (v.callers c)
      rw [Function.update_self, hbehind]
      exact .read htask hadmits (List.mem_cons_self ..)
    · show outstanding (.answered c _ _ :: w.log) c = (outstanding v.log c).map _
      rw [h.idle c hbehind]
      exact if_pos rfl
  | inl r =>
    obtain ⟨task, task', render, resume', htask, hadmits, hbehind, rfl⟩ := hc.of_await
    have hnow' : ¬(S.external r = true ∧ (outstanding v.log c).isNone = true) := by
      rintro ⟨hexternal, hnone⟩
      refine hnow ⟨hexternal, ?_⟩
      rw [h.calls c, Option.isNone_iff_eq_none.mp hnone]
      rfl
    refine ⟨⟨(S.exec r input v.shared).2, Function.update v.callers c
      (.running (resume' (S.exec r input v.shared).1)), .answered c r (S.exec r input v.shared).1 :: v.log⟩,
      .inr ⟨.answer c input, ?_⟩, h.of_one (.answered c (.inl r) (S.exec r input w.shared).1) rfl
        (.inr ⟨.answered c r (S.exec r input v.shared).1, rfl, rfl⟩)
        (fun d hd => ⟨Function.update_of_ne hd _ _, Function.update_of_ne hd _ _⟩) ?_ ?_ ?_ (h.tasks c) ?_ ?_⟩
    · simp only [System.step, hbehind]
      rw [if_neg hnow']
    · rw [h.shared]
      rfl
    · rw [h.shared]
      exact congrArg (List.cons _) h.log
    · show Fronts _ _ c (Function.update w.callers c _ c) (Function.update v.callers c _ c)
      rw [Function.update_self, Function.update_self, h.shared]
      exact .handed htask hadmits
    · show outstanding (.answered c _ _ :: w.log) c = (outstanding (.answered c _ _ :: v.log) c).map _
      simp [outstanding]
    · exact fun _ => if_pos rfl

/-- A caller stops, and behind the front as well if its task was handed on. -/
theorem IsBehind.stop (h : IsBehind admits w v) {c : Nat}
    {p : Coroutine (Sum.elim Response ReadResponse) ε Value'} (hrunning : w.callers c = .running p) :
    ∃ v', (v' = v ∨ ∃ choice' : Choice Task Input, S.step v choice' = some v') ∧
      IsBehind admits ⟨w.shared, Function.update w.callers c .stopped, .stopped c :: w.log⟩ v' := by
  have hc := h.callers c
  rw [hrunning] at hc
  rcases hc.of_running with ⟨hhands, hbehind⟩ | ⟨hhands, q, hbehind⟩
  · refine ⟨v, .inl rfl, h.of_one (.stopped c) rfl (.inl rfl)
      (fun d hd => ⟨Function.update_of_ne hd _ _, rfl⟩) h.shared ?_ ?_ (h.tasks c) (h.calls c) (h.idle c)⟩
    · simp only [behind, hhands]
      exact h.log
    · show Fronts _ _ c (Function.update w.callers c _ c) (v.callers c)
      rw [Function.update_self, hbehind]
      exact .gone hhands
  · refine ⟨⟨v.shared, Function.update v.callers c .stopped, .stopped c :: v.log⟩,
      .inr ⟨.stop c, ?_⟩, h.of_one (.stopped c) rfl (.inr ⟨.stopped c, rfl, rfl⟩)
        (fun d hd => ⟨Function.update_of_ne hd _ _, Function.update_of_ne hd _ _⟩) h.shared ?_ ?_
        (h.tasks c) (h.calls c) ?_⟩
    · simp only [System.step, hbehind]
    · simp only [behind, hhands, if_true]
      exact congrArg (List.cons _) h.log
    · show Fronts _ _ c (Function.update w.callers c _ c) (Function.update v.callers c _ c)
      rw [Function.update_self, Function.update_self]
      exact .stopped hhands
    · intro habsent
      have hstopped : Function.update v.callers c .stopped c = .stopped := Function.update_self ..
      exact absurd (hstopped.symm.trans habsent) fun heq => by cases heq

/-- **A step of the front** is a step of the system behind it, or of the front alone. -/
theorem IsBehind.step {choice : Choice Task' Input} (h : IsBehind admits w v)
    (hs : (S.front read admits).step w choice = some w') :
    ∃ v', (v' = v ∨ ∃ choice', S.step v choice' = some v') ∧ IsBehind admits w' v' := by
  cases choice with
  | call c task =>
    simp only [System.step] at hs
    split at hs
    · rename_i habsent
      cases hs
      exact h.call task habsent
    · cases hs
  | begin c =>
    have hc := h.callers c
    simp only [System.step] at hs
    split at hs
    · rename_i r resume hrunning
      split at hs
      · rename_i hbegins
        cases hs
        rw [hrunning] at hc
        cases r with
        | inr query => cases hbegins.1
        | inl r =>
          obtain ⟨task, task', render, resume', htask, hadmits, hbehind, rfl⟩ := hc.of_await
          have hnone : outstanding v.log c = none := by
            have hcalls := h.calls c
            rw [Option.isNone_iff_eq_none.mp hbegins.2] at hcalls
            exact Option.map_eq_none_iff.mp hcalls.symm
          refine ⟨⟨v.shared, v.callers, .began c r :: v.log⟩, .inr ⟨.begin c, ?_⟩,
            h.of_one (.began c (.inl r)) rfl (.inr ⟨.began c r, rfl, rfl⟩)
              (fun d _ => ⟨rfl, rfl⟩) h.shared (congrArg (List.cons _) h.log)
              ((h.callers c).frame rfl (List.subset_cons_self ..)) (h.tasks c) ?_ fun habsent => ?_⟩
          · simp only [System.step, hbehind]
            rw [if_pos ⟨hbegins.1, by rw [hnone]; rfl⟩]
          · show outstanding (.began c _ :: w.log) c = (outstanding (.began c _ :: v.log) c).map _
            simp [outstanding]
          · exact absurd (hbehind.symm.trans habsent) fun heq => by cases heq
      · cases hs
    · cases hs
  | land c =>
    simp only [System.step] at hs
    split at hs
    · rename_i r hr
      cases hs
      rw [h.calls c] at hr
      obtain ⟨r, hbegun, rfl⟩ := Option.map_eq_some_iff.mp hr
      refine ⟨⟨v.shared, v.callers, .landed c r :: v.log⟩, .inr ⟨.land c, ?_⟩,
        h.of_one (.landed c (.inl r)) rfl (.inr ⟨.landed c r, rfl, rfl⟩)
          (fun d _ => ⟨rfl, rfl⟩) h.shared (congrArg (List.cons _) h.log)
          ((h.callers c).frame rfl (List.subset_cons_self ..)) (h.tasks c) (h.calls c) (h.idle c)⟩
      simp only [System.step, hbegun]
    · cases hs
  | answer c input =>
    simp only [System.step] at hs
    split at hs
    · rename_i r resume hrunning
      split at hs
      · cases hs
      · rename_i hnow
        cases hs
        exact h.answer input hrunning hnow
    · cases hs
  | stop c =>
    simp only [System.step] at hs
    split at hs
    · rename_i p hrunning
      cases hs
      exact h.stop hrunning
    · cases hs
  | disturb input =>
    cases hs
    refine ⟨⟨S.disturb input v.shared, v.callers, v.log⟩, .inr ⟨.disturb input, rfl⟩,
      congrArg (S.disturb input) h.shared, h.log, h.callers, h.tasks, h.calls, h.idle⟩

/-- **A front adds nothing**: behind a reachable world of it is a reachable world of the system. -/
theorem reachable_front {init : Shared} (h : (S.front read admits).Reachable init w) :
    ∃ v, S.Reachable init v ∧ IsBehind admits w v := by
  induction h with
  | start => exact ⟨World.initial init, .start, rfl, rfl, fun c => .absent rfl, fun c => rfl, fun c => rfl,
      fun c _ => rfl⟩
  | step _ hs ih =>
    obtain ⟨v, hv, hbehind⟩ := ih
    obtain ⟨v', hv', hbehind'⟩ := hbehind.step hs
    rcases hv' with rfl | ⟨choice, hstep⟩
    · exact ⟨_, hv, hbehind'⟩
    · exact ⟨v', hv.step hstep, hbehind'⟩

/-- How a task that was not handed on, or was, ends. -/
def Ends (w : World (Sum.elim Response ReadResponse) ε Task' Value' Shared)
    (v : World Response ε Task Value Shared) (c : Nat) (result : Except ε Value') :
    Admission ReadResponse ε Value' Task Value → Prop
  | .answered result' => result = result'
  | .reads query reply => ∃ response, .answered c (.inr query) response ∈ w.log ∧ result = reply response
  | .handed _ render => ∃ result', (v.callers c).result? = some result' ∧ result = render result'

/-- **Every result is the front's own, or rendered.** -/
theorem IsBehind.ends (h : IsBehind admits w v) {c : Nat} {task : Task'} {result : Except ε Value'}
    (htask : taskIn w.log c = some task) (hresult : (w.callers c).result? = some result) :
    Ends w v c result (admits task) := by
  have hsame : ∀ {task'}, taskIn w.log c = some task' → task' = task := fun htask' =>
    Option.some.inj (htask'.symm.trans htask)
  have hc := h.callers c
  generalize w.callers c = caller, hv : v.callers c = caller' at hc hresult
  cases hc with
  | absent | reading | gone | stopped => cases hresult
  | answered htask' hadmits =>
    rw [Caller.result?_ofExcept] at hresult
    rw [← hsame htask', hadmits]
    exact (Option.some.inj hresult).symm
  | @read _ query reply response htask' hadmits hm =>
    rw [Caller.result?_ofExcept] at hresult
    rw [← hsame htask', hadmits]
    exact ⟨response, hm, (Option.some.inj hresult).symm⟩
  | @handed _ task' render p htask' hadmits =>
    rw [Caller.result?_rendered] at hresult
    obtain ⟨result', hresult', rfl⟩ := Option.map_eq_some_iff.mp hresult
    rw [← hsame htask', hadmits]
    exact ⟨result', by rw [hv]; exact hresult', rfl⟩

theorem behind_subset_cons (event : Event (Sum.elim Response ReadResponse) Task') :
    behind admits log ⊆ behind admits (event :: log) := by
  cases event with
  | called c task =>
    cases hadmits : admits task with
    | handed =>
      simp only [behind, hadmits]
      exact List.subset_cons_self ..
    | answered | reads =>
      simp only [behind, hadmits]
      exact List.Subset.refl _
  | began c r | landed c r | answered c r response =>
    cases r with
    | inl r => exact List.subset_cons_self ..
    | inr query => exact List.Subset.refl _
  | stopped c =>
    simp only [behind]
    split
    · exact List.subset_cons_self ..
    · exact List.Subset.refl _

theorem behind_subset_append (newer : List (Event (Sum.elim Response ReadResponse) Task')) :
    behind admits log ⊆ behind admits (newer ++ log) := by
  induction newer with
  | nil => exact List.Subset.refl _
  | cons event newer ih => exact List.Subset.trans ih (behind_subset_cons event)

/-- What callers ask of the system is seen behind the front. -/
theorem mem_behind_answered {r : Request} {response : Response r}
    (h : .answered c (.inl r) response ∈ log) : .answered c r response ∈ behind admits log := by
  induction log with
  | nil => cases h
  | cons event log ih =>
    rcases List.mem_cons.mp h with rfl | h
    · exact List.mem_cons_self ..
    · exact behind_subset_cons event (ih h)

theorem mem_behind_began {r : Request} (h : .began c (.inl r) ∈ log) :
    .began c r ∈ behind admits log := by
  induction log with
  | nil => cases h
  | cons event log ih =>
    rcases List.mem_cons.mp h with rfl | h
    · exact List.mem_cons_self ..
    · exact behind_subset_cons event (ih h)

end
end
end Concurrency
