import EffectBroker.Interleaving

/-!
# Runs of one caller

One caller runs a program to its end, while the others only do what a rely relation
allows.  `Always` is the weakest precondition of such runs; its rules reduce it to the
parts of a program.  With nobody else acting, a run is a piece of an interleaving
(`Runs.reachableFrom`).
-/
namespace Concurrency

/-- A request and its response. -/
structure Exchange {Request : Type} (Response : Request → Type) where
  request : Request
  response : Response request

/-- The caller of an event. -/
def Event.caller {Request : Type} {Response : Request → Type} {Task : Type} :
    Event Response Task → Nat
  | .called c _ | .began c _ | .landed c _ | .answered c _ _ | .stopped c => c

section
variable {Request : Type} {Response : Request → Type} {ε Task Value Shared Input α β : Type}

/-- What the others may make of the shared state, after these exchanges of the caller. -/
abbrev Rely (Response : Request → Type) (Shared : Type) : Type :=
  List (Exchange Response) → Shared → Shared → Prop

/-- Nobody else acts. -/
def alone : Rely Response Shared := fun _ s s' => s' = s

variable (S : System Response ε Task Value Shared Input) (R : Rely Response Shared)
  (I : Input → Prop)

/-- A program runs to its end: exchanges are collected newest first, and inputs satisfy
`I`. -/
inductive Runs : Coroutine Response ε α → List (Exchange Response) → Shared →
    List (Exchange Response) → Shared → Except ε α → Prop
  | done {value t s} : Runs (.done value) t s t s (.ok value)
  | raised {exc t s} : Runs (.raised exc) t s t s (.error exc)
  | await {r resume t s t' s' result} {middle : Shared} {input : Input} : R t s middle → I input →
      Runs (resume (S.exec r input middle).1) (⟨r, (S.exec r input middle).1⟩ :: t)
        (S.exec r input middle).2 t' s' result →
      Runs (.await r resume) t s t' s' result

/-- However the program runs, it ends so that `Q` holds. -/
def Always : Coroutine Response ε α → List (Exchange Response) → Shared →
    (List (Exchange Response) → Shared → Except ε α → Prop) → Prop
  | .done value, t, s, Q => Q t s (.ok value)
  | .raised exc, t, s, Q => Q t s (.error exc)
  | .await r resume, t, s, Q => ∀ middle input, R t s middle → I input →
      Always (resume (S.exec r input middle).1) (⟨r, (S.exec r input middle).1⟩ :: t)
        (S.exec r input middle).2 Q

variable {S R I}

theorem Runs.satisfies {p : Coroutine Response ε α} {t t' : List (Exchange Response)}
    {s s' : Shared} {result : Except ε α} (h : Runs S R I p t s t' s' result)
    {Q : List (Exchange Response) → Shared → Except ε α → Prop} (hp : Always S R I p t s Q) :
    Q t' s' result := by
  induction h with
  | done | raised => exact hp
  | await hr hi _ ih => exact ih (hp _ _ hr hi)

theorem Runs.weaken {J : Input → Prop} {p : Coroutine Response ε α}
    {t t' : List (Exchange Response)} {s s' : Shared} {result : Except ε α}
    (h : Runs S R I p t s t' s' result) (hij : ∀ input, I input → J input) :
    Runs S R J p t s t' s' result := by
  induction h with
  | done => exact .done
  | raised => exact .raised
  | await hr hi _ ih => exact .await hr (hij _ hi) ih

/-- A program that nobody keeps from running runs to its end. -/
theorem exists_runs (hrefl : ∀ t s, R t s s) {input : Input} (hi : I input)
    (p : Coroutine Response ε α) (t : List (Exchange Response)) (s : Shared) :
    ∃ t' s' result, Runs S R I p t s t' s' result := by
  induction p generalizing t s with
  | done value => exact ⟨_, _, _, .done⟩
  | raised exc => exact ⟨_, _, _, .raised⟩
  | await r resume ih =>
    obtain ⟨t', s', result, h⟩ := ih (S.exec r input s).1 (⟨r, (S.exec r input s).1⟩ :: t)
      (S.exec r input s).2
    exact ⟨t', s', result, .await (hrefl t s) hi h⟩

/-- An evaluation is a run in which nobody else acts. -/
theorem runs_evaluate (input : Input) (p : Coroutine Response ε α) (t : List (Exchange Response))
    (s : Shared) : ∃ t', Runs S alone (fun i => i = input) p t s t'
      (p.evaluate (fun r s => S.exec r input s) s).2 (p.evaluate (fun r s => S.exec r input s) s).1 := by
  induction p generalizing t s with
  | done value => exact ⟨t, .done⟩
  | raised exc => exact ⟨t, .raised⟩
  | await r resume ih =>
    obtain ⟨t', h⟩ := ih (S.exec r input s).1 (⟨r, (S.exec r input s).1⟩ :: t) (S.exec r input s).2
    exact ⟨t', .await rfl rfl h⟩

/-- The states in which an evaluation awaits an answer. -/
def Coroutine.visited (exec : (r : Request) → Shared → Response r × Shared) :
    Coroutine Response ε α → Shared → List Shared
  | .done _, _ => []
  | .raised _, _ => []
  | .await r resume, s => s :: (resume (exec r s).1).visited exec (exec r s).2

/-- The exchanges of an evaluation, newest first, before those in `t`. -/
def Coroutine.exchanged (exec : (r : Request) → Shared → Response r × Shared) :
    Coroutine Response ε α → Shared → List (Exchange Response) → List (Exchange Response)
  | .done _, _, t => t
  | .raised _, _, t => t
  | .await r resume, s, t =>
    (resume (exec r s).1).exchanged exec (exec r s).2 (⟨r, (exec r s).1⟩ :: t)

/-- An evaluation is a run if the others may leave every state as it is. -/
theorem runs_exchanged {input : Input} (hi : I input) (p : Coroutine Response ε α)
    (t : List (Exchange Response)) (s : Shared)
    (h : ∀ s' ∈ p.visited (fun r s => S.exec r input s) s, ∀ t, R t s' s') :
    Runs S R I p t s (p.exchanged (fun r s => S.exec r input s) s t)
      (p.evaluate (fun r s => S.exec r input s) s).2
      (p.evaluate (fun r s => S.exec r input s) s).1 := by
  induction p generalizing t s with
  | done value => exact .done
  | raised exc => exact .raised
  | await r resume ih =>
    obtain ⟨hfirst, hrest⟩ := List.forall_mem_cons.mp h
    exact .await (hfirst t) hi (ih _ _ _ hrest)

/-! ## Rules -/

section
variable {t : List (Exchange Response)} {s : Shared}

theorem Always.mono {p : Coroutine Response ε α}
    {Q Q' : List (Exchange Response) → Shared → Except ε α → Prop} (h : Always S R I p t s Q)
    (hq : ∀ t s result, Q t s result → Q' t s result) : Always S R I p t s Q' := by
  induction p generalizing t s with
  | done value => exact hq _ _ _ h
  | raised exc => exact hq _ _ _ h
  | await r resume ih => exact fun middle input hr hi => ih _ (h middle input hr hi)

theorem always_trivial (p : Coroutine Response ε α) :
    Always S R I p t s fun _ _ _ => True := by
  induction p generalizing t s with
  | done | raised => trivial
  | await _ _ ih => exact fun _ _ _ _ => ih _

theorem always_bind {p : Coroutine Response ε α} {f : α → Coroutine Response ε β}
    {Q : List (Exchange Response) → Shared → Except ε β → Prop} :
    Always S R I (p >>= f) t s Q ↔ Always S R I p t s fun t s result =>
      match result with
      | .ok value => Always S R I (f value) t s Q
      | .error exc => Q t s (.error exc) := by
  show Always S R I (p.bind f) t s Q ↔ _
  induction p generalizing t s with
  | done value => exact Iff.rfl
  | raised exc => exact Iff.rfl
  | await r resume ih =>
    exact forall_congr' fun _ => forall_congr' fun _ => imp_congr Iff.rfl
      (imp_congr Iff.rfl (ih _))

theorem always_tryCatch {p : Coroutine Response ε α} {handler : ε → Coroutine Response ε α}
    {Q : List (Exchange Response) → Shared → Except ε α → Prop} :
    Always S R I (MonadExcept.tryCatch p handler) t s Q ↔ Always S R I p t s fun t s result =>
      match result with
      | .ok value => Q t s (.ok value)
      | .error exc => Always S R I (handler exc) t s Q := by
  show Always S R I (p.tryCatch handler) t s Q ↔ _
  induction p generalizing t s with
  | done value => exact Iff.rfl
  | raised exc => exact Iff.rfl
  | await r resume ih =>
    exact forall_congr' fun _ => forall_congr' fun _ => imp_congr Iff.rfl
      (imp_congr Iff.rfl (ih _))

@[simp] theorem always_pure {value : α}
    {Q : List (Exchange Response) → Shared → Except ε α → Prop} :
    Always S R I (pure value : Coroutine Response ε α) t s Q ↔ Q t s (.ok value) := Iff.rfl

@[simp] theorem always_throw {exc : ε}
    {Q : List (Exchange Response) → Shared → Except ε α → Prop} :
    Always S R I (throw exc : Coroutine Response ε α) t s Q ↔ Q t s (.error exc) := Iff.rfl

@[simp] theorem always_ofExcept {result : Except ε α}
    {Q : List (Exchange Response) → Shared → Except ε α → Prop} :
    Always S R I (Coroutine.ofExcept result) t s Q ↔ Q t s result := by
  cases result <;> exact Iff.rfl

theorem always_request {r : Request}
    {Q : List (Exchange Response) → Shared → Except ε (Response r) → Prop} :
    Always S R I (Coroutine.request r) t s Q ↔ ∀ middle input, R t s middle → I input →
      Q (⟨r, (S.exec r input middle).1⟩ :: t) (S.exec r input middle).2
        (.ok (S.exec r input middle).1) := Iff.rfl

end

/-! ## What programs keep -/

/-- From where `J` holds the program comes to where `J` holds, and what it returns satisfies `P`. -/
def Keeps (S : System Response ε Task Value Shared Input) (R : Rely Response Shared)
    (I : Input → Prop) (J : List (Exchange Response) → Shared → Prop) (p : Coroutine Response ε α)
    (P : α → Prop) : Prop :=
  ∀ t s, J t s → Always S R I p t s fun t' s' result =>
    J t' s' ∧ ∀ value, result = .ok value → P value

section
variable {J : List (Exchange Response) → Shared → Prop} {p : Coroutine Response ε α} {P : α → Prop}

theorem Keeps.mono {P' : α → Prop} (h : Keeps S R I J p P) (hp : ∀ value, P value → P' value) :
    Keeps S R I J p P' := fun t s hj =>
  (h t s hj).mono fun _ _ _ ⟨hj', hreturns⟩ => ⟨hj', fun value hok => hp value (hreturns value hok)⟩

theorem Keeps.bind {f : α → Coroutine Response ε β} {P' : β → Prop} (h : Keeps S R I J p P)
    (hf : ∀ value, P value → Keeps S R I J (f value) P') : Keeps S R I J (p >>= f) P' := by
  intro t s hj
  refine always_bind.mpr ((h t s hj).mono fun t' s' result ⟨hj', hreturns⟩ => ?_)
  cases result with
  | ok value => exact hf value (hreturns value rfl) t' s' hj'
  | error exc => exact ⟨hj', fun _ h => nomatch h⟩

theorem Keeps.tryCatch {handler : ε → Coroutine Response ε α} (h : Keeps S R I J p P)
    (hhandler : ∀ exc, Keeps S R I J (handler exc) P) :
    Keeps S R I J (MonadExcept.tryCatch p handler) P := by
  intro t s hj
  refine always_tryCatch.mpr ((h t s hj).mono fun t' s' result ⟨hj', hreturns⟩ => ?_)
  cases result with
  | ok value => exact ⟨hj', hreturns⟩
  | error exc => exact hhandler exc t' s' hj'

theorem keeps_pure {value : α} (h : P value) :
    Keeps S R I J (pure value : Coroutine Response ε α) P := by
  intro t s hj
  refine ⟨hj, fun _ hok => ?_⟩
  cases hok
  exact h

theorem keeps_throw {exc : ε} : Keeps S R I J (throw exc : Coroutine Response ε α) P :=
  fun _ _ hj => ⟨hj, fun _ h => nomatch h⟩

theorem keeps_ofExcept {result : Except ε α} (h : ∀ value, result = .ok value → P value) :
    Keeps S R I J (Coroutine.ofExcept result) P :=
  fun _ _ hj => always_ofExcept.mpr ⟨hj, h⟩

/-- Data that is read from an answer. -/
theorem keeps_read {result : Except ε α} :
    Keeps S R I J (Coroutine.ofExcept result) fun _ => True :=
  keeps_ofExcept fun _ _ => trivial

end

/-! ## What a program exchanges -/

/-- The program makes these exchanges, oldest first, and ends so; the responses are given. -/
inductive Coroutine.Traces : Coroutine Response ε α → List (Exchange Response) → Except ε α → Prop
  | done {value} : Traces (.done value) [] (.ok value)
  | raised {exc} : Traces (.raised exc) [] (.error exc)
  | await {r resume t result} (response : Response r) : Traces (resume response) t result →
      Traces (.await r resume) (⟨r, response⟩ :: t) result

theorem Coroutine.Traces.bind {p : Coroutine Response ε α} {f : α → Coroutine Response ε β}
    {t t' : List (Exchange Response)} {value : α} {result : Except ε β}
    (h : p.Traces t (.ok value)) (h' : (f value).Traces t' result) :
    (p >>= f).Traces (t ++ t') result := by
  generalize hok : (.ok value : Except ε α) = ended at h
  induction h with
  | done =>
    cases hok
    exact h'
  | raised => cases hok
  | await response _ ih => exact .await response (ih hok)

/-- A run adds what the program exchanges. -/
theorem Always.traced {p : Coroutine Response ε α} {t : List (Exchange Response)} {s : Shared}
    {Q : List (Exchange Response) → Shared → Except ε α → Prop} (h : Always S R I p t s Q) :
    Always S R I p t s fun t' s' result =>
      Q t' s' result ∧ ∃ new, t' = new ++ t ∧ p.Traces new.reverse result := by
  induction p generalizing t s with
  | done value => exact ⟨h, [], rfl, .done⟩
  | raised exc => exact ⟨h, [], rfl, .raised⟩
  | await r resume ih =>
    intro middle input hr hi
    refine (ih _ (h middle input hr hi)).mono fun t' s' result ⟨hq, new, hnew, htraces⟩ => ?_
    refine ⟨hq, new ++ [⟨r, (S.exec r input middle).1⟩], ?_, ?_⟩
    · rw [hnew, List.append_assoc]
      rfl
    · rw [List.reverse_append]
      exact .await _ htraces

/-! ## Runs within interleavings -/

/-- Where only finitely many callers have called, there is a new one. -/
theorem System.ReachableFrom.exists_absent {shared : Shared}
    {w : World Response ε Task Value Shared} (h : S.Reachable shared w) :
    ∃ n, ∀ c, n ≤ c → w.callers c = .absent := by
  induction h with
  | start => exact ⟨0, fun _ _ => rfl⟩
  | @step u v choice _ hs ih =>
    obtain ⟨n, hn⟩ := ih
    have update : ∀ (c : Nat) (caller : Caller Response ε Value),
        ∃ n, ∀ d, n ≤ d → Function.update u.callers c caller d = .absent := fun c caller =>
      ⟨max n (c + 1), fun d hd => by
        rw [Function.update_of_ne (by omega)]
        exact hn d (by omega)⟩
    cases choice <;> simp only [System.step] at hs <;> (try split at hs) <;> (try split at hs) <;>
      cases hs <;> first | exact update _ _ | exact ⟨n, hn⟩

/-- A caller that runs while nobody else acts takes steps of the system. -/
theorem Runs.reachableFrom {p : Coroutine Response ε Value} {t t' : List (Exchange Response)}
    {s s' : Shared} {result : Except ε Value} (h : Runs S alone I p t s t' s' result)
    {w : World Response ε Task Value Shared} {c : Nat} (hs : w.shared = s)
    (hc : w.callers c = .running p) (ho : outstanding w.log c = none) :
    ∃ w' newer, S.ReachableFrom w w' ∧ w'.shared = s' ∧ w'.log = newer ++ w.log ∧
      (∀ event ∈ newer, event.caller = c) ∧
      ∀ x ∈ t', x ∈ t ∨ .answered c x.request x.response ∈ newer := by
  induction h generalizing w with
  | done => exact ⟨w, [], .start, hs, rfl, fun _ hm => (nomatch hm), fun _ hx => .inl hx⟩
  | raised => exact ⟨w, [], .start, hs, rfl, fun _ hm => (nomatch hm), fun _ hx => .inl hx⟩
  | @await r resume t s t' s' result middle input hr _ _ ih =>
    obtain rfl : middle = s := hr
    subst hs
    -- the answer comes at once, after the beginning of an external call
    obtain ⟨u, hu, hushared, hucaller, ⟨begun, hulog, hbegun⟩, huout⟩ :
        ∃ u, S.ReachableFrom w u ∧ u.shared = w.shared ∧ u.callers c = .running (.await r resume) ∧
          (∃ begun, u.log = begun ++ w.log ∧ ∀ event ∈ begun, event.caller = c) ∧
          ¬ (S.external r ∧ (outstanding u.log c).isNone) := by
      by_cases he : S.external r = true
      · have hbegin : S.step w (.begin c) = some ⟨w.shared, w.callers, .began c r :: w.log⟩ := by
          simp only [System.step, hc]
          exact if_pos ⟨he, by rw [ho]; rfl⟩
        refine ⟨_, .step .start hbegin, rfl, hc, ⟨[.began c r], rfl, fun event hm => ?_⟩, ?_⟩
        · obtain rfl := List.mem_singleton.mp hm
          rfl
        · simp [outstanding]
      · exact ⟨w, .start, rfl, hc, ⟨[], rfl, fun _ hm => (nomatch hm)⟩, fun h => he h.1⟩
    obtain ⟨w', newer, hw', hshared, hlog, hcaller, hanswered⟩ := ih
      (w := ⟨(S.exec r input u.shared).2,
        Function.update u.callers c (.running (resume (S.exec r input u.shared).1)),
        .answered c r (S.exec r input u.shared).1 :: u.log⟩)
      (by rw [hushared]) (by rw [hushared]; exact Function.update_self ..) (by simp [outstanding])
    have hanswer : S.step u (.answer c input) = some ⟨(S.exec r input u.shared).2,
        Function.update u.callers c (.running (resume (S.exec r input u.shared).1)),
        .answered c r (S.exec r input u.shared).1 :: u.log⟩ := by
      simp only [System.step, hucaller]
      rw [if_neg huout]
    refine ⟨w', newer ++ .answered c r (S.exec r input u.shared).1 :: begun,
      (hu.step hanswer).trans S hw', hshared, ?_, fun event hm => ?_, fun x hx => ?_⟩
    · rw [hlog, hulog]
      simp
    · rcases List.mem_append.mp hm with hm | hm
      · exact hcaller event hm
      · rcases List.mem_cons.mp hm with rfl | hm
        · rfl
        · exact hbegun event hm
    · rcases hanswered x hx with hx | hx
      · rcases List.mem_cons.mp hx with rfl | hx
        · rw [hushared]
          exact .inr (List.mem_append_right _ (List.mem_cons_self ..))
        · exact .inl hx
      · exact .inr (List.mem_append_left _ hx)

/-- A new caller calls a task while nobody else acts. -/
theorem Runs.called {task : Task} {t : List (Exchange Response)} {s s' : Shared}
    {result : Except ε Value} (h : Runs S alone I (S.program task) [] s t s' result)
    {w : World Response ε Task Value Shared} {c : Nat} (hs : w.shared = s)
    (hc : w.callers c = .absent) (ho : outstanding w.log c = none) :
    ∃ w' newer, S.ReachableFrom w w' ∧ w'.shared = s' ∧ w'.log = newer ++ w.log ∧
      (∀ event ∈ newer, event.caller = c) ∧
      ∀ x ∈ t, .answered c x.request x.response ∈ newer := by
  have hcall : S.step w (.call c task) = some ⟨w.shared,
      Function.update w.callers c (.running (S.program task)), .called c task :: w.log⟩ := by
    simp only [System.step, hc]
  obtain ⟨w', newer, hw', hshared, hlog, hcaller, hanswered⟩ := h.reachableFrom
    (w := ⟨w.shared, Function.update w.callers c (.running (S.program task)),
      .called c task :: w.log⟩) hs (Function.update_self ..) ho
  refine ⟨w', newer ++ [.called c task], System.ReachableFrom.trans S (.step .start hcall) hw',
    hshared, by rw [hlog]; simp, fun event hm => ?_, fun x hx => ?_⟩
  · rcases List.mem_append.mp hm with hm | hm
    · exact hcaller event hm
    · obtain rfl := List.mem_singleton.mp hm
      rfl
  · exact List.mem_append_left _ ((hanswered x hx).resolve_left List.not_mem_nil)

/-! ## Calls one after another -/

/-- New callers call tasks that satisfy `T`, one after another and while nobody else
acts. -/
inductive Calls (S : System Response ε Task Value Shared Input) (I : Input → Prop)
    (T : Task → Prop) (s : Shared) : Shared → Prop
  | none : Calls S I T s s
  | call {middle task t s' result} : Calls S I T s middle → T task →
      Runs S alone I (S.program task) [] middle t s' result → Calls S I T s s'

end
end Concurrency
