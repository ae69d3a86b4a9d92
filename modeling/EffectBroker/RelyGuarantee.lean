import EffectBroker.SoloRun

/-!
# Rely and guarantee

In an interleaving, what the others make of the shared state between two answers to a
caller is their guarantee.  If a rely relation allows it, then whatever `Always` promises
of a program under this rely holds of every caller that runs the program
(`System.ReachableFrom.always`).
-/
namespace Concurrency

section
variable {Request : Type} {Response : Request → Type} {ε Task Value Shared Input α : Type}

/-- The exchanges of a caller, newest first. -/
def exchangesOf : List (Event Response Task) → Nat → List (Exchange Response)
  | [], _ => []
  | .answered caller r response :: log, c =>
    if c = caller then ⟨r, response⟩ :: exchangesOf log c else exchangesOf log c
  | _ :: log, c => exchangesOf log c

theorem exchangesOf_answered {log : List (Event Response Task)} {c : Nat} {r : Request}
    {response : Response r} :
    exchangesOf (.answered c r response :: log) c = ⟨r, response⟩ :: exchangesOf log c := if_pos rfl

theorem exchangesOf_cons_of_ne {log : List (Event Response Task)} {c : Nat}
    {event : Event Response Task} (h : event.caller ≠ c) :
    exchangesOf (event :: log) c = exchangesOf log c := by
  cases event with
  | answered => exact if_neg (Ne.symm h)
  | _ => rfl

theorem outstanding_cons_of_ne {log : List (Event Response Task)} {c : Nat}
    {event : Event Response Task} (h : event.caller ≠ c) :
    outstanding (event :: log) c = outstanding log c := by
  cases event with
  | began | answered => exact if_neg (Ne.symm h)
  | _ => rfl

/-- An exchange is an answer in the log. -/
theorem mem_exchangesOf {log : List (Event Response Task)} {c : Nat} {x : Exchange Response} :
    x ∈ exchangesOf log c ↔ .answered c x.request x.response ∈ log := by
  induction log with
  | nil => exact ⟨fun h => (nomatch h), fun h => nomatch h⟩
  | cons event log ih =>
    cases event with
    | answered d r response =>
      by_cases hd : c = d
      · subst hd
        rw [exchangesOf_answered, List.mem_cons, List.mem_cons, ih]
        refine or_congr ⟨fun h => ?_, fun h => ?_⟩ Iff.rfl
        · rw [h]
        · cases h
          rfl
      · rw [exchangesOf_cons_of_ne (Ne.symm hd), ih, List.mem_cons]
        refine ⟨.inr, fun h => h.resolve_left fun he => ?_⟩
        cases he
        exact hd rfl
    | _ =>
      rw [List.mem_cons]
      exact ih.trans ⟨.inr, fun h => h.resolve_left fun he => nomatch he⟩

theorem mem_called_cons {log : List (Event Response Task)} {c : Nat} {task : Task}
    {event : Event Response Task} (h : ∀ task, event ≠ .called c task) :
    .called c task ∈ event :: log ↔ .called c task ∈ log :=
  List.mem_cons.trans ⟨fun hm => hm.resolve_left (Ne.symm (h task)), .inr⟩

/-- The caller that a choice is about. -/
def Choice.caller? : Choice Task Input → Option Nat
  | .call c _ | .begin c | .land c | .answer c _ | .stop c => some c
  | .disturb _ => none

/-- Anything at all may happen to the shared state. -/
def anything : Rely Response Shared := fun _ _ _ => True

/-- Nobody but the caller of a choice moves: the others stay what they are, and make no
exchange. -/
theorem System.step_frame {S : System Response ε Task Value Shared Input}
    {u v : World Response ε Task Value Shared} {choice : Choice Task Input}
    (h : S.step u choice = some v) {c : Nat} (hc : choice.caller? ≠ some c) :
    v.callers c = u.callers c ∧ exchangesOf v.log c = exchangesOf u.log c ∧
      outstanding v.log c = outstanding u.log c ∧
      ∀ task, .called c task ∈ v.log ↔ .called c task ∈ u.log := by
  have cons : ∀ event : Event Response Task, event.caller ≠ c →
      exchangesOf (event :: u.log) c = exchangesOf u.log c ∧
        outstanding (event :: u.log) c = outstanding u.log c ∧
        ∀ task, .called c task ∈ event :: u.log ↔ .called c task ∈ u.log := fun event he =>
    ⟨exchangesOf_cons_of_ne he, outstanding_cons_of_ne he, fun _ =>
      mem_called_cons fun _ heq => he (by rw [heq]; rfl)⟩
  cases choice with
  | disturb =>
    cases h
    exact ⟨rfl, rfl, rfl, fun _ => Iff.rfl⟩
  | call d | begin d | land d | answer d | stop d =>
    have hd : d ≠ c := fun he => hc (congrArg some he)
    simp only [System.step] at h
    split at h <;> (try split at h) <;> cases h
    all_goals first
      | exact ⟨Function.update_of_ne (Ne.symm hd) .., cons _ hd⟩
      | exact ⟨rfl, cons _ hd⟩

/-- Choices of other callers leave a caller what it is. -/
theorem System.after_callers (S : System Response ε Task Value Shared Input)
    (w : World Response ε Task Value Shared) {choices : List (Choice Task Input)} {c : Nat}
    (h : ∀ choice ∈ choices, choice.caller? ≠ some c) : (S.after w choices).callers c = w.callers c := by
  have ran : ∀ {choices u v}, S.run u choices = some v →
      (∀ choice ∈ choices, choice.caller? ≠ some c) → v.callers c = u.callers c := by
    intro choices
    induction choices with
    | nil =>
      intro u v hrun _
      cases hrun
      rfl
    | cons choice choices ih =>
      intro u v hrun hchoices
      obtain ⟨m, hstep, hrest⟩ := Option.bind_eq_some_iff.mp hrun
      rw [ih hrest fun choice hm => hchoices choice (List.mem_cons_of_mem _ hm)]
      exact (System.step_frame hstep (hchoices choice (List.mem_cons_self ..))).1
  unfold System.after
  cases hrun : S.run w choices with
  | none => rfl
  | some v => exact ran hrun h

variable {S : System Response ε Task Value Shared Input} {R : Rely Response Shared}

/-- What always holds still does after the others have acted. -/
theorem Always.others {p : Coroutine Response ε α} {t : List (Exchange Response)} {s s' : Shared}
    {I : Input → Prop} {Q : List (Exchange Response) → Shared → Except ε α → Prop}
    (htrans : ∀ t s s' s'', R t s s' → R t s' s'' → R t s s'')
    (hstable : ∀ t s s' result, Q t s result → R t s s' → Q t s' result)
    (h : Always S R I p t s Q) (hr : R t s s') : Always S R I p t s' Q := by
  cases p with
  | done | raised => exact hstable _ _ _ _ h hr
  | await => exact fun middle input hm hi => h middle input (htrans _ _ _ _ hr hm) hi

/-- A caller that nobody has called yet has no past. -/
theorem System.ReachableFrom.absent {init : Shared} {w : World Response ε Task Value Shared}
    (h : S.Reachable init w) {c : Nat} (hc : w.callers c = .absent) :
    exchangesOf w.log c = [] ∧ outstanding w.log c = none ∧ ∀ task, .called c task ∉ w.log := by
  induction h with
  | start => exact ⟨rfl, rfl, fun _ hm => nomatch hm⟩
  | @step u v choice _ hs ih =>
    by_cases hchoice : choice.caller? = some c
    · -- a caller that has taken a step is not absent
      exfalso
      cases choice with
      | disturb => cases hchoice
      | land d =>
        cases hchoice
        simp only [System.step] at hs
        split at hs
        · rename_i r hr
          cases hs
          rw [(ih hc).2.1] at hr
          cases hr
        · cases hs
      | begin d =>
        cases hchoice
        simp only [System.step] at hs
        split at hs
        · rename_i hrunning
          split at hs <;> cases hs
          rw [hrunning] at hc
          cases hc
        · cases hs
      | call d | answer d | stop d =>
        cases hchoice
        simp only [System.step] at hs
        split at hs <;> (try split at hs) <;> cases hs
        all_goals
          simp only [Function.update_self] at hc
          cases hc
    · obtain ⟨hcallers, hexchanges, hout, hcalled⟩ := System.step_frame hs hchoice
      rw [hcallers] at hc
      obtain ⟨hnil, hnone, hnot⟩ := ih hc
      exact ⟨hexchanges.trans hnil, hout.trans hnone, fun task hm => hnot task ((hcalled task).mp hm)⟩

/-- The worlds reached by steps that satisfy `P`. -/
inductive System.ReachableVia (S : System Response ε Task Value Shared Input)
    (P : World Response ε Task Value Shared → Choice Task Input → World Response ε Task Value Shared →
      Prop) (w : World Response ε Task Value Shared) : World Response ε Task Value Shared → Prop
  | start : S.ReachableVia P w w
  | step {u v choice} : S.ReachableVia P w u → S.step u choice = some v → P u choice v →
      S.ReachableVia P w v

section
variable {P : World Response ε Task Value Shared → Choice Task Input →
  World Response ε Task Value Shared → Prop}

theorem System.ReachableVia.reachableFrom {w w' : World Response ε Task Value Shared}
    (h : S.ReachableVia P w w') : S.ReachableFrom w w' := by
  induction h with
  | start => exact .start
  | step _ hs _ ih => exact ih.step hs

theorem System.ReachableFrom.via {w w' : World Response ε Task Value Shared}
    (h : S.ReachableFrom w w') : S.ReachableVia (fun _ _ _ => True) w w' := by
  induction h with
  | start => exact .start
  | step _ hs ih => exact ih.step hs trivial

/-- The choices are possible one after another, and their steps satisfy `P`. -/
def System.Meets (S : System Response ε Task Value Shared Input)
    (P : World Response ε Task Value Shared → Choice Task Input → World Response ε Task Value Shared →
      Prop) (w : World Response ε Task Value Shared) : List (Choice Task Input) → Prop
  | [] => True
  | choice :: choices =>
    match S.step w choice with
    | none => False
    | some v => P w choice v ∧ S.Meets P v choices

instance System.decidableMeets [∀ u choice v, Decidable (P u choice v)] :
    (choices : List (Choice Task Input)) → (w : World Response ε Task Value Shared) →
      Decidable (S.Meets P w choices)
  | [], _ => .isTrue trivial
  | choice :: choices, w =>
    match h : S.step w choice with
    | none => .isFalse fun hmeets => by
      rw [System.Meets, h] at hmeets
      exact hmeets
    | some v =>
      have : Decidable (S.Meets P v choices) := System.decidableMeets choices v
      decidable_of_iff (P w choice v ∧ S.Meets P v choices) (by rw [System.Meets, h])

theorem System.Meets.reachableVia {w u : World Response ε Task Value Shared}
    {choices : List (Choice Task Input)} (h : S.Meets P u choices) (hu : S.ReachableVia P w u) :
    S.ReachableVia P w (S.after u choices) := by
  have ran : ∃ v, S.run u choices = some v ∧ S.ReachableVia P w v := by
    induction choices generalizing u with
    | nil => exact ⟨u, rfl, hu⟩
    | cons choice choices ih =>
      rw [System.Meets] at h
      cases hs : S.step u choice with
      | none =>
        rw [hs] at h
        exact h.elim
      | some v =>
        rw [hs] at h
        obtain ⟨end_, hrun, hreach⟩ := ih h.2 (hu.step hs h.1)
        exact ⟨end_, by rw [System.run, hs]; exact hrun, hreach⟩
  obtain ⟨v, hrun, hreach⟩ := ran
  rw [System.after, hrun]
  exact hreach

/-- **Rely and guarantee** along steps that satisfy `P`.  If there the others only do what
the rely allows, a running caller keeps what its task always ensures from the states of the
run. -/
theorem System.ReachableVia.always {init : Shared} {w : World Response ε Task Value Shared} {c : Nat}
    {J : Shared → Prop} {Q : Task → List (Exchange Response) → Shared → Except ε Value → Prop}
    (hprogram : ∀ task s, J s → Always S R (fun _ => True) (S.program task) [] s (Q task))
    (hrefl : ∀ t s, R t s s) (htrans : ∀ t s s' s'', R t s s' → R t s' s'' → R t s s'')
    (hstable : ∀ task t s s' result, Q task t s result → R t s s' → Q task t s' result)
    (hinv : ∀ {u}, S.ReachableVia P (World.initial init) u → J u.shared)
    (hguarantee : ∀ {u v choice}, S.ReachableVia P (World.initial init) u →
      S.step u choice = some v → P u choice v → choice.caller? ≠ some c →
      R (exchangesOf u.log c) u.shared v.shared)
    (h : S.ReachableVia P (World.initial init) w) {p : Coroutine Response ε Value}
    (hc : w.callers c = .running p) :
    ∃ task, (∀ task', .called c task' ∈ w.log ↔ task' = task) ∧
      Always S R (fun _ => True) p (exchangesOf w.log c) w.shared (Q task) := by
  induction h generalizing p with
  | start => cases hc
  | @step u v choice hvia hs hP ih =>
    have hu := hvia.reachableFrom
    by_cases hchoice : choice.caller? = some c
    · cases choice with
      | disturb => cases hchoice
      | call d task =>
        cases hchoice
        simp only [System.step] at hs
        split at hs <;> cases hs
        rename_i habsent
        simp only [Function.update_self] at hc
        cases hc
        obtain ⟨hnil, -, hnot⟩ := System.ReachableFrom.absent hu habsent
        refine ⟨task, fun task' => ⟨fun hm => ?_, ?_⟩, ?_⟩
        · rcases List.mem_cons.mp hm with heq | hm
          · cases heq
            rfl
          · exact absurd hm (hnot task')
        · rintro rfl
          exact List.mem_cons_self ..
        · rw [show exchangesOf (.called c task :: u.log) c = [] from hnil]
          exact hprogram task u.shared (hinv hvia)
      | begin d | land d =>
        cases hchoice
        simp only [System.step] at hs
        split at hs <;> (try split at hs) <;> cases hs
        obtain ⟨task, hcalled, halways⟩ := ih hc
        refine ⟨task, fun task' => Iff.trans (mem_called_cons ?_) (hcalled task'), halways⟩
        intro _ he
        cases he
      | answer d input =>
        cases hchoice
        simp only [System.step] at hs
        split at hs <;> (try split at hs) <;> cases hs
        rename_i r resume hrunning _
        simp only [Function.update_self] at hc
        cases hc
        obtain ⟨task, hcalled, halways⟩ := ih hrunning
        refine ⟨task, fun task' => Iff.trans (mem_called_cons ?_) (hcalled task'), ?_⟩
        · intro _ he
          cases he
        rw [exchangesOf_answered]
        exact halways _ input (hrefl _ _) trivial
      | stop d =>
        cases hchoice
        simp only [System.step] at hs
        split at hs <;> cases hs
        simp only [Function.update_self] at hc
        cases hc
    · obtain ⟨hcallers, hexchanges, -, hcalled⟩ := System.step_frame hs hchoice
      obtain ⟨task, hcalled', halways⟩ := ih (hcallers.symm.trans hc)
      refine ⟨task, fun task' => (hcalled task').trans (hcalled' task'), ?_⟩
      rw [hexchanges]
      exact halways.others htrans (hstable task) (hguarantee hvia hs hP hchoice)

end

/-- **Rely and guarantee.**  If the others only do what the rely allows, a running caller
keeps what its task always ensures. -/
theorem System.ReachableFrom.always {init : Shared} {w : World Response ε Task Value Shared}
    {Q : Task → List (Exchange Response) → Shared → Except ε Value → Prop}
    (hprogram : ∀ task s, Always S R (fun _ => True) (S.program task) [] s (Q task))
    (hrefl : ∀ t s, R t s s) (htrans : ∀ t s s' s'', R t s s' → R t s' s'' → R t s s'')
    (hstable : ∀ task t s s' result, Q task t s result → R t s s' → Q task t s' result)
    (hguarantee : ∀ {u v choice c}, S.Reachable init u → S.step u choice = some v →
      choice.caller? ≠ some c → R (exchangesOf u.log c) u.shared v.shared)
    (h : S.Reachable init w) {c : Nat} {p : Coroutine Response ε Value}
    (hc : w.callers c = .running p) :
    ∃ task, (∀ task', .called c task' ∈ w.log ↔ task' = task) ∧
      Always S R (fun _ => True) p (exchangesOf w.log c) w.shared (Q task) :=
  h.via.always (J := fun _ => True) (fun task s _ => hprogram task s) hrefl htrans hstable
    (fun _ => trivial) (fun hu hs _ => hguarantee hu.reachableFrom hs) hc

/-! ## The past of a world -/

/-- A caller calls once. -/
theorem System.ReachableFrom.called_unique {init : Shared} {w : World Response ε Task Value Shared}
    (h : S.Reachable init w) {c : Nat} {task task' : Task} (hm : .called c task ∈ w.log)
    (hm' : .called c task' ∈ w.log) : task = task' := by
  induction h with
  | start => cases hm
  | @step u v choice hu hs ih =>
    by_cases hchoice : choice.caller? = some c
    · cases choice with
      | disturb => cases hchoice
      | call d =>
        cases hchoice
        simp only [System.step] at hs
        split at hs <;> cases hs
        rename_i habsent
        have hnot := (System.ReachableFrom.absent hu habsent).2.2
        have latest := (List.mem_cons.mp hm).resolve_right (hnot task)
        have latest' := (List.mem_cons.mp hm').resolve_right (hnot task')
        exact (Event.called.inj (latest.trans latest'.symm)).2
      | begin d | land d | answer d | stop d =>
        cases hchoice
        simp only [System.step] at hs
        split at hs <;> (try split at hs) <;> cases hs
        all_goals
          refine ih ((mem_called_cons ?_).mp hm) ((mem_called_cons ?_).mp hm')
          all_goals
            intro _ he
            cases he
    · have hcalled := (System.step_frame hs hchoice).2.2.2
      exact ih ((hcalled task).mp hm) ((hcalled task').mp hm')

/-- A step adds at most one event. -/
theorem System.step_log {u v : World Response ε Task Value Shared} {choice : Choice Task Input}
    (h : S.step u choice = some v) : v.log = u.log ∨ ∃ event, v.log = event :: u.log := by
  cases choice with
  | disturb =>
    cases h
    exact .inl rfl
  | call | begin | land | answer | stop =>
    simp only [System.step] at h
    split at h <;> (try split at h) <;> cases h
    all_goals exact .inr ⟨_, rfl⟩

theorem System.ReachableFrom.log_append {w w' : World Response ε Task Value Shared}
    (h : S.ReachableFrom w w') : ∃ newer, w'.log = newer ++ w.log := by
  induction h with
  | start => exact ⟨[], rfl⟩
  | step _ hs ih =>
    obtain ⟨newer, hnewer⟩ := ih
    rcases System.step_log hs with hlog | ⟨event, hlog⟩
    · exact ⟨newer, hlog.trans hnewer⟩
    · exact ⟨event :: newer, by rw [hlog, hnewer]; rfl⟩

/-- The step of an event of the log. -/
theorem System.ReachableFrom.at_event {w w' : World Response ε Task Value Shared}
    (h : S.ReachableFrom w w') {newer older : List (Event Response Task)}
    {event : Event Response Task} (hlog : w'.log = newer ++ event :: (older ++ w.log)) :
    ∃ u v choice, S.ReachableFrom w u ∧ S.step u choice = some v ∧ u.log = older ++ w.log ∧
      v.log = event :: (older ++ w.log) ∧ S.ReachableFrom v w' := by
  induction h generalizing newer with
  | start =>
    have := congrArg List.length hlog
    simp only [List.length_append, List.length_cons] at this
    omega
  | @step u v choice hu hs ih =>
    have past : ∀ newer, u.log = newer ++ event :: (older ++ w.log) →
        ∃ a b choice, S.ReachableFrom w a ∧ S.step a choice = some b ∧ a.log = older ++ w.log ∧
          b.log = event :: (older ++ w.log) ∧ S.ReachableFrom b v := fun newer hlog => by
      obtain ⟨a, b, choice, ha, hab, halog, hblog, hb⟩ := ih hlog
      exact ⟨a, b, choice, ha, hab, halog, hblog, hb.step hs⟩
    rcases System.step_log hs with hsame | ⟨latest, hcons⟩
    · exact past newer (hsame.symm.trans hlog)
    · cases newer with
      | nil =>
        have heq := hcons.symm.trans hlog
        obtain ⟨rfl, hold⟩ := List.cons.inj heq
        exact ⟨u, v, choice, hu, hs, hold, hlog, .start⟩
      | cons _ newer => exact past newer (List.cons.inj (hcons.symm.trans hlog)).2

/-- The step of an answer in the log of a reachable world. -/
theorem System.ReachableFrom.at_answer {init : Shared} {w : World Response ε Task Value Shared}
    (h : S.Reachable init w) {c : Nat} {r : Request} {response : Response r}
    (hm : .answered c r response ∈ w.log) :
    ∃ u v input, S.Reachable init u ∧ S.step u (.answer c input) = some v ∧
      (∃ resume, u.callers c = .running (.await r resume)) ∧
      response = (S.exec r input u.shared).1 ∧ v.shared = (S.exec r input u.shared).2 ∧
      S.ReachableFrom v w := by
  obtain ⟨newer, older, hlog⟩ := List.append_of_mem hm
  have hsplit : w.log = newer ++ .answered c r response ::
      (older ++ (World.initial init : World Response ε Task Value Shared).log) := by
    rw [hlog]
    simp [World.initial]
  obtain ⟨u, v, choice, hu, hs, hulog, hvlog, hv⟩ := h.at_event hsplit
  have hcons := hvlog.trans (congrArg (List.cons _) hulog.symm)
  cases choice with
  | disturb =>
    cases hs
    have := congrArg List.length hcons
    simp only [List.length_cons] at this
    omega
  | answer d input =>
    have hstep := hs
    simp only [System.step] at hs
    split at hs <;> (try split at hs) <;> cases hs
    rename_i hrunning _
    cases hcons
    exact ⟨u, _, input, hu, hstep, ⟨_, hrunning⟩, rfl, rfl, hv⟩
  | call | begin | land | stop =>
    simp only [System.step] at hs
    split at hs <;> (try split at hs) <;> cases hs
    all_goals cases hcons

/-- What a step of an answer does to its caller's call. -/
theorem System.step_awaited {u v : World Response ε Task Value Shared} {c : Nat} {input : Input}
    (h : S.step u (.answer c input) = some v) :
    ∃ r resume, u.callers c = .running (.await r resume) ∧ v.shared = (S.exec r input u.shared).2 ∧
      v.log = .answered c r (S.exec r input u.shared).1 :: u.log := by
  simp only [System.step] at h
  split at h <;> (try split at h) <;> cases h
  rename_i r resume hrunning _
  exact ⟨r, resume, hrunning, rfl, rfl⟩

theorem System.step_answer {u v : World Response ε Task Value Shared} {c : Nat} {input : Input}
    (h : S.step u (.answer c input) = some v) :
    ∃ r, v.shared = (S.exec r input u.shared).2 ∧
      v.log = .answered c r (S.exec r input u.shared).1 :: u.log := by
  obtain ⟨r, -, -, hanswered⟩ := System.step_awaited h
  exact ⟨r, hanswered⟩

end
end Concurrency
