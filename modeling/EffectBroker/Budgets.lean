import EffectBroker.Fronts

/-!
# Budgets

A budget grants each task a number of requests, of some kinds.  If every program ends within
the budget of its task, whatever the possible responses, then no caller is ever answered more
often, and a caller that awaits an answer can always go on (`within_budget`): so every call
ends.  And what is answered is what the task may ask for (`asked_of_answered`).
-/
namespace Concurrency

/-- A caller's task, and the answers that it has had. -/
structure Spent (Task : Type) where
  task : Task
  used : Nat := 0

section
variable {Request : Type} {Response : Request → Type} {ε Task Value Shared Input α β : Type}

/-- Callers make the requests that their tasks ask for, and no more than these are granted. -/
def budgeted (budget : Task → Nat) (Asks : Task → Request → Prop)
    (Possible : (r : Request) → Response r → Prop) : Protocol Response Task (Spent Task) where
  start task := { task }
  Allowed l r := l.used < budget l.task ∧ Asks l.task r
  Possible := Possible
  after l _ _ := { l with used := l.used + 1 }

/-- `p` ends within `n` requests that `task` asks for, and its value satisfies `Q`. -/
def Coroutine.Takes (budget : Task → Nat) (Asks : Task → Request → Prop)
    (Possible : (r : Request) → Response r → Prop) (task : Task) (n : Nat) (p : Coroutine Response ε α)
    (Q : α → Prop) : Prop :=
  ∀ l : Spent Task, l.task = task → l.used + n ≤ budget task →
    p.Follows (budgeted budget Asks Possible) l fun l' result => l'.task = task ∧
      l'.used ≤ l.used + n ∧ ∀ value, result = .ok value → Q value

variable {budget : Task → Nat} {Asks : Task → Request → Prop}
  {Possible : (r : Request) → Response r → Prop} {task : Task} {p : Coroutine Response ε α}
  {f : α → Coroutine Response ε β} {Q : α → Prop} {Q' : β → Prop} {n m : Nat}

namespace Coroutine

/-! ## Rules -/

theorem Takes.mono {R : α → Prop} (h : p.Takes budget Asks Possible task n Q) (hn : n ≤ m)
    (hQ : ∀ value, Q value → R value) : p.Takes budget Asks Possible task m R := by
  intro l htask hl
  refine (h l htask (by omega)).mono fun l' result hend => ⟨hend.1, ?_, fun value hvalue => ?_⟩
  · have := hend.2.1
    omega
  · exact hQ value (hend.2.2 value hvalue)

theorem takes_pure {value : α} (h : Q value) :
    (pure value : Coroutine Response ε α).Takes budget Asks Possible task 0 Q := by
  intro l htask _
  refine ⟨htask, Nat.le_refl _, fun value' hvalue => ?_⟩
  cases hvalue
  exact h

theorem takes_throw {exc : ε} :
    (throw exc : Coroutine Response ε α).Takes budget Asks Possible task 0 Q := by
  intro l htask _
  exact ⟨htask, Nat.le_refl _, fun value hvalue => by cases hvalue⟩

theorem takes_ofExcept {result : Except ε α} (h : ∀ value, result = .ok value → Q value) :
    (ofExcept result : Coroutine Response ε α).Takes budget Asks Possible task 0 Q := by
  cases result with
  | error exc => exact takes_throw
  | ok value => exact takes_pure (h value rfl)

theorem takes_request {r : Request} (h : Asks task r) :
    (request r : Coroutine Response ε (Response r)).Takes budget Asks Possible task 1 (Possible r) := by
  intro l htask hl
  refine ⟨⟨by rw [htask]; exact hl, by rw [htask]; exact h⟩, fun response hpossible => ?_⟩
  refine ⟨htask, Nat.le_refl _, fun value hvalue => ?_⟩
  cases hvalue
  exact hpossible

/-- The rule for sequencing. -/
theorem Takes.bind (h : p.Takes budget Asks Possible task n Q)
    (hf : ∀ value, Q value → (f value).Takes budget Asks Possible task m Q') :
    (p >>= f).Takes budget Asks Possible task (n + m) Q' := by
  intro l htask hl
  refine follows_bind.mpr ((h l htask (by omega)).mono fun l' result hend => ?_)
  obtain ⟨htask', hused, hvalue⟩ := hend
  cases result with
  | error exc => exact ⟨htask', by omega, fun value hvalue => by cases hvalue⟩
  | ok value =>
    refine (hf value (hvalue value rfl) l' htask' (by omega)).mono fun l'' result hend => ?_
    exact ⟨hend.1, Nat.le_trans hend.2.1 (by omega), hend.2.2⟩

/-- The rule for handlers. -/
theorem Takes.tryCatch {handler : ε → Coroutine Response ε α}
    (h : p.Takes budget Asks Possible task n Q)
    (hhandler : ∀ exc, (handler exc).Takes budget Asks Possible task m Q) :
    (MonadExcept.tryCatch p handler).Takes budget Asks Possible task (n + m) Q := by
  intro l htask hl
  refine follows_tryCatch.mpr ((h l htask (by omega)).mono fun l' result hend => ?_)
  obtain ⟨htask', hused, hvalue⟩ := hend
  cases result with
  | ok value => exact ⟨htask', by omega, hvalue⟩
  | error exc =>
    refine (hhandler exc l' htask' (by omega)).mono fun l'' result hend => ?_
    exact ⟨hend.1, Nat.le_trans hend.2.1 (by omega), hend.2.2⟩

/-- A handler that raises in turn is paid for by what it leaves out. -/
theorem Takes.bindCatch {handler : ε → Coroutine Response ε α}
    (h : p.Takes budget Asks Possible task n Q)
    (hhandler : ∀ exc, (handler exc).Takes budget Asks Possible task m fun _ => False)
    (hf : ∀ value, Q value → (f value).Takes budget Asks Possible task m Q') :
    (MonadExcept.tryCatch p handler >>= f).Takes budget Asks Possible task (n + m) Q' := by
  intro l htask hl
  refine follows_bind.mpr (follows_tryCatch.mpr ?_)
  refine (h l htask (by omega)).mono fun l' result hend => ?_
  obtain ⟨htask', hused, hvalue⟩ := hend
  cases result with
  | ok value =>
    refine (hf value (hvalue value rfl) l' htask' (by omega)).mono fun l'' result hend => ?_
    exact ⟨hend.1, Nat.le_trans hend.2.1 (by omega), hend.2.2⟩
  | error exc =>
    -- what the handler takes is left over, since `f` does not run after it
    refine (hhandler exc l' htask' (by omega)).mono fun l'' result hend => ?_
    cases result with
    | ok value => exact (hend.2.2 value rfl).elim
    | error exc => exact ⟨hend.1, Nat.le_trans hend.2.1 (by omega), fun value hvalue => by cases hvalue⟩

end Coroutine

/-! ## Runs -/

variable {S : System Response ε Task Value Shared Input} {init : Shared} {c : Nat}

/-- What a caller has had. -/
def OnBudget (budget : Task → Nat) (log : List (Event Response Task)) (c : Nat) : Option (Spent Task) → Prop
  | none => taskIn log c = none ∧ exchangesOf log c = []
  | some l => taskIn log c = some l.task ∧ (exchangesOf log c).length = l.used ∧ l.used ≤ budget l.task

theorem OnBudget.frame {log log' : List (Event Response Task)} {l : Option (Spent Task)}
    (h : OnBudget budget log c l) (htask : taskIn log' c = taskIn log c)
    (hexchanges : exchangesOf log' c = exchangesOf log c) : OnBudget budget log' c l := by
  cases l with
  | none => exact ⟨htask.trans h.1, hexchanges.trans h.2⟩
  | some l => exact ⟨htask.trans h.1, by rw [hexchanges]; exact h.2.1, h.2.2⟩

theorem onBudget_of_protocolRun {s : Shared} {log : List (Event Response Task)}
    (h : ProtocolRun S (budgeted budget Asks Possible) init s log) (c : Nat) :
    OnBudget budget log c (localOf (budgeted budget Asks Possible) log c) := by
  induction h with
  | initial => exact ⟨rfl, rfl⟩
  | @call s log d task hrun hnone ih =>
    rw [localOf_called_eq]
    by_cases hc : c = d
    · obtain rfl := hc
      rw [Function.update_self]
      rw [hnone] at ih
      refine ⟨if_pos rfl, ?_, Nat.zero_le _⟩
      show (exchangesOf log c).length = 0
      rw [ih.2]
      rfl
    · rw [Function.update_of_ne hc]
      exact ih.frame (if_neg hc) rfl
  | @answer s log d l r input hrun hl hallowed hout ih =>
    rw [localOf_answered_eq _ hl]
    by_cases hc : c = d
    · obtain rfl := hc
      rw [Function.update_self]
      rw [hl] at ih
      refine ⟨ih.1, ?_, hallowed.1⟩
      rw [exchangesOf_answered, List.length_cons, ih.2.1]
      rfl
    · rw [Function.update_of_ne hc]
      exact ih.frame rfl (exchangesOf_cons_of_ne (Ne.symm hc))
  | begin _ _ _ _ _ ih | land _ _ ih | stop _ ih => exact ih.frame rfl rfl
  | disturb _ _ ih => exact ih

theorem asked_of_protocolRun {s : Shared} {log : List (Event Response Task)}
    (h : ProtocolRun S (budgeted budget Asks Possible) init s log) {r : Request} {response : Response r}
    (hm : .answered c r response ∈ log) : ∃ task, .called c task ∈ log ∧ Asks task r := by
  induction h with
  | initial => cases hm
  | call _ _ ih | begin _ _ _ _ _ ih | land _ _ ih | stop _ ih =>
    obtain ⟨task, hcalled, hasks⟩ := ih ((List.mem_cons.mp hm).resolve_left fun heq => by cases heq)
    exact ⟨task, List.mem_cons_of_mem _ hcalled, hasks⟩
  | @answer s log d l r' input hrun hl hallowed hout ih =>
    rcases List.mem_cons.mp hm with heq | hm
    · cases heq
      -- it was allowed when it was answered, by the task that the caller had
      have htask := taskIn_of_localOf Spent.task (fun _ => rfl) (fun _ _ _ => rfl) hl
      exact ⟨l.task, List.mem_cons_of_mem _ (mem_of_taskIn htask), hallowed.2⟩
    · obtain ⟨task, hcalled, hasks⟩ := ih hm
      exact ⟨task, List.mem_cons_of_mem _ hcalled, hasks⟩
  | disturb _ _ ih => exact ih hm

/-- A caller that awaits an answer can begin its call, or be answered. -/
theorem System.goes_on {w : World Response ε Task Value Shared} {r : Request}
    {resume : Response r → Coroutine Response ε Value} (h : w.callers c = .running (.await r resume))
    (input : Input) : (S.step w (.begin c)).isSome = true ∨ (S.step w (.answer c input)).isSome = true := by
  -- an external call has to begin first; any other request is answered at once
  by_cases hnow : S.external r = true ∧ (outstanding w.log c).isNone = true
  · left
    simp only [System.step, h]
    rw [if_pos hnow]
    rfl
  · right
    simp only [System.step, h]
    rw [if_neg hnow]
    rfl

section
variable {w : World Response ε Task Value Shared}

theorem reachable_budgeted
    (hprogram : ∀ task, (S.program task).Takes budget Asks Possible task (budget task) fun _ => True)
    (hpossible : ∀ r input s, Possible r (S.exec r input s).1) (h : S.Reachable init w) :
    ProtocolRun S (budgeted budget Asks Possible) init w.shared w.log ∧
      ∀ c, Conforms S (budgeted budget Asks Possible) w.log c (w.callers c) :=
  reachable_protocolRun (P := budgeted budget Asks Possible)
    (fun task => (hprogram task _ rfl (Nat.le_of_eq (Nat.zero_add _))).mono fun _ _ _ => trivial)
    (fun _ r input => hpossible r input _) h

/-- **Every call ends**: no caller is answered more often than its task is granted, and one that
awaits an answer has some left, and can go on. -/
theorem within_budget
    (hprogram : ∀ task, (S.program task).Takes budget Asks Possible task (budget task) fun _ => True)
    (hpossible : ∀ r input s, Possible r (S.exec r input s).1) (h : S.Reachable init w)
    (htask : taskIn w.log c = some task) :
    (exchangesOf w.log c).length ≤ budget task ∧
      ∀ r resume, w.callers c = .running (.await r resume) → (exchangesOf w.log c).length < budget task := by
  obtain ⟨hrun, hconforms⟩ := reachable_budgeted hprogram hpossible h
  have hspent := onBudget_of_protocolRun hrun c
  cases hl : localOf (budgeted budget Asks Possible) w.log c with
  | none =>
    rw [hl] at hspent
    rw [hspent.1] at htask
    cases htask
  | some l =>
    rw [hl] at hspent
    obtain ⟨htask', hlength, hle⟩ := hspent
    obtain rfl := Option.some.inj (htask'.symm.trans htask)
    refine ⟨hlength ▸ hle, fun r resume hrunning => ?_⟩
    have hc := hconforms c
    rw [hrunning] at hc
    obtain ⟨l', hl', hfollows, -⟩ := hc
    rw [hl] at hl'
    cases hl'
    rw [hlength]
    exact hfollows.1.1

/-- **Callers are answered what their tasks ask for.** -/
theorem asked_of_answered
    (hprogram : ∀ task, (S.program task).Takes budget Asks Possible task (budget task) fun _ => True)
    (hpossible : ∀ r input s, Possible r (S.exec r input s).1) (h : S.Reachable init w) {r : Request}
    {response : Response r} (hm : .answered c r response ∈ w.log) :
    ∃ task, .called c task ∈ w.log ∧ Asks task r :=
  asked_of_protocolRun (reachable_budgeted hprogram hpossible h).1 hm

end

end
end Concurrency
