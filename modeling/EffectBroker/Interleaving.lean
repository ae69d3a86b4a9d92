import Mathlib.Data.List.Basic
import Mathlib.Logic.Function.Basic
import EffectBroker.Coroutine

/-!
# Interleavings of concurrent callers

Any number of callers run coroutines over one shared state.  A request is served in
one atomic step, except that an external call takes time: it begins, its effect on
the outside may land at any moment while it is outstanding, and it is answered
later, if at all.  A caller may stop for good between two steps.

The log holds every event, newest first.  Local states and outstanding calls are
read off the log, so a property of histories is a property of the log alone.
`reachable_protocolRun` reduces runs of programs that follow a protocol to runs of
the protocol, in which callers have no code.
-/
namespace Concurrency

/-- What can happen to a caller. -/
inductive Event {Request : Type} (Response : Request → Type) (Task : Type) where
  | called (caller : Nat) (task : Task)
  | began (caller : Nat) (request : Request)
  | landed (caller : Nat) (request : Request)
  | answered (caller : Nat) (request : Request) (response : Response request)
  | stopped (caller : Nat)

/-- The shared state, what the surroundings decide at each answer, and the program
of each task. -/
structure System {Request : Type} (Response : Request → Type)
    (ε Task Value Shared Input : Type) where
  program : Task → Coroutine Response ε Value
  external : Request → Bool
  exec : (r : Request) → Input → Shared → Response r × Shared
  disturb : Input → Shared → Shared

/-- What one caller is doing; a finished caller runs a coroutine without awaits. -/
inductive Caller {Request : Type} (Response : Request → Type) (ε Value : Type) where
  | absent
  | running (program : Coroutine Response ε Value)
  | stopped

/-- The shared state, the callers, and the log. -/
structure World {Request : Type} (Response : Request → Type) (ε Task Value Shared : Type) where
  shared : Shared
  callers : Nat → Caller Response ε Value
  log : List (Event Response Task)

/-- One choice of the scheduler and the surroundings. -/
inductive Choice (Task Input : Type) where
  | call (caller : Nat) (task : Task)
  | begin (caller : Nat)
  | land (caller : Nat)
  | answer (caller : Nat) (input : Input)
  | stop (caller : Nat)
  | disturb (input : Input)

section
variable {Request : Type} {Response : Request → Type} {ε Task Value Shared Input Local : Type}

/-- `P` holds of every element and the older ones, in a list whose newest comes first. -/
def Throughout {α : Type} (P : List α → α → Prop) : List α → Prop
  | [] => True
  | event :: log => P log event ∧ Throughout P log

instance {α : Type} (P : List α → α → Prop) [∀ log event, Decidable (P log event)] :
    (log : List α) → Decidable (Throughout P log)
  | [] => .isTrue trivial
  | event :: log =>
    have : Decidable (Throughout P log) := instDecidableThroughout P log
    inferInstanceAs (Decidable (P log event ∧ Throughout P log))

theorem Throughout.mono {α : Type} {P Q : List α → α → Prop} {log : List α}
    (h : Throughout P log) (hpq : ∀ older event, P older event → Q older event) :
    Throughout Q log := by
  induction log with
  | nil => trivial
  | cons event log ih => exact ⟨hpq log event h.1, ih h.2⟩

theorem Throughout.and {α : Type} {P Q : List α → α → Prop} {log : List α}
    (hp : Throughout P log) (hq : Throughout Q log) :
    Throughout (fun older event => P older event ∧ Q older event) log := by
  induction log with
  | nil => trivial
  | cons _ log ih => exact ⟨⟨hp.1, hq.1⟩, ih hp.2 hq.2⟩

theorem Throughout.of_append {α : Type} {P : List α → α → Prop} {newer older : List α} {event : α}
    (h : Throughout P (newer ++ event :: older)) : P older event := by
  induction newer with
  | nil => exact h.1
  | cons _ newer ih => exact ih h.2

theorem Throughout.older {α : Type} {P : List α → α → Prop} {newer older : List α}
    (h : Throughout P (newer ++ older)) : Throughout P older := by
  induction newer with
  | nil => exact h
  | cons _ newer ih => exact ih h.2

/-- The external call of a caller that has begun and has no answer. -/
def outstanding : List (Event Response Task) → Nat → Option Request
  | [], _ => none
  | .began caller r :: log, c => if c = caller then some r else outstanding log c
  | .answered caller _ _ :: log, c => if c = caller then none else outstanding log c
  | _ :: log, c => outstanding log c

/-- The local state of a caller. -/
def localOf (P : Protocol Response Task Local) : List (Event Response Task) → Nat → Option Local
  | [], _ => none
  | .called caller task :: log, c => if c = caller then some (P.start task) else localOf P log c
  | .answered caller r response :: log, c =>
    if c = caller then (localOf P log c).map (fun l => P.after l r response) else localOf P log c
  | _ :: log, c => localOf P log c

theorem localOf_called_eq (P : Protocol Response Task Local) (log : List (Event Response Task))
    (c : Nat) (task : Task) : localOf P (.called c task :: log) =
      Function.update (localOf P log) c (some (P.start task)) := by
  funext d
  by_cases hd : d = c
  · subst hd
    rw [Function.update_self]
    exact if_pos rfl
  · rw [Function.update_of_ne hd]
    exact if_neg hd

theorem localOf_answered_eq (P : Protocol Response Task Local) {log : List (Event Response Task)}
    {c : Nat} {l : Local} (hl : localOf P log c = some l) {r : Request} (response : Response r) :
    localOf P (.answered c r response :: log) =
      Function.update (localOf P log) c (some (P.after l r response)) := by
  funext d
  by_cases hd : d = c
  · subst hd
    rw [Function.update_self]
    exact (if_pos rfl).trans (congrArg _ hl)
  · rw [Function.update_of_ne hd]
    exact if_neg hd

/-! ## Worlds -/

/-- Nobody has called anything. -/
def World.initial (shared : Shared) : World Response ε Task Value Shared :=
  ⟨shared, fun _ => .absent, []⟩

namespace System
variable (S : System Response ε Task Value Shared Input)

/-- Take one choice, if it is possible. -/
def step (w : World Response ε Task Value Shared) :
    Choice Task Input → Option (World Response ε Task Value Shared)
  | .call c task =>
    match w.callers c with
    | .absent => some ⟨w.shared, Function.update w.callers c (.running (S.program task)),
        .called c task :: w.log⟩
    | _ => none
  | .begin c =>
    match w.callers c with
    | .running (.await r _) =>
      if S.external r ∧ (outstanding w.log c).isNone then
        some ⟨w.shared, w.callers, .began c r :: w.log⟩
      else none
    | _ => none
  | .land c =>
    match outstanding w.log c with
    | some r => some ⟨w.shared, w.callers, .landed c r :: w.log⟩
    | none => none
  | .answer c input =>
    match w.callers c with
    | .running (.await r resume) =>
      if S.external r ∧ (outstanding w.log c).isNone then none
      else
        let (response, shared) := S.exec r input w.shared
        some ⟨shared, Function.update w.callers c (.running (resume response)),
          .answered c r response :: w.log⟩
    | _ => none
  | .stop c =>
    match w.callers c with
    | .running _ => some ⟨w.shared, Function.update w.callers c .stopped, .stopped c :: w.log⟩
    | _ => none
  | .disturb input => some ⟨S.disturb input w.shared, w.callers, w.log⟩

/-- Take choices one after another. -/
def run (w : World Response ε Task Value Shared) :
    List (Choice Task Input) → Option (World Response ε Task Value Shared)
  | [] => some w
  | choice :: choices => (S.step w choice).bind (run · choices)

/-- The worlds reached from `w`. -/
inductive ReachableFrom (w : World Response ε Task Value Shared) :
    World Response ε Task Value Shared → Prop
  | start : ReachableFrom w w
  | step {u v choice} : ReachableFrom w u → S.step u choice = some v → ReachableFrom w v

/-- The worlds reached from a shared state that nobody has used. -/
abbrev Reachable (shared : Shared) (w : World Response ε Task Value Shared) : Prop :=
  S.ReachableFrom (World.initial shared) w

theorem ReachableFrom.trans {u v w : World Response ε Task Value Shared}
    (huv : S.ReachableFrom u v) (hvw : S.ReachableFrom v w) : S.ReachableFrom u w := by
  induction hvw with
  | start => exact huv
  | step _ hs ih => exact ih.step hs

theorem reachableFrom_of_run {u v : World Response ε Task Value Shared}
    {choices : List (Choice Task Input)} (h : S.run u choices = some v) : S.ReachableFrom u v := by
  induction choices generalizing u with
  | nil =>
    cases h
    exact .start
  | cons choice choices ih =>
    obtain ⟨m, hm, hr⟩ := Option.bind_eq_some_iff.mp h
    exact .trans S (.step .start hm) (ih hr)

/-- The world after these choices, or `w` if one of them is not possible. -/
def after (w : World Response ε Task Value Shared) (choices : List (Choice Task Input)) :
    World Response ε Task Value Shared := (S.run w choices).getD w

theorem after_of_run {w v : World Response ε Task Value Shared} {choices : List (Choice Task Input)}
    (h : S.run w choices = some v) : S.after w choices = v := by
  rw [after, h, Option.getD_some]

theorem reachableFrom_after (w : World Response ε Task Value Shared)
    (choices : List (Choice Task Input)) : S.ReachableFrom w (S.after w choices) := by
  unfold after
  cases h : S.run w choices with
  | none => exact .start
  | some v => exact S.reachableFrom_of_run h

end System

/-! ## Runs of a protocol -/

/-- Runs in which callers only have their local states: whatever a local state
allows may happen. -/
inductive ProtocolRun (S : System Response ε Task Value Shared Input)
    (P : Protocol Response Task Local) (shared : Shared) :
    Shared → List (Event Response Task) → Prop
  | initial : ProtocolRun S P shared shared []
  | call {s log c task} : ProtocolRun S P shared s log → localOf P log c = none →
      ProtocolRun S P shared s (.called c task :: log)
  | begin {s log c l r} : ProtocolRun S P shared s log → localOf P log c = some l →
      P.Allowed l r → outstanding log c = none → S.external r →
      ProtocolRun S P shared s (.began c r :: log)
  | land {s log c r} : ProtocolRun S P shared s log → outstanding log c = some r →
      ProtocolRun S P shared s (.landed c r :: log)
  | answer {s log c l r} (input : Input) : ProtocolRun S P shared s log →
      localOf P log c = some l → P.Allowed l r →
      outstanding log c = (if S.external r then some r else none) →
      ProtocolRun S P shared (S.exec r input s).2 (.answered c r (S.exec r input s).1 :: log)
  | stop {s log c} : ProtocolRun S P shared s log → ProtocolRun S P shared s (.stopped c :: log)
  | disturb {s log} (input : Input) : ProtocolRun S P shared s log →
      ProtocolRun S P shared (S.disturb input s) log

/-- What the code of a caller has to do with its local state: the code follows the
protocol from there, and an outstanding call is the one it awaits. -/
def Conforms (S : System Response ε Task Value Shared Input) (P : Protocol Response Task Local)
    (log : List (Event Response Task)) (c : Nat) : Caller Response ε Value → Prop
  | .absent => localOf P log c = none ∧ outstanding log c = none
  | .running p => ∃ l, localOf P log c = some l ∧ p.Follows P l (fun _ _ => True) ∧
      ∀ r, outstanding log c = some r → S.external r = true ∧ ∃ resume, p = .await r resume
  | .stopped => True

/-- An event of one caller changes neither the local state nor the outstanding call of
another. -/
theorem Conforms.frame {S : System Response ε Task Value Shared Input}
    {P : Protocol Response Task Local} {log log' : List (Event Response Task)} {c : Nat}
    {caller : Caller Response ε Value} (h : Conforms S P log c caller)
    (hl : localOf P log' c = localOf P log c) (ho : outstanding log' c = outstanding log c) :
    Conforms S P log' c caller := by
  cases caller with
  | absent => exact ⟨hl.trans h.1, ho.trans h.2⟩
  | running p =>
    obtain ⟨l, hlocal, hf, hout⟩ := h
    exact ⟨l, hl.trans hlocal, hf, fun r hr => hout r (ho.symm.trans hr)⟩
  | stopped => trivial

section
variable {S : System Response ε Task Value Shared Input} {P : Protocol Response Task Local}

/-- One step of programs that follow the protocol is a step of the protocol. -/
theorem step_protocolRun {init : Shared} {u v : World Response ε Task Value Shared}
    {choice : Choice Task Input}
    (hprogram : ∀ task, (S.program task).Follows P (P.start task) (fun _ _ => True))
    (hpossible : ∀ {s log}, ProtocolRun S P init s log → ∀ r input, P.Possible r (S.exec r input s).1)
    (hrun : ProtocolRun S P init u.shared u.log)
    (hconf : ∀ c, Conforms S P u.log c (u.callers c)) (hstep : S.step u choice = some v) :
    ProtocolRun S P init v.shared v.log ∧ ∀ c, Conforms S P v.log c (v.callers c) := by
  cases choice with
  | call c task =>
    have hc := hconf c
    simp only [System.step] at hstep
    split at hstep
    · rename_i habsent
      cases hstep
      rw [habsent] at hc
      refine ⟨hrun.call hc.1, fun d => ?_⟩
      by_cases hd : d = c
      · subst hd
        simp only [Function.update_self]
        refine ⟨P.start task, by simp [localOf], hprogram task, fun r hr => ?_⟩
        simp [outstanding, hc.2] at hr
      · simp only [Function.update_of_ne hd]
        exact (hconf d).frame (by simp [localOf, hd]) rfl
    · cases hstep
  | begin c =>
    have hc := hconf c
    simp only [System.step] at hstep
    split at hstep
    · rename_i r resume hrunning
      rw [hrunning] at hc
      obtain ⟨l, hl, hf, hout⟩ := hc
      split at hstep
      · rename_i hb
        cases hstep
        refine ⟨hrun.begin hl hf.1 (Option.isNone_iff_eq_none.mp hb.2) hb.1, fun d => ?_⟩
        by_cases hd : d = c
        · subst hd
          simp only [hrunning]
          refine ⟨l, hl, hf, fun r' hr' => ?_⟩
          simp only [outstanding, if_pos, Option.some.injEq] at hr'
          subst hr'
          exact ⟨hb.1, resume, rfl⟩
        · exact (hconf d).frame rfl (by simp [outstanding, hd])
      · cases hstep
    · cases hstep
  | land c =>
    simp only [System.step] at hstep
    split at hstep
    · rename_i r hr
      cases hstep
      exact ⟨hrun.land hr, fun d => (hconf d).frame rfl rfl⟩
    · cases hstep
  | answer c input =>
    have hc := hconf c
    simp only [System.step] at hstep
    split at hstep
    · rename_i r resume hrunning
      rw [hrunning] at hc
      obtain ⟨l, hl, hf, hout⟩ := hc
      split at hstep
      · cases hstep
      · rename_i hb
        cases hstep
        have hr : outstanding u.log c = (if S.external r then some r else none) := by
          cases ho : outstanding u.log c with
          | none =>
            rw [ho] at hb
            simp only [Option.isNone_none, and_true] at hb
            simp [hb]
          | some r' =>
            obtain ⟨hext, resume', he⟩ := hout r' ho
            cases he
            simp [hext]
        refine ⟨hrun.answer input hl hf.1 hr, fun d => ?_⟩
        by_cases hd : d = c
        · subst hd
          simp only [Function.update_self]
          refine ⟨P.after l r (S.exec r input u.shared).1, by simp [localOf, hl],
            hf.2 _ (hpossible hrun r input), fun r' hr' => ?_⟩
          simp [outstanding] at hr'
        · simp only [Function.update_of_ne hd]
          exact (hconf d).frame (by simp [localOf, hd]) (by simp [outstanding, hd])
    · cases hstep
  | stop c =>
    simp only [System.step] at hstep
    split at hstep
    · cases hstep
      refine ⟨hrun.stop, fun d => ?_⟩
      by_cases hd : d = c
      · subst hd
        simp only [Function.update_self]
        trivial
      · simp only [Function.update_of_ne hd]
        exact (hconf d).frame rfl rfl
    · cases hstep
  | disturb input =>
    cases hstep
    exact ⟨hrun.disturb input, hconf⟩

/-- **Programs that follow a protocol run the protocol.** -/
theorem reachable_protocolRun {init : Shared} {w : World Response ε Task Value Shared}
    (hprogram : ∀ task, (S.program task).Follows P (P.start task) (fun _ _ => True))
    (hpossible : ∀ {s log}, ProtocolRun S P init s log → ∀ r input, P.Possible r (S.exec r input s).1)
    (h : S.Reachable init w) :
    ProtocolRun S P init w.shared w.log ∧ ∀ c, Conforms S P w.log c (w.callers c) := by
  induction h with
  | start => exact ⟨.initial, fun c => ⟨rfl, rfl⟩⟩
  | step _ hs ih => exact step_protocolRun hprogram hpossible ih.1 ih.2 hs

/-- What a program promises of its end, the rest of it promises too. -/
theorem reachable_follows {init : Shared} {w : World Response ε Task Value Shared}
    {Q : Local → Except ε Value → Prop}
    (hprogram : ∀ task, (S.program task).Follows P (P.start task) Q)
    (hpossible : ∀ {s log}, ProtocolRun S P init s log → ∀ r input, P.Possible r (S.exec r input s).1)
    (h : S.Reachable init w) {c : Nat} {p : Coroutine Response ε Value}
    (hc : w.callers c = .running p) : ∃ l, localOf P w.log c = some l ∧ p.Follows P l Q := by
  induction h generalizing p with
  | start => cases hc
  | @step u v choice hu hs ih =>
    cases choice with
    | disturb =>
      cases hs
      exact ih hc
    | begin d | land d =>
      simp only [System.step] at hs
      split at hs <;> (try split at hs) <;> cases hs
      exact ih hc
    | call d task =>
      simp only [System.step] at hs
      split at hs <;> cases hs
      by_cases hd : c = d
      · subst hd
        simp only [Function.update_self] at hc
        cases hc
        exact ⟨P.start task, if_pos rfl, hprogram task⟩
      · simp only [Function.update_of_ne hd] at hc
        obtain ⟨l, hl, hf⟩ := ih hc
        exact ⟨l, (if_neg hd).trans hl, hf⟩
    | answer d input =>
      simp only [System.step] at hs
      split at hs <;> (try split at hs) <;> cases hs
      rename_i r resume hrunning _
      by_cases hd : c = d
      · subst hd
        simp only [Function.update_self] at hc
        cases hc
        obtain ⟨l, hl, hf⟩ := ih hrunning
        have hrun := (reachable_protocolRun (fun task => (hprogram task).mono fun _ _ _ => trivial)
          hpossible hu).1
        refine ⟨_, (if_pos rfl).trans (congrArg _ hl), hf.2 _ (hpossible hrun r input)⟩
      · simp only [Function.update_of_ne hd] at hc
        obtain ⟨l, hl, hf⟩ := ih hc
        exact ⟨l, (if_neg hd).trans hl, hf⟩
    | stop d =>
      simp only [System.step] at hs
      split at hs <;> cases hs
      by_cases hd : c = d
      · subst hd
        simp only [Function.update_self] at hc
        cases hc
      · simp only [Function.update_of_ne hd] at hc
        exact ih hc

end
end
end Concurrency
