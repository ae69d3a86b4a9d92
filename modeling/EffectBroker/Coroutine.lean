import Mathlib.Logic.Basic

/-!
# Coroutines that await requests

A coroutine computes between its awaits and hands each await to whoever runs it:
it is finished with a value, has raised an exception, or awaits the response to a
request.  Requests, responses and exceptions are parameters.

`Coroutine.Follows` is the logic of such programs.  A `Protocol` gives a caller a
local state that its own requests and responses drive, and says which requests are
allowed in it; a coroutine follows the protocol from a local state if it only makes
allowed requests, whatever the possible responses.  The rules for `bind` and `tryCatch`
reduce that to its parts, as weakest preconditions do.
-/
namespace Concurrency

/-- A program that awaits responses to its requests. -/
inductive Coroutine {Request : Type} (Response : Request → Type) (ε α : Type) : Type where
  | done (value : α)
  | raised (exc : ε)
  | await (request : Request) (resume : Response request → Coroutine Response ε α)

namespace Coroutine
variable {Request : Type} {Response : Request → Type} {ε α β : Type}

/-- Run `p`, then `f` on its value. -/
def bind (p : Coroutine Response ε α) (f : α → Coroutine Response ε β) :
    Coroutine Response ε β :=
  match p with
  | .done value => f value
  | .raised exc => .raised exc
  | .await request resume => .await request (fun response => (resume response).bind f)

/-- Run `p`, and `handler` on the exception it raises. -/
def tryCatch (p : Coroutine Response ε α) (handler : ε → Coroutine Response ε α) :
    Coroutine Response ε α :=
  match p with
  | .done value => .done value
  | .raised exc => handler exc
  | .await request resume => .await request (fun response => (resume response).tryCatch handler)

instance : Monad (Coroutine Response ε) where
  pure := .done
  bind := bind

instance : MonadExceptOf ε (Coroutine Response ε) where
  throw := .raised
  tryCatch := tryCatch

/-- Await one request. -/
def request (r : Request) : Coroutine Response ε (Response r) := .await r .done

/-- Continue with a result, or raise its exception. -/
def ofExcept : Except ε α → Coroutine Response ε α
  | .ok value => .done value
  | .error exc => .raised exc

/-! ## Evaluation -/

/-- Run a program to its end: `exec` answers each request. -/
def evaluate {σ : Type} (exec : (r : Request) → σ → Response r × σ) :
    Coroutine Response ε α → σ → Except ε α × σ
  | .done value, s => (.ok value, s)
  | .raised exc, s => (.error exc, s)
  | .await r resume, s => (resume (exec r s).1).evaluate exec (exec r s).2

section
variable {σ : Type} {exec : (r : Request) → σ → Response r × σ} {s : σ}

@[simp] theorem evaluate_pure (value : α) :
    (pure value : Coroutine Response ε α).evaluate exec s = (.ok value, s) := rfl

@[simp] theorem evaluate_throw (exc : ε) :
    (throw exc : Coroutine Response ε α).evaluate exec s = (.error exc, s) := rfl

@[simp] theorem evaluate_ofExcept (x : Except ε α) :
    (ofExcept x : Coroutine Response ε α).evaluate exec s = (x, s) := by
  cases x <;> rfl

@[simp] theorem evaluate_request (r : Request) :
    (request r : Coroutine Response ε (Response r)).evaluate exec s =
      (.ok (exec r s).1, (exec r s).2) := rfl

theorem evaluate_bind (p : Coroutine Response ε α) (f : α → Coroutine Response ε β) :
    (p >>= f).evaluate exec s = match p.evaluate exec s with
      | (.ok value, s') => (f value).evaluate exec s'
      | (.error exc, s') => (.error exc, s') := by
  show (p.bind f).evaluate exec s = _
  induction p generalizing s with
  | done | raised => rfl
  | await r resume ih => exact ih _

theorem evaluate_tryCatch (p : Coroutine Response ε α) (handler : ε → Coroutine Response ε α) :
    (MonadExcept.tryCatch p handler).evaluate exec s = match p.evaluate exec s with
      | (.ok value, s') => (.ok value, s')
      | (.error exc, s') => (handler exc).evaluate exec s' := by
  show (p.tryCatch handler).evaluate exec s = _
  induction p generalizing s with
  | done | raised => rfl
  | await r resume ih => exact ih _

end

end Coroutine

/-- A local state for each caller: where it starts, which requests it allows, which
responses to them are possible, and what a response makes of it. -/
structure Protocol {Request : Type} (Response : Request → Type) (Task Local : Type) where
  start : Task → Local
  Allowed : Local → Request → Prop
  Possible : (r : Request) → Response r → Prop
  after : Local → (r : Request) → Response r → Local

namespace Coroutine
variable {Request : Type} {Response : Request → Type} {Task Local ε α β : Type}
variable (P : Protocol Response Task Local)

/-- From local state `l`, while responses are possible ones, the coroutine only makes
allowed requests, and if it ends then in a local state and a result that satisfy `Q`. -/
def Follows : Coroutine Response ε α → Local → (Local → Except ε α → Prop) → Prop
  | .done value, l, Q => Q l (.ok value)
  | .raised exc, l, Q => Q l (.error exc)
  | .await r resume, l, Q => P.Allowed l r ∧
    ∀ response, P.Possible r response → (resume response).Follows (P.after l r response) Q

variable {P}

theorem Follows.mono {p : Coroutine Response ε α} {l : Local} {Q Q' : Local → Except ε α → Prop}
    (h : p.Follows P l Q) (hQ : ∀ l r, Q l r → Q' l r) : p.Follows P l Q' := by
  induction p generalizing l with
  | done value => exact hQ _ _ h
  | raised exc => exact hQ _ _ h
  | await r resume ih => exact ⟨h.1, fun response hp => ih response (h.2 response hp)⟩

/-- The rule for sequencing: what follows a value is part of the postcondition. -/
theorem follows_bind {p : Coroutine Response ε α} {f : α → Coroutine Response ε β} {l : Local}
    {Q : Local → Except ε β → Prop} :
    (p >>= f).Follows P l Q ↔ p.Follows P l fun l result =>
      match result with
      | .ok value => (f value).Follows P l Q
      | .error exc => Q l (.error exc) := by
  show (p.bind f).Follows P l Q ↔ _
  induction p generalizing l with
  | done value => exact Iff.rfl
  | raised exc => exact Iff.rfl
  | await r resume ih =>
    exact and_congr Iff.rfl (forall_congr' fun response => imp_congr Iff.rfl (ih response))

/-- The rule for exception handlers. -/
theorem follows_tryCatch {p : Coroutine Response ε α} {handler : ε → Coroutine Response ε α}
    {l : Local} {Q : Local → Except ε α → Prop} :
    (MonadExcept.tryCatch p handler).Follows P l Q ↔ p.Follows P l fun l result =>
      match result with
      | .ok value => Q l (.ok value)
      | .error exc => (handler exc).Follows P l Q := by
  show (p.tryCatch handler).Follows P l Q ↔ _
  induction p generalizing l with
  | done value => exact Iff.rfl
  | raised exc => exact Iff.rfl
  | await r resume ih =>
    exact and_congr Iff.rfl (forall_congr' fun response => imp_congr Iff.rfl (ih response))

@[simp] theorem follows_pure {value : α} {l : Local} {Q : Local → Except ε α → Prop} :
    (pure value : Coroutine Response ε α).Follows P l Q ↔ Q l (.ok value) := Iff.rfl

@[simp] theorem follows_throw {exc : ε} {l : Local} {Q : Local → Except ε α → Prop} :
    (throw exc : Coroutine Response ε α).Follows P l Q ↔ Q l (.error exc) := Iff.rfl

@[simp] theorem follows_ofExcept {result : Except ε α} {l : Local}
    {Q : Local → Except ε α → Prop} :
    (ofExcept result : Coroutine Response ε α).Follows P l Q ↔ Q l result := by
  cases result <;> exact Iff.rfl

end Coroutine
end Concurrency
