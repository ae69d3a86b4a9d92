import Mathlib.Data.List.Forall2

/-!
# Agreement of computations that may raise

A concrete computation agrees with an abstract one if it returns what the abstract one
returns, up to a relation, and raises what it raises.  The concrete one may raise for
reasons of its own; `fit` says that there are none.
-/
namespace Refinement
variable {ε α β α' β' : Type}

/-- `x` returns and raises what `y` does, unless it raises because `fit` fails. -/
inductive Agrees (fit : Prop) (R : α → β → Prop) : Except ε α → Except ε β → Prop
  | ok {a b} : R a b → Agrees fit R (.ok a) (.ok b)
  | error {e} : Agrees fit R (.error e) (.error e)
  | unfit {e y} : ¬fit → Agrees fit R (.error e) y

section
variable {fit fit' : Prop} {R : α → β → Prop} {R' : α' → β' → Prop} {x : Except ε α}
  {y : Except ε β}

theorem Agrees.mono {S : α → β → Prop} (h : Agrees fit R x y) (hrel : ∀ a b, R a b → S a b) :
    Agrees fit S x y := by
  cases h with
  | ok hr => exact .ok (hrel _ _ hr)
  | error => exact .error
  | unfit hn => exact .unfit hn

theorem Agrees.bind {f : α → Except ε α'} {g : β → Except ε β'} (h : Agrees fit R x y)
    (hnext : ∀ a b, R a b → Agrees fit R' (f a) (g b)) : Agrees fit R' (x >>= f) (y >>= g) := by
  cases h with
  | ok hr => exact hnext _ _ hr
  | error => exact .error
  | unfit hn => exact .unfit hn

/-- A step that only the concrete computation takes, and that may only fail unfit. -/
theorem Agrees.guard {z : Except ε α'} {f : α' → Except ε α} (hraise : ∀ e, z = .error e → ¬fit)
    (hnext : ∀ a, z = .ok a → Agrees fit R (f a) y) : Agrees fit R (z >>= f) y := by
  cases z with
  | ok a => exact hnext a rfl
  | error e => exact .unfit (hraise e rfl)

theorem Agrees.of_ok {a : α} (h : Agrees fit R x y) (hx : x = .ok a) : ∃ b, y = .ok b ∧ R a b := by
  cases h with
  | ok hr =>
    cases hx
    exact ⟨_, rfl, hr⟩
  | error => cases hx
  | unfit => cases hx

theorem Agrees.map {f : α → α'} {g : β → β'} (h : Agrees fit R x y)
    (hrel : ∀ a b, R a b → R' (f a) (g b)) : Agrees fit R' (x.map f) (y.map g) := by
  cases h with
  | ok hr => exact .ok (hrel _ _ hr)
  | error => exact .error
  | unfit hn => exact .unfit hn

/-- A step whose abstract value is known. -/
theorem Agrees.bind_ok {b : β} {f : α → Except ε α'} {z : Except ε β'}
    (h : Agrees fit R x (.ok b : Except ε β)) (hnext : ∀ a, R a b → Agrees fit R' (f a) z) :
    Agrees fit R' (x >>= f) z := by
  cases h with
  | ok hr => exact hnext _ hr
  | unfit hn => exact .unfit hn

/-- What is returned may be related to another value. -/
theorem Agrees.change {b : β} {b' : β'} {S : α → β' → Prop}
    (h : Agrees fit R x (.ok b : Except ε β)) (hrel : ∀ a, R a b → S a b') :
    Agrees fit S x (.ok b' : Except ε β') := by
  cases h with
  | ok hr => exact .ok (hrel _ hr)
  | unfit hn => exact .unfit hn

/-- A loop that collects one value for each element. -/
theorem Agrees.mapM {f : α' → Except ε α} {list : List α'} {values : List β}
    (h : List.Forall₂ (fun a b => Agrees fit R (f a) (.ok b)) list values) :
    Agrees fit (List.Forall₂ R) (list.mapM f) (.ok values) := by
  induction h with
  | nil => exact .ok .nil
  | cons hhead _ ih =>
    rw [List.mapM_cons]
    refine hhead.bind (g := fun b => .ok (b :: _)) fun a b hab => ?_
    exact ih.bind (g := fun bs => .ok (b :: bs)) fun as bs habs => .ok (.cons hab habs)

end

/-- A loop of steps that all return. -/
theorem mapM_ok {f : α → Except ε β} {g : α → β} {list : List α} (h : ∀ a ∈ list, f a = .ok (g a)) :
    list.mapM f = .ok (list.map g) := by
  induction list with
  | nil => rfl
  | cons a list ih =>
    obtain ⟨ha, hrest⟩ := List.forall_mem_cons.mp h
    rw [List.mapM_cons, ha, ih hrest]
    rfl

end Refinement
