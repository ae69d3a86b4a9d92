import Mathlib.Data.List.Nodup
import Mathlib.Data.Set.Lattice
import Mathlib.Logic.Function.Basic
import Mathlib.Order.CompletePartialOrder
import EffectBroker.Coroutine

/-!
# Transactions over one database

Any number of transactions run programs over one database.  A statement sees what is
committed when it runs, with the writes of its own transaction; it may have to wait for a
key that another transaction holds, and it takes keys that stay taken until the end of the
transaction.  A transaction may be rolled back between any two statements.

`Safe` is the logic of such programs.  It follows an abstract state: between two
statements the others may change it as far as a rely relation allows, given the keys that
the transaction holds.  If every program is safe, and what it commits is one abstract step
that all others can bear (`Fulfils`), then every run is a serial one: the committed
transactions are atomic steps, in the order of their commits (`ReachableFrom.serial`).
Each commit says how many there were before its transaction started, so that a step can be
about what was committed while the transaction was open.
-/
namespace Transactions
open Concurrency

/-- What a statement does: its response, its writes, and the keys it takes. -/
structure Outcome (α Write Key : Type) where
  response : α
  writes : List Write
  locks : List Key

/-- A database executes a statement on the state that its transaction sees, knowing which
keys other transactions hold; or the statement waits for one of these keys.  The oracle is
what else the statement depends on. -/
structure Database {Statement : Type} (Response : Statement → Type)
    (State Write Key Oracle : Type) where
  apply : State → Write → State
  exec : (r : Statement) → Oracle → State → (Key → Bool) →
    Except Key (Outcome (Response r) Write Key)
  waits : ∀ {r oracle view locked k}, exec r oracle view locked = .error k → locked k = true
  free : ∀ {r oracle view locked out}, exec r oracle view locked = .ok out →
    ∀ k ∈ out.locks, locked k = false

/-- An open transaction: its task, how many had committed when it started, what is left of
its program, and its writes. -/
structure Transaction {Statement : Type} (Response : Statement → Type)
    (ε Task α Write : Type) where
  task : Task
  since : Nat
  program : Coroutine Response ε α
  writes : List Write

/-- A committed transaction: its task, how many had committed when it started, and its value. -/
structure Commit (Task α : Type) where
  task : Task
  since : Nat
  value : α

/-- The committed state, the open transactions, who holds which key, and what has been
committed, newest first. -/
structure Server {Statement : Type} (Response : Statement → Type)
    (ε Task α State Write Key : Type) where
  committed : State
  transaction : Nat → Option (Transaction Response ε Task α Write)
  owner : Key → Option Nat
  log : List (Commit Task α)

/-- What can happen next. -/
inductive Move (Task Oracle : Type) where
  | start (t : Nat) (task : Task)
  | statement (t : Nat) (oracle : Oracle)
  | commit (t : Nat)
  | rollback (t : Nat)

section
variable {Statement : Type} {Response : Statement → Type}
  {ε Task α β State Write Key Oracle Ghost : Type}

/-- A state with writes. -/
def Database.view (D : Database Response State Write Key Oracle) (s : State)
    (writes : List Write) : State :=
  writes.foldl D.apply s

@[simp] theorem Database.view_nil (D : Database Response State Write Key Oracle) (s : State) :
    D.view s [] = s := rfl

theorem Database.view_append (D : Database Response State Write Key Oracle) (s : State)
    (writes writes' : List Write) :
    D.view s (writes ++ writes') = D.view (D.view s writes) writes' := List.foldl_append

namespace Server
variable (w : Server Response ε Task α State Write Key)

/-- Another transaction holds the key. -/
def lockedFor (t : Nat) (k : Key) : Bool :=
  match w.owner k with
  | some u => u ≠ t
  | none => false

/-- The keys that a transaction holds. -/
def held (t : Nat) : Set Key := {k | w.owner k = some t}

/-- The end of a transaction: its keys are free again. -/
def release (t : Nat) : Key → Option Nat := fun k => if w.owner k = some t then none else w.owner k

/-- No transaction is open. -/
def initial (s : State) : Server Response ε Task α State Write Key :=
  ⟨s, fun _ => none, fun _ => none, []⟩

variable [DecidableEq Key] (D : Database Response State Write Key Oracle)
  (program : Task → Coroutine Response ε α)

/-- Make a move, if it is possible. -/
def step : Move Task Oracle → Option (Server Response ε Task α State Write Key)
  | .start t task =>
    match w.transaction t with
    | none => some { w with
        transaction := Function.update w.transaction t (some ⟨task, w.log.length, program task, []⟩) }
    | some _ => none
  | .statement t oracle =>
    match w.transaction t with
    | some ⟨task, since, .await r resume, writes⟩ =>
      match D.exec r oracle (D.view w.committed writes) (w.lockedFor t) with
      | .ok out => some { w with
          transaction := Function.update w.transaction t
            (some ⟨task, since, resume out.response, writes ++ out.writes⟩)
          owner := fun k => if k ∈ out.locks then some t else w.owner k }
      | .error _ => none
    | _ => none
  | .commit t =>
    match w.transaction t with
    | some ⟨task, since, .done value, writes⟩ => some {
        committed := D.view w.committed writes
        transaction := Function.update w.transaction t none
        owner := w.release t
        log := ⟨task, since, value⟩ :: w.log }
    | _ => none
  | .rollback t =>
    match w.transaction t with
    | some _ => some { w with
        transaction := Function.update w.transaction t none, owner := w.release t }
    | none => none

/-- The server after these moves.  A move that is not possible changes nothing. -/
def after (w : Server Response ε Task α State Write Key) :
    List (Move Task Oracle) → Server Response ε Task α State Write Key
  | [] => w
  | move :: moves => after ((w.step D program move).getD w) moves

end Server

/-- The exception that a transaction has raised. -/
def Transaction.exception (x : Transaction Response ε Task α Write) : Option ε :=
  match x.program with
  | .raised exc => some exc
  | _ => none

theorem Server.exists_raised (w : Server Response ε Task α State Write Key) {t : Nat} {exc : ε}
    (h : (w.transaction t).bind Transaction.exception = some exc) :
    ∃ task since writes, w.transaction t = some ⟨task, since, .raised exc, writes⟩ := by
  obtain ⟨⟨task, since, program, writes⟩, ht, hraised⟩ := Option.bind_eq_some_iff.mp h
  cases program with
  | raised =>
    cases hraised
    exact ⟨task, since, writes, ht⟩
  | done | await => cases hraised

/-- The servers that a run leads to. -/
inductive ReachableFrom [DecidableEq Key] (D : Database Response State Write Key Oracle)
    (program : Task → Coroutine Response ε α) (init : Server Response ε Task α State Write Key) :
    Server Response ε Task α State Write Key → Prop
  | start : ReachableFrom D program init init
  | step {w w'} {move : Move Task Oracle} : ReachableFrom D program init w →
      w.step D program move = some w' → ReachableFrom D program init w'

theorem ReachableFrom.trans [DecidableEq Key] {D : Database Response State Write Key Oracle}
    {program : Task → Coroutine Response ε α} {u v w : Server Response ε Task α State Write Key}
    (h : ReachableFrom D program u v) (h' : ReachableFrom D program v w) :
    ReachableFrom D program u w := by
  induction h' with
  | start => exact h
  | step _ hstep ih => exact ih.step hstep

theorem reachableFrom_after [DecidableEq Key] (D : Database Response State Write Key Oracle)
    (program : Task → Coroutine Response ε α) (w : Server Response ε Task α State Write Key)
    (moves : List (Move Task Oracle)) : ReachableFrom D program w (w.after D program moves) := by
  induction moves generalizing w with
  | nil => exact .start
  | cons move moves ih =>
    refine ReachableFrom.trans ?_ (ih ((w.step D program move).getD w))
    cases hstep : w.step D program move with
    | none => exact .start
    | some w' => exact .step .start hstep

/-! ## The logic of programs -/

/-- What the proofs of programs rely on: the abstract states of a state, what others may do
to the abstract state while a transaction holds keys, which surroundings a statement may
meet, which keys may be waited for while keys are held, and for a key the one that its
holder has to hold too. -/
structure Discipline (D : Database Response State Write Key Oracle) (Ghost : Type) where
  holds : State → Ghost → Prop
  rely : Set Key → Ghost → Ghost → Prop
  env : Oracle → (Key → Bool) → Prop
  waits : Set Key → Key → Prop
  guard : Key → Option Key
  refl : ∀ held a, rely held a a
  trans : ∀ {held a b c}, rely held a b → rely held b c → rely held a c

section
variable {D : Database Response State Write Key Oracle} (L : Discipline D Ghost)

/-- The discipline with other keys to wait for. -/
def Discipline.waiting (waits : Set Key → Key → Prop) : Discipline D Ghost := { L with waits }

/-- Another transaction can hold no key that this one holds or guards. -/
structure Clear (guard : Key → Option Key) (held : Set Key) (locked : Key → Bool) : Prop where
  own : ∀ k ∈ held, locked k = false
  guarded : ∀ k g, guard k = some g → g ∈ held → locked k = false

/-- Keys are taken under their guards. -/
def Guarded (guard : Key → Option Key) (held : Set Key) (locks : List Key) : Prop :=
  ∀ k ∈ locks, ∀ g, guard k = some g → g ∈ held ∪ {k | k ∈ locks}

/-- What is claimed of the end of a program: its result, its writes, the keys it holds, and
the abstract state at its last statement. -/
abbrev Post (ε α Write Key Ghost : Type) := Except ε α → List Write → Set Key → Ghost → Prop

/-- From the abstract state `a`, with these writes and these keys, the program ends as
claimed.  It only waits for keys that it may wait for. -/
def Safe : Coroutine Response ε α → List Write → Set Key → Ghost → Post ε α Write Key Ghost → Prop
  | .done value, writes, held, a, Q => Q (.ok value) writes held a
  | .raised exc, writes, held, a, Q => Q (.error exc) writes held a
  | .await r resume, writes, held, a, Q => ∀ a' s oracle locked, L.rely held a a' →
      L.holds s a' → L.env oracle locked → Clear L.guard held locked →
      (∀ k, D.exec r oracle (D.view s writes) locked = .error k → L.waits held k) ∧
      ∀ out, D.exec r oracle (D.view s writes) locked = .ok out → Guarded L.guard held out.locks ∧
        Safe (resume out.response) (writes ++ out.writes) (held ∪ {k | k ∈ out.locks}) a' Q

variable {L}

/-- The rule for sequencing. -/
theorem safe_bind {p : Coroutine Response ε α} {f : α → Coroutine Response ε β}
    {writes : List Write} {held : Set Key} {a : Ghost} {Q : Post ε β Write Key Ghost} :
    Safe L (p >>= f) writes held a Q ↔ Safe L p writes held a fun result writes held a =>
      match result with
      | .ok value => Safe L (f value) writes held a Q
      | .error exc => Q (.error exc) writes held a := by
  show Safe L (p.bind f) writes held a Q ↔ _
  induction p generalizing writes held a with
  | done value => exact Iff.rfl
  | raised exc => exact Iff.rfl
  | await r resume ih =>
    refine forall_congr' fun a' => forall_congr' fun s => forall_congr' fun oracle =>
      forall_congr' fun locked => imp_congr Iff.rfl (imp_congr Iff.rfl (imp_congr Iff.rfl
        (imp_congr Iff.rfl (and_congr Iff.rfl ?_))))
    exact forall_congr' fun out => imp_congr Iff.rfl (and_congr Iff.rfl (ih out.response))

theorem Safe.mono {p : Coroutine Response ε α} {writes : List Write} {held : Set Key} {a : Ghost}
    {Q Q' : Post ε α Write Key Ghost} (h : Safe L p writes held a Q)
    (hQ : ∀ result writes held a, Q result writes held a → Q' result writes held a) :
    Safe L p writes held a Q' := by
  induction p generalizing writes held a with
  | done value => exact hQ _ _ _ _ h
  | raised exc => exact hQ _ _ _ _ h
  | await r resume ih =>
    intro a' s oracle locked hrely hholds henv hclear
    obtain ⟨hwait, hnext⟩ := h a' s oracle locked hrely hholds henv hclear
    refine ⟨hwait, fun out hout => ?_⟩
    obtain ⟨hguarded, hrest⟩ := hnext out hout
    exact ⟨hguarded, ih out.response hrest⟩

/-- A program ends in an abstract state that the others may have led to since it began. -/
theorem Safe.since (hweaken : ∀ {held held' a a'}, held' ⊆ held → L.rely held a a' → L.rely held' a a')
    {p : Coroutine Response ε α} {writes : List Write} {held : Set Key} {a : Ghost}
    {Q : Post ε α Write Key Ghost} (h : Safe L p writes held a Q) :
    Safe L p writes held a fun result writes held' a' => L.rely held a a' ∧ Q result writes held' a' := by
  induction p generalizing writes held a with
  | done value => exact ⟨L.refl held a, h⟩
  | raised exc => exact ⟨L.refl held a, h⟩
  | await r resume ih =>
    intro a' s oracle locked hrely hholds henv hclear
    obtain ⟨hwait, hnext⟩ := h a' s oracle locked hrely hholds henv hclear
    refine ⟨hwait, fun out hout => ?_⟩
    obtain ⟨hguarded, hrest⟩ := hnext out hout
    refine ⟨hguarded, (ih out.response hrest).mono fun result writes held' a'' hend => ?_⟩
    exact ⟨L.trans hrely (hweaken Set.subset_union_left hend.1), hend.2⟩

/-- The rule for a program whose result is changed. -/
theorem safe_map {p : Coroutine Response ε α} {f : α → β} {writes : List Write} {held : Set Key}
    {a : Ghost} {Q : Post ε β Write Key Ghost} :
    Safe L (p >>= fun x => pure (f x)) writes held a Q ↔
      Safe L p writes held a fun result => Q (result.map f) := by
  have hpost : (fun (result : Except ε α) writes held a => match result with
      | .ok value => Safe L (pure (f value)) writes held a Q
      | .error exc => Q (.error exc) writes held a) = fun result => Q (result.map f) := by
    funext result writes held a
    cases result with
    | ok value => rfl
    | error exc => rfl
  rw [safe_bind, hpost]

/-- The rule for a statement: it waits for a key that may be waited for, or ends as claimed. -/
theorem safe_request {r : Statement} {writes : List Write} {held : Set Key} {a : Ghost}
    {Q : Post ε (Response r) Write Key Ghost}
    (h : ∀ a' s oracle locked, L.rely held a a' → L.holds s a' → L.env oracle locked →
      Clear L.guard held locked →
      (∃ k, D.exec r oracle (D.view s writes) locked = .error k ∧ L.waits held k) ∨
      ∃ out, D.exec r oracle (D.view s writes) locked = .ok out ∧ Guarded L.guard held out.locks ∧
        Q (.ok out.response) (writes ++ out.writes) (held ∪ {k | k ∈ out.locks}) a') :
    Safe L (Coroutine.request r : Coroutine Response ε (Response r)) writes held a Q := by
  intro a' s oracle locked hrely hholds henv hclear
  rcases h a' s oracle locked hrely hholds henv hclear with ⟨k, hk, hwaits⟩ | ⟨out, hout, hguarded, hQ⟩
  · refine ⟨fun k' hk' => ?_, fun out hout => ?_⟩
    · rw [hk] at hk'
      cases hk'
      exact hwaits
    · rw [hk] at hout
      cases hout
  · refine ⟨fun k hk => ?_, fun out' hout' => ?_⟩
    · rw [hout] at hk
      cases hk
    · rw [hout] at hout'
      cases hout'
      exact ⟨hguarded, hQ⟩

/-- The rule for a statement that only reads. -/
theorem safe_read {r : Statement} {f : State → Response r} {writes : List Write} {held : Set Key}
    {a : Ghost} {Q : Post ε (Response r) Write Key Ghost}
    (hexec : ∀ oracle view locked, D.exec r oracle view locked = .ok ⟨f view, [], []⟩)
    (h : ∀ a' s, L.rely held a a' → L.holds s a' → Q (.ok (f (D.view s writes))) writes held a') :
    Safe L (Coroutine.request r : Coroutine Response ε (Response r)) writes held a Q := by
  apply safe_request
  intro a' s oracle locked hrely hholds _ _
  refine .inr ⟨_, hexec oracle _ locked, List.forall_mem_nil _, ?_⟩
  have hheld : held ∪ {k : Key | k ∈ ([] : List Key)} = held := by simp
  rw [List.append_nil, hheld]
  exact h a' s hrely hholds

@[simp] theorem safe_pure {value : α} {writes : List Write} {held : Set Key} {a : Ghost}
    {Q : Post ε α Write Key Ghost} :
    Safe L (pure value : Coroutine Response ε α) writes held a Q ↔ Q (.ok value) writes held a :=
  Iff.rfl

@[simp] theorem safe_throw {exc : ε} {writes : List Write} {held : Set Key} {a : Ghost}
    {Q : Post ε α Write Key Ghost} :
    Safe L (throw exc : Coroutine Response ε α) writes held a Q ↔ Q (.error exc) writes held a :=
  Iff.rfl

@[simp] theorem safe_ofExcept {result : Except ε α} {writes : List Write} {held : Set Key}
    {a : Ghost} {Q : Post ε α Write Key Ghost} :
    Safe L (Coroutine.ofExcept result : Coroutine Response ε α) writes held a Q ↔
      Q result writes held a := by
  cases result <;> exact Iff.rfl

end

/-! ## A transaction alone -/

/-- Run a program while no other transaction is open; `none` if it had to wait. -/
def Database.alone (D : Database Response State Write Key Oracle) (oracle : Oracle) :
    Coroutine Response ε α → List Write → State → Option (Except ε α × List Write)
  | .done value, writes, _ => some (.ok value, writes)
  | .raised exc, writes, _ => some (.error exc, writes)
  | .await r resume, writes, s =>
    match D.exec r oracle (D.view s writes) fun _ => false with
    | .ok out => D.alone oracle (resume out.response) (writes ++ out.writes) s
    | .error _ => none

/-- A transaction alone ends as a safe program does, and nothing moves meanwhile. -/
theorem Safe.alone {D : Database Response State Write Key Oracle} {L : Discipline D Ghost}
    {oracle : Oracle} (henv : L.env oracle fun _ => false) {p : Coroutine Response ε α}
    {writes : List Write} {held : Set Key} {s : State} {a : Ghost} {Q : Post ε α Write Key Ghost}
    (hholds : L.holds s a) (h : Safe L p writes held a Q) :
    ∃ result writes' held', D.alone oracle p writes s = some (result, writes') ∧
      Q result writes' held' a := by
  induction p generalizing writes held with
  | done value => exact ⟨_, _, _, rfl, h⟩
  | raised exc => exact ⟨_, _, _, rfl, h⟩
  | await r resume ih =>
    obtain ⟨-, hnext⟩ := h a s oracle _ (L.refl held a) hholds henv
      ⟨fun _ _ => rfl, fun _ _ _ _ => rfl⟩
    unfold Database.alone
    cases hexec : D.exec r oracle (D.view s writes) fun _ => false with
    | error k =>
      -- nothing is locked, so there is nothing to wait for
      have hlocked := D.waits hexec
      cases hlocked
    | ok out => exact ih out.response (hnext out hexec).2

/-! ## Serial runs -/

/-- Atomic steps, one for each committed transaction, newest first. -/
inductive Serial (Step : Commit Task α → Ghost → Ghost → Prop) (init : Ghost) :
    List (Commit Task α) → Ghost → Prop
  | start : Serial Step init [] init
  | commit {log a a' entry} : Serial Step init log a → Step entry a a' →
      Serial Step init (entry :: log) a'

/-- What each step keeps, a serial run keeps. -/
theorem Serial.invariant {Step : Commit Task α → Ghost → Ghost → Prop} {init a : Ghost}
    {log : List (Commit Task α)} {I : Ghost → Prop} (h : Serial Step init log a) (hinit : I init)
    (hstep : ∀ {entry b b'}, I b → Step entry b b' → I b') : I a := by
  induction h with
  | start => exact hinit
  | commit _ hs ih => exact hstep ih hs

/-- The older part of a serial run is one. -/
theorem Serial.older {Step : Commit Task α → Ghost → Ghost → Prop} {init a : Ghost}
    {newer log : List (Commit Task α)} (h : Serial Step init (newer ++ log) a) :
    ∃ b, Serial Step init log b ∧ Serial Step b newer a := by
  induction newer generalizing a with
  | nil => exact ⟨a, h, .start⟩
  | cons entry newer ih =>
    cases h with
    | commit hrun hs =>
      obtain ⟨b, hb, hnewer⟩ := ih hrun
      exact ⟨b, hb, hnewer.commit hs⟩

/-- What holds of all that a step hands out, and lasts, holds of all that has been handed
out. -/
theorem Serial.lasting {Step : Commit Task α → Ghost → Ghost → Prop} {init a : Ghost}
    {log : List (Commit Task α)} {κ : Type} {tokens : Commit Task α → List κ} {I : Ghost → Prop}
    {S : Ghost → κ → Prop} (h : Serial Step init log a) (hinit : I init)
    (hstep : ∀ {entry b b'}, I b → Step entry b b' → I b')
    (hlasts : ∀ {entry b b' x}, I b → Step entry b b' → S b x → S b' x)
    (hnew : ∀ {entry b b'}, I b → Step entry b b' → ∀ x ∈ tokens entry, S b' x) :
    ∀ x ∈ log.flatMap tokens, S a x := by
  induction h with
  | start => exact List.forall_mem_nil _
  | commit hrun hs ih =>
    have hI := hrun.invariant hinit hstep
    intro x hx
    rw [List.flatMap_cons] at hx
    rcases List.mem_append.mp hx with hx | hx
    · exact hnew hI hs x hx
    · exact hlasts hI hs (ih x hx)

/-- What each step hands out is not handed out again: once it is spent it stays so, and a step
hands out what was not spent before. -/
theorem Serial.handed_out {Step : Commit Task α → Ghost → Ghost → Prop} {init a : Ghost}
    {log : List (Commit Task α)} {κ : Type} {tokens : Commit Task α → List κ} {I : Ghost → Prop}
    {S : Ghost → κ → Prop} (h : Serial Step init log a) (hinit : I init)
    (hstep : ∀ {entry b b'}, I b → Step entry b b' → I b')
    (hspent : ∀ {entry b b' x}, I b → Step entry b b' → S b x → S b' x)
    (htokens : ∀ {entry b b'}, I b → Step entry b b' → (tokens entry).Nodup ∧
      ∀ x ∈ tokens entry, ¬S b x ∧ S b' x) : (log.flatMap tokens).Nodup := by
  induction h with
  | start => exact List.nodup_nil
  | @commit log b b' entry hrun hs ih =>
    obtain ⟨hnew, hfresh⟩ := htokens (hrun.invariant hinit hstep) hs
    -- what was handed out before is spent by now, and the new tokens are not
    have hold : ∀ x ∈ log.flatMap tokens, S b x := hrun.lasting hinit hstep hspent
      fun hI hs x hx => ((htokens hI hs).2 x hx).2
    rw [List.flatMap_cons]
    refine List.nodup_append'.mpr ⟨hnew, ih, fun x hx hmem => ?_⟩
    exact (hfresh x hx).1 (hold x hmem)

/-- What is claimed of the programs of tasks: the abstract steps that they commit, why they
raise, and which keys they wait for while they hold others.  The age of an abstract state is
the number of commits that have led to it. -/
structure Contract (ε Task α Key Ghost : Type) where
  step : Commit Task α → Ghost → Ghost → Prop
  raises : Task → ε → Ghost → Prop
  waits : Task → Set Key → Key → Prop
  age : Ghost → Nat
  ages : ∀ {entry a a'}, step entry a a' → age a' = age a + 1

section
variable {D : Database Response State Write Key Oracle} (L : Discipline D Ghost)
  (C : Contract ε Task α Key Ghost)

/-- What every program has to end with: a commit, whenever it comes, is an abstract step
that all transactions with other keys can bear; an exception has its reason. -/
def Fulfils (task : Task) (since : Nat) : Post ε α Write Key Ghost := fun result writes held a =>
  match result with
  | .ok value => ∀ a' s, L.rely held a a' → L.holds s a' → ∃ a'', C.step ⟨task, since, value⟩ a' a'' ∧
      L.holds (D.view s writes) a'' ∧ ∀ others, Disjoint held others → L.rely others a' a''
  | .error exc => C.raises task exc a

/-- What every reachable server satisfies: an abstract state holds, keys are held by open
transactions together with their guards, and the programs of these are safe. -/
structure Consistent (w : Server Response ε Task α State Write Key) (a : Ghost) : Prop where
  holds : L.holds w.committed a
  age : C.age a = w.log.length
  owners : ∀ k t, w.owner k = some t → (w.transaction t).isSome
  guards : ∀ k t g, w.owner k = some t → L.guard k = some g → w.owner g = some t
  safe : ∀ t x, w.transaction t = some x → ∃ a₀, L.rely (w.held t) a₀ a ∧
    Safe (L.waiting (C.waits x.task)) x.program x.writes (w.held t) a₀ (Fulfils L C x.task x.since)

end

/-! ## Every run is serial -/

section
variable {D : Database Response State Write Key Oracle} {w : Server Response ε Task α State Write Key}

theorem Server.release_iff {t u : Nat} (h : u ≠ t) (k : Key) :
    w.release t k = some u ↔ w.owner k = some u := by
  unfold Server.release
  by_cases hk : w.owner k = some t
  · rw [if_pos hk, hk]
    constructor
    · intro hu
      cases hu
    · intro hu
      exact absurd (Option.some.inj hu).symm h
  · rw [if_neg hk]

theorem Server.release_ne (t : Nat) (k : Key) : w.release t k ≠ some t := by
  unfold Server.release
  by_cases hk : w.owner k = some t
  · rw [if_pos hk]
    exact (Option.some_ne_none t).symm
  · rw [if_neg hk]
    exact hk

/-- A key that is locked for one transaction is held by another. -/
theorem Server.lockedFor_eq_true {t : Nat} {k : Key} :
    w.lockedFor t k = true ↔ ∃ u, u ≠ t ∧ w.owner k = some u := by
  unfold Server.lockedFor
  cases w.owner k with
  | none => simp
  | some u => simp

variable {L : Discipline D Ghost} {C : Contract ε Task α Key Ghost} {a : Ghost}

/-- What the others hold is neither held nor guarded by a transaction. -/
theorem Consistent.clear (h : Consistent L C w a) (t : Nat) :
    Clear L.guard (w.held t) (w.lockedFor t) := by
  have free : ∀ k, (∀ u, w.owner k = some u → u = t) → w.lockedFor t k = false := by
    intro k hk
    refine Bool.eq_false_iff.mpr fun hlocked => ?_
    obtain ⟨u, hu, howner⟩ := Server.lockedFor_eq_true.mp hlocked
    exact hu (hk u howner)
  constructor
  · intro k (hk : w.owner k = some t)
    apply free
    intro u hu
    rw [hk] at hu
    exact (Option.some.inj hu).symm
  · intro k g hg (hk : w.owner g = some t)
    apply free
    intro u hu
    have hguard := h.guards k u g hu hg
    rw [hk] at hguard
    exact (Option.some.inj hguard).symm

/-- An exception of an open transaction has its reason. -/
theorem Consistent.raised (h : Consistent L C w a) {t since : Nat} {task : Task} {exc : ε}
    {writes : List Write} (ht : w.transaction t = some ⟨task, since, .raised exc, writes⟩) :
    ∃ a₀, L.rely (w.held t) a₀ a ∧ C.raises task exc a₀ :=
  h.safe t _ ht

/-- An initial server is consistent. -/
theorem Consistent.initial {s : State} (h : L.holds s a) (hage : C.age a = 0) :
    Consistent L C (Server.initial s : Server Response ε Task α State Write Key) a where
  holds := h
  age := hage
  owners _ _ hk := by cases hk
  guards _ _ _ hk := by cases hk
  safe _ _ ht := by cases ht

/-- One transaction moves: the others keep their keys, and can bear what becomes of the
abstract state. -/
theorem Consistent.update (h : Consistent L C w a) {t : Nat} {s : State} {a' : Ghost}
    {x : Option (Transaction Response ε Task α Write)} {owner : Key → Option Nat}
    {log : List (Commit Task α)} (hholds : L.holds s a') (hage : C.age a' = log.length)
    (howner : ∀ k u, u ≠ t → (owner k = some u ↔ w.owner k = some u))
    (hrely : ∀ others, Disjoint (w.held t) others → L.rely others a a')
    (hopen : ∀ k, owner k = some t → x.isSome)
    (hguards : ∀ k g, owner k = some t → L.guard k = some g → owner g = some t)
    (hsafe : ∀ y ∈ x, ∃ a₀, L.rely {k | owner k = some t} a₀ a' ∧
      Safe (L.waiting (C.waits y.task)) y.program y.writes {k | owner k = some t} a₀ (Fulfils L C y.task y.since)) :
    Consistent L C ⟨s, Function.update w.transaction t x, owner, log⟩ a' := by
  refine ⟨hholds, hage, fun k u hk => ?_, fun k u g hk hg => ?_, fun u y hy => ?_⟩
  · show (Function.update w.transaction t x u).isSome
    by_cases hu : u = t
    · rw [hu, Function.update_self]
      rw [hu] at hk
      exact hopen k hk
    · rw [Function.update_of_ne hu]
      exact h.owners k u ((howner k u hu).mp hk)
  · by_cases hu : u = t
    · rw [hu] at hk ⊢
      exact hguards k g hk hg
    · exact (howner g u hu).mpr (h.guards k u g ((howner k u hu).mp hk) hg)
  · have hy : Function.update w.transaction t x u = some y := hy
    by_cases hu : u = t
    · subst hu
      rw [Function.update_self] at hy
      exact hsafe y hy
    · rw [Function.update_of_ne hu] at hy
      have hheld : {k | owner k = some u} = w.held u := Set.ext fun k => howner k u hu
      -- a key has one owner, so the other can bear what `t` does to the abstract state
      have hdisjoint : Disjoint (w.held t) (w.held u) := by
        refine Set.disjoint_left.mpr fun k ht hk => hu ?_
        have hk : w.owner k = some u := hk
        rw [ht] at hk
        exact (Option.some.inj hk).symm
      obtain ⟨a₀, hbefore, hy⟩ := h.safe u y hy
      show ∃ a₀, L.rely {k | owner k = some u} a₀ a' ∧
        Safe (L.waiting (C.waits y.task)) y.program y.writes {k | owner k = some u} a₀ _
      rw [hheld]
      exact ⟨a₀, L.trans hbefore (hrely _ hdisjoint), hy⟩

/-- A transaction starts: it holds nothing yet. -/
theorem Consistent.start (h : Consistent L C w a) {t : Nat} {task : Task}
    {p : Coroutine Response ε α} (hnone : w.transaction t = none)
    (hprogram : Safe (L.waiting (C.waits task)) p [] ∅ a (Fulfils L C task (C.age a))) :
    Consistent L C { w with
      transaction := Function.update w.transaction t (some ⟨task, w.log.length, p, []⟩) } a := by
  rw [h.age] at hprogram
  refine h.update h.holds h.age (fun k u _ => Iff.rfl) (fun others _ => L.refl _ _) (fun k _ => rfl)
    (fun k g => h.guards k t g) ?_
  intro y hy
  cases hy
  -- keys are held by open transactions alone
  have hheld : {k | w.owner k = some t} = ∅ := by
    refine Set.eq_empty_iff_forall_notMem.mpr fun k hk => ?_
    have hopen := h.owners k t hk
    rw [hnone] at hopen
    cases hopen
  rw [hheld]
  exact ⟨a, L.refl _ _, hprogram⟩

/-- A transaction ends, if the others can bear what becomes of the abstract state. -/
theorem Consistent.finish (h : Consistent L C w a) {t : Nat} {s : State} {a' : Ghost}
    {log : List (Commit Task α)} (hholds : L.holds s a') (hage : C.age a' = log.length)
    (hrely : ∀ others, Disjoint (w.held t) others → L.rely others a a') :
    Consistent L C ⟨s, Function.update w.transaction t none, w.release t, log⟩ a' := by
  refine h.update hholds hage (fun k u hu => Server.release_iff hu k) hrely ?_ ?_ ?_
  · intro k hk
    exact absurd hk (w.release_ne t k)
  · intro k g hk
    exact absurd hk (w.release_ne t k)
  · intro y hy
    cases hy

variable [DecidableEq Key] {program : Task → Coroutine Response ε α}
  {w' : Server Response ε Task α State Write Key}

/-- A transaction executes a statement: the keys that it takes were free. -/
theorem Consistent.statement (h : Consistent L C w a) (henv : ∀ o locked, L.env o locked)
    {t since : Nat} {task : Task} {r : Statement} {resume : Response r → Coroutine Response ε α}
    {writes : List Write} (ht : w.transaction t = some ⟨task, since, .await r resume, writes⟩)
    {oracle : Oracle} {out : Outcome (Response r) Write Key}
    (hout : D.exec r oracle (D.view w.committed writes) (w.lockedFor t) = .ok out) :
    Consistent L C
      { w with
        transaction := Function.update w.transaction t
          (some ⟨task, since, resume out.response, writes ++ out.writes⟩)
        owner := fun k => if k ∈ out.locks then some t else w.owner k } a := by
  obtain ⟨a₀, hrely, hsafe⟩ := h.safe t _ ht
  obtain ⟨-, hnext⟩ := hsafe a w.committed oracle (w.lockedFor t) hrely h.holds (henv _ _) (h.clear t)
  obtain ⟨hguarded, hrest⟩ := hnext out hout
  have hheld : {k | (if k ∈ out.locks then some t else w.owner k) = some t} =
      w.held t ∪ {k | k ∈ out.locks} := by
    ext k
    by_cases hk : k ∈ out.locks
    · simp [hk]
    · simp [hk, Server.held]
  refine h.update h.holds h.age (fun k u hu => ?_) (fun others _ => L.refl _ _) (fun k _ => rfl)
    (fun k g hk hg => ?_) ?_
  · by_cases hk : k ∈ out.locks
    · -- a key that is taken was free, so no other loses it
      have hfree := D.free hout k hk
      rw [if_pos hk]
      constructor
      · intro he
        exact absurd (Option.some.inj he).symm hu
      · intro he
        rw [w.lockedFor_eq_true.mpr ⟨u, hu, he⟩] at hfree
        cases hfree
    · rw [if_neg hk]
  · have hmem : g ∈ w.held t ∪ {k | k ∈ out.locks} := by
      have hk : k ∈ {k | (if k ∈ out.locks then some t else w.owner k) = some t} := hk
      rw [hheld] at hk
      rcases hk with hk | hk
      · exact .inl (h.guards k t g hk hg)
      · exact hguarded k hk g hg
    rw [← hheld] at hmem
    exact hmem
  · intro y hy
    cases hy
    rw [hheld]
    exact ⟨a, L.refl _ _, hrest⟩

/-- What a move makes of a server. -/
theorem Server.step_cases {move : Move Task Oracle} (h : w.step D program move = some w') :
    (∃ t task, w.transaction t = none ∧ w' = { w with
      transaction := Function.update w.transaction t (some ⟨task, w.log.length, program task, []⟩) }) ∨
    (∃ t task since r resume writes oracle, ∃ out : Outcome (Response r) Write Key,
      w.transaction t = some ⟨task, since, .await r resume, writes⟩ ∧
      D.exec r oracle (D.view w.committed writes) (w.lockedFor t) = .ok out ∧
      w' = { w with
        transaction := Function.update w.transaction t
          (some ⟨task, since, resume out.response, writes ++ out.writes⟩)
        owner := fun k => if k ∈ out.locks then some t else w.owner k }) ∨
    (∃ t task since value writes, w.transaction t = some ⟨task, since, .done value, writes⟩ ∧
      w' = ⟨D.view w.committed writes, Function.update w.transaction t none, w.release t,
        ⟨task, since, value⟩ :: w.log⟩) ∨
    ∃ t, w' = { w with
      transaction := Function.update w.transaction t none, owner := w.release t } := by
  cases move with
  | start t task =>
    unfold Server.step at h
    cases ht : w.transaction t with
    | some x =>
      simp only [ht] at h
      cases h
    | none =>
      simp only [ht] at h
      exact .inl ⟨t, task, ht, (Option.some.inj h).symm⟩
  | statement t oracle =>
    unfold Server.step at h
    cases ht : w.transaction t with
    | none =>
      simp only [ht] at h
      cases h
    | some x =>
      obtain ⟨task, since, p, writes⟩ := x
      cases p with
      | done value | raised exc =>
        simp only [ht] at h
        cases h
      | await r resume =>
        simp only [ht] at h
        cases hout : D.exec r oracle (D.view w.committed writes) (w.lockedFor t) with
        | error k =>
          rw [hout] at h
          cases h
        | ok out =>
          rw [hout] at h
          exact .inr (.inl ⟨t, task, since, r, resume, writes, oracle, out, ht, hout, (Option.some.inj h).symm⟩)
  | commit t =>
    unfold Server.step at h
    cases ht : w.transaction t with
    | none =>
      simp only [ht] at h
      cases h
    | some x =>
      obtain ⟨task, since, p, writes⟩ := x
      cases p with
      | await r resume | raised exc =>
        simp only [ht] at h
        cases h
      | done value =>
        simp only [ht] at h
        exact .inr (.inr (.inl ⟨t, task, since, value, writes, ht, (Option.some.inj h).symm⟩))
  | rollback t =>
    unfold Server.step at h
    cases ht : w.transaction t with
    | none =>
      simp only [ht] at h
      cases h
    | some x =>
      simp only [ht] at h
      exact .inr (.inr (.inr ⟨t, (Option.some.inj h).symm⟩))

/-- A move keeps a server consistent; a commit is a step of the serial run. -/
theorem Consistent.step (h : Consistent L C w a) (henv : ∀ o locked, L.env o locked)
    (hprogram : ∀ task a, Safe (L.waiting (C.waits task)) (program task) [] ∅ a (Fulfils L C task (C.age a)))
    {move : Move Task Oracle} (hstep : w.step D program move = some w') :
    (w'.log = w.log ∧ Consistent L C w' a) ∨ ∃ entry a',
      w'.log = entry :: w.log ∧ C.step entry a a' ∧ Consistent L C w' a' := by
  obtain ⟨t, task, ht, rfl⟩ | ⟨t, task, since, r, resume, writes, oracle, out, ht, hout, rfl⟩ |
    ⟨t, task, since, value, writes, ht, rfl⟩ | ⟨t, rfl⟩ := Server.step_cases hstep
  · exact .inl ⟨rfl, h.start ht (hprogram task a)⟩
  · exact .inl ⟨rfl, h.statement henv ht hout⟩
  · -- the program has ended safely, so its commit is a step
    obtain ⟨a₀, hrely, hsafe⟩ := h.safe t _ ht
    obtain ⟨a', hs, hholds, hothers⟩ := hsafe a w.committed hrely h.holds
    have hage : C.age a' = w.log.length + 1 := by rw [C.ages hs, h.age]
    exact .inr ⟨⟨task, since, value⟩, a', rfl, hs, h.finish hholds hage hothers⟩
  · exact .inl ⟨rfl, h.finish h.holds h.age fun others _ => L.refl _ _⟩

/-- From a consistent server, every run goes on serially. -/
theorem ReachableFrom.serialFrom (henv : ∀ o locked, L.env o locked)
    (hprogram : ∀ task a, Safe (L.waiting (C.waits task)) (program task) [] ∅ a (Fulfils L C task (C.age a)))
    (h : ReachableFrom D program w w') (hw : Consistent L C w a) :
    ∃ newer a', w'.log = newer ++ w.log ∧ Serial C.step a newer a' ∧ Consistent L C w' a' := by
  induction h with
  | start => exact ⟨[], a, rfl, .start, hw⟩
  | step _ hstep ih =>
    obtain ⟨newer, a', hnewer, hserial, hconsistent⟩ := ih
    rcases hconsistent.step henv hprogram hstep with ⟨hlog, h⟩ | ⟨entry, a'', hlog, hs, h⟩
    · rw [hlog]
      exact ⟨newer, a', hnewer, hserial, h⟩
    · rw [hlog, hnewer]
      exact ⟨_, a'', rfl, hserial.commit hs, h⟩

/-- **Every run is serial**: what has been committed is a run of atomic steps, one for each
commit, in the order of the commits. -/
theorem ReachableFrom.serial {s : State} (hinit : L.holds s a) (hage : C.age a = 0)
    (henv : ∀ o locked, L.env o locked)
    (hprogram : ∀ task a, Safe (L.waiting (C.waits task)) (program task) [] ∅ a (Fulfils L C task (C.age a)))
    (h : ReachableFrom D program (.initial s) w) :
    ∃ a', Serial C.step a w.log a' ∧ Consistent L C w a' := by
  obtain ⟨newer, a', hlog, hserial, hconsistent⟩ := h.serialFrom henv hprogram (.initial hinit hage)
  rw [hlog]
  exact ⟨a', (List.append_nil newer).symm ▸ hserial, hconsistent⟩

/-- A move leaves what is committed as it is, or adds the writes of one transaction. -/
theorem Server.step_committed {move : Move Task Oracle} (h : w.step D program move = some w') :
    (w'.committed = w.committed ∧ w'.log = w.log) ∨
      ∃ writes entry, w'.committed = D.view w.committed writes ∧ w'.log = entry :: w.log := by
  obtain ⟨t, task, -, rfl⟩ | ⟨t, task, since, r, resume, writes, oracle, out, -, -, rfl⟩ |
    ⟨t, task, since, value, writes, -, rfl⟩ | ⟨t, rfl⟩ := Server.step_cases h
  · exact .inl ⟨rfl, rfl⟩
  · exact .inl ⟨rfl, rfl⟩
  · exact .inr ⟨writes, _, rfl, rfl⟩
  · exact .inl ⟨rfl, rfl⟩

/-- What every write keeps, every later server keeps. -/
theorem ReachableFrom.committed {R : State → State → Prop} (h : ReachableFrom D program w w')
    (hrefl : ∀ s, R s s) (htrans : ∀ {s₁ s₂ s₃}, R s₁ s₂ → R s₂ s₃ → R s₁ s₃)
    (happly : ∀ s write, R s (D.apply s write)) : R w.committed w'.committed := by
  have hview : ∀ writes s, R s (D.view s writes) := by
    intro writes
    induction writes with
    | nil => exact hrefl
    | cons write writes ih =>
      intro s
      exact htrans (happly s write) (ih _)
  induction h with
  | start => exact hrefl _
  | step _ hstep ih =>
    rcases Server.step_committed hstep with ⟨hsame, -⟩ | ⟨writes, -, hmore, -⟩
    · rw [hsame]
      exact ih
    · rw [hmore]
      exact htrans ih (hview writes _)

end

/-! ## No deadlock -/

section
variable {D : Database Response State Write Key Oracle} {w : Server Response ε Task α State Write Key}
  {L : Discipline D Ghost} {C : Contract ε Task α Key Ghost} {a : Ghost}

/-- A transaction can go on: execute its next statement, commit, or give up after an
exception. -/
def Server.CanProceed (D : Database Response State Write Key Oracle)
    (w : Server Response ε Task α State Write Key) (t : Nat) : Prop :=
  match w.transaction t with
  | some ⟨_, _, .await r _, writes⟩ =>
    ∃ oracle out, D.exec r oracle (D.view w.committed writes) (w.lockedFor t) = .ok out
  | some _ => True
  | none => False

/-- A transaction that cannot go on waits for a key of another, and may do so. -/
theorem Consistent.waits_for [Inhabited Oracle] (h : Consistent L C w a)
    (henv : ∀ o locked, L.env o locked) {t : Nat} {x : Transaction Response ε Task α Write}
    (ht : w.transaction t = some x) (hwaits : ¬w.CanProceed D t) :
    ∃ k u, w.owner k = some u ∧ (w.transaction u).isSome ∧ C.waits x.task (w.held t) k := by
  unfold Server.CanProceed at hwaits
  obtain ⟨task, since, program, writes⟩ := x
  cases program with
  | done value | raised exc =>
    simp only [ht] at hwaits
    exact absurd trivial hwaits
  | await r resume =>
    simp only [ht] at hwaits
    cases hout : D.exec r default (D.view w.committed writes) (w.lockedFor t) with
    | ok out => exact absurd ⟨default, out, hout⟩ hwaits
    | error k =>
      obtain ⟨a₀, hrely, hsafe⟩ := h.safe t _ ht
      obtain ⟨hwait, -⟩ := hsafe a w.committed default (w.lockedFor t) hrely h.holds
        (henv _ _) (h.clear t)
      obtain ⟨u, -, hu⟩ := w.lockedFor_eq_true.mp (D.waits hout)
      exact ⟨k, u, hu, h.owners k u hu, hwait k hout⟩

/-- **No deadlock**: where keys are waited for in the order of their ranks, which are
bounded, some open transaction can go on. -/
theorem Consistent.canProceed [Inhabited Oracle] (h : Consistent L C w a)
    (henv : ∀ o locked, L.env o locked) (rank : Key → Nat) (bound : Nat)
    (hbound : ∀ k, rank k < bound)
    (hrank : ∀ task held k, C.waits task held k → ∀ k' ∈ held, rank k' < rank k) {t : Nat}
    (hopen : (w.transaction t).isSome) : ∃ u, w.CanProceed D u := by
  have waits : ∀ t, (w.transaction t).isSome → ¬w.CanProceed D t →
      ∃ k u, w.owner k = some u ∧ (w.transaction u).isSome ∧ ∀ k' ∈ w.held t, rank k' < rank k := by
    intro t hopen hproceeds
    obtain ⟨x, ht⟩ := Option.isSome_iff_exists.mp hopen
    obtain ⟨k, u, hu, hopen', hwaits⟩ := h.waits_for henv ht hproceeds
    exact ⟨k, u, hu, hopen', hrank _ _ _ hwaits⟩
  -- along a chain of waiting transactions the rank of the key that is held goes up
  have chain : ∀ n k t, bound - rank k ≤ n → w.owner k = some t → (w.transaction t).isSome →
      ∃ u, w.CanProceed D u := by
    intro n
    induction n with
    | zero =>
      intro k t hn
      have hk := hbound k
      omega
    | succ n ih =>
      intro k t hn hk hopen
      by_cases hproceeds : w.CanProceed D t
      · exact ⟨t, hproceeds⟩
      · obtain ⟨k', u, hu, hopen', hrank⟩ := waits t hopen hproceeds
        have hlt := hrank k hk
        exact ih k' u (by omega) hu hopen'
  by_cases hproceeds : w.CanProceed D t
  · exact ⟨t, hproceeds⟩
  · obtain ⟨k, u, hu, hopen', -⟩ := waits t hopen hproceeds
    exact chain _ k u le_rfl hu hopen'

/-- A transaction whose task waits for nothing can go on. -/
theorem Consistent.never_waits [Inhabited Oracle] (h : Consistent L C w a)
    (henv : ∀ o locked, L.env o locked) {t : Nat} {x : Transaction Response ε Task α Write}
    (ht : w.transaction t = some x) (hnever : ∀ held k, ¬C.waits x.task held k) :
    w.CanProceed D t := by
  by_contra hproceeds
  obtain ⟨k, -, -, -, hwaits⟩ := h.waits_for henv ht hproceeds
  exact hnever _ k hwaits

end
end
end Transactions
