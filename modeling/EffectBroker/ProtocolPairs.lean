import EffectBroker.Interleaving

/-!
# Two protocols at once

A program that follows two protocols follows their pair, whose local states are pairs.
What is known of runs of one protocol is then known of the runs of the pair, and what the
other adds can be proved on top of it.
-/
namespace Concurrency

section
variable {Request : Type} {Response : Request → Type} {ε Task Value Shared Input Local Other α : Type}

/-- The pair of two protocols. -/
def Protocol.both (P : Protocol Response Task Local) (P' : Protocol Response Task Other) :
    Protocol Response Task (Local × Other) where
  start task := (P.start task, P'.start task)
  Allowed l r := P.Allowed l.1 r ∧ P'.Allowed l.2 r
  Possible r response := P.Possible r response ∧ P'.Possible r response
  after l r response := (P.after l.1 r response, P'.after l.2 r response)

variable {P : Protocol Response Task Local} {P' : Protocol Response Task Other}

/-- A program that follows each protocol follows the pair. -/
theorem Coroutine.Follows.both {p : Coroutine Response ε α} {l : Local} {l' : Other}
    {Q : Local → Except ε α → Prop} {Q' : Other → Except ε α → Prop} (h : p.Follows P l Q)
    (h' : p.Follows P' l' Q') :
    p.Follows (P.both P') (l, l') fun l result => Q l.1 result ∧ Q' l.2 result := by
  induction p generalizing l l' with
  | done value => exact ⟨h, h'⟩
  | raised exc => exact ⟨h, h'⟩
  | await r resume ih =>
    exact ⟨⟨h.1, h'.1⟩, fun response hp => ih response (h.2 response hp.1) (h'.2 response hp.2)⟩

theorem localOf_both (log : List (Event Response Task)) (c : Nat) :
    localOf (P.both P') log c =
      (localOf P log c).bind fun l => (localOf P' log c).map fun l' => (l, l') := by
  induction log with
  | nil => rfl
  | cons event log ih =>
    cases event with
    | called d task =>
      simp only [localOf]
      split
      · rfl
      · exact ih
    | answered d r response =>
      simp only [localOf]
      split
      · rw [ih]
        cases localOf P log c with
        | none => rfl
        | some l =>
          cases localOf P' log c with
          | none => rfl
          | some l' => rfl
      · exact ih
    | began d r => exact ih
    | landed d r => exact ih
    | stopped d => exact ih

/-- Both protocols know the same callers. -/
theorem localOf_isSome (log : List (Event Response Task)) (c : Nat) :
    (localOf P log c).isSome = (localOf P' log c).isSome := by
  induction log with
  | nil => rfl
  | cons event log ih =>
    cases event with
    | called d task =>
      simp only [localOf]
      split
      · rfl
      · exact ih
    | answered d r response =>
      simp only [localOf]
      split
      · rw [Option.isSome_map, Option.isSome_map, ih]
      · exact ih
    | began d r => exact ih
    | landed d r => exact ih
    | stopped d => exact ih

theorem localOf_both_some {log : List (Event Response Task)} {c : Nat} {l : Local × Other}
    (h : localOf (P.both P') log c = some l) :
    localOf P log c = some l.1 ∧ localOf P' log c = some l.2 := by
  rw [localOf_both] at h
  obtain ⟨first, hfirst, h⟩ := Option.bind_eq_some_iff.mp h
  obtain ⟨second, hsecond, rfl⟩ := Option.map_eq_some_iff.mp h
  exact ⟨hfirst, hsecond⟩

theorem localOf_both_none {log : List (Event Response Task)} {c : Nat}
    (h : localOf (P.both P') log c = none) :
    localOf P log c = none ∧ localOf P' log c = none := by
  have hsame : (localOf P log c).isSome = (localOf P' log c).isSome := localOf_isSome log c
  rw [localOf_both] at h
  cases hfirst : localOf P log c with
  | none =>
    rw [hfirst, Option.isSome_none] at hsame
    exact ⟨rfl, Option.isSome_eq_false_iff.mp hsame.symm |> Option.isNone_iff_eq_none.mp⟩
  | some l =>
    rw [hfirst, Option.isSome_some] at hsame
    obtain ⟨l', hsecond⟩ := Option.isSome_iff_exists.mp hsame.symm
    rw [hfirst, hsecond] at h
    cases h

/-- A run of the pair is a run of the first protocol. -/
theorem ProtocolRun.fst {S : System Response ε Task Value Shared Input} {init s : Shared}
    {log : List (Event Response Task)} (h : ProtocolRun S (P.both P') init s log) :
    ProtocolRun S P init s log := by
  induction h with
  | initial => exact .initial
  | call _ hnone ih => exact ih.call (localOf_both_none hnone).1
  | begin _ hl hallowed hout hext ih => exact ih.begin (localOf_both_some hl).1 hallowed.1 hout hext
  | land _ hout ih => exact ih.land hout
  | answer input _ hl hallowed hout ih => exact ih.answer input (localOf_both_some hl).1 hallowed.1 hout
  | stop _ ih => exact ih.stop
  | disturb input _ ih => exact ih.disturb input

end
end Concurrency
