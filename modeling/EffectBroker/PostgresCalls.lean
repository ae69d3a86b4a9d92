import EffectBroker.PostgresBook

/-!
# The transactions of the Postgres store

What each transaction of the store does to the book, whatever the others do between its
statements: when it commits, its writes are one operation of the book as it is then.  The
row of the effect, which it holds, is what keeps the others off the ledger.
-/
namespace EffectBroker
open Python Concurrency Transactions

/-! ## Keys -/

/-- The order in which keys are waited for. -/
def PostgresKey.rank : PostgresKey → Nat
  | .tenant _ => 0
  | .identity _ _ => 1
  | .tenantRow _ => 2
  | .row _ => 3
  | .event _ _ | .ordinal _ _ | .receiptOf _ => 4
  | .attempt _ => 5
  | .receipt _ => 6

/-- Keys that are waited for in this order. -/
def InOrder (held : Set PostgresKey) (k : PostgresKey) : Prop := ∀ k' ∈ held, k'.rank < k.rank

/-- Entries for an effect are only taken by who holds its row. -/
def PostgresKey.guard : PostgresKey → Option PostgresKey
  | .event effectId _ | .ordinal effectId _ | .receiptOf effectId => some (.row effectId)
  | _ => none

/-- A discipline of the ledger. -/
structure Governs {jsonb : Jsonb} (L : Discipline (postgres jsonb) PostgresBook) : Prop where
  holds : ∀ {s a}, L.holds s a → s.Holds jsonb a
  rely : ∀ {held a a'}, L.rely held a a' → a.Rely held a'
  timeline : ∀ {held a a'}, L.rely held a a' → a.timeline <:+ a'.timeline
  weaken : ∀ {held held' a a'}, held' ⊆ held → L.rely held a a' → L.rely held' a a'
  guard : L.guard = PostgresKey.guard

/-! ## What the tables say -/

namespace PostgresTables
variable {jsonb : Jsonb} {s s' : PostgresTables} {a : PostgresBook} {e : Str} {l : EffectLedger}

theorem Holds.intentsOf (h : s.Holds jsonb a) (e : Str) :
    s.intentsOf e = (a.book.ledger e).toList.map jsonb.effectRow := by
  unfold PostgresTables.intentsOf
  rw [h.intents, List.filter_map]
  show (a.book.filter fun l => decide (l.id = e)).map jsonb.effectRow = _
  cases hl : a.book.ledger e with
  | none =>
    have hnone : (a.book.filter fun l => decide (l.id = e)) = [] :=
      List.filter_eq_nil_iff.mpr fun l hm hid =>
        Book.ledger_eq_none.mp hl l hm (of_decide_eq_true hid)
    rw [hnone]
    rfl
  | some l =>
    obtain ⟨hm, rfl⟩ := Book.mem_of_ledger hl
    rw [Book.filter_of_nodup h.good.ids hm]
    rfl

theorem Holds.hasIntent (h : s.Holds jsonb a) (hl : a.book.ledger e = some l) :
    s.hasIntent e = true := by
  obtain ⟨hm, rfl⟩ := Book.mem_of_ledger hl
  unfold PostgresTables.hasIntent
  rw [h.intents, List.any_map]
  exact List.any_eq_true.mpr ⟨l, hm, decide_eq_true rfl⟩

theorem Holds.eventsOf (h : s.Holds jsonb a) (hl : a.book.ledger e = some l) :
    s.events.filter (·.effectId = e) = l.events.map jsonb.eventRow := by
  rw [h.events, Book.eventsOf, hl]
  rfl

theorem Holds.attemptsOf (h : s.Holds jsonb a) (hl : a.book.ledger e = some l) :
    s.attempts.filter (·.effectId = e) = l.attempts.map Attempt.row := by
  rw [h.attempts, Book.attemptsOf, hl]
  rfl

/-- The events of an effect are numbered from one. -/
def Numbered (s : PostgresTables) (e : Str) (n : Nat) : Prop :=
  (s.events.filter (·.effectId = e)).map (·.sequence) = List.range' 1 n

theorem Holds.numbered (h : s.Holds jsonb a) (hl : a.book.ledger e = some l) :
    s.Numbered e l.events.length := by
  unfold PostgresTables.Numbered
  rw [h.eventsOf hl, List.map_map]
  exact (h.good.sound l (Book.mem_of_ledger hl).1).story.numbered

theorem max?_range' (n : Nat) : ((List.range' 1 n).max?).getD 0 = n := by
  cases n with
  | zero => rfl
  | succ n =>
    have hmax : (List.range' 1 (n + 1)).max? = some (n + 1) := by
      refine List.max?_eq_some_iff.mpr ⟨?_, fun m hm => ?_⟩
      · rw [List.mem_range'_1]
        omega
      · rw [List.mem_range'_1] at hm
        omega
    rw [hmax]
    rfl

theorem Numbered.nextSequence {n : Nat} (h : s.Numbered e n) : s.nextSequence e = n + 1 := by
  unfold PostgresTables.nextSequence
  rw [h, max?_range']

/-- The next event meets its constraints. -/
theorem Numbered.eventChecks {n : Nat} (h : s.Numbered e n) (hrow : s.hasIntent e = true)
    {row : EventRow} (he : row.effectId = e) (hsequence : row.sequence = n + 1) :
    ∀ check ∈ s.eventChecks row, check.violated = false := by
  unfold PostgresTables.eventChecks
  rw [he, hsequence, hrow]
  refine List.forall_mem_cons.mpr ⟨Bool.eq_false_iff.mpr fun hany => ?_,
    List.forall_mem_singleton.mpr rfl⟩
  obtain ⟨r, hr, heq⟩ := List.any_eq_true.mp hany
  obtain ⟨hid, hr'⟩ := of_decide_eq_true heq
  have hm : r.sequence ∈ (s.events.filter (·.effectId = e)).map (·.sequence) :=
    List.mem_map_of_mem (List.mem_filter.mpr ⟨hr, decide_eq_true hid⟩)
  rw [h, List.mem_range'_1] at hm
  omega

end PostgresTables

/-! ## Statements under constraints -/

section
variable {jsonb : Jsonb} {L : Discipline (postgres jsonb) PostgresBook} {held : Set PostgresKey}
  {locked : PostgresKey → Bool} {checks : List ConstraintCheck}

/-- The first thing that is in the way of a row, if anything is. -/
theorem checkConstraints_cases (locked : PostgresKey → Bool) (checks : List ConstraintCheck) :
    (∃ check ∈ checks, locked check.key = true ∧
      checkConstraints locked checks = .error check.key) ∨
    (∃ check ∈ checks, check.violated = true ∧
      checkConstraints locked checks = .ok (some check.constraint)) ∨
    (∀ check ∈ checks, check.violated = false) ∧ checkConstraints locked checks = .ok none := by
  induction checks with
  | nil => exact .inr (.inr ⟨List.forall_mem_nil _, rfl⟩)
  | cons check checks ih =>
    unfold checkConstraints
    by_cases hviolated : check.violated = true
    · rw [if_pos hviolated]
      exact .inr (.inl ⟨check, List.mem_cons_self .., hviolated, rfl⟩)
    · rw [if_neg hviolated]
      by_cases hlocked : locked check.key = true
      · rw [if_pos hlocked]
        exact .inl ⟨check, List.mem_cons_self .., hlocked, rfl⟩
      · rw [if_neg hlocked]
        rcases ih with ⟨c, hc, h⟩ | ⟨c, hc, h⟩ | ⟨hall, h⟩
        · exact .inl ⟨c, List.mem_cons_of_mem _ hc, h⟩
        · exact .inr (.inl ⟨c, List.mem_cons_of_mem _ hc, h⟩)
        · exact .inr (.inr ⟨List.forall_mem_cons.mpr ⟨Bool.eq_false_iff.mpr hviolated, hall⟩, h⟩)

/-- A key that a transaction may ask for: one that no other can hold, or one that it may
wait for. -/
def MayTake (L : Discipline (postgres jsonb) PostgresBook) (held : Set PostgresKey)
    (k : PostgresKey) : Prop :=
  k ∈ held ∨ (∃ g ∈ held, k.guard = some g) ∨ L.waits held k

/-- Inserting a row waits for a key, violates a constraint, or succeeds. -/
theorem insertChecked_cases (write : PostgresWrite) (hL : Governs L) (hclear : Clear L.guard held locked)
    (hkeys : ∀ check ∈ checks, MayTake L held check.key) :
    (∃ k, insertChecked locked checks write = .error k ∧ L.waits held k) ∨
    (∃ check ∈ checks, check.violated = true ∧
      insertChecked locked checks write = .ok ⟨.error (violates check.constraint), [], []⟩) ∨
    (∀ check ∈ checks, check.violated = false) ∧ insertChecked locked checks write =
      .ok ⟨.ok (), [write], (checks.filter (·.takes)).map (·.key)⟩ := by
  unfold insertChecked
  rcases checkConstraints_cases locked checks with
    ⟨check, hc, hlocked, h⟩ | ⟨check, hc, hviolated, h⟩ | ⟨hall, h⟩
  · rw [h]
    refine .inl ⟨check.key, rfl, ?_⟩
    rcases hkeys check hc with hheld | ⟨g, hg, hguard⟩ | hwaits
    · rw [hclear.own _ hheld] at hlocked
      cases hlocked
    · rw [hclear.guarded check.key g (by rw [hL.guard]; exact hguard) hg] at hlocked
      cases hlocked
    · exact hwaits
  · rw [h]
    exact .inr (.inl ⟨check, hc, hviolated, rfl⟩)
  · rw [h]
    exact .inr (.inr ⟨hall, rfl⟩)

/-! ## Programs -/

variable {e : Str} {writes : List PostgresWrite} {a : PostgresBook}

/-- What a transaction sees. -/
abbrev sees (jsonb : Jsonb) (s : PostgresTables) (writes : List PostgresWrite) : PostgresTables :=
  (postgres jsonb).view s writes

theorem sees_append (s : PostgresTables) (writes writes' : List PostgresWrite) :
    sees jsonb s (writes ++ writes') = sees jsonb (sees jsonb s writes) writes' :=
  (postgres jsonb).view_append s writes writes'

/-- Append the next event of an effect whose row is held. -/
theorem safe_appendEvent (hL : Governs L) {n : Nat} {eventType : EventType} {version : Nat}
    {data : Items} {at_ : Datetime} {Q : Post Exc Unit PostgresWrite PostgresKey PostgresBook}
    (hrow : .row e ∈ held) (hwf : (Value.dict data).WellFormed)
    (hview : ∀ a' s, L.rely held a a' → s.Holds jsonb a' →
      (sees jsonb s writes).Numbered e n ∧ (sees jsonb s writes).hasIntent e = true)
    (hok : Storable (.dict data) → ∀ a', L.rely held a a' →
      Q (.ok ()) (writes ++ [.event (jsonb.eventRow ⟨e, n + 1, eventType, version, at_, data⟩)])
        (held ∪ {k | k ∈ [PostgresKey.event e (n + 1)]}) a')
    (herror : ∀ exc a', L.rely held a a' → jsonValue (.dict data) = .error exc →
      Q (.error exc) writes held a') :
    Safe L (PostgresStore.appendEvent e eventType version data at_) writes held a Q := by
  unfold PostgresStore.appendEvent
  rw [safe_bind]
  refine safe_read (fun _ _ _ => rfl) fun a₁ s₁ hrely₁ hholds₁ => ?_
  obtain ⟨hnumbered, -⟩ := hview a₁ s₁ hrely₁ (hL.holds hholds₁)
  show Safe L (PostgresStore.compute (jsonValue (.dict data)) >>= fun dataJson => _) writes held a₁ Q
  rw [safe_bind, safe_ofExcept]
  cases hjson : jsonValue (.dict data) with
  | error exc => exact herror exc a₁ hrely₁ hjson
  | ok json =>
    obtain ⟨hstorable, rfl⟩ := (jsonValue_eq_ok hwf).mp hjson
    show Safe L _ writes held a₁ Q
    rw [safe_bind]
    refine safe_request fun a₂ s₂ oracle locked hrely₂ hholds₂ _ hclear => ?_
    have hrely := L.trans hrely₁ hrely₂
    obtain ⟨hnumbered₂, hintent⟩ := hview a₂ s₂ hrely (hL.holds hholds₂)
    have hsequence : (sees jsonb s₁ writes).nextSequence e = n + 1 := hnumbered.nextSequence
    let row : EventRow := ⟨e, (sees jsonb s₁ writes).nextSequence e, eventType.value, version, at_,
      normalize (.dict data)⟩
    have hchecks : ∀ check ∈ (sees jsonb s₂ writes).eventChecks row, check.violated = false :=
      hnumbered₂.eventChecks hintent rfl hsequence
    have hkeys : ∀ check ∈ (sees jsonb s₂ writes).eventChecks row, MayTake L held check.key :=
      List.forall_mem_cons.mpr ⟨.inr (.inl ⟨_, hrow, rfl⟩), List.forall_mem_singleton.mpr (.inl hrow)⟩
    rcases insertChecked_cases (.event { row with dataJson := jsonb.store row.dataJson })
      hL hclear hkeys with hwait | ⟨check, hc, hviolated, -⟩ | ⟨-, hinsert⟩
    · exact .inl hwait
    · rw [hchecks check hc] at hviolated
      cases hviolated
    · refine .inr ⟨_, hinsert, ?_, ?_⟩
      · intro k hk g hg
        obtain rfl := List.mem_singleton.mp hk
        rw [hL.guard] at hg
        cases hg
        exact .inl hrow
      · show Q (.ok ()) (writes ++ [.event ⟨e, (sees jsonb s₁ writes).nextSequence e, eventType.value,
          version, at_, jsonb.store (normalize (.dict data))⟩])
          (held ∪ {k | k ∈ [PostgresKey.event e ((sees jsonb s₁ writes).nextSequence e)]}) a₂
        rw [hsequence]
        exact hok hstorable a₂ hrely

/-- The ledger of an effect at the version that is expected, or what is raised. -/
theorem safe_recordForExpectedVersion (hL : Governs L) {expectedVersion : Int} {lock : Bool}
    {Q : Post Exc EffectRecord PostgresWrite PostgresKey PostgresBook}
    (hwaits : lock = true → L.waits ∅ (.row e))
    (hok : ∀ a' l record, L.rely ∅ a a' → a'.book.ledger e = some l →
      (l.record.version : Int) = expectedVersion → jsonb.read l.record = .ok record →
      Q (.ok record) [] (if lock then {k | k ∈ [PostgresKey.row e]} else ∅) a')
    (herror : ∀ a' exc held, L.rely ∅ a a' → a'.book.current e expectedVersion = .error exc →
      Q (.error exc) [] held a') :
    Safe L (PostgresStore.recordForExpectedVersion e expectedVersion lock) [] ∅ a Q := by
  unfold PostgresStore.recordForExpectedVersion
  rw [safe_bind]
  refine safe_request fun a₁ s₁ oracle locked hrely hholds _ _ => ?_
  have hs := hL.holds hholds
  cases hl : a₁.book.ledger e with
  | none =>
    have hrows : s₁.intentsOf e = [] := by
      rw [hs.intentsOf, hl]
      rfl
    have hnone : s₁.hasIntent e = false := by
      unfold PostgresTables.hasIntent
      rw [hs.intents, List.any_map]
      refine Bool.eq_false_iff.mpr fun hany => ?_
      obtain ⟨l, hm, hid⟩ := List.any_eq_true.mp hany
      exact Book.ledger_eq_none.mp hl l hm (of_decide_eq_true hid)
    have hexec : s₁.selectIntent locked e lock = .ok ⟨[], [], []⟩ := by
      unfold PostgresTables.selectIntent
      rw [hnone, hrows, Bool.and_false]
      rfl
    refine .inr ⟨_, hexec, List.forall_mem_nil _, ?_⟩
    refine herror a₁ _ _ hrely ?_
    unfold Book.current
    rw [hl]
  | some l =>
    have hrows : s₁.intentsOf e = [jsonb.effectRow l] := by
      rw [hs.intentsOf, hl]
      rfl
    obtain ⟨record, hread⟩ := hs.readable l (Book.mem_of_ledger hl).1
    obtain ⟨arguments, keyRetention, settlementBound, hrecord⟩ := Jsonb.read_ok hread
    have hversion : record.version = l.record.version := by rw [hrecord]
    -- what follows the `SELECT`, with the keys that it has taken
    have after : ∀ held, (if lock then {k | k ∈ [PostgresKey.row e]} else ∅) = held →
        Safe L (PostgresStore.compute (oneOrNone [jsonb.effectRow l]) >>=
          PostgresStore.expectVersion e expectedVersion) [] held a₁ Q := by
      intro held hheld
      rw [safe_bind, safe_ofExcept]
      show Safe L (PostgresStore.compute (jsonb.effectRow l).toRecord >>= fun record => _) [] held a₁ Q
      rw [toRecord_jsonbRow, hread, safe_bind, safe_ofExcept]
      show Safe L (if (record.version : Int) ≠ expectedVersion then _ else _) [] held a₁ Q
      rw [hversion]
      by_cases hv : (l.record.version : Int) = expectedVersion
      · rw [if_neg (not_not.mpr hv), safe_pure, ← hheld]
        exact hok a₁ l record hrely hl hv hread
      · rw [if_pos hv, safe_throw]
        refine herror a₁ _ _ hrely ?_
        unfold Book.current
        simp only [hl]
        rw [if_pos hv]
    cases lock with
    | false =>
      have hexec : s₁.selectIntent locked e false = .ok ⟨[jsonb.effectRow l], [], []⟩ := by
        unfold PostgresTables.selectIntent
        rw [hrows]
        rfl
      refine .inr ⟨_, hexec, List.forall_mem_nil _, after _ ?_⟩
      simp
    | true =>
      unfold postgres PostgresTables.exec
      show (∃ k, s₁.selectIntent locked e true = _ ∧ _) ∨ ∃ out, s₁.selectIntent locked e true = _ ∧ _
      unfold PostgresTables.selectIntent
      rw [hs.hasIntent hl, hrows]
      by_cases hlocked : locked (.row e) = true
      · simp only [Bool.and_self, if_true, hlocked]
        exact .inl ⟨_, rfl, hwaits rfl⟩
      · simp only [Bool.and_self, if_true, hlocked]
        refine .inr ⟨_, rfl, ?_, after _ ?_⟩
        · intro k hk g hg
          obtain rfl := List.mem_singleton.mp hk
          rw [hL.guard] at hg
          cases hg
        · simp

end
end EffectBroker
