import EffectBroker.PostgresCalls

/-!
# The operations of the Postgres store

Each operation of the store commits as one operation of the book, and what it raises it
raises for a reason of the book, or for one of its own.
-/
namespace EffectBroker
open Python Concurrency Transactions

section
variable {jsonb : Jsonb} {L : Discipline (postgres jsonb) PostgresBook} {a : PostgresBook} {e : Str}
  {l : EffectLedger}

/-- A commit, whenever it comes, is this operation of the book; an exception is one of the
operation, or has its own reason. -/
def Does {α β : Type} (L : Discipline (postgres jsonb) PostgresBook) (R : α → β → Prop)
    (op : Book → Except Exc (β × Book)) (Own : Exc → PostgresBook → Prop) :
    Post Exc α PostgresWrite PostgresKey PostgresBook := fun result writes held a =>
  match result with
  | .ok value => ∀ a' s, L.rely held a a' → s.Holds jsonb a' → ∃ y b', op a'.book = .ok (y, b') ∧
      R value y ∧ (sees jsonb s writes).Holds jsonb { a' with book := b' } ∧
      ∀ others, Disjoint held others → a'.Rely others { a' with book := b' }
  | .error exc => op a.book = .error exc ∨ Own exc a

/-- Nobody else changes a ledger whose row is held. -/
theorem Governs.keeps (hL : Governs L) {held : Set PostgresKey} {a' : PostgresBook}
    (hrow : .row e ∈ held) (hrely : L.rely held a a') (hl : a.book.ledger e = some l) :
    a'.book.ledger e = some l :=
  ((hL.rely hrely).row e hrow).trans hl

/-- Changing a ledger whose row is held is nothing to those who do not hold it. -/
theorem rely_modify {held others : Set PostgresKey} {s : PostgresTables} (hs : s.Holds jsonb a)
    (hrow : .row e ∈ held) (hdisjoint : Disjoint held others) (hl : a.book.ledger e = some l)
    {f : EffectLedger → EffectLedger} (hstep : LedgerStep (some l) (f l)) :
    a.Rely others { a with book := a.book.modify e f } := by
  refine .of_map fun l' hl' => ?_
  by_cases he : l'.id = e
  · have hfound := hs.good.ledger_of_mem hl'
    rw [he, hl] at hfound
    cases hfound
    rw [if_pos he, he]
    exact .inr ⟨hstep, Set.disjoint_left.mp hdisjoint hrow⟩
  · rw [if_neg he]
    exact .inl rfl

/-! ## `start_attempt` -/

/-- The next attempt id is new. -/
theorem PostgresTables.Holds.fresh_attempt {s : PostgresTables} (h : s.Holds jsonb a)
    (hl : a.book.ledger e = some l) (workerId : Str) (version : Int) (now : Datetime) :
    ∀ check ∈ s.attemptChecks ⟨attemptIdOf e (l.attempts.length + 1), e, l.attempts.length + 1,
      workerId, version, now⟩, check.violated = false := by
  -- the row of an attempt is numbered as its place says
  have hplace : ∀ row ∈ s.attempts, ∃ n, row.attemptId = attemptIdOf row.effectId n ∧
      row.ordinal = n ∧ (row.effectId = e → n ≤ l.attempts.length) := by
    intro row hrow
    have hm : row ∈ s.attempts.filter (·.effectId = row.effectId) :=
      List.mem_filter.mpr ⟨hrow, decide_eq_true rfl⟩
    rw [h.attempts] at hm
    obtain ⟨attempt, hattempt, hrow⟩ := List.mem_map.mp hm
    cases hl' : a.book.ledger row.effectId with
    | none =>
      rw [Book.attemptsOf, hl'] at hattempt
      cases hattempt
    | some l' =>
      rw [Book.attemptsOf, hl'] at hattempt
      obtain ⟨hm', hid'⟩ := Book.mem_of_ledger hl'
      have hpair : (attempt.ordinal, attempt.attemptId) ∈
          l'.attempts.map fun row => (row.ordinal, row.attemptId) := List.mem_map_of_mem hattempt
      rw [(h.good.sound l' hm').attempts] at hpair
      obtain ⟨n, hn, hpair⟩ := List.mem_map.mp hpair
      obtain ⟨hordinal, hattemptId⟩ := Prod.mk.inj hpair
      have hn := List.mem_range'_1.mp hn
      have hid : l'.record.effectId = row.effectId := hid'
      refine ⟨n, ?_, ?_, fun he => ?_⟩
      · rw [← hid, hattemptId, ← hrow]
        rfl
      · rw [hordinal, ← hrow]
        rfl
      · rw [he, hl] at hl'
        cases hl'
        omega
  unfold PostgresTables.attemptChecks
  refine List.forall_mem_cons.mpr ⟨Bool.eq_false_iff.mpr fun hany => ?_,
    List.forall_mem_cons.mpr ⟨Bool.eq_false_iff.mpr fun hany => ?_,
      List.forall_mem_singleton.mpr ?_⟩⟩
  · -- an id tells its effect and its ordinal, and the ordinal is a new one
    obtain ⟨row, hrow, heq⟩ := List.any_eq_true.mp hany
    obtain ⟨n, hattemptId, -, hle⟩ := hplace row hrow
    obtain ⟨he, hn⟩ := attemptIdOf_inj (hattemptId.symm.trans (of_decide_eq_true heq))
    have := hle he
    omega
  · obtain ⟨row, hrow, heq⟩ := List.any_eq_true.mp hany
    obtain ⟨he, hordinal⟩ := of_decide_eq_true heq
    obtain ⟨n, -, hn, hle⟩ := hplace row hrow
    have hordinal : row.ordinal = l.attempts.length + 1 := hordinal
    have := hle he
    omega
  · show (!s.hasIntent e) = false
    rw [h.hasIntent hl]
    rfl

/-- The row of the next attempt of a ledger. -/
abbrev nextAttempt (l : EffectLedger) (e : Str) (workerId : Str) (version : Int) (now : Datetime) :
    AttemptRow :=
  ⟨attemptIdOf e (l.attempts.length + 1), e, l.attempts.length + 1, workerId, version, now⟩

/-- Insert the next attempt of an effect whose row is held. -/
theorem safe_insertAttempt (hL : Governs L) {held : Set PostgresKey} {writes : List PostgresWrite}
    {workerId : Str} {version : Int} {now : Datetime}
    {Q : Post Exc Unit PostgresWrite PostgresKey PostgresBook} (hrow : .row e ∈ held)
    (hwaits : L.waits held (.attempt (attemptIdOf e (l.attempts.length + 1))))
    (hview : ∀ a' s, L.rely held a a' → s.Holds jsonb a' →
      ∀ check ∈ (sees jsonb s writes).attemptChecks (nextAttempt l e workerId version now),
        check.violated = false)
    (hok : ∀ a', L.rely held a a' →
      Q (.ok ()) (writes ++ [.attempt (nextAttempt l e workerId version now)])
        (held ∪ {k | k ∈ [PostgresKey.attempt (attemptIdOf e (l.attempts.length + 1)),
          .ordinal e (l.attempts.length + 1)]}) a') :
    Safe L (PostgresStore.insertAttempt (nextAttempt l e workerId version now)) writes held a Q := by
  unfold PostgresStore.insertAttempt
  rw [safe_bind]
  refine safe_request fun a' s oracle locked hrely hholds _ hclear => ?_
  have hchecks := hview a' s hrely (hL.holds hholds)
  have hkeys : ∀ check ∈ (sees jsonb s writes).attemptChecks (nextAttempt l e workerId version now),
      MayTake L held check.key :=
    List.forall_mem_cons.mpr ⟨.inr (.inr hwaits), List.forall_mem_cons.mpr
      ⟨.inr (.inl ⟨_, hrow, rfl⟩), List.forall_mem_singleton.mpr (.inl hrow)⟩⟩
  rcases insertChecked_cases (.attempt (nextAttempt l e workerId version now)) hL hclear hkeys with
    hwait | ⟨check, hc, hviolated, -⟩ | ⟨-, hinsert⟩
  · exact .inl hwait
  · rw [hchecks check hc] at hviolated
    cases hviolated
  · refine .inr ⟨_, hinsert, fun k hk g hg => ?_, ?_⟩
    · rw [hL.guard] at hg
      rcases List.mem_cons.mp hk with rfl | hk
      · cases hg
      · obtain rfl := List.mem_singleton.mp hk
        cases hg
        exact .inl hrow
    · show Safe L (PostgresStore.compute (.ok ())) _ _ a' _
      rw [safe_ofExcept]
      exact hok a' hrely

/-- The writes of `start_attempt` start an attempt of the book. -/
theorem PostgresTables.Holds.attempted {s : PostgresTables} (h : s.Holds jsonb a)
    (hl : a.book.ledger e = some l) (workerId : Str) (now : Datetime) :
    (sees jsonb s [.attempt (nextAttempt l e workerId l.record.version now),
      .event (jsonb.eventRow ⟨e, l.events.length + 1, .attemptStarted, l.record.version, now,
        [(text "attempt_id", .str (attemptIdOf e (l.attempts.length + 1))),
          (text "ordinal", .int (l.attempts.length + 1 : Nat)),
          (text "worker_id", .str workerId)]⟩)]).Holds jsonb
      { a with book := a.book.modify e (·.attempted workerId now) } := by
  obtain ⟨-, rfl⟩ := Book.mem_of_ledger hl
  refine h.modify [⟨attemptIdOf l.id (l.attempts.length + 1), l.id, l.attempts.length + 1, workerId,
      l.record.version, now⟩] [] (fun _ => rfl) hl .attempted rfl ?_ rfl rfl (List.append_nil _).symm
    (List.forall_mem_singleton.mpr rfl) rfl (storable_attempted _ workerId _) rfl rfl
    (List.forall_mem_nil _) fun rows hrows => ?_
  · show s.intents = _
    rw [h.intents, Book.modify, List.map_map]
    refine List.map_congr_left fun l' _ => ?_
    show jsonb.effectRow l' = jsonb.effectRow (if l'.id = l.id then l'.attempted workerId now else l')
    by_cases he : l'.id = l.id
    · rw [if_pos he]
      rfl
    · rw [if_neg he]
  · rw [List.append_nil]
    exact success_tells (l := l) (SameEffect.refl _) rfl (lastSuccess_attempted l workerId now) hrows

theorem safe_startAttempt (hL : Governs L) (hwaits : ∀ {held k}, InOrder held k → L.waits held k)
    (now : Datetime) (e : Str) (expectedVersion : Int)
    (workerId : Str) :
    Safe L (PostgresStore.startAttempt now e expectedVersion workerId) [] ∅ a
      (Does L Eq (Book.startAttempt now e expectedVersion workerId) fun _ _ => False) := by
  unfold PostgresStore.startAttempt
  rw [safe_bind]
  refine safe_recordForExpectedVersion hL (fun _ => hwaits fun k hk => absurd hk (Set.notMem_empty k))
    (fun a₁ l record hrely₁ hl₁ hversion hread => ?_)
    fun a₁ exc held hrely₁ hraise => ?_
  · obtain ⟨arguments, keyRetention, settlementBound, rfl⟩ := Jsonb.read_ok hread
    have hrow : PostgresKey.row e ∈ {k | k ∈ [PostgresKey.row e]} := List.mem_singleton.mpr rfl
    show Safe L _ [] {k | k ∈ [PostgresKey.row e]} a₁ _
    rw [safe_bind]
    refine safe_read (fun _ _ _ => rfl) fun a₂ s₂ hrely₂ hholds₂ => ?_
    have hl₂ := hL.keeps hrow hrely₂ hl₁
    -- the row is held, so nobody adds an attempt between the count and the insert
    have hcount : ((sees jsonb s₂ []).attempts.filter (·.effectId = e)).length =
        l.attempts.length := by
      show (s₂.attempts.filter (·.effectId = e)).length = _
      rw [(hL.holds hholds₂).attemptsOf hl₂, List.length_map]
    dsimp only
    rw [hcount, safe_bind]
    refine safe_insertAttempt hL hrow (hwaits fun k hk => ?_) (fun a' s' hrely hs => ?_)
      fun a₃ hrely₃ => ?_
    · rw [List.mem_singleton.mp hk]
      show 3 < 5
      omega
    · exact hs.fresh_attempt (hL.keeps hrow hrely hl₂) workerId expectedVersion now
    have hl₃ := hL.keeps hrow hrely₃ hl₂
    have hdata := storable_attempted (attemptIdOf e (l.attempts.length + 1)) workerId
      (l.attempts.length + 1)
    dsimp only
    rw [safe_bind]
    refine safe_appendEvent hL (n := l.events.length) (.inl hrow) hdata.wellFormed
      (fun a' s' hrely hs => ?_) (fun _ a₄ hrely₄ => ?_) fun exc a₄ _ hraise => ?_
    · have hl' := hL.keeps (.inl hrow) hrely hl₃
      exact ⟨hs.numbered hl', hs.hasIntent hl'⟩
    · -- the commit may come later: the ledger is as it was, since its row is held
      rw [safe_pure]
      intro a' s' hrely hs
      have hl' := hL.keeps (.inl (.inl hrow)) hrely (hL.keeps (.inl hrow) hrely₄ hl₃)
      refine ⟨_, a'.book.modify e (·.attempted workerId now), ?_, rfl, ?_, fun others hdisjoint => ?_⟩
      · unfold Book.startAttempt
        rw [Book.current_ok.mpr ⟨hl', hversion⟩]
        rfl
      · rw [← hversion]
        exact hs.attempted hl' workerId now
      · exact rely_modify hs (.inl (.inl hrow)) hdisjoint hl' .attempted
    · rw [(jsonValue_eq_ok hdata.wellFormed).mpr ⟨hdata, rfl⟩] at hraise
      cases hraise
  · left
    unfold Book.startAttempt
    rw [hraise]
    rfl

/-! ## Rows that change -/

/-- The rows of the effects, after a new version of one. -/
theorem PostgresTables.Holds.updated {s : PostgresTables} (h : s.Holds jsonb a)
    (hl : a.book.ledger e = some l) {f : EffectLedger → EffectLedger} (hf : ∀ l, (f l).id = l.id) :
    (s.apply (.update (jsonb.effectRow (f l)))).intents = (a.book.modify e f).map jsonb.effectRow := by
  obtain ⟨-, rfl⟩ := Book.mem_of_ledger hl
  show s.intents.map _ = _
  rw [h.intents, Book.modify, List.map_map, List.map_map]
  refine List.map_congr_left fun l' hl' => ?_
  show (if l'.id = (f l).id then jsonb.effectRow (f l) else jsonb.effectRow l') =
    jsonb.effectRow (if l'.id = l.id then f l' else l')
  rw [hf]
  by_cases he : l'.id = l.id
  · have hfound := h.good.ledger_of_mem hl'
    rw [he, hl] at hfound
    cases hfound
    rw [if_pos rfl, if_pos rfl]
  · rw [if_neg he, if_neg he]

/-- A new version of a row is no new row. -/
theorem hasIntent_update (s : PostgresTables) (row : IntentRow) (e : Str) :
    (s.apply (.update row)).hasIntent e = s.hasIntent e := by
  unfold PostgresTables.hasIntent PostgresTables.apply
  rw [List.any_map]
  refine congrArg (s.intents.any ·) (funext fun r => ?_)
  by_cases hr : r.effectId = row.effectId
  · simp [hr]
  · simp [hr]

/-- One row is updated, once nobody else holds it. -/
theorem updateRows_cases (locked : PostgresKey → Bool) (row : IntentRow) :
    (locked (.row row.effectId) = true ∧ updateRows locked [row] = .error (.row row.effectId)) ∨
      updateRows locked [row] = .ok ⟨[row], [.update row], [.row row.effectId]⟩ := by
  unfold updateRows
  rw [List.find?_singleton]
  by_cases hlocked : locked (.row row.effectId) = true
  · rw [if_pos hlocked]
    exact .inl ⟨hlocked, rfl⟩
  · rw [if_neg hlocked]
    exact .inr rfl

/-! ## `transition` -/

/-- The row that a `transition` updates is there while the version is the expected one. -/
theorem PostgresTables.Holds.movedRows {s : PostgresTables} (h : s.Holds jsonb a)
    (hl : a.book.ledger e = some l) (expectedVersion : Int) (target : EffectStatus) (now : Datetime)
    (data : Items) :
    s.movedRows e expectedVersion target now =
      if (l.record.version : Int) = expectedVersion then [jsonb.effectRow (l.moved target now data)]
      else [] := by
  unfold PostgresTables.movedRows
  rw [h.intentsOf, hl]
  show List.map _ (List.filter _ [jsonb.effectRow l]) = _
  rw [List.filter_singleton]
  by_cases hversion : (l.record.version : Int) = expectedVersion
  · have hrow : decide (((jsonb.effectRow l).version : Int) = expectedVersion) = true :=
      decide_eq_true hversion
    rw [if_pos hversion, hrow]
    rfl
  · have hrow : decide (((jsonb.effectRow l).version : Int) = expectedVersion) = false :=
      decide_eq_false hversion
    rw [if_neg hversion, hrow]
    rfl

/-- The receipt of a success. -/
def Jsonb.receiptRow (jsonb : Jsonb) (uuid : Str) (record : EffectRecord) (data : Items)
    (at_ : Datetime) : ReceiptRow where
  receiptId := str "rcpt_" ++ uuid
  effectId := record.effectId
  externalId := (data.get? (str "external_id")).getD .none
  contractName := record.contract.name
  contractVersion := record.contract.version
  downstreamKey := record.downstreamKey
  metadataJson := jsonb.keep (.dict data)
  createdAt := at_

/-- Insert the receipt of an effect that has none, and whose row is held. -/
theorem safe_insertReceipt (hL : Governs L) {held : Set PostgresKey} {writes : List PostgresWrite}
    {uuid : Str} {record : EffectRecord} {data : Items} {at_ : Datetime}
    {Q : Post Exc Unit PostgresWrite PostgresKey PostgresBook} (hid : record.effectId = e)
    (hrow : .row e ∈ held) (hwaits : L.waits held (.receipt (str "rcpt_" ++ uuid)))
    (hwf : (Value.dict data).WellFormed)
    (hview : ∀ a' s, L.rely held a a' → s.Holds jsonb a' →
      (sees jsonb s writes).receipts.filter (·.effectId = e) = [] ∧
        (sees jsonb s writes).hasIntent e = true)
    (hok : Storable (.dict data) → ∀ a' keys, L.rely held a a' →
      Q (.ok ()) (writes ++ [.receipt (jsonb.receiptRow uuid record data at_)]) (held ∪ keys) a')
    (herror : ∀ exc a', L.rely held a a' → jsonValue (.dict data) = .error exc ∨
      exc = violates .receiptsPkey ∧ (∃ s, L.holds s a' ∧
        ∃ receipt ∈ (sees jsonb s writes).receipts, receipt.receiptId = str "rcpt_" ++ uuid) →
      Q (.error exc) writes held a') :
    Safe L (PostgresStore.insertReceipt uuid record data at_) writes held a Q := by
  unfold PostgresStore.insertReceipt
  rw [safe_bind, safe_ofExcept]
  cases hjson : jsonValue (.dict data) with
  | error exc => exact herror exc a (L.refl held a) (.inl hjson)
  | ok json =>
    obtain ⟨hstorable, rfl⟩ := (jsonValue_eq_ok hwf).mp hjson
    subst hid
    dsimp only
    rw [safe_bind]
    refine safe_request fun a' s oracle locked hrely hholds _ hclear => ?_
    obtain ⟨hnone, hintent⟩ := hview a' s hrely (hL.holds hholds)
    let row := { jsonb.receiptRow uuid record data at_ with metadataJson := normalize (.dict data) }
    have hkeys : ∀ check ∈ (sees jsonb s writes).receiptChecks row, MayTake L held check.key :=
      List.forall_mem_cons.mpr ⟨.inr (.inr hwaits), List.forall_mem_cons.mpr
        ⟨.inr (.inl ⟨_, hrow, rfl⟩), List.forall_mem_singleton.mpr (.inl hrow)⟩⟩
    rcases insertChecked_cases (.receipt { row with metadataJson := jsonb.store row.metadataJson }) hL
      hclear hkeys with hwait | ⟨check, hc, hviolated, hinsert⟩ | ⟨-, hinsert⟩
    · exact .inl hwait
    · refine .inr ⟨_, hinsert, List.forall_mem_nil _, ?_⟩
      -- only the id of the receipt can be taken
      have hpkey : check.constraint = .receiptsPkey ∧
          ∃ receipt ∈ (sees jsonb s writes).receipts, receipt.receiptId = str "rcpt_" ++ uuid := by
        rcases List.mem_cons.mp hc with rfl | hc
        · obtain ⟨receipt, hreceipt, hid⟩ := List.any_eq_true.mp hviolated
          exact ⟨rfl, receipt, hreceipt, of_decide_eq_true hid⟩
        rcases List.mem_cons.mp hc with rfl | hc
        · obtain ⟨r, hr, heq⟩ := List.any_eq_true.mp hviolated
          have hm : r ∈ (sees jsonb s writes).receipts.filter (·.effectId = record.effectId) :=
            List.mem_filter.mpr ⟨hr, heq⟩
          rw [hnone] at hm
          cases hm
        · obtain rfl := List.mem_singleton.mp hc
          have hviolated : (!(sees jsonb s writes).hasIntent record.effectId) = true := hviolated
          rw [hintent] at hviolated
          cases hviolated
      have hheld : held ∪ {k : PostgresKey | k ∈ ([] : List PostgresKey)} = held := by simp
      show Safe L (PostgresStore.compute (.error (violates check.constraint))) (writes ++ [])
        (held ∪ {k : PostgresKey | k ∈ ([] : List PostgresKey)}) a' Q
      rw [safe_ofExcept, List.append_nil, hheld, hpkey.1]
      exact herror _ a' hrely (.inr ⟨rfl, s, hholds, hpkey.2⟩)
    · refine .inr ⟨_, hinsert, fun k hk g hg => ?_, ?_⟩
      · rw [hL.guard] at hg
        rcases List.mem_cons.mp hk with rfl | hk
        · cases hg
        · obtain rfl := List.mem_singleton.mp hk
          cases hg
          exact .inl hrow
      · show Safe L (PostgresStore.compute (.ok ())) _ _ a' _
        rw [safe_ofExcept]
        exact hok hstorable a' _ hrely

/-- The receipt that a move inserts, if it is a success. -/
def Jsonb.receipts (jsonb : Jsonb) (uuid : Str) (record : EffectRecord) (target : EffectStatus)
    (data : Items) (at_ : Datetime) : List ReceiptRow :=
  if target = .succeeded then [jsonb.receiptRow uuid record data at_] else []

/-- The writes of `transition` move the effect of the book. -/
theorem PostgresTables.Holds.moved {s : PostgresTables} (h : s.Holds jsonb a)
    (hl : a.book.ledger e = some l) {target : EffectStatus} {data : Items}
    (hallowed : isAllowed l.record.status target = true)
    (hdata : Storable (.dict (InMemoryStore.transitionData l.record.status target data)))
    (now : Datetime) (uuid : Str) {record : EffectRecord} (hid : record.effectId = e)
    (hcontract : record.contract.name = l.record.contract.name ∧
      record.contract.version = l.record.contract.version)
    (hkey : record.downstreamKey = l.record.downstreamKey) :
    (sees jsonb s ([.update (jsonb.effectRow (l.moved target now data)),
      .event (jsonb.eventRow ⟨e, l.events.length + 1, .transition, l.record.version + 1, now,
        InMemoryStore.transitionData l.record.status target data⟩)] ++
      (jsonb.receipts uuid record target data now).map .receipt)).Holds jsonb
      { a with book := a.book.modify e (·.moved target now data) } := by
  have hupdated := h.updated hl (f := (·.moved target now data)) fun _ => rfl
  obtain ⟨-, rfl⟩ := Book.mem_of_ledger hl
  have hopen : l.success = [] := if_neg (not_succeeded_of_isAllowed hallowed)
  by_cases htarget : target = .succeeded
  · rw [Jsonb.receipts, if_pos htarget]
    refine h.modify [] [jsonb.receiptRow uuid record data now] (fun _ => rfl) hl (.moved hallowed) rfl
      hupdated (List.append_nil _).symm rfl rfl (List.forall_mem_nil _) rfl
      hdata (List.append_nil _).symm rfl
      (List.forall_mem_singleton.mpr hid) fun rows hrows => ?_
    rw [hopen] at hrows
    cases hrows
    have hsuccess : (l.moved target now data).success = [l.moved target now data] := if_pos htarget
    rw [hsuccess]
    refine .cons ⟨data, now, ?_, ?_⟩ .nil
    · rw [lastSuccess_moved, if_pos htarget]
    · unfold Jsonb.receiptRow
      rw [hid, hcontract.1, hcontract.2, hkey]
      rfl
  · rw [Jsonb.receipts, if_neg htarget]
    refine h.modify [] [] (fun _ => rfl) hl (.moved hallowed) rfl hupdated (List.append_nil _).symm rfl
      (List.append_nil _).symm (List.forall_mem_nil _) rfl hdata
      (List.append_nil _).symm rfl (List.forall_mem_nil _) fun rows hrows => ?_
    rw [hopen] at hrows
    cases hrows
    have hsuccess : (l.moved target now data).success = [] := if_neg htarget
    rw [hsuccess]
    exact .nil

/-- Why `transition` raises, other than the book: the version has changed since it was read,
the payload cannot be stored, or the id of the receipt is taken. -/
inductive MoveRaises (holds : PostgresTables → PostgresBook → Prop) (uuid e : Str)
    (expectedVersion : Int) (target : EffectStatus) (data : Items) : Exc → PostgresBook → Prop
  | stale {b : Book} {before found : EffectLedger} {a : PostgresBook} : b ∈ a.timeline →
      b.ledger e = some before → (before.record.version : Int) = expectedVersion →
      a.book.ledger e = some found → (found.record.version : Int) ≠ expectedVersion →
      MoveRaises holds uuid e expectedVersion target data
        (.versionConflict (e ++ str " expected version " ++ decimalInt expectedVersion)) a
  | unstorable {items : Items} {exc : Exc} {a : PostgresBook} :
      (items = data ∨ ∃ source, items = InMemoryStore.transitionData source target data) →
      jsonValue (.dict items) = .error exc →
      MoveRaises holds uuid e expectedVersion target data exc a
  | receiptId {s : PostgresTables} {receipt : ReceiptRow} {a : PostgresBook} : target = .succeeded →
      holds s a → receipt ∈ s.receipts → receipt.receiptId = str "rcpt_" ++ uuid →
      MoveRaises holds uuid e expectedVersion target data (violates .receiptsPkey) a

/-- What follows the update of `transition` makes the move one of the book. -/
theorem safe_recordMove (hL : Governs L) (hwaits : ∀ {held k}, InOrder held k → L.waits held k)
    {uuid : Str} {expectedVersion : Int} {target : EffectStatus}
    {data : Items} {now : Datetime} (hwf : (Value.dict data).WellFormed)
    (hl : a.book.ledger e = some l) (hversion : (l.record.version : Int) = expectedVersion)
    (hallowed : isAllowed l.record.status target = true)
    (hread : ∃ read, jsonb.read (movedRecord l.record target now) = .ok read) :
    Safe L (PostgresStore.recordMove uuid e l.record.status target data now
        (jsonb.effectRow (l.moved target now data)))
      [.update (jsonb.effectRow (l.moved target now data))] {k | k ∈ [PostgresKey.row e]} a
      (Does L (fun record y => jsonb.read y = .ok record)
        (Book.transition now e expectedVersion target data)
        (MoveRaises L.holds uuid e expectedVersion target data)) := by
  obtain ⟨read, hread⟩ := hread
  have hrow : PostgresKey.row e ∈ {k | k ∈ [PostgresKey.row e]} := List.mem_singleton.mpr rfl
  have htoRecord : (jsonb.effectRow (l.moved target now data)).toRecord = .ok read := hread
  obtain ⟨arguments, keyRetention, settlementBound, hrecord⟩ := Jsonb.read_ok hread
  have hwritten : ∀ items,
      (items = data ∨ items = InMemoryStore.transitionData l.record.status target data) →
      ∀ exc (a : PostgresBook), jsonValue (.dict items) = .error exc →
        MoveRaises L.holds uuid e expectedVersion target data exc a := by
    intro items hitems exc b hraise
    exact .unstorable (hitems.imp_right fun h => ⟨_, h⟩) hraise
  -- what is committed, with the receipt of a success
  have commits : Storable (.dict (InMemoryStore.transitionData l.record.status target data)) →
      ∀ rows, jsonb.receipts uuid read target data now = rows → ∀ held b, .row e ∈ held →
      b.book.ledger e = some l →
      Does L (fun record y => jsonb.read y = .ok record)
        (Book.transition now e expectedVersion target data)
        (MoveRaises L.holds uuid e expectedVersion target data)
        (.ok read) ([.update (jsonb.effectRow (l.moved target now data)),
          .event (jsonb.eventRow ⟨e, l.events.length + 1, .transition, l.record.version + 1, now,
            InMemoryStore.transitionData l.record.status target data⟩)] ++ rows.map .receipt) held b := by
    intro hdata rows hrows held b hheld hb a' s' hrely hs
    subst hrows
    have hl' := hL.keeps hheld hrely hb
    refine ⟨movedRecord l.record target now, a'.book.modify e (·.moved target now data), ?_, hread, ?_,
      fun others hdisjoint => rely_modify hs hheld hdisjoint hl' (.moved hallowed)⟩
    · unfold Book.transition
      rw [Book.current_ok.mpr ⟨hl', hversion⟩, ok_bind, assertTransition_ok.mpr hallowed]
      rfl
    · refine hs.moved hl' hallowed hdata now uuid ?_ ?_ ?_
      · rw [hrecord]
        exact (Book.mem_of_ledger hl).2
      · rw [hrecord]
        exact ⟨rfl, rfl⟩
      · rw [hrecord]
        rfl
  unfold PostgresStore.recordMove
  rw [safe_bind]
  refine safe_appendEvent hL (n := l.events.length) hrow (wellFormed_transition _ _ hwf)
    (fun a' s' hrely hs => ?_) (fun hstorable a₁ hrely₁ => ?_) fun exc a₁ _ hraise => ?_
  · have hl' := hL.keeps hrow hrely hl
    exact ⟨hs.numbered hl', (hasIntent_update _ _ _).trans (hs.hasIntent hl')⟩
  · -- only a success has a receipt
    show Safe L (if target = .succeeded then
        PostgresStore.compute (jsonb.effectRow (l.moved target now data)).toRecord >>= fun updated =>
          PostgresStore.insertReceipt uuid updated data now >>= fun _ =>
            PostgresStore.compute (jsonb.effectRow (l.moved target now data)).toRecord
      else PostgresStore.compute (jsonb.effectRow (l.moved target now data)).toRecord) _ _ a₁ _
    rw [htoRecord]
    by_cases htarget : target = .succeeded
    · rw [if_pos htarget, safe_bind, safe_ofExcept]
      dsimp only
      rw [safe_bind]
      refine safe_insertReceipt (e := e) hL ?_ (.inl hrow) (hwaits fun k hk => ?_) hwf
        (fun a' s' hrely hs => ?_) (fun hdata a₂ keys hrely₂ => ?_) fun exc a₂ _ hraise => ?_
      · rw [hrecord]
        exact (Book.mem_of_ledger hl).2
      · rcases hk with hk | hk
        · rw [List.mem_singleton.mp hk]
          show 3 < 6
          omega
        · rw [List.mem_singleton.mp hk]
          show 4 < 6
          omega
      · have hl' := hL.keeps (.inl hrow) hrely (hL.keeps hrow hrely₁ hl)
        have hreceipts := hs.receipts e
        have hopen : l.success = [] := if_neg (not_succeeded_of_isAllowed hallowed)
        rw [hl', Option.elim_some, hopen] at hreceipts
        refine ⟨List.forall₂_nil_right_iff.mp hreceipts, ?_⟩
        exact (hasIntent_update _ _ _).trans (hs.hasIntent hl')
      · show Safe L (PostgresStore.compute (.ok read)) _ _ a₂ _
        rw [safe_ofExcept]
        exact commits hstorable _ (if_pos htarget) _ a₂ (.inl (.inl hrow))
          (hL.keeps (.inl hrow) hrely₂ (hL.keeps hrow hrely₁ hl))
      · rcases hraise with hraise | ⟨rfl, s', hholds', receipt, hreceipt, hid⟩
        · exact .inr (hwritten _ (.inl rfl) exc _ hraise)
        · exact .inr (.receiptId htarget hholds' hreceipt hid)
    · rw [if_neg htarget, safe_ofExcept]
      exact commits hstorable _ (if_neg htarget) _ a₁ (.inl hrow) (hL.keeps hrow hrely₁ hl)
  · exact .inr (hwritten _ (.inr rfl) exc _ hraise)

theorem safe_transition (hL : Governs L) (hwaits : ∀ {held k}, InOrder held k → L.waits held k)
    (now : Datetime) (uuid e : Str) (expectedVersion : Int)
    (target : EffectStatus) {data : Items} (hwf : (Value.dict data).WellFormed) :
    Safe L (PostgresStore.transition now uuid e expectedVersion target data) [] ∅ a
      (Does L (fun record y => jsonb.read y = .ok record)
        (Book.transition now e expectedVersion target data)
        (MoveRaises L.holds uuid e expectedVersion target data)) := by
  unfold PostgresStore.transition
  rw [safe_bind]
  refine safe_recordForExpectedVersion hL (fun _ => hwaits fun k hk => absurd hk (Set.notMem_empty k))
    (fun a₁ l record hrely₁ hl₁ hversion hread => ?_)
    fun a₁ exc held hrely₁ hraise => ?_
  · obtain ⟨arguments, keyRetention, settlementBound, rfl⟩ := Jsonb.read_ok hread
    show Safe L (PostgresStore.compute (assertTransition l.record.status target) >>= fun _ => _) [] ∅ a₁ _
    rw [safe_bind, safe_ofExcept]
    by_cases hallowed : isAllowed l.record.status target = true
    · rw [assertTransition_ok.mpr hallowed]
      dsimp only
      rw [safe_bind]
      refine safe_request fun a₂ s₂ oracle locked hrely₂ hholds₂ _ hclear => ?_
      have hs₂ := hL.holds hholds₂
      -- the version is compared again, on the row as it is now
      obtain ⟨l₂, hl₂, hlater⟩ := (hL.rely hrely₂).later e l hl₁
      have hrows := hs₂.movedRows hl₂ expectedVersion target now data
      by_cases hsame : (l₂.record.version : Int) = expectedVersion
      · have hrecord : l₂.record = l.record := hlater.record_eq (by omega)
        rw [if_pos hsame] at hrows
        rcases updateRows_cases locked (jsonb.effectRow (l₂.moved target now data)) with
          ⟨-, hwait⟩ | hupdate
        · rw [← hrows] at hwait
          exact .inl ⟨_, hwait, hwaits fun k hk => absurd hk (Set.notMem_empty k)⟩
        · have hexec : updateRows locked (s₂.movedRows e expectedVersion target now) = _ :=
            (congrArg (updateRows locked) hrows).trans hupdate
          refine .inr ⟨_, hexec, fun k hk g hg => ?_, ?_⟩
          · rw [hL.guard] at hg
            obtain rfl := List.mem_singleton.mp hk
            cases hg
          · show Safe L (PostgresStore.recordMove uuid e l.record.status target data now
              (jsonb.effectRow (l₂.moved target now data))) _ _ a₂ _
            obtain ⟨hm, rfl⟩ := Book.mem_of_ledger hl₂
            rw [← hrecord] at hallowed ⊢
            rw [Set.empty_union]
            exact safe_recordMove hL hwaits hwf hl₂ hsame hallowed
              (Jsonb.read_same rfl (hs₂.readable l₂ hm))
      · rw [if_neg hsame] at hrows
        have hupdate : updateRows locked (s₂.movedRows e expectedVersion target now) =
            .ok ⟨[], [], []⟩ := by
          rw [hrows]
          rfl
        exact .inr ⟨_, hupdate, List.forall_mem_nil _, .inr (.stale
          ((hL.timeline hrely₂).subset (List.mem_cons_self ..)) hl₁ hversion hl₂ hsame)⟩
    · have hraise : assertTransition l.record.status target =
          .error (.invalidTransition l.record.status target) := by
        rw [assertTransition, if_neg hallowed]
      rw [hraise]
      left
      unfold Book.transition
      rw [Book.current_ok.mpr ⟨hl₁, hversion⟩, ok_bind, hraise]
      rfl
  · left
    unfold Book.transition
    rw [hraise]
    rfl

end
end EffectBroker
