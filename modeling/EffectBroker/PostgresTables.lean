import Mathlib.Data.List.Sort
import EffectBroker.PostgresRows
import EffectBroker.Transactions

/-!
# Tables and statements of the Postgres ledger

What each statement of `PostgresStore` does under `READ COMMITTED`.  A statement sees what
is committed when it runs and what its own transaction has written.  It takes the locks of
the rows that it updates or selects `FOR UPDATE`, and the entries of unique indexes for the
rows that it inserts.  It waits for a row or an entry that another transaction holds, except
that `SKIP LOCKED` passes over the row.  An update that has waited looks at the row again:
it runs on what is committed once the other transaction has ended.
-/
namespace EffectBroker
open Python Transactions

/-- A row of `effect_attempts`. -/
structure AttemptRow where
  attemptId : Str
  effectId : Str
  ordinal : Nat
  workerId : Str
  version : Int
  startedAt : Datetime

/-- The tables; of a tenant only the id is read. -/
structure PostgresTables where
  tenants : List Str
  intents : List IntentRow
  attempts : List AttemptRow
  receipts : List ReceiptRow
  events : List EventRow

/-- The constraints of the tables. -/
inductive PostgresConstraint where
  | intentsPkey
  | intentsTenantFkey
  | attemptsPkey
  | attemptsOrdinal
  | attemptsEffectFkey
  | receiptsPkey
  | receiptsEffect
  | receiptsEffectFkey
  | eventsPkey
  | eventsEffectFkey
deriving DecidableEq

/-- The name of a constraint. -/
def PostgresConstraint.name : PostgresConstraint → Str
  | .intentsPkey => str "effect_intents_pkey"
  | .intentsTenantFkey => str "effect_intents_tenant_id_fkey"
  | .attemptsPkey => str "effect_attempts_pkey"
  | .attemptsOrdinal => str "uq_effect_attempts_ordinal"
  | .attemptsEffectFkey => str "effect_attempts_effect_id_fkey"
  | .receiptsPkey => str "effect_receipts_pkey"
  | .receiptsEffect => str "effect_receipts_effect_id_key"
  | .receiptsEffectFkey => str "effect_receipts_effect_id_fkey"
  | .eventsPkey => str "pk_effect_events"
  | .eventsEffectFkey => str "effect_events_effect_id_fkey"

/-- A statement violates a constraint. -/
def violates (constraint : PostgresConstraint) : Exc :=
  .other (str "IntegrityError") constraint.name

/-- What a statement writes. -/
inductive PostgresWrite where
  | tenant (tenantId : Str)
  | intent (row : IntentRow)
  /-- A new version of the row of an effect. -/
  | update (row : IntentRow)
  | attempt (row : AttemptRow)
  | receipt (row : ReceiptRow)
  | event (row : EventRow)

/-- What a transaction can hold: entries of unique indexes, and rows. -/
inductive PostgresKey where
  | tenant (tenantId : Str)
  | identity (tenantId operationKey : Str)
  /-- The row of an effect, also one that is not committed yet. -/
  | row (effectId : Str)
  | tenantRow (tenantId : Str)
  | attempt (attemptId : Str)
  | ordinal (effectId : Str) (ordinal : Nat)
  | receipt (receiptId : Str)
  | receiptOf (effectId : Str)
  | event (effectId : Str) (sequence : Nat)
deriving DecidableEq

/-- The statements of the store. -/
inductive PostgresStatement where
  /-- `INSERT … ON CONFLICT (tenant_id) DO NOTHING`. -/
  | insertTenant (tenantId : Str)
  /-- `INSERT … ON CONFLICT (tenant_id, operation_key) DO NOTHING RETURNING`. -/
  | insertIntent (row : IntentRow)
  | selectIdentity (tenantId operationKey : Str)
  /-- `SELECT … ORDER BY … FOR UPDATE SKIP LOCKED LIMIT`. -/
  | selectDue (now : Datetime) (limit : Int)
  /-- `UPDATE … WHERE effect_id = … RETURNING`. -/
  | updateClaimed (effectId workerId : Str) (leaseUntil now : Datetime)
  /-- `SELECT … WHERE effect_id = …`, with `FOR UPDATE` or without. -/
  | selectIntent (effectId : Str) (lock : Bool)
  /-- `UPDATE … WHERE effect_id = … AND version = … RETURNING`. -/
  | updateMoved (effectId : Str) (expectedVersion : Int) (target : EffectStatus) (now : Datetime)
  | nextSequence (effectId : Str)
  | insertEvent (row : EventRow)
  | countAttempts (effectId : Str)
  | insertAttempt (row : AttemptRow)
  | insertReceipt (row : ReceiptRow)
  | selectOwned (tenantId effectId : Str)
  | selectPage (tenantId : Str) (status : Option EffectStatus) (limit offset : Int)
  | selectReceipt (tenantId effectId : Str)
  | selectEvents (effectId : Str)
  | countIntents

/-- What a statement responds; only statements that can fail respond with an exception. -/
abbrev PostgresStatement.Response : PostgresStatement → Type
  | .insertTenant _ => Unit
  | .insertIntent _ => Except Exc (List IntentRow)
  | .selectIdentity _ _ | .selectDue _ _ | .updateClaimed _ _ _ _ | .selectIntent _ _
  | .updateMoved _ _ _ _ | .selectOwned _ _ => List IntentRow
  | .nextSequence _ | .countAttempts _ | .countIntents => Nat
  | .insertEvent _ | .insertAttempt _ | .insertReceipt _ => Except Exc Unit
  | .selectPage _ _ _ _ => Except Exc (List IntentRow)
  | .selectReceipt _ _ => List ReceiptRow
  | .selectEvents _ => List EventRow

namespace PostgresTables

/-- An empty database. -/
def empty : PostgresTables := ⟨[], [], [], [], []⟩

/-- The tables after a write. -/
def apply (s : PostgresTables) : PostgresWrite → PostgresTables
  | .tenant tenantId => { s with tenants := s.tenants ++ [tenantId] }
  | .intent row => { s with intents := s.intents ++ [row] }
  | .update row =>
    { s with intents := s.intents.map fun r => if r.effectId = row.effectId then row else r }
  | .attempt row => { s with attempts := s.attempts ++ [row] }
  | .receipt row => { s with receipts := s.receipts ++ [row] }
  | .event row => { s with events := s.events ++ [row] }

end PostgresTables

/-! ## Statements -/

/-- The status of a row may be claimed, and its lease is over: `lease_until < now`. -/
def IntentRow.due (row : IntentRow) (now : Datetime) : Bool :=
  (row.status = EffectStatus.prepared.value || row.status = EffectStatus.retryable.value) &&
    row.leaseUntil.all (· < now)

/-- The order of `ORDER BY created_at, effect_id`. -/
def intentBefore (a b : IntentRow) : Prop :=
  a.createdAt < b.createdAt ∨ a.createdAt = b.createdAt ∧ a.effectId ≤ b.effectId

instance : DecidableRel intentBefore := fun a b =>
  inferInstanceAs (Decidable (a.createdAt < b.createdAt ∨
    a.createdAt = b.createdAt ∧ a.effectId ≤ b.effectId))

/-- A constraint that an inserted row has to meet: whether a row that is seen violates it,
the key that another transaction may hold, and whether the insert takes the key. -/
structure ConstraintCheck where
  constraint : PostgresConstraint
  violated : Bool
  key : PostgresKey
  takes : Bool

/-- Check the constraints in order: the first that is violated, none, or a key to wait for. -/
def checkConstraints (locked : PostgresKey → Bool) :
    List ConstraintCheck → Except PostgresKey (Option PostgresConstraint)
  | [] => .ok none
  | check :: checks =>
    if check.violated then .ok (some check.constraint)
    else if locked check.key then .error check.key
    else checkConstraints locked checks

/-- The outcome of a statement of the ledger. -/
abbrev PostgresOutcome (α : Type) := Outcome α PostgresWrite PostgresKey

/-- Insert a row that is under constraints. -/
def insertChecked (locked : PostgresKey → Bool) (checks : List ConstraintCheck)
    (write : PostgresWrite) : Except PostgresKey (PostgresOutcome (Except Exc Unit)) :=
  match checkConstraints locked checks with
  | .error key => .error key
  | .ok (some constraint) => .ok ⟨.error (violates constraint), [], []⟩
  | .ok none => .ok ⟨.ok (), [write], (checks.filter (·.takes)).map (·.key)⟩

/-- Write new versions of rows, and take their locks. -/
def updateRows (locked : PostgresKey → Bool) (rows : List IntentRow) :
    Except PostgresKey (PostgresOutcome (List IntentRow)) :=
  match rows.find? fun row => locked (.row row.effectId) with
  | some row => .error (.row row.effectId)
  | none => .ok ⟨rows, rows.map .update, rows.map fun row => .row row.effectId⟩

/-- What a JSONB column makes of a document: it may order the keys of an object, and spell
its numbers, in its own way. -/
abbrev Jsonb := Items → Items

/-- A value as a JSONB column has it. -/
def Jsonb.store (jsonb : Jsonb) : Value → Value
  | .dict items => .dict (jsonb items)
  | value => value

/-- A row of `effect_intents` as it is stored. -/
def Jsonb.intent (jsonb : Jsonb) (row : IntentRow) : IntentRow :=
  { row with argumentsJson := jsonb.store row.argumentsJson }

namespace PostgresTables
variable (s : PostgresTables)

/-- The rows of an effect: one, or none. -/
def intentsOf (effectId : Str) : List IntentRow := s.intents.filter (·.effectId = effectId)

/-- The effect has a row. -/
def hasIntent (effectId : Str) : Bool := s.intents.any (·.effectId = effectId)

/-- The constraints of a row of `effect_events`; a foreign key needs the row of the effect. -/
def eventChecks (row : EventRow) : List ConstraintCheck :=
  [⟨.eventsPkey, s.events.any fun r => r.effectId = row.effectId ∧ r.sequence = row.sequence,
      .event row.effectId row.sequence, true⟩,
    ⟨.eventsEffectFkey, !s.hasIntent row.effectId, .row row.effectId, false⟩]

/-- The constraints of a row of `effect_attempts`. -/
def attemptChecks (row : AttemptRow) : List ConstraintCheck :=
  [⟨.attemptsPkey, s.attempts.any (·.attemptId = row.attemptId), .attempt row.attemptId, true⟩,
    ⟨.attemptsOrdinal,
      s.attempts.any fun r => r.effectId = row.effectId ∧ r.ordinal = row.ordinal,
      .ordinal row.effectId row.ordinal, true⟩,
    ⟨.attemptsEffectFkey, !s.hasIntent row.effectId, .row row.effectId, false⟩]

/-- The constraints of a row of `effect_receipts`. -/
def receiptChecks (row : ReceiptRow) : List ConstraintCheck :=
  [⟨.receiptsPkey, s.receipts.any (·.receiptId = row.receiptId), .receipt row.receiptId, true⟩,
    ⟨.receiptsEffect, s.receipts.any (·.effectId = row.effectId), .receiptOf row.effectId, true⟩,
    ⟨.receiptsEffectFkey, !s.hasIntent row.effectId, .row row.effectId, false⟩]

/-- The constraints of a row of `effect_intents`, other than its identity. -/
def intentChecks (row : IntentRow) : List ConstraintCheck :=
  [⟨.intentsPkey, s.hasIntent row.effectId, .row row.effectId, true⟩,
    ⟨.intentsTenantFkey, !s.tenants.contains row.tenantId, .tenantRow row.tenantId, false⟩]

/-- `INSERT … ON CONFLICT (tenant_id) DO NOTHING`. -/
def insertTenant (locked : PostgresKey → Bool) (tenantId : Str) :
    Except PostgresKey (PostgresOutcome Unit) :=
  if s.tenants.contains tenantId then .ok ⟨(), [], []⟩
  else if locked (.tenant tenantId) then .error (.tenant tenantId)
  else .ok ⟨(), [.tenant tenantId], [.tenant tenantId]⟩

/-- The row of an operation of a tenant. -/
def hasIdentity (tenantId operationKey : Str) : Bool :=
  s.intents.any fun r => r.tenantId = tenantId ∧ r.operationKey = operationKey

/-- `INSERT … ON CONFLICT (tenant_id, operation_key) DO NOTHING RETURNING`. -/
def insertIntent (jsonb : Jsonb) (locked : PostgresKey → Bool) (row : IntentRow) :
    Except PostgresKey (PostgresOutcome (Except Exc (List IntentRow))) :=
  if s.hasIdentity row.tenantId row.operationKey then .ok ⟨.ok [], [], []⟩
  else if locked (.identity row.tenantId row.operationKey) then
    .error (.identity row.tenantId row.operationKey)
  else
    match insertChecked locked (s.intentChecks row) (.intent (jsonb.intent row)) with
    | .error key => .error key
    | .ok out => .ok ⟨out.response.map fun _ => [jsonb.intent row], out.writes,
        .identity row.tenantId row.operationKey :: out.locks⟩

/-- `SELECT … ORDER BY … FOR UPDATE SKIP LOCKED LIMIT`: the due rows, less those that are
locked or have been passed over. -/
def selectDue (passed : Str → Bool) (locked : PostgresKey → Bool) (now : Datetime) (limit : Int) :
    List IntentRow :=
  (((s.intents.filter (·.due now)).insertionSort intentBefore).filter fun row =>
    !passed row.effectId && !locked (.row row.effectId)).take limit.toNat

/-- `SELECT … WHERE effect_id = …`, with `FOR UPDATE` or without. -/
def selectIntent (locked : PostgresKey → Bool) (effectId : Str) (lock : Bool) :
    Except PostgresKey (PostgresOutcome (List IntentRow)) :=
  if lock && s.hasIntent effectId then
    if locked (.row effectId) then .error (.row effectId)
    else .ok ⟨s.intentsOf effectId, [], [.row effectId]⟩
  else .ok ⟨s.intentsOf effectId, [], []⟩

/-- A page of the rows of a tenant; the offset, which is looked at first, and the limit may not
be negative. -/
def selectPage (tenantId : Str) (status : Option EffectStatus) (limit offset : Int) :
    Except Exc (List IntentRow) :=
  if offset < 0 then .error (.other (str "DataError") (str "OFFSET must not be negative"))
  else if limit < 0 then .error (.other (str "DataError") (str "LIMIT must not be negative"))
  else
    let rows := s.intents.filter fun r =>
      r.tenantId = tenantId && status.all fun status => r.status = status.value
    .ok (((rows.insertionSort intentBefore).drop offset.toNat).take limit.toNat)

/-- `coalesce(max(sequence), 0) + 1`. -/
def nextSequence (effectId : Str) : Nat :=
  (((s.events.filter (·.effectId = effectId)).map (·.sequence)).max?).getD 0 + 1

/-- The rows of the effect, as `claim_due` changes them. -/
def claimedRows (effectId workerId : Str) (leaseUntil now : Datetime) : List IntentRow :=
  (s.intentsOf effectId).map fun row =>
    { row with
      workerId := some workerId
      leaseUntil := some leaseUntil
      version := row.version + 1
      updatedAt := now }

/-- The rows of the effect with the expected version, as `transition` changes them. -/
def movedRows (effectId : Str) (expectedVersion : Int) (target : EffectStatus) (now : Datetime) :
    List IntentRow :=
  ((s.intentsOf effectId).filter fun row => (row.version : Int) = expectedVersion).map fun row =>
    { row with
      status := target.value
      version := row.version + 1
      updatedAt := now
      workerId := none
      leaseUntil := none }

/-- Execute a statement.  The oracle says which rows a `SKIP LOCKED` passes over besides
those that are locked when it ends: rows that were locked when it came to them. -/
def exec (jsonb : Jsonb) (r : PostgresStatement) (passed : Str → Bool) (s : PostgresTables)
    (locked : PostgresKey → Bool) : Except PostgresKey (PostgresOutcome r.Response) :=
  match r with
  | .insertTenant tenantId => s.insertTenant locked tenantId
  | .insertIntent row => s.insertIntent jsonb locked row
  | .selectIdentity tenantId operationKey =>
    .ok ⟨s.intents.filter fun r => r.tenantId = tenantId ∧ r.operationKey = operationKey, [], []⟩
  | .selectDue now limit =>
    let rows := s.selectDue passed locked now limit
    .ok ⟨rows, [], rows.map fun row => .row row.effectId⟩
  | .updateClaimed effectId workerId leaseUntil now =>
    updateRows locked (s.claimedRows effectId workerId leaseUntil now)
  | .selectIntent effectId lock => s.selectIntent locked effectId lock
  | .updateMoved effectId expectedVersion target now =>
    updateRows locked (s.movedRows effectId expectedVersion target now)
  | .nextSequence effectId => .ok ⟨s.nextSequence effectId, [], []⟩
  | .insertEvent row =>
    insertChecked locked (s.eventChecks row)
      (.event { row with dataJson := jsonb.store row.dataJson })
  | .countAttempts effectId =>
    .ok ⟨(s.attempts.filter (·.effectId = effectId)).length, [], []⟩
  | .insertAttempt row => insertChecked locked (s.attemptChecks row) (.attempt row)
  | .insertReceipt row =>
    insertChecked locked (s.receiptChecks row)
      (.receipt { row with metadataJson := jsonb.store row.metadataJson })
  | .selectOwned tenantId effectId =>
    .ok ⟨s.intents.filter fun r => r.tenantId = tenantId ∧ r.effectId = effectId, [], []⟩
  | .selectPage tenantId status limit offset =>
    .ok ⟨s.selectPage tenantId status limit offset, [], []⟩
  | .selectReceipt tenantId effectId =>
    .ok ⟨s.receipts.filter fun receipt => receipt.effectId = effectId ∧
      s.intents.any fun r => r.effectId = receipt.effectId ∧ r.tenantId = tenantId, [], []⟩
  | .selectEvents effectId =>
    .ok ⟨(s.events.filter (·.effectId = effectId)).insertionSort
      fun a b => a.sequence ≤ b.sequence, [], []⟩
  | .countIntents => .ok ⟨s.intents.length, [], []⟩

end PostgresTables

/-! ## The database -/

section
variable {locked : PostgresKey → Bool} {checks : List ConstraintCheck} {k : PostgresKey}

theorem checkConstraints_error (h : checkConstraints locked checks = .error k) : locked k = true := by
  induction checks with
  | nil => cases h
  | cons check checks ih =>
    unfold checkConstraints at h
    by_cases hviolated : check.violated = true
    · rw [if_pos hviolated] at h
      cases h
    · rw [if_neg hviolated] at h
      by_cases hlocked : locked check.key = true
      · rw [if_pos hlocked] at h
        cases h
        exact hlocked
      · rw [if_neg hlocked] at h
        exact ih h

/-- No constraint is in the way: none is violated, and no key is held by another. -/
theorem checkConstraints_none : checkConstraints locked checks = .ok none ↔
    ∀ check ∈ checks, check.violated = false ∧ locked check.key = false := by
  induction checks with
  | nil => exact iff_of_true rfl fun _ h => absurd h List.not_mem_nil
  | cons check checks ih =>
    rw [List.forall_mem_cons, ← ih, checkConstraints]
    by_cases hviolated : check.violated = true
    · simp [hviolated]
    · by_cases hlocked : locked check.key = true
      · simp [hviolated, hlocked]
      · simp [hviolated, hlocked]

theorem insertChecked_error {write : PostgresWrite}
    (h : insertChecked locked checks write = .error k) : locked k = true := by
  unfold insertChecked at h
  split at h
  · cases h
    exact checkConstraints_error ‹_›
  · cases h
  · cases h

theorem insertChecked_free {write : PostgresWrite} {out : PostgresOutcome (Except Exc Unit)}
    (h : insertChecked locked checks write = .ok out) : ∀ k ∈ out.locks, locked k = false := by
  unfold insertChecked at h
  split at h
  · cases h
  · cases h
    exact List.forall_mem_nil _
  · cases h
    intro k hk
    obtain ⟨check, hcheck, rfl⟩ := List.mem_map.mp hk
    exact (checkConstraints_none.mp ‹_› check (List.mem_filter.mp hcheck).1).2

theorem updateRows_error {rows : List IntentRow} (h : updateRows locked rows = .error k) :
    locked k = true := by
  unfold updateRows at h
  split at h
  · cases h
    exact List.find?_some (p := fun row : IntentRow => locked (.row row.effectId)) ‹_›
  · cases h

theorem updateRows_free {rows : List IntentRow} {out : PostgresOutcome (List IntentRow)}
    (h : updateRows locked rows = .ok out) : ∀ k ∈ out.locks, locked k = false := by
  unfold updateRows at h
  split at h
  · cases h
  · cases h
    intro k hk
    obtain ⟨row, hrow, rfl⟩ := List.mem_map.mp hk
    exact Bool.eq_false_iff.mpr (List.find?_eq_none.mp ‹_› row hrow)

variable {s : PostgresTables} {jsonb : Jsonb}

theorem insertTenant_error {tenantId : Str} (h : s.insertTenant locked tenantId = .error k) :
    locked k = true := by
  unfold PostgresTables.insertTenant at h
  split at h
  · cases h
  · split at h
    · cases h
      assumption
    · cases h

theorem insertTenant_free {tenantId : Str} {out : PostgresOutcome Unit}
    (h : s.insertTenant locked tenantId = .ok out) : ∀ k ∈ out.locks, locked k = false := by
  unfold PostgresTables.insertTenant at h
  split at h
  · cases h
    exact List.forall_mem_nil _
  · split at h
    · cases h
    · cases h
      exact List.forall_mem_singleton.mpr (Bool.eq_false_iff.mpr ‹_›)

theorem insertIntent_error {row : IntentRow} (h : s.insertIntent jsonb locked row = .error k) :
    locked k = true := by
  unfold PostgresTables.insertIntent at h
  split at h
  · cases h
  · split at h
    · cases h
      assumption
    · split at h
      · cases h
        exact insertChecked_error ‹_›
      · cases h

theorem insertIntent_free {row : IntentRow} {out : PostgresOutcome (Except Exc (List IntentRow))}
    (h : s.insertIntent jsonb locked row = .ok out) : ∀ k ∈ out.locks, locked k = false := by
  unfold PostgresTables.insertIntent at h
  split at h
  · cases h
    exact List.forall_mem_nil _
  · split at h
    · cases h
    · split at h
      · cases h
      · cases h
        exact List.forall_mem_cons.mpr ⟨Bool.eq_false_iff.mpr ‹_›, insertChecked_free ‹_›⟩

theorem selectIntent_error {effectId : Str} {lock : Bool}
    (h : s.selectIntent locked effectId lock = .error k) : locked k = true := by
  unfold PostgresTables.selectIntent at h
  split at h
  · split at h
    · cases h
      assumption
    · cases h
  · cases h

theorem selectIntent_free {effectId : Str} {lock : Bool} {out : PostgresOutcome (List IntentRow)}
    (h : s.selectIntent locked effectId lock = .ok out) : ∀ k ∈ out.locks, locked k = false := by
  unfold PostgresTables.selectIntent at h
  split at h
  · split at h
    · cases h
    · cases h
      exact List.forall_mem_singleton.mpr (Bool.eq_false_iff.mpr ‹_›)
  · cases h
    exact List.forall_mem_nil _

theorem selectDue_free {passed : Str → Bool} {now : Datetime} {limit : Int} :
    ∀ row ∈ s.selectDue passed locked now limit, locked (.row row.effectId) = false := by
  intro row hrow
  have hfree := (List.mem_filter.mp (List.mem_of_mem_take hrow)).2
  simp only [Bool.and_eq_true, Bool.not_eq_true'] at hfree
  exact hfree.2

/-- A statement waits for keys that others hold. -/
theorem PostgresTables.exec_waits {r : PostgresStatement} {passed : Str → Bool}
    (h : s.exec jsonb r passed locked = .error k) : locked k = true := by
  cases r with
  | insertTenant => exact insertTenant_error h
  | insertIntent => exact insertIntent_error h
  | selectIntent => exact selectIntent_error h
  | updateClaimed | updateMoved => exact updateRows_error h
  | insertEvent | insertAttempt | insertReceipt => exact insertChecked_error h
  | _ => cases h

/-- A statement takes keys that no other transaction holds. -/
theorem PostgresTables.exec_free {r : PostgresStatement} {passed : Str → Bool}
    {out : PostgresOutcome r.Response} (h : s.exec jsonb r passed locked = .ok out) :
    ∀ k ∈ out.locks, locked k = false := by
  cases r with
  | insertTenant => exact insertTenant_free h
  | insertIntent => exact insertIntent_free h
  | selectIntent => exact selectIntent_free h
  | updateClaimed | updateMoved => exact updateRows_free h
  | insertEvent | insertAttempt | insertReceipt => exact insertChecked_free h
  | selectDue =>
    cases h
    exact List.forall_mem_map.mpr selectDue_free
  | _ =>
    cases h
    exact List.forall_mem_nil _

/-- The database of the ledger. -/
def postgres (jsonb : Jsonb) : Database PostgresStatement.Response PostgresTables PostgresWrite
    PostgresKey (Str → Bool) where
  apply := PostgresTables.apply
  exec r passed s locked := s.exec jsonb r passed locked
  waits := PostgresTables.exec_waits
  free := PostgresTables.exec_free

end

end EffectBroker
