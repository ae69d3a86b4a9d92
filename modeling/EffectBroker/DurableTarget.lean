import Mathlib.Data.List.Induction
import EffectBroker.SimulatedTarget
import EffectBroker.SqliteBook

/-!
# The durable target

The target of the crash matrix and its adapter, from `examples/crash_matrix/target.py`.  It has
its own tables: what it has committed, once for each key, and every call of `commit`.
Whatever the order of the calls is, and whichever of them fail, a key is committed once, and
all calls with one key are told the same id (`committed_once`).
-/
namespace EffectBroker
open Python Concurrency

/-- A row of `target_effects`. -/
structure TargetEffectRow where
  externalId : Str
  downstreamKey : Str
  payloadJson : Str
  committedAt : Str

/-- A row of `commit_calls`. -/
structure CommitCallRow where
  downstreamKey : Str
  payloadJson : Str
  calledAt : Str

/-- A row with the same id, or the same key. -/
def TargetEffectRow.conflicts (row other : TargetEffectRow) : Bool :=
  row.externalId = other.externalId ∨ row.downstreamKey = other.downstreamKey

structure DurableTarget where
  effects : List TargetEffectRow
  calls : List CommitCallRow

namespace DurableTarget

/-- A new target. -/
def empty : DurableTarget := ⟨[], []⟩

section
variable (target : DurableTarget)

/-- The first row of the key, of which there is at most one. -/
def select (downstreamKey : Str) : Option TargetEffectRow :=
  target.effects.find? (·.downstreamKey = downstreamKey)

/-- `_next_id`. -/
def nextId : Nat := target.effects.length + 1

/-- `commit`, in one transaction, which is rolled back when it raises. -/
def commit (now : Datetime) (downstreamKey : Str) (payload : Items) :
    Except Exc (Str × DurableTarget) := do
  let payloadJson ← canonicalJson (.dict payload)
  bindParams [.text downstreamKey, .text payloadJson, .text now.isoformat]
  let calls := target.calls ++ [⟨downstreamKey, payloadJson, now.isoformat⟩]
  match target.select downstreamKey with
  | some row => return (row.externalId, { target with calls })
  | none =>
    let row : TargetEffectRow :=
      ⟨chargeIdOf target.nextId, downstreamKey, payloadJson, now.isoformat⟩
    if target.effects.any row.conflicts then .error integrityError
    else return (row.externalId, { effects := target.effects ++ [row], calls })

/-- `count`. -/
def count (downstreamKey : Str) : Nat :=
  (target.effects.filter (·.downstreamKey = downstreamKey)).length

/-- `commit_call_count`. -/
def commitCallCount (downstreamKey : Str) : Nat :=
  (target.calls.filter (·.downstreamKey = downstreamKey)).length

/-- `probe`. -/
def probe (downstreamKey : Str) : Except Exc ProbeResult := do
  bindParams [.text downstreamKey]
  let evidence := [(text "downstream_key", .str downstreamKey)]
  match target.select downstreamKey with
  | none => return { status := .notCommitted, evidence }
  | some row => return {
      status := .committed
      externalId := some row.externalId
      output := some [(text "external_id", .str row.externalId)]
      evidence }

end

/-- What the surroundings decide at a call: the wall clock, and an error of the database
before the call is committed. -/
structure Moment where
  now : Datetime
  failure : Option Exc

/-- Serve a call of `commit`. -/
def serve (target : DurableTarget) (moment : Moment) (downstreamKey : Str) (payload : Items) :
    Except Exc Str × DurableTarget :=
  match moment.failure with
  | some exc => (.error exc, target)
  | none =>
    match target.commit moment.now downstreamKey payload with
    | .ok (externalId, target) => (.ok externalId, target)
    | .error exc => (.error exc, target)

end DurableTarget

/-! ## The adapter -/

namespace DurableTargetAdapter

/-- What is committed of an effect. -/
def payload (effect : EffectRecord) : Except Exc Items := do
  let arguments ← dictOfJson effect.request.arguments
  return [(text "request_hash", .str effect.requestHash), (text "arguments", .dict arguments)]

def dispatch (target : DurableTarget) (moment : DurableTarget.Moment) (effect : EffectRecord) :
    Except Exc DispatchResult × DurableTarget :=
  match payload effect with
  | .error exc => (.error exc, target)
  | .ok payload =>
    let (externalId, target) := target.serve moment effect.downstreamKey payload
    (externalId.map fun externalId =>
      ⟨some externalId, [(text "external_id", .str externalId)], true⟩, target)

def probe (target : DurableTarget) (moment : DurableTarget.Moment) (effect : EffectRecord) :
    Except Exc ProbeResult :=
  if effect.contract.safety = .unsafeClass then
    .ok { status := .unknown,
          evidence := [(text "reason", text "unsafe target has no authoritative lookup")] }
  else
    match moment.failure with
    | some exc => .error exc
    | none => do
      let probe ← target.probe effect.downstreamKey
      if probe.status = .notCommitted ∧ effect.contract.safety = .idempotent then
        return { status := .unknown,
                 evidence := [(text "reason", text "idempotent recovery redispatches by key")] }
      else return probe

end DurableTargetAdapter

/-- `DurableTargetAdapter`s over one target. -/
def durableAdapters : Adapters DurableTarget DurableTarget.Moment where
  adapterFor _ _ target := (.ok (), target)
  dispatch moment effect _ target :=
    let (answer, target) := DurableTargetAdapter.dispatch target moment effect
    (answer.map DispatchResult.read, target)
  probe moment effect target :=
    ((DurableTargetAdapter.probe target moment effect).map ProbeResult.read, target)
  disturb _ target := target

/-! ## The first of each key -/

section
variable {α κ : Type} [DecidableEq κ] (key : α → κ)

/-- The elements with new keys, in order. -/
def firsts (list : List α) : List α :=
  list.foldl (fun found x => if key x ∈ found.map key then found else found ++ [x]) []

theorem firsts_concat (list : List α) (x : α) : firsts key (list ++ [x]) =
    if key x ∈ (firsts key list).map key then firsts key list else firsts key list ++ [x] := by
  unfold firsts
  rw [List.foldl_append]
  rfl

theorem mem_map_firsts (list : List α) (k : κ) : k ∈ (firsts key list).map key ↔ k ∈ list.map key := by
  induction list using List.reverseRecOn generalizing k with
  | nil => exact Iff.rfl
  | append_singleton list x ih =>
    rw [firsts_concat, List.map_append, List.mem_append, List.map_singleton, List.mem_singleton]
    by_cases hx : key x ∈ (firsts key list).map key
    · rw [if_pos hx, ih]
      refine ⟨.inl, fun hk => hk.elim id fun hk => ?_⟩
      rw [hk, ← ih]
      exact hx
    · rw [if_neg hx, List.map_append, List.mem_append, List.map_singleton, List.mem_singleton, ih]

theorem nodup_firsts (list : List α) : ((firsts key list).map key).Nodup := by
  induction list using List.reverseRecOn with
  | nil => exact List.nodup_nil
  | append_singleton list x ih =>
    rw [firsts_concat]
    by_cases hx : key x ∈ (firsts key list).map key
    · rw [if_pos hx]
      exact ih
    · rw [if_neg hx, List.map_append]
      exact List.nodup_append.mpr ⟨ih, List.nodup_singleton _, fun k hk k' hk' hsame =>
        hx (List.mem_singleton.mp hk' ▸ hsame ▸ hk)⟩

theorem find?_firsts (list : List α) (k : κ) :
    (firsts key list).find? (key · = k) = list.find? (key · = k) := by
  induction list using List.reverseRecOn with
  | nil => rfl
  | append_singleton list x ih =>
    rw [firsts_concat, List.find?_append, ← ih]
    by_cases hx : key x ∈ (firsts key list).map key
    · rw [if_pos hx]
      by_cases hk : key x = k
      · -- an element of the key has been found before
        obtain ⟨y, hy, hkey⟩ := List.mem_map.mp hx
        cases hfind : (firsts key list).find? (key · = k) with
        | some => rfl
        | none => exact absurd (hkey.trans hk) (by simpa using List.find?_eq_none.mp hfind y hy)
      · rw [List.find?_singleton, if_neg (by simpa using hk), Option.or_none]
    · rw [if_neg hx, List.find?_append]

end

/-! ## Once for each key -/

namespace DurableTarget

/-- The rows that calls have led to: one for the first call with each key, in order. -/
def rowsOf (calls : List CommitCallRow) : List TargetEffectRow :=
  (firsts CommitCallRow.downstreamKey calls).zipIdx.map fun x =>
    ⟨chargeIdOf (x.2 + 1), x.1.downstreamKey, x.1.payloadJson, x.1.calledAt⟩

/-- The calls tell what has been committed. -/
def Sound (target : DurableTarget) : Prop := target.effects = rowsOf target.calls

section
variable {target target' : DurableTarget} {now : Datetime} {key externalId : Str} {payload : Items}

theorem keys_rowsOf (calls : List CommitCallRow) : (rowsOf calls).map TargetEffectRow.downstreamKey =
    (firsts CommitCallRow.downstreamKey calls).map CommitCallRow.downstreamKey := by
  conv_rhs => rw [← List.zipIdx_map_fst 0 (firsts CommitCallRow.downstreamKey calls)]
  rw [rowsOf, List.map_map, List.map_map]
  rfl

theorem ids_rowsOf (calls : List CommitCallRow) : (rowsOf calls).map TargetEffectRow.externalId =
    (List.range (rowsOf calls).length).map fun n => chargeIdOf (n + 1) := by
  have hlength : (rowsOf calls).length = (firsts CommitCallRow.downstreamKey calls).length := by
    rw [rowsOf, List.length_map, List.length_zipIdx]
  have hnumbers : (firsts CommitCallRow.downstreamKey calls).zipIdx.map Prod.snd =
      List.range (firsts CommitCallRow.downstreamKey calls).length := by
    rw [List.zipIdx_map_snd, List.range_eq_range']
  rw [hlength, ← hnumbers, rowsOf, List.map_map, List.map_map]
  rfl

theorem rowsOf_concat (calls : List CommitCallRow) (call : CommitCallRow) :
    rowsOf (calls ++ [call]) =
      if call.downstreamKey ∈ (rowsOf calls).map TargetEffectRow.downstreamKey then rowsOf calls
      else rowsOf calls ++ [⟨chargeIdOf ((rowsOf calls).length + 1), call.downstreamKey,
        call.payloadJson, call.calledAt⟩] := by
  have hlength : (rowsOf calls).length = (firsts CommitCallRow.downstreamKey calls).length := by
    rw [rowsOf, List.length_map, List.length_zipIdx]
  rw [keys_rowsOf, hlength, rowsOf, firsts_concat]
  split
  · rfl
  · rw [List.zipIdx_append, List.map_append]
    simp [rowsOf]

theorem Sound.once (h : target.Sound) : (target.effects.map TargetEffectRow.downstreamKey).Nodup := by
  rw [h, keys_rowsOf]
  exact nodup_firsts _ _

theorem Sound.ids (h : target.Sound) : (target.effects.map TargetEffectRow.externalId).Nodup := by
  rw [h, ids_rowsOf]
  refine List.nodup_range.map fun n m hnm => ?_
  have hsame := chargeIdOf_injective hnm
  omega

/-- The next id is new. -/
theorem Sound.nextId_new (h : target.Sound) :
    ∀ row ∈ target.effects, row.externalId ≠ chargeIdOf target.nextId := by
  intro row hrow hid
  have hmem := List.mem_map_of_mem (f := TargetEffectRow.externalId) hrow
  rw [h, ids_rowsOf, ← h, hid] at hmem
  obtain ⟨n, hn, hsame⟩ := List.mem_map.mp hmem
  have hlt := List.mem_range.mp hn
  have heq := chargeIdOf_injective hsame
  unfold nextId at heq
  omega

theorem select_eq_none : target.select key = none ↔
    key ∉ target.effects.map TargetEffectRow.downstreamKey := by
  unfold select
  rw [List.find?_eq_none, List.mem_map]
  simp

theorem mem_of_select {row : TargetEffectRow} (h : target.select key = some row) :
    row ∈ target.effects ∧ row.downstreamKey = key :=
  ⟨List.mem_of_find?_eq_some h,
    of_decide_eq_true (List.find?_some (p := fun row : TargetEffectRow => row.downstreamKey = key) h)⟩

/-- What a commit does. -/
structure Commits (target : DurableTarget) (call : CommitCallRow) (externalId : Str)
    (target' : DurableTarget) : Prop where
  sound : target'.Sound
  calls : target'.calls = target.calls ++ [call]
  effects : target.effects <+: target'.effects
  added : ∀ row ∈ target'.effects, row ∈ target.effects ∨
    row.downstreamKey = call.downstreamKey ∧ row.payloadJson = call.payloadJson
  replied : ∃ row, target'.select call.downstreamKey = some row ∧ row.externalId = externalId

/-- A commit finds the row of its key, or appends it. -/
theorem Sound.commit_ok (h : target.Sound)
    (hcommit : target.commit now key payload = .ok (externalId, target')) :
    ∃ payloadJson, canonicalJson (.dict payload) = .ok payloadJson ∧
      target.Commits ⟨key, payloadJson, now.isoformat⟩ externalId target' := by
  obtain ⟨payloadJson, hjson, hcommit⟩ := bind_eq_ok.mp hcommit
  obtain ⟨-, -, hcommit⟩ := bind_eq_ok.mp hcommit
  refine ⟨payloadJson, hjson, ?_⟩
  have hconcat := rowsOf_concat target.calls ⟨key, payloadJson, now.isoformat⟩
  rw [← h] at hconcat
  cases hselect : target.select key with
  | some row =>
    simp only [hselect] at hcommit
    cases hcommit
    obtain ⟨hrow, hkey⟩ := mem_of_select hselect
    rw [if_pos (List.mem_map.mpr ⟨row, hrow, hkey⟩)] at hconcat
    exact ⟨hconcat.symm, rfl, List.prefix_rfl, fun _ hm => .inl hm, row, hselect, rfl⟩
  | none =>
    simp only [hselect] at hcommit
    rw [if_neg (select_eq_none.mp hselect)] at hconcat
    split at hcommit
    · cases hcommit
    · cases hcommit
      refine ⟨hconcat.symm, rfl, List.prefix_append _ _, fun row hm => ?_,
        ⟨chargeIdOf target.nextId, key, payloadJson, now.isoformat⟩, ?_, rfl⟩
      · rcases List.mem_append.mp hm with hm | hm
        · exact .inl hm
        · obtain rfl := List.mem_singleton.mp hm
          exact .inr ⟨rfl, rfl⟩
      · unfold select at hselect ⊢
        rw [List.find?_append, hselect, Option.none_or, List.find?_singleton]
        exact if_pos (decide_eq_true rfl)

/-- The new row of a key violates no constraint. -/
theorem Sound.no_conflict (h : target.Sound) (hselect : target.select key = none)
    {payloadJson committedAt : Str} : target.effects.any
      (TargetEffectRow.conflicts ⟨chargeIdOf target.nextId, key, payloadJson, committedAt⟩) = false := by
  rw [List.any_eq_false]
  intro row hrow hconflict
  rcases of_decide_eq_true hconflict with hid | hkey
  · exact h.nextId_new row hrow hid.symm
  · exact select_eq_none.mp hselect (List.mem_map.mpr ⟨row, hrow, hkey.symm⟩)

/-- What can be encoded is committed. -/
theorem Sound.commit_fits (h : target.Sound) {payloadJson : Str}
    (hjson : canonicalJson (.dict payload) = .ok payloadJson) (hkey : Python.Encodable key)
    (hencodable : Python.Encodable payloadJson) :
    ∃ externalId target', target.commit now key payload = .ok (externalId, target') := by
  have hbind : bindParams [.text key, .text payloadJson, .text now.isoformat] = .ok () := by
    rw [bindParams_eq_ok]
    simp [SqliteParam.Fits, hkey, hencodable, Datetime.encodable_isoformat]
  unfold commit
  simp only [hjson, ok_bind, hbind]
  cases hselect : target.select key with
  | some row => exact ⟨_, _, rfl⟩
  | none =>
    simp only [h.no_conflict hselect, Bool.false_eq_true, if_false]
    exact ⟨_, _, rfl⟩

end

/-! ## Runs -/

/-- A call of `commit` that has been served. -/
structure CommitServed where
  moment : Moment
  downstreamKey : Str
  payload : Items
  reply : Except Exc Str

/-- The target serves calls of any number of processes, one after the other; they are
collected newest first. -/
inductive TargetRun : List CommitServed → DurableTarget → Prop
  | start : TargetRun [] empty
  | call {log target} (moment : Moment) (downstreamKey : Str) (payload : Items) :
      TargetRun log target →
      TargetRun (⟨moment, downstreamKey, payload, (target.serve moment downstreamKey payload).1⟩ :: log)
        (target.serve moment downstreamKey payload).2

/-- What a call makes of the target, and what it replies. -/
structure Serves (target : DurableTarget) (key : Str) (payload : Items) (reply : Except Exc Str)
    (target' : DurableTarget) : Prop where
  sound : target'.Sound
  effects : target.effects <+: target'.effects
  added : ∀ row ∈ target'.effects, row ∈ target.effects ∨
    row.downstreamKey = key ∧ canonicalJson (.dict payload) = .ok row.payloadJson
  told : ∀ externalId, reply = .ok externalId →
    ∃ row, target'.select key = some row ∧ row.externalId = externalId

theorem Sound.unserved {target : DurableTarget} (h : target.Sound) (key : Str) (payload : Items)
    (exc : Exc) : target.Serves key payload (.error exc) target :=
  ⟨h, List.prefix_rfl, fun _ hm => .inl hm, fun _ hreply => by cases hreply⟩

theorem Sound.serve {target : DurableTarget} (h : target.Sound) (moment : Moment) (key : Str)
    (payload : Items) : target.Serves key payload (target.serve moment key payload).1
      (target.serve moment key payload).2 := by
  unfold DurableTarget.serve
  cases moment.failure with
  | some exc => exact h.unserved key payload exc
  | none =>
    cases hcommit : target.commit moment.now key payload with
    | error exc => exact h.unserved key payload exc
    | ok result =>
      obtain ⟨externalId, target'⟩ := result
      obtain ⟨payloadJson, hjson, hcommits⟩ := h.commit_ok hcommit
      refine ⟨hcommits.sound, hcommits.effects, fun row hrow => ?_, fun externalId' hreply => ?_⟩
      · refine (hcommits.added row hrow).imp id fun hadded => ⟨hadded.1, ?_⟩
        rw [hadded.2]
        exact hjson
      · cases hreply
        exact hcommits.replied

/-- Later rows leave the row of a key. -/
theorem select_later {target target' : DurableTarget} {key : Str} {row : TargetEffectRow}
    (h : target.select key = some row) (hlater : target.effects <+: target'.effects) :
    target'.select key = some row := by
  obtain ⟨newer, hnewer⟩ := hlater
  unfold select at h ⊢
  rw [← hnewer, List.find?_append, h]
  rfl

variable {log : List CommitServed} {target : DurableTarget}

theorem TargetRun.sound (h : TargetRun log target) : target.Sound := by
  induction h with
  | start => rfl
  | call moment key payload _ ih => exact (ih.serve moment key payload).sound

/-- A call that was told an id was told that of the row of its key. -/
theorem TargetRun.told (h : TargetRun log target) : ∀ served ∈ log, ∀ externalId,
    served.reply = .ok externalId →
      ∃ row, target.select served.downstreamKey = some row ∧ row.externalId = externalId := by
  induction h with
  | start => exact List.forall_mem_nil _
  | call moment key payload hrun ih =>
    have hserves := hrun.sound.serve moment key payload
    refine List.forall_mem_cons.mpr ⟨hserves.told, fun served hserved externalId hreply => ?_⟩
    obtain ⟨row, hselect, hid⟩ := ih served hserved externalId hreply
    exact ⟨row, select_later hselect hserves.effects, hid⟩

/-- A call that can be encoded is told an id, unless the database fails. -/
theorem TargetRun.answered (h : TargetRun log target) : ∀ served ∈ log, served.moment.failure = none →
    ∀ payloadJson, canonicalJson (.dict served.payload) = .ok payloadJson →
      Python.Encodable served.downstreamKey → Python.Encodable payloadJson →
        ∃ externalId, served.reply = .ok externalId := by
  induction h with
  | start => exact List.forall_mem_nil _
  | @call log target moment key payload hrun ih =>
    refine List.forall_mem_cons.mpr ⟨fun hfailure payloadJson hjson hkey hencodable => ?_, ih⟩
    obtain ⟨externalId, target', hcommit⟩ : ∃ externalId target',
        target.commit moment.now key payload = .ok (externalId, target') :=
      hrun.sound.commit_fits hjson hkey hencodable
    have hfailure : moment.failure = none := hfailure
    refine ⟨externalId, ?_⟩
    show (target.serve moment key payload).1 = .ok externalId
    unfold DurableTarget.serve
    rw [hfailure]
    simp only [hcommit]

theorem Sound.filter_of_select (h : target.Sound) {key : Str} {row : TargetEffectRow}
    (hselect : target.select key = some row) :
    target.effects.filter (·.downstreamKey = key) = [row] := by
  obtain ⟨hrow, rfl⟩ := mem_of_select hselect
  exact Book.filter_of_nodup h.once hrow

/-- A key has a row if it has been called. -/
theorem Sound.count_eq (h : target.Sound) (key : Str) :
    target.count key = min 1 (target.commitCallCount key) := by
  have hcalled : key ∈ target.effects.map TargetEffectRow.downstreamKey ↔
      key ∈ target.calls.map CommitCallRow.downstreamKey := by
    rw [h, keys_rowsOf]
    exact mem_map_firsts _ _ key
  unfold count commitCallCount
  cases hselect : target.select key with
  | none =>
    have hrow := select_eq_none.mp hselect
    have hcall : key ∉ target.calls.map CommitCallRow.downstreamKey := fun hm => hrow (hcalled.mpr hm)
    have hrows : target.effects.filter (·.downstreamKey = key) = [] := by
      rw [List.filter_eq_nil_iff]
      exact fun row hm hkey => hrow (List.mem_map.mpr ⟨row, hm, of_decide_eq_true hkey⟩)
    have hcalls : target.calls.filter (·.downstreamKey = key) = [] := by
      rw [List.filter_eq_nil_iff]
      exact fun call hm hkey => hcall (List.mem_map.mpr ⟨call, hm, of_decide_eq_true hkey⟩)
    rw [hrows, hcalls]
    rfl
  | some row =>
    obtain ⟨hrow, hkey⟩ := mem_of_select hselect
    obtain ⟨call, hcall, hsame⟩ := List.mem_map.mp (hcalled.mp (List.mem_map.mpr ⟨row, hrow, hkey⟩))
    have hpositive : 0 < (target.calls.filter (·.downstreamKey = key)).length :=
      List.length_pos_of_mem (List.mem_filter.mpr ⟨hcall, decide_eq_true hsame⟩)
    rw [h.filter_of_select hselect, List.length_singleton]
    omega

/-- A row has the payload of the first call with its key. -/
theorem Sound.payload_of_first (h : target.Sound) {row : TargetEffectRow} (hrow : row ∈ target.effects) :
    ∃ call, row.payloadJson = call.payloadJson ∧
      target.calls.find? (·.downstreamKey = row.downstreamKey) = some call := by
  rw [h, rowsOf] at hrow
  obtain ⟨⟨call, n⟩, hmem, rfl⟩ := List.mem_map.mp hrow
  have hcall : call ∈ firsts CommitCallRow.downstreamKey target.calls := by
    rw [← List.zipIdx_map_fst 0 (firsts CommitCallRow.downstreamKey target.calls)]
    exact List.mem_map.mpr ⟨_, hmem, rfl⟩
  refine ⟨call, rfl, ?_⟩
  have hfirst := find?_firsts CommitCallRow.downstreamKey target.calls call.downstreamKey
  refine hfirst.symm.trans ?_
  rw [← List.head?_filter,
    Book.filter_of_nodup (nodup_firsts CommitCallRow.downstreamKey target.calls) hcall]
  rfl

/-- What calls can rely on. -/
structure OnceEach (log : List CommitServed) (target : DurableTarget) : Prop where
  /-- An id that is told is that of the one row of the key. -/
  told : ∀ served ∈ log, ∀ externalId, served.reply = .ok externalId → ∃ row,
    target.effects.filter (·.downstreamKey = served.downstreamKey) = [row] ∧ row.externalId = externalId
  /-- The same id is told for the same key alone. -/
  distinct : ∀ served ∈ log, ∀ served' ∈ log, ∀ externalId externalId', served.reply = .ok externalId →
    served'.reply = .ok externalId' →
      (externalId = externalId' ↔ served.downstreamKey = served'.downstreamKey)
  /-- The constraints of the tables refuse nothing. -/
  answered : ∀ served ∈ log, served.moment.failure = none →
    ∀ payloadJson, canonicalJson (.dict served.payload) = .ok payloadJson →
      Python.Encodable served.downstreamKey → Python.Encodable payloadJson →
        ∃ externalId, served.reply = .ok externalId
  counted : ∀ key, target.count key = min 1 (target.commitCallCount key)
  /-- Later calls change nothing, whatever their payload. -/
  first : ∀ row ∈ target.effects, ∃ call, row.payloadJson = call.payloadJson ∧
    target.calls.find? (·.downstreamKey = row.downstreamKey) = some call

/-- **Once for each key**: whatever the order of the calls, a key is committed by the first call
that is not refused, and never again, and all calls with the key are told its id. -/
theorem committed_once (h : TargetRun log target) : OnceEach log target := by
  have hsound := h.sound
  refine ⟨?_, ?_, h.answered, hsound.count_eq, fun row hrow => hsound.payload_of_first hrow⟩
  · intro served hserved externalId hreply
    obtain ⟨row, hselect, hid⟩ := h.told served hserved externalId hreply
    exact ⟨row, hsound.filter_of_select hselect, hid⟩
  · intro served hserved served' hserved' externalId externalId' hreply hreply'
    obtain ⟨row, hselect, rfl⟩ := h.told served hserved externalId hreply
    obtain ⟨row', hselect', rfl⟩ := h.told served' hserved' externalId' hreply'
    obtain ⟨hrow, hkey⟩ := mem_of_select hselect
    obtain ⟨hrow', hkey'⟩ := mem_of_select hselect'
    constructor
    · intro hid
      rw [← hkey, ← hkey', List.inj_on_of_nodup_map hsound.ids hrow hrow' hid]
    · intro hsame
      rw [hsame, hselect'] at hselect
      rw [Option.some.inj hselect]

/-- A key is called with two payloads, and the database fails in between. -/
theorem committed_once_sample : ∃ log target, TargetRun log target ∧ OnceEach log target ∧
    log.map CommitServed.reply =
      [.ok (str "charge_000001"), .error .overflowError, .ok (str "charge_000001")] := by
  have hrun : TargetRun _ _ :=
    .call ⟨sampleTime 2, none⟩ (str "key") [(text "amount", .int 7)]
      (.call ⟨sampleTime 1, some .overflowError⟩ (str "key") [(text "amount", .int 5)]
        (.call ⟨sampleTime 0, none⟩ (str "key") [(text "amount", .int 5)] .start))
  exact ⟨_, _, hrun, committed_once hrun, by decide +kernel⟩

end DurableTarget
end EffectBroker
