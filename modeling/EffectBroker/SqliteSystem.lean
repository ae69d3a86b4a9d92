import EffectBroker.Fingerprint
import EffectBroker.ReservedEffects
import EffectBroker.SqliteCalls

/-!
# The broker over the SQLite store

The procedures run over the tables as they do over the in-memory store.  Of a row only the
status, the version, the time of the update and the lease ever change; the other columns
are fixed when the effect is reserved.
-/
namespace EffectBroker
open Python Concurrency

namespace SqliteStore

/-- What a transaction returns, and the tables after it. -/
def settled {α : Type} (s : SqliteStore) :
    Except Exc (α × SqliteStore) → Except Exc α × SqliteStore
  | .ok (value, after) => (.ok value, after)
  | .error exc => (.error exc, s)

end SqliteStore

/-- The SQLite store. -/
def sqliteStore : EffectStore SqliteStore where
  reserve s now uuid tenantId request contract :=
    s.settled (s.reserve now uuid tenantId request contract)
  claimDue s workerId now leaseFor limit := s.settled (s.claimDue workerId now leaseFor limit)
  startAttempt s now effectId expectedVersion workerId :=
    s.settled (s.startAttempt now effectId expectedVersion workerId)
  transition s now effectId expectedVersion target data :=
    s.settled (s.transition now effectId expectedVersion target data)
  get s tenantId effectId := s.get tenantId effectId

/-- The broker over a SQLite database. -/
abbrev sqliteBroker {Target Decision : Type} (adapters : Adapters Target Decision) :=
  broker sqliteStore adapters

/-- An empty database, reset metrics, and a target. -/
def Shared.initialSqlite {Target : Type} (hashes : Hashes) (tenantKeyProvider : TenantKeyProvider)
    (target : Target) : Shared SqliteStore Target :=
  ⟨.initial hashes tenantKeyProvider, {}, target⟩

/-! ## Fixed columns -/

/-- The columns that are fixed when an effect is reserved. -/
def SqliteEffectRow.fixed (row : SqliteEffectRow) : SqliteEffectRow :=
  { row with
    status := []
    version := 0
    updatedAt := []
    workerId := none
    leaseWorkerId := none
    leaseUntil := none }

namespace SqliteStore

/-- The fixed columns of all effects. -/
def fixed (s : SqliteStore) : List SqliteEffectRow := s.effects.map SqliteEffectRow.fixed

/-- A record is what a row is read as, or was once read as. -/
def Shows (s : SqliteStore) (record : EffectRecord) : Prop :=
  ∃ row : SqliteEffectRow, row.fixed ∈ s.fixed ∧ row.toRecord = .ok record

/-- No fixed column has changed. -/
structure Keeps (s s' : SqliteStore) : Prop where
  fixed : s'.fixed = s.fixed
  secrets : (s'.hashes, s'.tenantKeyProvider) = (s.hashes, s.tenantKeyProvider)

section
variable {s s' s'' : SqliteStore} {record : EffectRecord} {e : Str}

theorem Keeps.refl (s : SqliteStore) : s.Keeps s := ⟨rfl, rfl⟩

theorem Keeps.trans (h : s.Keeps s') (h' : s'.Keeps s'') : s.Keeps s'' :=
  ⟨h'.fixed.trans h.fixed, h'.secrets.trans h.secrets⟩

theorem Keeps.shows (h : s.Keeps s') : s'.Shows record ↔ s.Shows record := by
  unfold Shows
  rw [h.fixed]

/-- The ids of the effects are fixed. -/
theorem ids_fixed (s : SqliteStore) :
    s.fixed.map SqliteEffectRow.effectId = s.effects.map SqliteEffectRow.effectId := by
  rw [fixed, List.map_map]
  rfl

theorem keeps_updateEffect {f : SqliteEffectRow → SqliteEffectRow}
    (hf : ∀ row, (f row).fixed = row.fixed) : s.Keeps (s.updateEffect e f) := by
  constructor
  · unfold fixed updateEffect
    rw [List.map_map]
    refine List.map_congr_left fun row _ => ?_
    rw [Function.comp_apply]
    split
    · exact hf row
    · rfl
  · rfl

theorem appendEvent_ok {eventType : EventType} {version : Nat} {data : Items} {at_ : Datetime}
    (h : s.appendEvent e eventType version data at_ = .ok s') :
    s.Keeps s' ∧ s'.effects = s.effects := by
  obtain ⟨json, -, h⟩ := bind_eq_ok.mp h
  obtain ⟨-, -, h⟩ := bind_eq_ok.mp h
  split at h
  · cases h
  · cases h
    exact ⟨⟨rfl, rfl⟩, rfl⟩

/-! ## What is selected -/

theorem shows_of_mem {row : SqliteEffectRow} (hm : row ∈ s.effects)
    (h : row.toRecord = .ok record) : s.Shows record :=
  ⟨row, List.mem_map_of_mem hm, h⟩

/-- The row of an effect, read. -/
theorem selectByEffectId_some (h : s.selectByEffectId e = .ok (some record)) :
    ∃ row, s.effects.find? (·.effectId = e) = some row ∧ row.toRecord = .ok record := by
  obtain ⟨-, -, h⟩ := bind_eq_ok.mp h
  cases hfind : s.effects.find? (·.effectId = e) with
  | none =>
    rw [hfind] at h
    cases h
  | some row =>
    rw [hfind] at h
    refine ⟨row, rfl, ?_⟩
    cases hread : row.toRecord with
    | error exc =>
      simp only [hread] at h
      cases h
    | ok read =>
      simp only [hread] at h
      cases h
      rfl

/-- The row of an effect after the update of a row. -/
theorem find?_updated {f : SqliteEffectRow → SqliteEffectRow}
    (hf : ∀ row, (f row).effectId = row.effectId) (e' : Str) :
    (s.updateEffect e f).effects.find? (·.effectId = e') =
      (s.effects.find? (·.effectId = e')).map fun row => if row.effectId = e then f row else row := by
  unfold updateEffect
  rw [List.find?_map]
  refine congrArg _ (congrArg (s.effects.find? ·) (funext fun row => ?_))
  rw [Function.comp_apply]
  split
  · rw [hf]
  · rfl

theorem find?_updateEffect {f : SqliteEffectRow → SqliteEffectRow}
    (hf : ∀ row, (f row).effectId = row.effectId) :
    (s.updateEffect e f).effects.find? (·.effectId = e) =
      (s.effects.find? (·.effectId = e)).map f := by
  rw [find?_updated hf]
  cases hfind : s.effects.find? (·.effectId = e) with
  | none => rfl
  | some row =>
    have hid := List.find?_some hfind
    rw [Option.map_some, Option.map_some, if_pos (of_decide_eq_true hid)]

theorem find?_updateEffect_of_ne {f : SqliteEffectRow → SqliteEffectRow} {e' : Str}
    (hf : ∀ row, (f row).effectId = row.effectId) (he : e' ≠ e) :
    (s.updateEffect e f).effects.find? (·.effectId = e') =
      s.effects.find? (·.effectId = e') := by
  rw [find?_updated hf]
  cases hfind : s.effects.find? (·.effectId = e') with
  | none => rfl
  | some row =>
    have hid := List.find?_some hfind
    rw [Option.map_some, if_neg fun h => he ((of_decide_eq_true hid).symm.trans h)]

end
end SqliteStore

/-! ## What operations keep and show -/

namespace SqliteStore

/-- A record that is claimable. -/
def ShowsClaimable (s : SqliteStore) (record : EffectRecord) : Prop :=
  s.Shows record ∧ record.status.isClaimable = true

/-- The row of an effect may be claimed. -/
def Claimable (s : SqliteStore) (e : Str) : Prop :=
  ∀ row, s.effects.find? (·.effectId = e) = some row →
    row.status = EffectStatus.prepared.value ∨ row.status = EffectStatus.retryable.value

section
variable {s s' : SqliteStore} {record : EffectRecord} {e : Str}

theorem claimable_of_read {row : SqliteEffectRow} (h : row.toRecord = .ok record)
    (hstatus : row.status = EffectStatus.prepared.value ∨
      row.status = EffectStatus.retryable.value) : record.status.isClaimable = true := by
  have hread := (SqliteEffectRow.toRecord_ok h).status
  rw [EffectStatus.isClaimable_iff]
  rcases hstatus with hs | hs
  · rw [hs, statusOfText_value] at hread
    exact .inl (Except.ok.inj hread).symm
  · rw [hs, statusOfText_value] at hread
    exact .inr (Except.ok.inj hread).symm

theorem claimRow_ok {workerId : Str} {now leaseUntil : Datetime}
    (h : s.claimRow workerId now leaseUntil e = .ok (record, s')) :
    s.Keeps s' ∧ s.Shows record ∧ (s.Claimable e → record.status.isClaimable = true) ∧
      ∀ e', s.Claimable e' → s'.Claimable e' := by
  obtain ⟨-, -, h⟩ := bind_eq_ok.mp h
  obtain ⟨found, hfound, h⟩ := bind_eq_ok.mp h
  cases found with
  | none => cases h
  | some updated =>
    obtain ⟨after, hafter, h⟩ := bind_eq_ok.mp h
    cases h
    -- the update touches the lease, the version and the time of the update alone
    generalize hf : (fun row : SqliteEffectRow => { row with
      workerId := some workerId
      leaseWorkerId := some workerId
      leaseUntil := some leaseUntil.isoformat
      version := row.version + 1
      updatedAt := now.isoformat }) = f at hfound hafter
    have hfixed : ∀ row, (f row).fixed = row.fixed := fun row => by rw [← hf]; rfl
    have hid : ∀ row, (f row).effectId = row.effectId := fun row => by rw [← hf]
    have hstatus : ∀ row, (f row).status = row.status := fun row => by rw [← hf]
    have hkeeps : s.Keeps (s.updateEffect e f) := keeps_updateEffect hfixed
    obtain ⟨happended, heffects⟩ := appendEvent_ok hafter
    obtain ⟨row, hrow, hread⟩ := selectByEffectId_some hfound
    have hshows := hkeeps.shows.mp (shows_of_mem (List.mem_of_find?_eq_some hrow) hread)
    refine ⟨hkeeps.trans happended, hshows, fun hclaimable => ?_, fun e' hclaimable row' hrow' => ?_⟩
    · rw [find?_updateEffect hid] at hrow
      obtain ⟨row', hrow', rfl⟩ := Option.map_eq_some_iff.mp hrow
      refine claimable_of_read hread ?_
      rw [hstatus]
      exact hclaimable row' hrow'
    · rw [heffects] at hrow'
      rw [find?_updated hid] at hrow'
      obtain ⟨row, hrow, rfl⟩ := Option.map_eq_some_iff.mp hrow'
      split
      · rw [hstatus]
        exact hclaimable row hrow
      · exact hclaimable row hrow

theorem claimLoop_ok {workerId : Str} {now leaseUntil : Datetime} {limit : Int}
    {rows : List SqliteEffectRow} {claimed result : List EffectRecord}
    (hrows : ∀ row ∈ rows, s.Claimable row.effectId)
    (h : claimLoop workerId now leaseUntil limit rows s claimed = .ok (result, s')) :
    s.Keeps s' ∧ ∀ record ∈ result, record ∈ claimed ∨ s.ShowsClaimable record := by
  induction rows generalizing s claimed with
  | nil =>
    cases h
    exact ⟨.refl _, fun record hm => .inl hm⟩
  | cons row rows ih =>
    obtain ⟨hrow, hrest⟩ := List.forall_mem_cons.mp hrows
    rw [claimLoop] at h
    split at h
    · cases h
      exact ⟨.refl _, fun record hm => .inl hm⟩
    · obtain ⟨active, -, h⟩ := bind_eq_ok.mp h
      split at h
      · exact ih hrest h
      · obtain ⟨⟨updated, after⟩, hclaim, h⟩ := bind_eq_ok.mp h
        obtain ⟨hkeeps, hshows, hclaimable, hothers⟩ := claimRow_ok hclaim
        obtain ⟨hkeeps', hresult⟩ := ih (fun row' hm => hothers _ (hrest row' hm)) h
        refine ⟨hkeeps.trans hkeeps', fun record hm => ?_⟩
        rcases hresult record hm with hm | ⟨hshown, hstatus⟩
        · rcases List.mem_append.mp hm with hm | hm
          · exact .inl hm
          · obtain rfl := List.mem_singleton.mp hm
            exact .inr ⟨hshows, hclaimable hrow⟩
        · exact .inr ⟨hkeeps.shows.mp hshown, hstatus⟩

/-- A row with an id of its own is the row of its effect. -/
theorem claimable_of_mem (hids : (s.effects.map SqliteEffectRow.effectId).Nodup)
    {row : SqliteEffectRow} (hm : row ∈ s.effects)
    (hstatus : row.status = EffectStatus.prepared.value ∨
      row.status = EffectStatus.retryable.value) : s.Claimable row.effectId := by
  intro row' hfind
  have hid := of_decide_eq_true (List.find?_some (p := fun r : SqliteEffectRow =>
    decide (r.effectId = row.effectId)) hfind)
  rw [List.inj_on_of_nodup_map hids (List.mem_of_find?_eq_some hfind) hm hid]
  exact hstatus

theorem claimDue_ok {workerId : Str} {now : Datetime} {leaseFor : Timedelta} {limit : Int}
    {claimed : List EffectRecord} (hids : (s.effects.map SqliteEffectRow.effectId).Nodup)
    (h : s.claimDue workerId now leaseFor limit = .ok (claimed, s')) :
    s.Keeps s' ∧ ∀ record ∈ claimed, s.ShowsClaimable record := by
  unfold claimDue at h
  split at h
  · cases h
    exact ⟨.refl s, List.forall_mem_nil _⟩
  · cases hadd : now.add leaseFor with
    | none =>
      rw [hadd] at h
      cases h
    | some leaseUntil =>
      rw [hadd] at h
      have hrows : ∀ row ∈ (s.effects.filter fun row => row.status = EffectStatus.prepared.value ∨
          row.status = EffectStatus.retryable.value).insertionSort sqliteBefore,
          s.Claimable row.effectId := by
        intro row hm
        obtain ⟨hm, hstatus⟩ := List.mem_filter.mp ((List.mem_insertionSort _).mp hm)
        exact claimable_of_mem hids hm (of_decide_eq_true hstatus)
      obtain ⟨hkeeps, hresult⟩ := claimLoop_ok hrows h
      exact ⟨hkeeps, fun record hm => (hresult record hm).resolve_left List.not_mem_nil⟩

theorem startAttempt_ok {now : Datetime} {expectedVersion : Int} {workerId attemptId : Str}
    (h : s.startAttempt now e expectedVersion workerId = .ok (attemptId, s')) : s.Keeps s' := by
  obtain ⟨record, -, h⟩ := bind_eq_ok.mp h
  obtain ⟨-, -, h⟩ := bind_eq_ok.mp h
  split at h
  · cases h
  · obtain ⟨after, hafter, h⟩ := bind_eq_ok.mp h
    cases h
    obtain ⟨hkeeps, -⟩ := appendEvent_ok hafter
    exact ⟨hkeeps.fixed, hkeeps.secrets⟩

theorem transition_ok {now : Datetime} {expectedVersion : Int} {target : EffectStatus}
    {data : Items} (h : s.transition now e expectedVersion target data = .ok (record, s')) :
    s.Keeps s' ∧ s.Shows record ∧ record.status = target := by
  obtain ⟨before, -, h⟩ := bind_eq_ok.mp h
  obtain ⟨-, -, h⟩ := bind_eq_ok.mp h
  obtain ⟨-, -, h⟩ := bind_eq_ok.mp h
  split at h
  · obtain ⟨found, hfound, h⟩ := bind_eq_ok.mp h
    cases found with
    | none => cases h
    | some updated =>
      obtain ⟨after, hafter, h⟩ := bind_eq_ok.mp h
      cases h
      generalize hf : (fun row : SqliteEffectRow => { row with
        status := target.value
        version := row.version + 1
        updatedAt := now.isoformat
        workerId := none
        leaseWorkerId := none
        leaseUntil := none }) = f at hfound hafter
      have hfixed : ∀ row, (f row).fixed = row.fixed := fun row => by rw [← hf]; rfl
      have hid : ∀ row, (f row).effectId = row.effectId := fun row => by rw [← hf]
      have hkeeps : s.Keeps (s.updateEffect e f) := keeps_updateEffect hfixed
      obtain ⟨row, hrow, hread⟩ := selectByEffectId_some hfound
      refine ⟨hkeeps.trans (appendEvent_ok hafter).1,
        hkeeps.shows.mp (shows_of_mem (List.mem_of_find?_eq_some hrow) hread), ?_⟩
      rw [find?_updateEffect hid] at hrow
      obtain ⟨row', -, rfl⟩ := Option.map_eq_some_iff.mp hrow
      have hstatus := (SqliteEffectRow.toRecord_ok hread).status
      rw [show (f row').status = target.value from by rw [← hf], statusOfText_value] at hstatus
      exact (Except.ok.inj hstatus).symm
  · cases h

theorem get_some {tenantId : Str} (h : s.get tenantId e = .ok (some record)) :
    s.Shows record ∧ record.effectId = e := by
  obtain ⟨-, -, h⟩ := bind_eq_ok.mp h
  split at h
  · cases h
  · rename_i row hfind
    cases hread : row.toRecord with
    | error exc =>
      rw [hread] at h
      cases h
    | ok read =>
      rw [hread] at h
      cases h
      have hid := List.find?_some hfind
      exact ⟨shows_of_mem (List.mem_of_find?_eq_some hfind) hread,
        (SqliteEffectRow.toRecord_ok hread).effectId.trans (of_decide_eq_true hid).2⟩

/-- No row is of the effect or of its operation. -/
def Lacks (s : SqliteStore) (record : EffectRecord) : Prop :=
  ∀ row ∈ s.fixed, row.effectId ≠ record.effectId ∧ (row.tenantId, row.operationKey) ≠ record.identity

/-- A reservation appends the row of a new record, or shows an effect that is there. -/
theorem reserve_ok {now : Datetime} {uuid tenantId : Str} {request : EffectRequest}
    {contract : EffectContract} {reservation : Reservation}
    (h : s.reserve now uuid tenantId request contract = .ok (reservation, s')) :
    (∃ record json, newRecord s.hashes s.tenantKeyProvider now uuid tenantId request contract =
        .ok record ∧ canonicalJson record.request.arguments = .ok json ∧
      s.Lacks record ∧ s'.fixed = s.fixed ++ [(sqliteColumns record json none).fixed] ∧
      (s'.hashes, s'.tenantKeyProvider) = (s.hashes, s.tenantKeyProvider) ∧
      reservation = ⟨record, true, false⟩) ∨
    s' = s ∧ s.Shows reservation.effect ∧ reservation.created = false := by
  obtain ⟨record, hrecord, h⟩ := bind_eq_ok.mp h
  obtain ⟨row, hrow, h⟩ := bind_eq_ok.mp h
  obtain ⟨json, hjson, hrow⟩ := bind_eq_ok.mp hrow
  cases hrow
  obtain ⟨-, -, h⟩ := bind_eq_ok.mp h
  split at h
  · right
    obtain ⟨found, hfound, h⟩ := bind_eq_ok.mp h
    cases found with
    | none => cases h
    | some existing =>
      simp only at h
      split at h
      · cases h
      · cases h
        obtain ⟨-, -, hfound⟩ := bind_eq_ok.mp hfound
        split at hfound
        · cases hfound
        · rename_i row hfind
          cases hread : row.toRecord with
          | error exc =>
            rw [hread] at hfound
            cases hfound
          | ok read =>
            rw [hread] at hfound
            cases hfound
            exact ⟨rfl, shows_of_mem (List.mem_of_find?_eq_some hfind) hread, rfl⟩
  · rename_i hfree
    left
    obtain ⟨after, hafter, h⟩ := bind_eq_ok.mp h
    cases h
    obtain ⟨hkeeps, -⟩ := appendEvent_ok hafter
    refine ⟨record, json, hrecord, hjson, fun row hm => ?_, ?_, hkeeps.secrets, rfl⟩
    · obtain ⟨row, hrow, rfl⟩ := List.mem_map.mp hm
      constructor
      · intro hid
        exact hfree (List.any_eq_true.mpr ⟨row, hrow, decide_eq_true (.inl hid.symm)⟩)
      · intro hidentity
        obtain ⟨htenant, hoperation⟩ := Prod.mk.inj hidentity
        exact hfree (List.any_eq_true.mpr
          ⟨row, hrow, decide_eq_true (.inr ⟨htenant.symm, hoperation.symm⟩)⟩)
    · refine hkeeps.fixed.trans ?_
      rw [fixed, List.map_append]
      rfl

end
end SqliteStore

/-! ## What the store raises -/

/-- It does not raise `AdapterError`. -/
def NoAdapterError {α : Type} : Except Exc α → Prop
  | .ok _ => True
  | .error exc => exc.isAdapterError = false

/-- It raises exceptions of its own: no `AdapterError`, and with a name that can be written. -/
def OwnErrors {α : Type} : Except Exc α → Prop
  | .ok _ => True
  | .error exc => exc.isAdapterError = false ∧ Python.Encodable exc.className

theorem OwnErrors.noAdapterError {α : Type} {x : Except Exc α} (h : OwnErrors x) :
    NoAdapterError x := by
  cases x with
  | ok a => trivial
  | error exc => exact h.1

section
variable {α β : Type} {s : SqliteStore} {e : Str}

theorem OwnErrors.bind {x : Except Exc α} {f : α → Except Exc β} (hx : OwnErrors x)
    (hf : ∀ a, OwnErrors (f a)) : OwnErrors (x >>= f) := by
  cases x with
  | ok a => exact hf a
  | error exc => exact hx

theorem OwnErrors.map {x : Except Exc α} {f : α → β} (hx : OwnErrors x) :
    OwnErrors (x.map f) := by
  cases x with
  | ok a => trivial
  | error exc => exact hx

/-- An exception with a name of the source. -/
theorem ownErrors_error {exc : Exc} {name : String} (hname : exc.className = str name)
    (hadapter : exc.isAdapterError = false) : OwnErrors (.error exc : Except Exc α) :=
  ⟨hadapter, hname ▸ encodable_str name⟩

theorem ownErrors_bindParams (params : List SqliteParam) :
    OwnErrors (bindParams params) := by
  induction params with
  | nil => trivial
  | cons param params ih =>
    have hparam : OwnErrors param.bind := by
      cases param with
      | text value =>
        show OwnErrors (if (encodeUtf8 value).isSome then _ else _)
        split
        · trivial
        · exact ownErrors_error rfl rfl
      | int value =>
        show OwnErrors (if -(2 ^ 63) ≤ value ∧ value < 2 ^ 63 then _ else _)
        split
        · trivial
        · exact ownErrors_error rfl rfl
    rw [bindParams]
    cases h : param.bind with
    | ok value => exact ih
    | error exc =>
      rw [h] at hparam
      exact hparam

theorem ownErrors_canonicalJson (value : Value) : OwnErrors (canonicalJson value) := by
  unfold canonicalJson
  have hraises := validate_raises (str "$") value
  cases h : validate (str "$") value with
  | error exc =>
    rw [h] at hraises
    obtain ⟨message, rfl⟩ := hraises
    exact ownErrors_error rfl rfl
  | ok =>
    cases dumps value with
    | some text => trivial
    | none => exact ownErrors_error rfl rfl

theorem ownErrors_toRecord (row : SqliteEffectRow) : OwnErrors row.toRecord := by
  have hjson : ∀ text, OwnErrors (parseJson text) := by
    intro text
    unfold parseJson
    split
    · trivial
    · exact ownErrors_error rfl rfl
  have htime : ∀ text, OwnErrors (parseTime text) := by
    intro text
    unfold parseTime
    split
    · trivial
    · exact ownErrors_error rfl rfl
  have hduration : ∀ seconds, OwnErrors (durationOfReal seconds) := by
    intro seconds
    unfold durationOfReal
    split
    · trivial
    · split
      · trivial
      · exact ownErrors_error rfl rfl
  have hsafety : ∀ text, OwnErrors (safetyOfText text) := by
    intro text
    unfold safetyOfText
    split
    · trivial
    · exact ownErrors_error rfl rfl
  have hstatus : ∀ text, OwnErrors (statusOfText text) := by
    intro text
    unfold statusOfText
    split
    · trivial
    · exact ownErrors_error rfl rfl
  refine (hjson _).bind fun _ => (hsafety _).bind fun _ => (hduration _).bind fun _ => ?_
  refine (hduration _).bind fun _ => (hstatus _).bind fun _ => (htime _).bind fun _ => ?_
  exact (htime _).bind fun _ => trivial

theorem ownErrors_select : OwnErrors (s.selectByEffectId e) := by
  refine (ownErrors_bindParams _).bind fun _ => ?_
  cases s.effects.find? (·.effectId = e) with
  | none => trivial
  | some row => exact (ownErrors_toRecord row).map

theorem ownErrors_appendEvent {eventType : EventType} {version : Nat} {data : Items}
    {at_ : Datetime} : OwnErrors (s.appendEvent e eventType version data at_) := by
  refine (ownErrors_canonicalJson _).bind fun _ => (ownErrors_bindParams _).bind fun _ => ?_
  split
  · exact ownErrors_error rfl rfl
  · trivial

theorem ownErrors_transition {now : Datetime} {expectedVersion : Int} {target : EffectStatus}
    {data : Items} : OwnErrors (s.transition now e expectedVersion target data) := by
  have hcurrent : OwnErrors (s.recordForExpectedVersion e expectedVersion) := by
    refine ownErrors_select.bind fun found => ?_
    cases found with
    | none => exact ownErrors_error rfl rfl
    | some record =>
      dsimp only
      split
      · exact ownErrors_error rfl rfl
      · trivial
  have hassert : ∀ current, OwnErrors (assertTransition current target) := by
    intro current
    unfold assertTransition
    split
    · trivial
    · exact ownErrors_error rfl rfl
  refine hcurrent.bind fun record => (hassert _).bind fun _ => ?_
  refine (ownErrors_bindParams _).bind fun _ => ?_
  split
  · refine ownErrors_select.bind fun found => ?_
    cases found with
    | none => exact ownErrors_error rfl rfl
    | some updated => exact ownErrors_appendEvent.bind fun _ => trivial
  · exact ownErrors_error rfl rfl

end

/-! ## Runs -/

/-- The tables have a row for each id. -/
def SqliteStore.OneRowEach (s : SqliteStore) : Prop :=
  (s.effects.map SqliteEffectRow.effectId).Nodup

section
variable {Target Decision : Type} {adapters : Adapters Target Decision} {hashes : Hashes}
  {tenantKeyProvider : TenantKeyProvider} {target : Target} {shared : Shared SqliteStore Target}
  {log : List BrokerEvent} {w : World Response Exc Procedure Reply (Shared SqliteStore Target)}

/-- What a request leaves of the tables: what was fixed, and what it returns is read from it;
or one more row, of the record that it returns. -/
inductive Leaves (s : SqliteStore) (surroundings : Surroundings Decision) :
    (r : Request) → Response r → SqliteStore → Prop
  | kept {r response s'} : s.Keeps s' → (∀ record ∈ returned r response, s.Shows record) →
      newEffect? r response = none → Leaves s surroundings r response s'
  | reserved {tenantId request contract record json s'} :
      newRecord s.hashes s.tenantKeyProvider surroundings.now surroundings.uuid tenantId request
        contract = .ok record →
      canonicalJson record.request.arguments = .ok json →
      s.Lacks record →
      s'.fixed = s.fixed ++ [(sqliteColumns record json none).fixed] →
      (s'.hashes, s'.tenantKeyProvider) = (s.hashes, s.tenantKeyProvider) →
      Leaves s surroundings (.reserve tenantId request contract)
        (.ok ⟨record, true, false⟩ : Except Exc Reservation) s'

theorem serve_sqlite (hids : shared.store.OneRowEach) (r : Request)
    (surroundings : Surroundings Decision) :
    Possible r (serve sqliteStore adapters r surroundings shared).1 ∧
      Leaves shared.store surroundings r (serve sqliteStore adapters r surroundings shared).1
        (serve sqliteStore adapters r surroundings shared).2.store := by
  have hsilent : ∀ record ∈ ([] : List EffectRecord), shared.store.Shows record :=
    List.forall_mem_nil _
  cases r with
  | reserve tenantId request contract =>
    refine ⟨trivial, ?_⟩
    simp only [serve, sqliteStore]
    cases h : shared.store.reserve surroundings.now surroundings.uuid tenantId request contract with
    | error exc => exact .kept (.refl _) hsilent rfl
    | ok p =>
      obtain ⟨reservation, after⟩ := p
      rcases SqliteStore.reserve_ok h with
        ⟨record, json, hrecord, hjson, hfresh, hfixed, hsecrets, rfl⟩ | ⟨rfl, hshown, hcreated⟩
      · exact .reserved hrecord hjson hfresh hfixed hsecrets
      · refine .kept (.refl _) (List.forall_mem_singleton.mpr hshown) (if_neg ?_)
        rw [hcreated]
        exact Bool.false_ne_true
  | claimDue workerId now leaseFor limit =>
    simp only [serve, sqliteStore]
    cases h : shared.store.claimDue workerId now leaseFor limit with
    | error exc => exact ⟨trivial, .kept (.refl _) hsilent rfl⟩
    | ok p =>
      obtain ⟨hkeeps, hclaimed⟩ := SqliteStore.claimDue_ok hids h
      exact ⟨fun record hm => (hclaimed record hm).2,
        .kept hkeeps (fun record hm => (hclaimed record hm).1) rfl⟩
  | startAttempt effectId expectedVersion workerId =>
    refine ⟨trivial, ?_⟩
    simp only [serve, sqliteStore]
    cases h : shared.store.startAttempt surroundings.now effectId expectedVersion workerId with
    | error exc => exact .kept (.refl _) hsilent rfl
    | ok p => exact .kept (SqliteStore.startAttempt_ok h) hsilent rfl
  | transition effectId expectedVersion target data =>
    simp only [serve, sqliteStore]
    have hraises : NoAdapterError (shared.store.transition surroundings.now effectId expectedVersion
      target data) := ownErrors_transition.noAdapterError
    cases h : shared.store.transition surroundings.now effectId expectedVersion target data with
    | error exc =>
      rw [h] at hraises
      exact ⟨hraises, .kept (.refl _) hsilent rfl⟩
    | ok p =>
      obtain ⟨hkeeps, hshown, hstatus⟩ := SqliteStore.transition_ok h
      exact ⟨hstatus, .kept hkeeps (List.forall_mem_singleton.mpr hshown) rfl⟩
  | get tenantId effectId =>
    simp only [serve, sqliteStore]
    cases h : shared.store.get tenantId effectId with
    | error exc => exact ⟨trivial, .kept (.refl _) hsilent rfl⟩
    | ok found =>
      cases found with
      | none => exact ⟨trivial, .kept (.refl _) hsilent rfl⟩
      | some record =>
        obtain ⟨hshown, hid⟩ := SqliteStore.get_some h
        exact ⟨hid, .kept (.refl _) (List.forall_mem_singleton.mpr hshown) rfl⟩
  | _ => exact ⟨trivial, .kept (.refl _) hsilent rfl⟩

/-- Each effect keeps a row of its own. -/
theorem Leaves.oneRowEach {s s' : SqliteStore} {surroundings : Surroundings Decision} {r : Request}
    {response : Response r} (h : Leaves s surroundings r response s') (hids : s.OneRowEach) :
    s'.OneRowEach := by
  unfold SqliteStore.OneRowEach at hids ⊢
  rw [← SqliteStore.ids_fixed] at hids ⊢
  cases h with
  | kept hkeeps =>
    rw [hkeeps.fixed]
    exact hids
  | @reserved _ _ _ record _ _ _ _ hfresh hfixed =>
    rw [hfixed, List.map_append]
    refine List.nodup_append.mpr ⟨hids, List.nodup_singleton _, fun e hm e' hm' hsame => ?_⟩
    have hnew : e' = record.effectId := List.mem_singleton.mp hm'
    obtain ⟨row, hrow, hid⟩ := List.mem_map.mp hm
    exact (hfresh row hrow).1 (hid.trans (hsame.trans hnew))

theorem oneRowEach_of_protocolRun
    (h : ProtocolRun (sqliteBroker adapters) callerProtocol
      (.initialSqlite hashes tenantKeyProvider target) shared log) : shared.store.OneRowEach := by
  induction h with
  | initial => exact List.nodup_nil
  | answer input _ _ _ _ ih => exact (serve_sqlite ih _ input).2.oneRowEach ih
  | call _ _ ih | begin _ _ _ _ _ ih | land _ _ ih | stop _ ih | disturb _ _ ih => exact ih

/-- Runs of the broker's procedures over the tables are runs of the caller protocol. -/
theorem reachable_sqlite_runs
    (h : (sqliteBroker adapters).Reachable (.initialSqlite hashes tenantKeyProvider target) w) :
    ProtocolRun (sqliteBroker adapters) callerProtocol
      (.initialSqlite hashes tenantKeyProvider target) w.shared w.log :=
  (reachable_protocolRun program_follows
    (fun hrun r input => (serve_sqlite (oneRowEach_of_protocolRun hrun) r input).1) h).1

end

end EffectBroker
