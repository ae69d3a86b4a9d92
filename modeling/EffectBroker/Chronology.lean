import EffectBroker.EventStory

/-!
# Chronological order in the SQLite tables

The tables sort times as text.  The text of a time has two lengths, since a fraction of
zero is left out, and still sorts as the time does; so what is claimed and listed comes
oldest first, and the pages of a list are its consecutive pieces.
-/
namespace EffectBroker
open Python Refinement

/-! ## Pages and readings -/

section
variable {ε α β : Type} {f : α → Except ε β} {list : List α} {values : List β}

/-- The first pages of a list, one after another, are the beginning of the list. -/
theorem flatten_pages (list : List α) (size n : Nat) :
    ((List.range n).map fun k => (list.drop (k * size)).take size).flatten = list.take (n * size) := by
  induction n with
  | zero => rw [Nat.zero_mul, List.take_zero, List.range_zero, List.map_nil, List.flatten_nil]
  | succ n ih =>
    rw [List.range_succ, List.map_append, List.flatten_append, ih, List.map_singleton,
      List.flatten_singleton, Nat.succ_mul, List.take_add]

/-- What the elements of a list are read as. -/
def ReadAs (f : α → Except ε β) : List α → List β → Prop :=
  List.Forall₂ fun a b => f a = .ok b

theorem ReadAs.mapM (h : ReadAs f list values) : list.mapM f = .ok values := by
  induction h with
  | nil => rfl
  | cons hhead _ ih =>
    rw [List.mapM_cons, hhead, ih]
    rfl

theorem exists_readAs (h : ∀ a ∈ list, ∃ b, f a = .ok b) : ∃ values, ReadAs f list values := by
  induction list with
  | nil => exact ⟨[], .nil⟩
  | cons a list ih =>
    obtain ⟨⟨b, hb⟩, hrest⟩ := List.forall_mem_cons.mp h
    obtain ⟨values, hvalues⟩ := ih hrest
    exact ⟨b :: values, .cons hb hvalues⟩

theorem ReadAs.mem_iff (h : ReadAs f list values) {b : β} :
    b ∈ values ↔ ∃ a ∈ list, f a = .ok b := by
  induction h with
  | nil => simp
  | @cons a b' list values hhead _ ih =>
    rw [List.mem_cons, ih, List.exists_mem_cons_iff]
    refine or_congr_left ?_
    rw [hhead, Except.ok.injEq]
    exact eq_comm

/-- An order of the elements is an order of what they are read as. -/
theorem ReadAs.pairwise {P : α → α → Prop} {Q : β → β → Prop} (h : ReadAs f list values)
    (hp : list.Pairwise P) (hpq : ∀ a a' b b', f a = .ok b → f a' = .ok b' → P a a' → Q b b') :
    values.Pairwise Q := by
  induction h with
  | nil => exact .nil
  | @cons a b list values hhead hrest ih =>
    obtain ⟨hfirst, htail⟩ := List.pairwise_cons.mp hp
    refine .cons (fun b' hb' => ?_) (ih htail)
    obtain ⟨a', ha', hread⟩ := (ReadAs.mem_iff hrest).mp hb'
    exact hpq a a' b b' hhead hread (hfirst a' ha')

/-- What the reading keeps of each element it keeps of the list. -/
theorem ReadAs.map_eq {γ : Type} {g : α → γ} {g' : β → γ} (h : ReadAs f list values)
    (hkeep : ∀ a b, f a = .ok b → g' b = g a) : values.map g' = list.map g := by
  induction h with
  | nil => rfl
  | cons hhead _ ih => rw [List.map_cons, List.map_cons, ih, hkeep _ _ hhead]

end

/-! ## Statements -/

/-- The first row is older, or as old with an id that comes first. -/
def CreatedBefore (row row' : SqliteEffectRow) : Prop :=
  ∃ t t', parseTime row.createdAt = .ok t ∧ parseTime row'.createdAt = .ok t' ∧
    (t < t' ∨ t = t' ∧ row.effectId ≤ row'.effectId)

/-- A row that a claim may take: claimable, and without a lease that is active. -/
def SqliteEffectRow.due (row : SqliteEffectRow) (now : Datetime) : Bool :=
  (row.status = EffectStatus.prepared.value ∨ row.status = EffectStatus.retryable.value) &&
    match SqliteStore.leaseActive row now with
    | .ok active => !active
    | .error _ => false

namespace SqliteStore

/-- The rows that a list matches. -/
def matching (s : SqliteStore) (tenantId : Str) (status : Option EffectStatus) : List SqliteEffectRow :=
  s.effects.filter fun row =>
    row.tenantId = tenantId && status.all (fun status => row.status = status.value)

/-- Read the first `n` pages of a list. -/
def readPages (s : SqliteStore) (tenantId : Str) (status : Option EffectStatus) (size n : Nat) :
    Except Exc (List EffectRecord) := do
  let pages ← (List.range n).mapM fun k => s.list tenantId status size (k * size : Nat)
  return pages.flatten

/-- SQLite can be asked for the pages of a list: the size and the offsets are integers of
64 bits, the tenant is a text, and the rows can be read. -/
structure CanPage (s : SqliteStore) (tenantId : Str) (status : Option EffectStatus) (size : Nat) :
    Prop where
  tenant : Python.Encodable tenantId
  width : size < 2 ^ 63
  count : (s.matching tenantId status).length < 2 ^ 63
  readable : ∀ row ∈ s.matching tenantId status, ∃ record, row.toRecord = .ok record

/-- The pages of a list up to the first that is not full. -/
def pageCount (s : SqliteStore) (tenantId : Str) (status : Option EffectStatus) (size : Nat) : Nat :=
  (s.matching tenantId status).length / size + 1

/-- Claims and lists visit effects oldest first, and pages return each effect once. -/
structure Chronological (s : SqliteStore) : Prop where
  visits : ∀ p : SqliteEffectRow → Bool,
    ((s.effects.filter p).insertionSort sqliteBefore).Pairwise CreatedBefore
  claims : ∀ workerId now leaseFor limit claimed s',
    s.claimDue workerId now leaseFor limit = .ok (claimed, s') →
      claimed.map EffectRecord.effectId =
        (((s.effects.filter (·.due now)).insertionSort sqliteBefore).take limit.toNat).map
          SqliteEffectRow.effectId
  pages : ∀ tenantId status size, 1 ≤ size → s.CanPage tenantId status size →
    ∃ records, s.readPages tenantId status size (s.pageCount tenantId status size) = .ok records ∧
      records.Pairwise listedBefore ∧ (records.map EffectRecord.effectId).Nodup ∧
      ∀ record, record ∈ records ↔ ∃ row ∈ s.matching tenantId status, row.toRecord = .ok record

end SqliteStore

/-! ## Parameters, rows and records -/

section
variable {param : SqliteParam} (params : List SqliteParam)

theorem bindParams_cons_of_ok (h : param.bind = .ok ()) :
    bindParams (param :: params) = bindParams params := by
  rw [bindParams, h]

theorem bindParams_cons_of_error {exc : Exc} (h : param.bind = .error exc) :
    bindParams (param :: params) = .error exc := by
  rw [bindParams, h]

end

theorem CreatedBefore.listedBefore {row row' : SqliteEffectRow} {record record' : EffectRecord}
    (h : row.toRecord = .ok record) (h' : row'.toRecord = .ok record')
    (hbefore : CreatedBefore row row') : EffectBroker.listedBefore record record' := by
  obtain ⟨hid, -, -, hcreated⟩ := SqliteEffectRow.toRecord_ok h
  obtain ⟨hid', -, -, hcreated'⟩ := SqliteEffectRow.toRecord_ok h'
  obtain ⟨t, t', ht, ht', horder⟩ := hbefore
  rw [hcreated] at ht
  rw [hcreated'] at ht'
  cases ht
  cases ht'
  unfold EffectBroker.listedBefore
  rw [hid, hid']
  exact horder

theorem due_effectRow (l : EffectLedger) (now : Datetime) : (effectRow l).due now = l.due now := by
  unfold SqliteEffectRow.due
  rw [leaseActive_effectRow]
  show (decide (_ ∨ _) && !!_) = (l.record.status.isClaimable && _)
  have hclaimable : decide (l.record.status.value = EffectStatus.prepared.value ∨
      l.record.status.value = EffectStatus.retryable.value) = l.record.status.isClaimable := by
    rw [Bool.eq_iff_iff, decide_eq_true_iff, EffectStatus.isClaimable_iff]
    exact or_congr EffectStatus.value_injective.eq_iff EffectStatus.value_injective.eq_iff
  rw [Bool.not_not, ← hclaimable]
  rfl

/-! ## The order of the tables -/

namespace SqliteStore
variable {s : SqliteStore} {secrets : Secrets} {b : Book}

/-- The rows of some ledgers are sorted oldest first. -/
theorem createdBefore_queue (ledgers : Book) :
    (ledgers.queue.map effectRow).Pairwise CreatedBefore := by
  rw [List.pairwise_map]
  refine (List.pairwise_insertionSort Book.before ledgers).imp fun {l l'} hbefore => ?_
  exact ⟨l.record.createdAt, l'.record.createdAt, parseTime_isoformat _, parseTime_isoformat _, hbefore⟩

theorem Holds.visits (h : s.Holds secrets b) (p : SqliteEffectRow → Bool) :
    ((s.effects.filter p).insertionSort sqliteBefore).Pairwise CreatedBefore := by
  rw [h.effects, List.filter_map, sort_effectRow]
  exact createdBefore_queue _

theorem Holds.claims (h : s.Holds secrets b) {workerId : Str} {now : Datetime} {leaseFor : Timedelta}
    {limit : Int} {claimed : List EffectRecord} {s' : SqliteStore}
    (hclaim : s.claimDue workerId now leaseFor limit = .ok (claimed, s')) :
    claimed.map EffectRecord.effectId =
      (((s.effects.filter (·.due now)).insertionSort sqliteBefore).take limit.toNat).map
        SqliteEffectRow.effectId := by
  have hrows : (s.effects.filter (·.due now)).insertionSort sqliteBefore =
      (b.queue.filter (·.due now)).map effectRow := by
    rw [h.effects, List.filter_map, sort_effectRow, Book.filter_queue h.good.toUnique]
    exact congrArg (fun p => (Book.queue (b.filter p)).map effectRow)
      (funext fun l => due_effectRow l now)
  -- the claim has returned, so nothing need be known of what fits
  have hagrees : Agrees False _ (s.claimDue workerId now leaseFor limit)
      (b.claimDue b.queue workerId now leaseFor limit) :=
    agrees_claimDue h workerId now leaseFor limit False.elim
  obtain ⟨⟨records, b'⟩, hbook, hreads, -⟩ := hagrees.of_ok hclaim
  have hread : claimed.map EffectRecord.effectId = records.map EffectRecord.effectId := by
    refine List.forall₂_eq_eq_eq ▸ List.forall₂_map_left_iff.mpr (List.forall₂_map_right_iff.mpr
      (hreads.imp fun read record hr => ?_))
    obtain ⟨keyRetention, settlementBound, rfl⟩ := sqliteRead_ok hr
    rfl
  rw [hread, hrows]
  obtain ⟨hlimit, rfl, -⟩ | ⟨expiresAt, -, -, rfl, -⟩ := Book.claimDue_ok hbook
  · rw [Int.toNat_of_nonpos hlimit]
    rfl
  · rw [← List.map_take, List.map_map, List.map_map]
    rfl

/-- A page is a piece of what the sorted rows are read as. -/
theorem list_eq_ok {tenantId : Str} {status : Option EffectStatus} {size offset : Nat}
    {records : List EffectRecord} (htenant : Python.Encodable tenantId) (hsize : size < 2 ^ 63)
    (hoffset : offset < 2 ^ 63)
    (hread : ReadAs SqliteEffectRow.toRecord
      ((s.matching tenantId status).insertionSort sqliteBefore) records) :
    s.list tenantId status size offset = .ok ((records.drop offset).take size) := by
  have hbind : bindParams (.text tenantId :: status.toList.map (fun status => .text status.value) ++
      [.int size, .int offset]) = .ok () := by
    refine bindParams_eq_ok.mpr (List.forall_mem_append.mpr ⟨List.forall_mem_cons.mpr ⟨htenant, ?_⟩, ?_⟩)
    · exact List.forall_mem_map.mpr fun status _ => encodable_status status
    · refine List.forall_mem_cons.mpr ⟨?_, List.forall_mem_singleton.mpr ?_⟩
      · constructor <;> omega
      · constructor <;> omega
  unfold SqliteStore.list
  rw [hbind, ok_bind]
  show (page ((s.matching tenantId status).insertionSort sqliteBefore) size offset).mapM _ = _
  unfold page
  rw [if_neg (by omega), Int.toNat_natCast, Int.toNat_natCast]
  exact ReadAs.mapM (List.forall₂_take _ (List.forall₂_drop _ hread))

theorem Holds.pages (h : s.Holds secrets b) {tenantId : Str} {status : Option EffectStatus}
    {size : Nat} (hsize : 1 ≤ size) (hpage : s.CanPage tenantId status size) :
    ∃ records, s.readPages tenantId status size (s.pageCount tenantId status size) = .ok records ∧
      records.Pairwise listedBefore ∧ (records.map EffectRecord.effectId).Nodup ∧
      ∀ record, record ∈ records ↔ ∃ row ∈ s.matching tenantId status, row.toRecord = .ok record := by
  have hperm : ((s.matching tenantId status).insertionSort sqliteBefore).Perm
      (s.matching tenantId status) := List.perm_insertionSort _ _
  obtain ⟨records, hread⟩ := exists_readAs fun row hrow => hpage.readable row (hperm.mem_iff.mp hrow)
  have hlength : records.length = (s.matching tenantId status).length :=
    (List.Forall₂.length_eq hread).symm.trans hperm.length_eq
  refine ⟨records, ?_, ?_, ?_, fun record => ?_⟩
  · have hpages : ((List.range (s.pageCount tenantId status size)).mapM fun k =>
        s.list tenantId status size (k * size : Nat)) =
        .ok ((List.range (s.pageCount tenantId status size)).map fun k =>
          (records.drop (k * size)).take size) := by
      refine mapM_ok fun k hk => list_eq_ok hpage.tenant hpage.width ?_ hread
      -- no page starts after the last row
      have hfull : k ≤ (s.matching tenantId status).length / size :=
        Nat.le_of_lt_succ (List.mem_range.mp hk)
      have hstart : k * size ≤ (s.matching tenantId status).length :=
        (Nat.le_div_iff_mul_le hsize).mp hfull
      have hcount := hpage.count
      omega
    have hend : records.length ≤ s.pageCount tenantId status size * size := by
      rw [hlength]
      exact (Nat.lt_mul_of_div_lt (Nat.lt_succ_self _) hsize).le
    unfold readPages
    rw [hpages, ok_bind, flatten_pages, List.take_of_length_le hend]
    rfl
  · exact hread.pairwise (h.visits _) fun _ _ _ _ => CreatedBefore.listedBefore
  · rw [hread.map_eq (g := SqliteEffectRow.effectId) fun _ _ hr => (SqliteEffectRow.toRecord_ok hr).effectId]
    refine (hperm.map _).nodup_iff.mpr ((List.filter_sublist.map _).nodup ?_)
    rw [h.effects, List.map_map]
    exact h.good.ids
  · rw [hread.mem_iff]
    exact exists_congr fun row => and_congr_left' hperm.mem_iff

theorem Holds.chronological (h : s.Holds secrets b) : s.Chronological where
  visits := h.visits
  claims _ _ _ _ _ _ hclaim := h.claims hclaim
  pages _ _ _ hsize hpage := h.pages hsize hpage

/-- A page is not wider than an integer of SQLite. -/
theorem list_of_wide {tenantId : Str} {size offset : Nat} (htenant : Python.Encodable tenantId)
    (hwide : 2 ^ 63 ≤ size) : s.list tenantId none size offset = .error .overflowError := by
  have htext : (SqliteParam.text tenantId).bind = .ok () := SqliteParam.bind_eq_ok.mpr htenant
  have hint : (SqliteParam.int size).bind = .error .overflowError := by
    have hout : ¬(-(2 ^ 63) ≤ (size : Int) ∧ (size : Int) < 2 ^ 63) := by omega
    simp only [SqliteParam.bind, if_neg hout]
  unfold SqliteStore.list
  rw [Option.toList_none, List.map_nil, List.cons_append, List.nil_append,
    bindParams_cons_of_ok _ htext, bindParams_cons_of_error _ hint]
  rfl

theorem readPages_of_wide {tenantId : Str} {size n : Nat} (htenant : Python.Encodable tenantId)
    (hwide : 2 ^ 63 ≤ size) (hn : 0 < n) :
    s.readPages tenantId none size n = .error .overflowError := by
  obtain ⟨n, rfl⟩ := Nat.exists_eq_succ_of_ne_zero (Nat.ne_of_gt hn)
  unfold readPages
  rw [List.range_succ_eq_map, List.mapM_cons, list_of_wide htenant hwide]
  rfl

end SqliteStore

/-! ## The theorem -/

/-- **The text of a time sorts as the time**, and is read back; and in every run of the
SQLite store what is claimed and listed comes in the order of the times. -/
theorem timestamps_chronological (hashes : Hashes) (tenantKeyProvider : TenantKeyProvider) :
    (∀ a b : Datetime, a.isoformat < b.isoformat ↔ a < b) ∧
    (∀ a : Datetime, parseTime a.isoformat = .ok a) ∧
    ∀ log s, StoreRun SqliteStore.serve (.initial hashes tenantKeyProvider) log s →
      EachCall (fun _ c => c.WellFormed) (.initial hashes tenantKeyProvider) log →
      s.Chronological := by
  refine ⟨fun a b => Datetime.isoformat_lt_iff, parseTime_isoformat, ?_⟩
  intro log s hrun hcalls
  obtain ⟨b, hholds, -⟩ := (SqliteStore.holds_initial hashes tenantKeyProvider).run hrun hcalls
  exact hholds.chronological

/-- The microsecond after a whole second. -/
def microsecondLater : Datetime := ⟨63902000000000001, by decide⟩

/-- Two operations are reserved, the second by a clock that is a microsecond behind. -/
def twoRowCalls : List TimedCall :=
  [⟨.reserve sampleTenant sampleRequest (sampleContract .unsafeClass 0), sampleTime 0, str "2"⟩,
    ⟨.reserve sampleTenant otherRequest (sampleContract .unsafeClass 0), microsecondLater, str "1"⟩]

/-- A whole second comes before the microsecond after it, whose text is longer; and the pages of
a run with two such rows have the older row first. -/
theorem timestamps_chronological_sample :
    let s := storeOf SqliteStore.serve (.initial sampleHashes sampleKeys) twoRowCalls
    (sampleTime 0).isoformat < microsecondLater.isoformat ∧
    (sampleTime 0).isoformat.length < microsecondLater.isoformat.length ∧
    s.effects.map SqliteEffectRow.effectId = [str "eff_1", str "eff_2"] ∧
    (s.readPages sampleTenant none 1 2).toOption.map (List.map EffectRecord.effectId) =
      some [str "eff_2", str "eff_1"] ∧ s.Chronological := by
  intro s
  obtain ⟨hsorts, -, hruns⟩ := timestamps_chronological sampleHashes sampleKeys
  have harguments : sampleRequest.arguments.WellFormed := ⟨List.nodup_singleton _, trivial, trivial⟩
  exact ⟨(hsorts _ _).mpr (by decide), by decide +kernel, by decide +kernel, by decide +kernel,
    hruns _ _ (storeRun_servedCalls _) (eachCall_cons harguments (eachCall_cons harguments trivial))⟩

/-- Pages of 2 ^ 63 cannot be read, though there is an effect to read. -/
theorem wide_pages_overflow : ∃ log s,
    StoreRun SqliteStore.serve (.initial sampleHashes sampleKeys) log s ∧
    s.matching sampleTenant none ≠ [] ∧
    ∀ n, 0 < n → s.readPages sampleTenant none (2 ^ 63) n = .error .overflowError := by
  have hrun : StoreRun SqliteStore.serve (.initial sampleHashes sampleKeys) _ _ :=
    .call ⟨.reserve sampleTenant sampleRequest (sampleContract .unsafeClass 0), sampleTime 0, []⟩
      .start
  refine ⟨_, _, hrun, List.ne_nil_of_length_pos (by decide +kernel), fun n hn => ?_⟩
  exact SqliteStore.readPages_of_wide (encodable_str _) (Nat.le_refl _) hn

end EffectBroker
