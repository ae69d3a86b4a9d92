import EffectBroker.JsonFidelity
import EffectBroker.SqliteReads

/-!
# Plain JSON values

Values made of nothing but what JSON has are read from the SQLite tables as equal values:
only the order of the items of a dictionary may change.  What a store replies is equal
then, as long as no duration is changed by the floats.
-/
namespace EffectBroker
open Python Refinement

/-! ## Equal values -/

mutual
/-- Plain JSON: no tuples, and texts for keys. -/
def PlainJson : Value → Prop
  | .none | .bool _ | .int _ | .str _ | .float (.finite _) => True
  | .list items => PlainJsonAll items
  | .dict items => PlainJsonItems items
  | _ => False

def PlainJsonAll : List Value → Prop
  | [] => True
  | value :: rest => PlainJson value ∧ PlainJsonAll rest

def PlainJsonItems : Items → Prop
  | [] => True
  | (.str _, value) :: rest => PlainJson value ∧ PlainJsonItems rest
  | _ => False
end

/-- Values that are equal in Python: the order of the items of a dictionary is not part of it. -/
inductive SameValue : Value → Value → Prop
  | refl (value) : SameValue value value
  | list {xs ys} : List.Forall₂ SameValue xs ys → SameValue (.list xs) (.list ys)
  | dict {xs ys zs : Items} : xs.map Prod.fst = ys.map Prod.fst →
      List.Forall₂ SameValue (xs.map Prod.snd) (ys.map Prod.snd) → ys.Perm zs →
      SameValue (.dict xs) (.dict zs)

mutual
/-- Plain JSON is not changed by normalizing it. -/
theorem same_normalize : ∀ value : Value, PlainJson value → SameValue value (normalize value)
  | .none, _ | .bool _, _ | .int _, _ | .str _, _ | .float (.finite _), _ => .refl _
  | .list items, h => .list (same_normalizeAll items h)
  | .dict items, h => by
    refine .dict (keys_normalizeItems items).symm (same_normalizeItems items h) ?_
    exact (List.perm_insertionSort itemLe _).symm

theorem same_normalizeAll : ∀ items : List Value, PlainJsonAll items →
    List.Forall₂ SameValue items (normalizeAll items)
  | [], _ => .nil
  | value :: rest, h => .cons (same_normalize value h.1) (same_normalizeAll rest h.2)

theorem same_normalizeItems : ∀ items : Items, PlainJsonItems items →
    List.Forall₂ SameValue (items.map Prod.snd) ((normalizeItems items).map Prod.snd)
  | [], _ => .nil
  | (.str _, value) :: rest, h => .cons (same_normalize value h.1) (same_normalizeItems rest h.2)
end

mutual
theorem PlainJson.jsonLike : ∀ value : Value, PlainJson value → JsonLike value
  | .none, _ | .bool _, _ | .int _, _ | .str _, _ | .float (.finite _), _ => trivial
  | .list items, h => PlainJsonAll.jsonLike items h
  | .dict items, h => PlainJsonItems.jsonLike items h

theorem PlainJsonAll.jsonLike : ∀ items : List Value, PlainJsonAll items → JsonLikeAll items
  | [], _ => trivial
  | value :: rest, h => ⟨PlainJson.jsonLike value h.1, PlainJsonAll.jsonLike rest h.2⟩

theorem PlainJsonItems.jsonLike : ∀ items : Items, PlainJsonItems items → JsonLikeItems items
  | [], _ => trivial
  | (.str _, value) :: rest, h => ⟨PlainJson.jsonLike value h.1, PlainJsonItems.jsonLike rest h.2⟩
end

/-- The values of plain items are plain. -/
theorem PlainJsonItems.value {items : Items} (h : PlainJsonItems items) {key value : Value}
    (hm : (key, value) ∈ items) : PlainJson value := by
  induction items with
  | nil => cases hm
  | cons item items ih =>
    obtain ⟨k, v⟩ := item
    cases k with
    | str s =>
      rcases List.mem_cons.mp hm with heq | hm
      · obtain ⟨-, rfl⟩ := Prod.mk.inj heq
        exact h.1
      · exact ih h.2 hm
    | _ => exact h.elim

/-! ## Equal replies -/

/-- Records that are equal in Python. -/
structure SameRecord (p q : EffectRecord) : Prop where
  same : q = { p with request := { p.request with arguments := q.request.arguments } }
  arguments : SameValue p.request.arguments q.request.arguments

/-- Events that are equal in Python. -/
structure SameEvent (p q : StoredEvent) : Prop where
  same : q = { p with data := q.data }
  data : SameValue (.dict p.data) (.dict q.data)

/-- Receipts that are equal in Python. -/
def SameReceipt (p q : Items) : Prop :=
  ∃ record metadata metadata' at_, p = receiptOf record metadata at_ ∧
    q = receiptOf record metadata' at_ ∧ SameValue (.dict metadata) (.dict metadata')

/-- Replies that are equal in Python. -/
inductive SameReply : StoreValue → StoreValue → Prop
  | reservation {p q : Reservation} : SameRecord p.effect q.effect → q.created = p.created →
      q.replayed = p.replayed → SameReply (.reservation p) (.reservation q)
  | effects {p q} : List.Forall₂ SameRecord p q → SameReply (.effects p) (.effects q)
  | attemptId {a} : SameReply (.attemptId a) (.attemptId a)
  | effect {p q} : SameRecord p q → SameReply (.effect p) (.effect q)
  | found {p q} : Option.Rel SameRecord p q → SameReply (.found p) (.found q)
  | receipt {p q} : Option.Rel SameReceipt p q → SameReply (.receipt p) (.receipt q)
  | events {p q} : List.Forall₂ SameEvent p q → SameReply (.events p) (.events q)
  | number {n} : SameReply (.number n) (.number n)

/-- A record that is read as an equal one. -/
structure EffectRecord.Plain (record : EffectRecord) : Prop where
  arguments : PlainJson record.request.arguments
  contract : record.contract.IsWhole

/-- A reply that is read as an equal one. -/
structure StoreValue.Plain (value : StoreValue) : Prop where
  records : ∀ record ∈ value.records, record.Plain
  receipt : ∀ items, value = .receipt (some items) → PlainJson (.dict items)
  events : ∀ events, value = .events events → ∀ event ∈ events, PlainJson (.dict event.data)

theorem durationOfReal_whole {value : Option Timedelta} (h : ∀ d ∈ value, d.IsWhole) :
    durationOfReal (realSeconds value) = .ok value := by
  cases value with
  | none => rfl
  | some d =>
    rw [realSeconds, Option.map_some, durationOfReal, (h d rfl).ofFloatSeconds]

/-- A record whose durations are whole is read with its contract. -/
theorem sqliteRead_whole {record : EffectRecord} (h : record.contract.IsWhole) :
    sqliteRead record = .ok { record with
      request := { record.request with arguments := normalize record.request.arguments } } := by
  unfold sqliteRead
  rw [durationOfReal_whole h.1, durationOfReal_whole h.2]
  rfl

theorem EffectRecord.Plain.reads {read record : EffectRecord} (hplain : record.Plain)
    (h : Reads read record) : SameRecord record read := by
  have hread := sqliteRead_whole hplain.contract
  rw [show sqliteRead record = .ok read from h] at hread
  cases hread
  exact ⟨rfl, same_normalize _ hplain.arguments⟩

/-- **What is read of a plain reply is equal to it.** -/
theorem ReadsValue.same {p q : StoreValue} (h : ReadsValue p q) (hplain : q.Plain) :
    SameReply q p := by
  have hrecords := hplain.records
  cases h with
  | @reservation p q hread =>
    obtain ⟨hcreated, hreplayed, hread⟩ := hread
    refine .reservation ?_ hcreated hreplayed
    split at hread
    · rw [hread]
      exact ⟨rfl, .refl _⟩
    · exact (hrecords _ (List.mem_singleton.mpr rfl)).reads hread
  | effects hread =>
    have hboth := (List.forall₂_and_left _ _).mpr ⟨hrecords, hread.flip⟩
    exact .effects (hboth.imp fun _ _ h => h.1.reads h.2)
  | attemptId => exact .attemptId
  | effect hread => exact .effect ((hrecords _ (List.mem_singleton.mpr rfl)).reads hread)
  | found hread =>
    cases hread with
    | none => exact .found .none
    | some hread => exact .found (.some ((hrecords _ (List.mem_singleton.mpr rfl)).reads hread))
  | receipt hread =>
    cases hread with
    | none => exact .receipt .none
    | some hread =>
      obtain ⟨record, metadata, at_, -, rfl, rfl⟩ := hread
      have hmem : (text "metadata", Value.dict metadata) ∈ receiptOf record metadata at_ := by
        simp [receiptOf]
      have hmetadata : PlainJson (.dict metadata) :=
        PlainJsonItems.value (hplain.receipt _ rfl) hmem
      exact .receipt (.some ⟨record, metadata, _, at_, rfl, rfl, same_normalize _ hmetadata⟩)
  | @events q _ =>
    refine .events ?_
    rw [List.forall₂_map_left_iff, List.forall₂_map_right_iff, List.forall₂_same]
    intro event hevent
    have hdata := hplain.events _ rfl event.stored (List.mem_map_of_mem hevent)
    exact ⟨rfl, same_normalize (.dict event.data) hdata⟩
  | number => exact .number

/-! ## Plain books -/

/-- A ledger with nothing but plain JSON in it. -/
structure EffectLedger.Plain (l : EffectLedger) : Prop where
  record : l.record.Plain
  events : ∀ event ∈ l.events, PlainJson (.dict event.data)

/-- A call that brings nothing but plain JSON. -/
def StoreCall.Plain : StoreCall → Prop
  | .reserve _ request contract => PlainJson request.arguments ∧ contract.IsWhole
  | .transition _ _ _ data => PlainJson (.dict data)
  | _ => True

namespace Book
variable {b : Book} {hashes : Hashes} {tenantKeyProvider : TenantKeyProvider}

/-- A plain event leaves a ledger plain. -/
theorem plain_append {l l' : EffectLedger} {event : MemoryEvent} (h : l.Plain)
    (hsame : SameEffect l.record l'.record) (hevents : l'.events = l.events ++ [event])
    (hdata : PlainJson (.dict event.data)) : l'.Plain := by
  refine ⟨?_, ?_⟩
  · rw [hsame]
    exact ⟨h.record.arguments, h.record.contract⟩
  · rw [hevents]
    exact List.forall_mem_append.mpr ⟨h.events, List.forall_mem_singleton.mpr hdata⟩

theorem plain_modify (h : ∀ l ∈ b, l.Plain) {f : EffectLedger → EffectLedger} {e : Str}
    (hf : ∀ l, l.Plain → (f l).Plain) : ∀ l ∈ b.modify e f, l.Plain := by
  refine List.forall_mem_map.mpr fun l hl => ?_
  by_cases he : l.id = e
  · rw [if_pos he]
    exact hf l (h l hl)
  · rw [if_neg he]
    exact h l hl

/-- A plain call leaves a plain book. -/
theorem serve_plain (h : ∀ l ∈ b, l.Plain) {c : TimedCall} (hc : c.call.Plain) :
    ∀ l ∈ (b.serve hashes tenantKeyProvider c).2, l.Plain := by
  obtain ⟨call, now, uuid⟩ := c
  cases call with
  | reserve tenantId request contract =>
    rcases b.outcome_cases .reservation
      (b.reserve hashes tenantKeyProvider now uuid tenantId request contract) with hb | ⟨value, hok⟩
    · exact hb.symm ▸ h
    · obtain ⟨record, hrecord, ⟨l, -, -, -, hb⟩ | ⟨-, -, -, hb⟩⟩ := reserve_ok hok
      · exact hb.symm ▸ h
      · obtain ⟨digest, tenantKey, key, -, -, -, rfl⟩ := newRecord_ok hrecord
        refine hb.symm ▸ List.forall_mem_append.mpr ⟨h, List.forall_mem_singleton.mpr
          ⟨⟨hc.1, hc.2⟩, List.forall_mem_singleton.mpr ⟨trivial, trivial⟩⟩⟩
  | claimDue workerId now' leaseFor limit =>
    rcases b.outcome_cases .effects (b.claimDue b.queue workerId now' leaseFor limit) with
      hb | ⟨value, hok⟩
    · exact hb.symm ▸ h
    · obtain ⟨-, -, hb⟩ | ⟨expiresAt, -, -, -, hb⟩ := claimDue_ok hok
      · exact hb.symm ▸ h
      · refine hb.symm ▸ List.forall_mem_map.mpr fun l hl => ?_
        by_cases hm : l.id ∈ (picks b.queue now' limit).map EffectLedger.id
        · rw [if_pos hm]
          exact plain_append (h l hl) rfl rfl ⟨trivial, trivial, trivial⟩
        · rw [if_neg hm]
          exact h l hl
  | startAttempt e expectedVersion workerId =>
    rcases b.outcome_cases .attemptId (b.startAttempt now e expectedVersion workerId) with
      hb | ⟨value, hok⟩
    · exact hb.symm ▸ h
    · obtain ⟨l, -, -, -, hb⟩ := startAttempt_ok hok
      exact hb.symm ▸ plain_modify h fun l hl =>
        plain_append hl rfl rfl ⟨trivial, trivial, trivial, trivial⟩
  | transition e expectedVersion target data =>
    rcases b.outcome_cases .effect (b.transition now e expectedVersion target data) with
      hb | ⟨value, hok⟩
    · exact hb.symm ▸ h
    · obtain ⟨l, -, -, -, -, hb⟩ := transition_ok hok
      exact hb.symm ▸ plain_modify h fun l hl =>
        plain_append hl rfl rfl ⟨trivial, trivial, hc, trivial⟩
  | get | list | receipt | events | attemptCount | count => exact h

/-- The metadata of a success is plain. -/
theorem plain_lastSuccess {l : EffectLedger} (h : l.Plain) {metadata : Items} {at_ : Datetime}
    (hlast : InMemoryStore.lastSuccess l.events = some (metadata, at_)) :
    PlainJson (.dict metadata) := by
  obtain ⟨event, hfind, heq⟩ := Option.map_eq_some_iff.mp hlast
  obtain ⟨rfl, -⟩ := Prod.mk.inj heq
  have hdata := h.events event (List.mem_reverse.mp (List.mem_of_find?_eq_some hfind))
  cases hget : event.data.get? (str "metadata") with
  | none => exact trivial
  | some value =>
    obtain ⟨⟨key, value'⟩, hm, rfl⟩ := Option.map_eq_some_iff.mp hget
    have hvalue := PlainJsonItems.value hdata (List.mem_of_find?_eq_some hm)
    cases value' with
    | dict items => exact hvalue
    | mapping => exact hvalue.elim
    | _ => exact trivial

theorem outcome_reply {α : Type} {reply : α → StoreValue} {result : Except Exc (α × Book)}
    {value : StoreValue} (h : (b.outcome reply result).1 = .ok value) : ∃ a, value = reply a := by
  cases result with
  | error exc => cases h
  | ok pair =>
    cases h
    exact ⟨pair.1, rfl⟩

/-- What a plain book replies is plain. -/
theorem serve_plain_reply (h : ∀ l ∈ b, l.Plain) {c : TimedCall} (hc : c.call.Plain)
    {value : StoreValue} (hok : (b.serve hashes tenantKeyProvider c).1 = .ok value) :
    value.Plain := by
  refine ⟨fun record hr => ?_, fun items hv => ?_, fun events hv event hevent => ?_⟩
  · obtain ⟨l, hl, rfl⟩ := serve_shows hok record hr
    exact (serve_plain h hc l hl).record
  · subst hv
    obtain ⟨call, now, uuid⟩ := c
    cases call with
    | reserve | claimDue | startAttempt | transition => cases (outcome_reply hok).choose_spec
    | receipt tenantId e =>
      obtain ⟨l, hl, hreceipt⟩ := Option.bind_eq_some_iff.mp (StoreValue.receipt.inj (Except.ok.inj hok))
      obtain ⟨⟨metadata, at_⟩, hlast, rfl⟩ := Option.map_eq_some_iff.mp hreceipt
      have hmetadata := plain_lastSuccess (h l (mem_of_ledger (ofTenant_mem hl).1).1) hlast
      exact ⟨trivial, trivial, trivial, trivial, trivial, hmetadata, trivial, trivial⟩
    | get | list | events | attemptCount | count => cases hok
  · subst hv
    obtain ⟨call, now, uuid⟩ := c
    cases call with
    | reserve | claimDue | startAttempt | transition => cases (outcome_reply hok).choose_spec
    | events e =>
      cases hok
      obtain ⟨event, hm, rfl⟩ := List.mem_map.mp hevent
      unfold eventsOf at hm
      cases hl : b.ledger e with
      | none =>
        rw [hl] at hm
        cases hm
      | some l =>
        rw [hl] at hm
        exact (h l (mem_of_ledger hl).1).events event hm
    | get | list | receipt | attemptCount | count => cases hok

end Book
end EffectBroker
