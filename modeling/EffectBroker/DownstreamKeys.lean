import EffectBroker.EncodedBytes
import EffectBroker.EventStory
import EffectBroker.MemoryBook

/-!
# What downstream keys tell apart

A downstream key is derived from a tenant and an operation key with a NUL between them.
Neither may not have a NUL of its own, so two operations may have one key, and then they
are one operation to the target.
-/
namespace EffectBroker
open Python

/-! ## A separator between two texts -/

/-- One tenant goes on where the other ends, with a NUL and a text that the operation key
of the other begins with. -/
def Overlaps (tenantId operationKey tenantId' operationKey' : Str) : Prop :=
  ∃ middle, tenantId' = tenantId ++ str "\x00" ++ middle ∧
    operationKey = middle ++ str "\x00" ++ operationKey'

theorem separated_eq_iff {tenantId operationKey tenantId' operationKey' : Str} :
    tenantId ++ str "\x00" ++ operationKey = tenantId' ++ str "\x00" ++ operationKey' ↔
      (tenantId = tenantId' ∧ operationKey = operationKey') ∨
      Overlaps tenantId operationKey tenantId' operationKey' ∨
      Overlaps tenantId' operationKey' tenantId operationKey := by
  have hnul : str "\x00" = [CodePoint.ofChar '\x00'] := rfl
  have hgoes : ∀ {t o t' o' : Str}, (∃ rest, t' = t ++ rest ∧
      CodePoint.ofChar '\x00' :: o = rest ++ CodePoint.ofChar '\x00' :: o') →
        (t = t' ∧ o = o') ∨ Overlaps t o t' o' := by
    rintro t o t' o' ⟨rest, rfl, heq⟩
    cases rest with
    | nil => exact .inl ⟨(List.append_nil t).symm, (List.cons.inj heq).2⟩
    | cons c middle =>
      obtain ⟨rfl, rfl⟩ := List.cons.inj heq
      refine .inr ⟨middle, ?_, ?_⟩ <;> rw [hnul, List.append_assoc] <;> rfl
  constructor
  · intro h
    rw [hnul, List.append_assoc, List.append_assoc] at h
    rcases List.append_eq_append_iff.mp h with hrest | ⟨rest, ht, ho⟩
    · rcases hgoes hrest with hsame | hover
      · exact .inl hsame
      · exact .inr (.inl hover)
    · rcases hgoes ⟨rest, ht, ho⟩ with ⟨ht, ho⟩ | hover
      · exact .inl ⟨ht.symm, ho.symm⟩
      · exact .inr (.inr hover)
  · rintro (⟨rfl, rfl⟩ | ⟨middle, rfl, rfl⟩ | ⟨middle, rfl, rfl⟩)
    · rfl
    · simp only [List.append_assoc]
    · simp only [List.append_assoc]

section
variable {hashes : Hashes} {tenantKey tenantKey' : Bytes}
  {tenantId operationKey tenantId' operationKey' key key' : Str}

/-- Keys are equal only if the digests are. -/
theorem downstreamKey_eq {message : Bytes}
    (hmessage : encode (tenantId ++ str "\x00" ++ operationKey) = .ok message)
    (h : downstreamKey hashes tenantKey tenantId operationKey = .ok key) :
    key = urlsafeBase64 (hashes.hmacSha256 tenantKey message) := by
  obtain ⟨bytes, hbytes, h⟩ := bind_eq_ok.mp h
  rw [hmessage] at hbytes
  cases hbytes
  exact (Except.ok.inj h).symm

/-- Keys that are equal come from equal messages, if the digests do. -/
theorem separated_of_keys
    (hhmac : ∀ m m', hashes.hmacSha256 tenantKey m = hashes.hmacSha256 tenantKey' m' → m = m')
    (h : downstreamKey hashes tenantKey tenantId operationKey = .ok key)
    (h' : downstreamKey hashes tenantKey' tenantId' operationKey' = .ok key) :
    tenantId ++ str "\x00" ++ operationKey = tenantId' ++ str "\x00" ++ operationKey' := by
  obtain ⟨message, hmessage, -⟩ := bind_eq_ok.mp h
  obtain ⟨message', hmessage', -⟩ := bind_eq_ok.mp h'
  have hkeys := (downstreamKey_eq hmessage h).symm.trans (downstreamKey_eq hmessage' h')
  obtain rfl := hhmac _ _ (urlsafeBase64_injective _ _ hkeys)
  exact encodeUtf8_injective (encode_eq_ok.mp hmessage) (encode_eq_ok.mp hmessage')

/-- Different operations with one key overlap, if equal digests come from equal messages. -/
theorem overlaps_of_keys
    (hhmac : ∀ m m', hashes.hmacSha256 tenantKey m = hashes.hmacSha256 tenantKey' m' → m = m')
    (h : downstreamKey hashes tenantKey tenantId operationKey = .ok key)
    (h' : downstreamKey hashes tenantKey' tenantId' operationKey' = .ok key)
    (hne : (tenantId, operationKey) ≠ (tenantId', operationKey')) :
    Overlaps tenantId operationKey tenantId' operationKey' ∨
      Overlaps tenantId' operationKey' tenantId operationKey := by
  rcases separated_eq_iff.mp (separated_of_keys hhmac h h') with ⟨rfl, rfl⟩ | hover
  · exact absurd rfl hne
  · exact hover

theorem keys_of_separated
    (hsame : tenantId ++ str "\x00" ++ operationKey = tenantId' ++ str "\x00" ++ operationKey')
    (h : downstreamKey hashes tenantKey tenantId operationKey = .ok key)
    (h' : downstreamKey hashes tenantKey tenantId' operationKey' = .ok key') : key = key' := by
  obtain ⟨message, hmessage, -⟩ := bind_eq_ok.mp h
  rw [downstreamKey_eq hmessage h, downstreamKey_eq (hsame ▸ hmessage) h']

end

/-! ## The keys of a ledger -/

/-- What the target is told apart by: the operation of a tenant, and its key. -/
structure KeyedEffect where
  effectId : Str
  tenantId : Str
  operationKey : Str
  downstreamKey : Str

def EffectRecord.keyed (record : EffectRecord) : KeyedEffect :=
  ⟨record.effectId, record.tenantId, record.request.operationKey, record.downstreamKey⟩

/-- One tenant and operation go on as the other's. -/
def KeyedEffect.Overlaps (x y : KeyedEffect) : Prop :=
  EffectBroker.Overlaps x.tenantId x.operationKey y.tenantId y.operationKey

/-- Effects whose tenants share a secret have their own keys exactly if they do not overlap. -/
def SharersTellApart (tenantKeyProvider : TenantKeyProvider) (effects : List KeyedEffect) : Prop :=
  ∀ x ∈ effects, ∀ y ∈ effects, tenantKeyProvider x.tenantId = tenantKeyProvider y.tenantId →
    x.effectId ≠ y.effectId → (x.downstreamKey ≠ y.downstreamKey ↔ ¬x.Overlaps y ∧ ¬y.Overlaps x)

/-- The effects of a ledger have their own keys, unless they overlap; and where tenants share a
secret, those that overlap share a key. -/
structure KeysTellApart (tenantKeyProvider : TenantKeyProvider) (effects : List KeyedEffect) :
    Prop where
  separate : ∀ x ∈ effects, ∀ y ∈ effects, x.effectId ≠ y.effectId → ¬x.Overlaps y →
    ¬y.Overlaps x → x.downstreamKey ≠ y.downstreamKey
  collide : ∀ x ∈ effects, ∀ y ∈ effects,
    tenantKeyProvider x.tenantId = tenantKeyProvider y.tenantId → x.Overlaps y →
      x.downstreamKey = y.downstreamKey

section
variable {hashes : Hashes} {tenantKeyProvider : TenantKeyProvider} {b : Book} {l l' : EffectLedger}

/-- Pinned records of different effects that have one key overlap. -/
theorem Book.overlaps_of_keys (hb : b.Unique)
    (hhmac : ∀ k k' m m', tenantKeyProvider l.record.tenantId = .ok k →
      tenantKeyProvider l'.record.tenantId = .ok k' →
      hashes.hmacSha256 k m = hashes.hmacSha256 k' m' → m = m')
    (hl : l ∈ b) (hl' : l' ∈ b) (hpinned : Pinned hashes tenantKeyProvider l.record)
    (hpinned' : Pinned hashes tenantKeyProvider l'.record) (hne : l.id ≠ l'.id)
    (hkeys : l.record.downstreamKey = l'.record.downstreamKey) :
    l.record.keyed.Overlaps l'.record.keyed ∨ l'.record.keyed.Overlaps l.record.keyed := by
  obtain ⟨tenantKey, hprovided, hkey⟩ := hpinned.key
  obtain ⟨tenantKey', hprovided', hkey'⟩ := hpinned'.key
  rw [← hkeys] at hkey'
  refine EffectBroker.overlaps_of_keys (hhmac tenantKey tenantKey' · · hprovided hprovided') hkey hkey' ?_
  intro hidentity
  exact hne (congrArg EffectLedger.id (List.inj_on_of_nodup_map hb.identities hl hl' hidentity))

/-- Pinned records that overlap share a key, if their tenants share a secret. -/
theorem keys_of_overlaps (hpinned : Pinned hashes tenantKeyProvider l.record)
    (hpinned' : Pinned hashes tenantKeyProvider l'.record)
    (hshared : tenantKeyProvider l.record.tenantId = tenantKeyProvider l'.record.tenantId)
    (hover : l.record.keyed.Overlaps l'.record.keyed) :
    l.record.downstreamKey = l'.record.downstreamKey := by
  obtain ⟨tenantKey, hprovided, hkey⟩ := hpinned.key
  obtain ⟨tenantKey', hprovided', hkey'⟩ := hpinned'.key
  rw [hshared, hprovided'] at hprovided
  cases hprovided
  exact keys_of_separated (separated_eq_iff.mpr (.inr (.inl hover))) hkey hkey'

theorem Book.sharersTellApart (hinj : ∀ key, Function.Injective (hashes.hmacSha256 key))
    (hb : b.Unique) (hpinned : ∀ l ∈ b, Pinned hashes tenantKeyProvider l.record) :
    SharersTellApart tenantKeyProvider (b.map fun l => l.record.keyed) := by
  unfold SharersTellApart
  simp only [List.forall_mem_map]
  intro l hl l' hl' hshared hne
  have hshared : tenantKeyProvider l.record.tenantId = tenantKeyProvider l'.record.tenantId := hshared
  rw [← not_or, not_iff_not]
  constructor
  · refine Book.overlaps_of_keys hb ?_ hl hl' (hpinned l hl) (hpinned l' hl') hne
    intro k k' m m' hprovided hprovided' hdigests
    rw [hshared, hprovided'] at hprovided
    cases hprovided
    exact hinj k hdigests
  · rintro (hover | hover)
    · exact keys_of_overlaps (hpinned l hl) (hpinned l' hl') hshared hover
    · exact (keys_of_overlaps (hpinned l' hl') (hpinned l hl) hshared.symm hover).symm

theorem Book.keysTellApart (hhmac : ∀ k k' m m', hashes.hmacSha256 k m = hashes.hmacSha256 k' m' → m = m')
    (hb : b.Unique) (hpinned : ∀ l ∈ b, Pinned hashes tenantKeyProvider l.record) :
    KeysTellApart tenantKeyProvider (b.map fun l => l.record.keyed) := by
  refine ⟨?_, ?_⟩
  · simp only [List.forall_mem_map]
    intro l hl l' hl' hne hover hover' hkeys
    rcases Book.overlaps_of_keys hb (fun k k' m m' _ _ => hhmac k k' m m') hl hl' (hpinned l hl)
      (hpinned l' hl') hne hkeys with hoverlap | hoverlap
    · exact hover hoverlap
    · exact hover' hoverlap
  · simp only [List.forall_mem_map]
    intro l hl l' hl' hshared hover
    exact keys_of_overlaps (hpinned l hl) (hpinned l' hl') hshared hover

end

namespace InMemoryStore
variable {s : InMemoryStore}

/-- The effects with their keys. -/
def keyed (s : InMemoryStore) : List KeyedEffect := s.records.values.map EffectRecord.keyed

end InMemoryStore

namespace SqliteStore
variable {s s' : SqliteStore} {secrets : Secrets} {b : Book}

/-- The effects with their keys. -/
def keyed (s : SqliteStore) : List KeyedEffect :=
  s.effects.map fun row => ⟨row.effectId, row.tenantId, row.operationKey, row.downstreamKey⟩

/-- What holds of new records, and of all records of an effect alike, holds in a run. -/
theorem Holds.run_records {Q : EffectRecord → Prop} {log : List (Served SqliteStore)}
    (hs : s.Holds secrets b) (h : StoreRun SqliteStore.serve s log s')
    (hcalls : EachCall (fun _ c => c.WellFormed) s log) (hb : ∀ l ∈ b, Q l.record)
    (hsame : ∀ record record', SameEffect record record' → Q record → Q record')
    (hnew : ∀ now uuid tenantId request contract record,
      newRecord secrets.1 secrets.2 now uuid tenantId request contract = .ok record → Q record) :
    ∃ b', s'.Holds secrets b' ∧ ∀ l ∈ b', Q l.record := by
  refine h.invariant (I := fun s' => ∃ b', s'.Holds secrets b' ∧ ∀ l ∈ b', Q l.record)
    ⟨b, hs, hb⟩ hcalls ?_
  rintro s c ⟨b', hholds, hall⟩ hwf
  have hfollows := serve_follows hholds hwf
  have hrecords := @Book.serve_records secrets.1 secrets.2 b' Q c hall hsame
    fun _ _ _ record _ hrecord => hnew _ _ _ _ _ record hrecord
  generalize SqliteStore.serve c s = out at hfollows ⊢
  generalize b'.serve secrets.1 secrets.2 c = out' at hfollows hrecords
  cases hfollows with
  | ok _ hholds' => exact ⟨_, hholds', hrecords⟩
  | error => exact ⟨b', hholds, hall⟩
  | unfit => exact ⟨b', hholds, hall⟩

end SqliteStore

/-- `P` holds of the effects of every ledger that a store with the provider reaches. -/
def InLedgers (hashes : Hashes) (tenantKeyProvider : TenantKeyProvider) (P : List KeyedEffect → Prop) :
    Prop :=
  (∀ log s, StoreRun InMemoryStore.serve (.initial hashes tenantKeyProvider) log s → P s.keyed) ∧
  ∀ log s, StoreRun SqliteStore.serve (.initial hashes tenantKeyProvider) log s →
    EachCall (fun _ c => c.WellFormed) (.initial hashes tenantKeyProvider) log → P s.keyed

/-- What holds of pinned records with their own identities holds in every ledger. -/
theorem inLedgers_of_pinned {hashes : Hashes} {tenantKeyProvider : TenantKeyProvider}
    {P : List KeyedEffect → Prop} (h : ∀ b : Book, b.Unique →
      (∀ l ∈ b, Pinned hashes tenantKeyProvider l.record) → P (b.map fun l => l.record.keyed)) :
    InLedgers hashes tenantKeyProvider P := by
  constructor
  · intro log s hrun
    obtain ⟨hkept, hpinned, hsecrets⟩ := InMemoryStore.pinned_of_run hrun
    obtain ⟨rfl, rfl⟩ := Prod.mk.inj hsecrets
    have hkeyed : s.keyed = s.book.map fun l => l.record.keyed := by
      rw [InMemoryStore.keyed, Dict.values, InMemoryStore.book, List.map_map, List.map_map]
      rfl
    rw [hkeyed]
    exact h s.book hkept.unique hpinned
  · intro log s hrun hcalls
    obtain ⟨b, hholds, hpinned⟩ := (SqliteStore.holds_initial hashes tenantKeyProvider).run_records
      hrun hcalls (Q := Pinned hashes tenantKeyProvider) (List.forall_mem_nil _)
      (fun _ _ hsame h => h.same hsame) fun now uuid tenantId request contract record hrecord => by
        obtain ⟨digest, tenantKey, key, hdigest, htenantKey, hkey, rfl⟩ := newRecord_ok hrecord
        exact ⟨hdigest, tenantKey, htenantKey, hkey⟩
    have hkeyed : s.keyed = b.map fun l => l.record.keyed := by
      rw [SqliteStore.keyed, hholds.effects, List.map_map]
      rfl
    rw [hkeyed]
    exact h b hholds.good.toUnique hpinned

/-- **Downstream keys tell operations apart exactly if** the operations do not overlap; and in
every ledger effects that do not overlap have their own keys, where tenants share a secret, and
everywhere if equal digests under any two secrets come from equal messages. -/
theorem downstream_keys_separate_iff (hashes : Hashes) :
    (∀ tenantKey, Function.Injective (hashes.hmacSha256 tenantKey) →
      ∀ tenantId operationKey tenantId' operationKey' key key',
        downstreamKey hashes tenantKey tenantId operationKey = .ok key →
        downstreamKey hashes tenantKey tenantId' operationKey' = .ok key' →
        (tenantId, operationKey) ≠ (tenantId', operationKey') →
          (key ≠ key' ↔ ¬Overlaps tenantId operationKey tenantId' operationKey' ∧
            ¬Overlaps tenantId' operationKey' tenantId operationKey)) ∧
    ((∀ tenantKey, Function.Injective (hashes.hmacSha256 tenantKey)) →
      ∀ tenantKeyProvider : TenantKeyProvider,
        InLedgers hashes tenantKeyProvider (SharersTellApart tenantKeyProvider)) ∧
    ((∀ k k' m m', hashes.hmacSha256 k m = hashes.hmacSha256 k' m' → m = m') →
      ∀ tenantKeyProvider : TenantKeyProvider,
        InLedgers hashes tenantKeyProvider (KeysTellApart tenantKeyProvider)) := by
  refine ⟨?_, fun hinj tenantKeyProvider => inLedgers_of_pinned fun b hb hpinned =>
      Book.sharersTellApart hinj hb hpinned,
    fun hhmac tenantKeyProvider => inLedgers_of_pinned fun b hb hpinned =>
      Book.keysTellApart hhmac hb hpinned⟩
  intro tenantKey hinj t o t' o' key key' h h' hne
  rw [← not_or, not_iff_not]
  constructor
  · intro hkeys
    subst hkeys
    exact overlaps_of_keys (fun _ _ he => hinj he) h h' hne
  · intro hover
    exact keys_of_separated (separated_eq_iff.mpr (.inr hover)) h h'

/-- Hash functions that hide nothing. -/
def openHashes : Hashes := ⟨id, fun _ message => message⟩

/-- A reservation of an operation of a tenant. -/
def reserveFor (tenantId operationKey uuid : Str) : TimedCall :=
  ⟨.reserve tenantId { sampleRequest with operationKey } (sampleContract .unsafeClass 0), sampleTime 0,
    uuid⟩

/-- Operations of two tenants that differ in where the NUL stands. -/
def shiftedCalls : List TimedCall :=
  [reserveFor (str "ab") (str "c") (str "2"), reserveFor (str "a") (str "bc") (str "1")]

theorem downstream_keys_separate_sample :
    downstreamKey openHashes [] (str "a") (str "bc") ≠ downstreamKey openHashes [] (str "ab") (str "c") ∧
    (downstreamKey openHashes [] (str "a") (str "bc") ≠ downstreamKey openHashes [] (str "ab") (str "c") →
      ¬Overlaps (str "a") (str "bc") (str "ab") (str "c")) ∧
    let s := storeOf InMemoryStore.serve (.initial openHashes fun _ => .ok []) shiftedCalls
    let s' := storeOf SqliteStore.serve (.initial openHashes fun _ => .ok []) shiftedCalls
    s.keyed.map KeyedEffect.downstreamKey = [str "YQBiYw", str "YWIAYw"] ∧
    s'.keyed.map KeyedEffect.downstreamKey = [str "YQBiYw", str "YWIAYw"] ∧
    SharersTellApart (fun _ => .ok []) s.keyed ∧ KeysTellApart (fun _ => .ok []) s.keyed ∧
    SharersTellApart (fun _ => .ok []) s'.keyed ∧ KeysTellApart (fun _ => .ok []) s'.keyed := by
  obtain ⟨bytes, hbytes⟩ := encode_of_encodable (encodable_str "a\x00bc")
  obtain ⟨bytes', hbytes'⟩ := encode_of_encodable (encodable_str "ab\x00c")
  have hkey : downstreamKey openHashes [] (str "a") (str "bc") = .ok (urlsafeBase64 bytes) :=
    bind_eq_ok.mpr ⟨bytes, hbytes, rfl⟩
  have hkey' : downstreamKey openHashes [] (str "ab") (str "c") = .ok (urlsafeBase64 bytes') :=
    bind_eq_ok.mpr ⟨bytes', hbytes', rfl⟩
  obtain ⟨hpairs, hsharers, hledgers⟩ := downstream_keys_separate_iff openHashes
  have hiff := hpairs [] (fun _ _ h => h) _ _ _ _ _ _ hkey hkey' (by decide)
  have harguments : sampleRequest.arguments.WellFormed := ⟨List.nodup_singleton _, trivial, trivial⟩
  have hcalls : EachCall (fun _ c => c.WellFormed) (.initial openHashes fun _ => .ok [])
      (servedCalls SqliteStore.serve (.initial openHashes fun _ => .ok []) shiftedCalls) :=
    eachCall_cons harguments (eachCall_cons harguments trivial)
  refine ⟨by decide +kernel, fun hne => (hiff.mp fun he => hne ?_).1, by decide +kernel, by decide +kernel,
    (hsharers (fun _ _ _ h => h) _).1 _ _ (storeRun_servedCalls _),
    (hledgers (fun _ _ _ _ h => h) _).1 _ _ (storeRun_servedCalls _),
    (hsharers (fun _ _ _ h => h) _).2 _ _ (storeRun_servedCalls _) hcalls,
    (hledgers (fun _ _ _ _ h => h) _).2 _ _ (storeRun_servedCalls _) hcalls⟩
  rw [hkey, hkey', he]

/-- Two operations of two tenants with one key, in a ledger whose tenants share a secret. -/
theorem overlapping_keys : ∃ log s,
    StoreRun InMemoryStore.serve (.initial openHashes fun _ => .ok []) log s ∧
    (∀ key, Function.Injective (openHashes.hmacSha256 key)) ∧
    ∃ x ∈ s.keyed, ∃ y ∈ s.keyed, x.effectId ≠ y.effectId ∧ x.downstreamKey = y.downstreamKey := by
  have hrun : StoreRun InMemoryStore.serve (.initial openHashes fun _ => .ok []) _ _ :=
    .call (reserveFor (str "a") (str "b\x00c") []) (.call (reserveFor (str "a\x00b") (str "c") []) .start)
  refine ⟨_, _, hrun, fun _ _ _ h => h, ?_⟩
  generalize hs : (InMemoryStore.serve _ (InMemoryStore.serve _ _).2).2 = s
  have hkeyed : s.keyed.map (fun x => (x.effectId, x.downstreamKey)) =
      [(str "eff_000001", str "YQBiAGM"), (str "eff_000002", str "YQBiAGM")] := by
    rw [← hs]
    decide +kernel
  have hlength : s.keyed.length = 2 := by
    rw [← List.length_map, hkeyed]
    rfl
  obtain ⟨x, y, hlist⟩ := List.length_eq_two.mp hlength
  rw [hlist] at hkeyed ⊢
  obtain ⟨hx, hy⟩ := List.cons.inj hkeyed
  obtain ⟨hy, -⟩ := List.cons.inj hy
  obtain ⟨hid, hkey⟩ := Prod.mk.inj hx
  obtain ⟨hid', hkey'⟩ := Prod.mk.inj hy
  refine ⟨x, List.mem_cons_self .., y, List.mem_cons_of_mem _ (List.mem_cons_self ..), ?_, ?_⟩
  · rw [hid, hid']
    decide
  · rw [hkey, hkey']

end EffectBroker
