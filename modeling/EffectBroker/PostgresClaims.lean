import EffectBroker.PostgresTransactions

/-!
# Claims of the Postgres store

`claim_due` locks the rows that it selects, and passes over those that others have locked.
What it has locked nobody else changes until it commits: the rows it claims are as it has
selected them, and it never waits.
-/
namespace EffectBroker
open Python Concurrency Transactions

/-! ## What is selected -/

/-- The lease of an effect that may be claimed is over, in the eyes of this store. -/
def EffectLedger.overdue (l : EffectLedger) (now : Datetime) : Bool :=
  l.record.status.isClaimable && l.lease.all (fun lease => lease.expiresAt < now)

/-- The ledgers that a claim takes from a queue, if it skips none of them. -/
def Book.picksOverdue (queue : Book) (skip : Str → Bool) (now : Datetime) (limit : Int) : Book :=
  ((queue.filter (·.overdue now)).filter fun l => !skip l.id).take limit.toNat

theorem EffectLedger.due_of_overdue {l : EffectLedger} {now : Datetime} (h : l.overdue now = true) :
    l.due now = true := by
  unfold EffectLedger.overdue at h
  unfold EffectLedger.due
  rw [Bool.and_eq_true] at h ⊢
  refine ⟨h.1, Option.all_eq_true_iff_get _ _ |>.mpr fun hsome => ?_⟩
  have hlt := (Option.all_eq_true_iff_get _ _).mp h.2 hsome
  exact decide_eq_true (of_decide_eq_true hlt).le

theorem Book.mem_picksOverdue {queue : Book} {skip : Str → Bool} {now : Datetime} {limit : Int}
    {l : EffectLedger} (h : l ∈ queue.picksOverdue skip now limit) :
    l ∈ queue ∧ l.overdue now = true :=
  List.mem_filter.mp (List.mem_filter.mp (List.mem_of_mem_take h)).1

theorem Book.nodup_picksOverdue {b : Book} (hb : b.Unique) (skip : Str → Bool) (now : Datetime)
    (limit : Int) : ((b.queue.picksOverdue skip now limit).map EffectLedger.id).Nodup := by
  have hsublist : List.Sublist (b.queue.picksOverdue skip now limit) b.queue :=
    (List.take_sublist _ _).trans (List.filter_sublist.trans List.filter_sublist)
  refine (hsublist.map _).nodup ?_
  exact ((List.perm_insertionSort _ _).map _).nodup_iff.mpr hb.ids

section
variable {jsonb : Jsonb} {L : Discipline (postgres jsonb) PostgresBook} {a : PostgresBook}
  {l : EffectLedger}

theorem due_jsonbRow (jsonb : Jsonb) (l : EffectLedger) (now : Datetime) :
    (jsonb.effectRow l).due now = l.overdue now := by
  unfold IntentRow.due EffectLedger.overdue
  have hstatus : ∀ status : EffectStatus, (decide (status.value = EffectStatus.prepared.value) ||
      decide (status.value = EffectStatus.retryable.value)) = status.isClaimable := by
    intro status
    cases status <;> decide
  have hlease : (l.lease.map Lease.expiresAt).all (· < now) =
      l.lease.all (fun lease => lease.expiresAt < now) := by
    cases l.lease <;> rfl
  exact congrArg₂ (· && ·) (hstatus l.record.status) hlease

/-- The rows that are selected are those of the ledgers that the book picks. -/
theorem PostgresTables.Holds.selectDue {s : PostgresTables} (h : s.Holds jsonb a)
    (passed : Str → Bool) (locked : PostgresKey → Bool) (now : Datetime) (limit : Int) :
    s.selectDue passed locked now limit =
      (Book.picksOverdue a.book.queue (fun e => passed e || locked (.row e)) now limit).map
        jsonb.effectRow := by
  unfold PostgresTables.selectDue Book.picksOverdue
  have hdue : ((·.due now) ∘ jsonb.effectRow : EffectLedger → Bool) = (·.overdue now) :=
    funext fun l => due_jsonbRow jsonb l now
  rw [h.intents, List.filter_map, hdue, Book.filter_queue h.good.toUnique, Book.queue,
    ← List.map_insertionSort (r := Book.before) (s := intentBefore) jsonb.effectRow _
      fun l _ l' _ => Iff.rfl, List.filter_map, List.map_take]
  refine congrArg (fun ledgers : Book => (ledgers.map jsonb.effectRow).take limit.toNat) ?_
  refine List.filter_congr fun l _ => ?_
  show (!passed l.id && !locked (.row l.id)) = !(passed l.id || locked (.row l.id))
  rw [Bool.not_or]

/-! ## One row -/

/-- The writes for a row that is claimed. -/
def Jsonb.claimWrites (jsonb : Jsonb) (l : EffectLedger) (workerId : Str) (now leaseUntil : Datetime) :
    List PostgresWrite :=
  [.update (jsonb.effectRow (l.claimed workerId now leaseUntil)),
    .event (jsonb.eventRow ⟨l.id, l.events.length + 1, .claimed, l.record.version + 1, now,
      [(text "worker_id", .str workerId), (text "lease_expires_at", .str leaseUntil.isoformat)]⟩)]

/-- They claim the effect of the book. -/
theorem PostgresTables.Holds.claimed {s : PostgresTables} (h : s.Holds jsonb a)
    (hl : a.book.ledger l.id = some l) {now : Datetime} (hdue : l.due now = true) (workerId : Str)
    (leaseUntil : Datetime) :
    (sees jsonb s (jsonb.claimWrites l workerId now leaseUntil)).Holds jsonb
      { a with book := a.book.modify l.id (·.claimed workerId now leaseUntil) } := by
  refine h.modify [] [] (fun _ => rfl) hl (.claimed hdue) rfl
    (h.updated hl (f := (·.claimed workerId now leaseUntil)) fun _ => rfl) (List.append_nil _).symm rfl
    (List.append_nil _).symm (List.forall_mem_nil _) rfl (storable_claimed workerId leaseUntil)
    (List.append_nil _).symm rfl (List.forall_mem_nil _) fun rows hrows => ?_
  rw [List.append_nil]
  exact success_tells (l := l) rfl rfl (lastSuccess_claimed l workerId now leaseUntil) hrows

/-- Claim a row that is held: it is there, as it was selected. -/
theorem safe_claimRow (hL : Governs L) {held : Set PostgresKey} {writes : List PostgresWrite}
    {g : Book → Book} {workerId : Str} {now leaseUntil : Datetime}
    {Q : Post Exc EffectRecord PostgresWrite PostgresKey PostgresBook} (hrow : .row l.id ∈ held)
    (hread : ∃ read, jsonb.read l.record = .ok read)
    (hview : ∀ a' s, L.rely held a a' → s.Holds jsonb a' →
      (sees jsonb s writes).Holds jsonb { a' with book := g a'.book } ∧
        (g a'.book).ledger l.id = some l)
    (hok : ∀ record a' keys, jsonb.read (claimedRecord l.record now) = .ok record →
      L.rely held a a' → Q (.ok record) (writes ++ jsonb.claimWrites l workerId now leaseUntil)
        (held ∪ keys) a') :
    Safe L (PostgresStore.claimRow workerId now leaseUntil l.id) writes held a Q := by
  obtain ⟨read, hread⟩ := Jsonb.read_same (b := claimedRecord l.record now) rfl hread
  unfold PostgresStore.claimRow
  rw [safe_bind]
  refine safe_request fun a₁ s₁ oracle locked hrely₁ hholds₁ _ hclear => ?_
  obtain ⟨hs₁, hl₁⟩ := hview a₁ s₁ hrely₁ (hL.holds hholds₁)
  have hrows : (sees jsonb s₁ writes).claimedRows l.id workerId leaseUntil now =
      [jsonb.effectRow (l.claimed workerId now leaseUntil)] := by
    unfold PostgresTables.claimedRows
    rw [hs₁.intentsOf, hl₁]
    rfl
  rcases updateRows_cases locked (jsonb.effectRow (l.claimed workerId now leaseUntil)) with
    ⟨hlocked, -⟩ | hupdate
  · have hfree : locked (.row l.id) = false := hclear.own _ hrow
    have hlocked : locked (.row l.id) = true := hlocked
    rw [hfree] at hlocked
    cases hlocked
  · have hexec : updateRows locked
        ((sees jsonb s₁ writes).claimedRows l.id workerId leaseUntil now) = _ :=
      (congrArg (updateRows locked) hrows).trans hupdate
    refine .inr ⟨_, hexec, fun k hk g hg => ?_, ?_⟩
    · rw [hL.guard] at hg
      obtain rfl := List.mem_singleton.mp hk
      cases hg
    · dsimp only
      rw [safe_bind]
      show Safe L (PostgresStore.appendEvent l.id .claimed (l.record.version + 1) _ now >>= fun _ =>
        PostgresStore.compute (jsonb.effectRow (l.claimed workerId now leaseUntil)).toRecord) _ _ a₁ Q
      have hdata := storable_claimed workerId leaseUntil
      rw [safe_bind]
      refine safe_appendEvent hL (n := l.events.length) (.inl hrow) hdata.wellFormed
        (fun a' s' hrely hs => ?_) (fun _ a₂ hrely₂ => ?_) fun exc a₂ _ hraise => ?_
      · obtain ⟨hs', hl'⟩ := hview a' s' (L.trans hrely₁ (hL.weaken Set.subset_union_left hrely)) hs
        rw [sees_append]
        exact ⟨hs'.numbered hl', (hasIntent_update _ _ _).trans (hs'.hasIntent hl')⟩
      · show Safe L (PostgresStore.compute (jsonb.read (claimedRecord l.record now))) _ _ a₂ Q
        rw [hread, safe_ofExcept, List.append_assoc, Set.union_assoc]
        exact hok read a₂ _ hread (L.trans hrely₁ (hL.weaken Set.subset_union_left hrely₂))
      · rw [(jsonValue_eq_ok hdata.wellFormed).mpr ⟨hdata, rfl⟩] at hraise
        cases hraise

/-! ## All rows -/

/-- The loop of `claim_due`, over rows that are held. -/
theorem safe_claimRows (hL : Governs L) {held : Set PostgresKey} {writes : List PostgresWrite}
    {g : Book → Book} {workerId : Str} {now leaseUntil : Datetime} {rest : Book}
    (hrows : ∀ l ∈ rest, .row l.id ∈ held) (hdue : ∀ l ∈ rest, l.due now = true)
    (hread : ∀ l ∈ rest, ∃ read, jsonb.read l.record = .ok read)
    (hnodup : (rest.map EffectLedger.id).Nodup)
    (hview : ∀ a' s, L.rely held a a' → s.Holds jsonb a' →
      (sees jsonb s writes).Holds jsonb { a' with book := g a'.book } ∧
        ∀ l ∈ rest, (g a'.book).ledger l.id = some l) :
    Safe L (PostgresStore.claimRows workerId now leaseUntil (rest.map jsonb.effectRow)) writes held a
      fun result writes' held' a' => ∃ records, result = .ok records ∧
        List.Forall₂ (fun l record => jsonb.read (claimedRecord l.record now) = .ok record) rest records ∧
        held ⊆ held' ∧ L.rely held a a' ∧ ∀ a'' s, L.rely held' a' a'' → s.Holds jsonb a'' →
          (sees jsonb s writes').Holds jsonb { a'' with
            book := (g a''.book).claimAll (rest.map EffectLedger.id) workerId now leaseUntil } := by
  induction rest generalizing held writes g a with
  | nil =>
    refine ⟨[], rfl, .nil, Set.Subset.rfl, L.refl held a, fun a'' s hrely hs => ?_⟩
    rw [List.map_nil, claimAll_nil]
    exact (hview a'' s hrely hs).1
  | cons l rest ih =>
    obtain ⟨hfirst, hrest⟩ := List.forall_mem_cons.mp hrows
    obtain ⟨hnot, hnodup⟩ := List.nodup_cons.mp hnodup
    rw [List.map_cons]
    unfold PostgresStore.claimRows
    rw [safe_bind]
    refine safe_claimRow hL (g := g) hfirst (hread l (List.mem_cons_self ..)) (fun a' s hrely hs => ?_)
      fun record a₁ keys hrecord hrely₁ => ?_
    · obtain ⟨hs', hl⟩ := hview a' s hrely hs
      exact ⟨hs', hl l (List.mem_cons_self ..)⟩
    · dsimp only
      rw [safe_bind]
      -- the other rows are as they were
      have hview₁ : ∀ a' s, L.rely (held ∪ keys) a₁ a' → s.Holds jsonb a' →
          (sees jsonb s (writes ++ jsonb.claimWrites l workerId now leaseUntil)).Holds jsonb
              { a' with book := (g a'.book).modify l.id (·.claimed workerId now leaseUntil) } ∧
            ∀ l' ∈ rest, ((g a'.book).modify l.id (·.claimed workerId now leaseUntil)).ledger l'.id =
              some l' := by
        intro a' s hrely hs
        obtain ⟨hs', hl⟩ := hview a' s (L.trans hrely₁ (hL.weaken Set.subset_union_left hrely)) hs
        constructor
        · rw [sees_append]
          exact hs'.claimed (hl l (List.mem_cons_self ..)) (hdue l (List.mem_cons_self ..)) workerId
            leaseUntil
        · intro l' hl'
          have hne : l'.id ≠ l.id := fun he => hnot (List.mem_map.mpr ⟨l', hl', he⟩)
          exact (Book.ledger_modify_ne (f := (·.claimed workerId now leaseUntil)) (fun _ => rfl)
            hne).trans (hl l' (List.mem_cons_of_mem _ hl'))
      refine (ih (g := fun b => (g b).modify l.id (·.claimed workerId now leaseUntil))
        (fun l' hl' => .inl (hrest l' hl')) (fun l' hl' => hdue l' (List.mem_cons_of_mem _ hl'))
        (fun l' hl' => hread l' (List.mem_cons_of_mem _ hl')) hnodup hview₁).mono ?_
      rintro result writes' held' a₂ ⟨records, rfl, hrecords, hsubset, hrely₂, hafter⟩
      refine ⟨record :: records, rfl, .cons hrecord hrecords, Set.subset_union_left.trans hsubset,
        L.trans hrely₁ (hL.weaken Set.subset_union_left hrely₂), fun a'' s hrely hs => ?_⟩
      rw [List.map_cons, claimAll_cons hnot]
      exact hafter a'' s hrely hs

/-- What `claim_due` does: the ledgers that it picked when it selected its rows, nobody has
changed since, and its commit claims them. -/
def ClaimsDue (L : Discipline (postgres jsonb) PostgresBook) (workerId : Str) (now : Datetime)
    (leaseFor : Timedelta) (limit : Int) (a₀ : PostgresBook) :
    Post Exc (List EffectRecord) PostgresWrite PostgresKey PostgresBook := fun result writes held a =>
  match result with
  | .ok records => limit ≤ 0 ∧ records = [] ∧ writes = [] ∨
      ∃ leaseUntil a₁ passed locked, 0 < limit ∧ now.add leaseFor = some leaseUntil ∧
        L.rely ∅ a₀ a₁ ∧ L.env passed locked ∧ a₁.book.Unique ∧ L.rely ∅ a₁ a ∧
        let picked := Book.picksOverdue a₁.book.queue (fun e => passed e || locked (.row e)) now limit
        List.Forall₂ (fun l record => jsonb.read (claimedRecord l.record now) = .ok record) picked
          records ∧
        (∀ l ∈ picked, .row l.id ∈ held) ∧ (∀ l ∈ picked, a.book.ledger l.id = some l) ∧
        ∀ a' s, L.rely held a a' → s.Holds jsonb a' → (sees jsonb s writes).Holds jsonb { a' with
          book := a'.book.claimAll (picked.map EffectLedger.id) workerId now leaseUntil }
  | .error exc => exc = .overflowError ∧ 0 < limit ∧ now.add leaseFor = none

theorem safe_claimDue (hL : Governs L) (workerId : Str) (now : Datetime) (leaseFor : Timedelta)
    (limit : Int) :
    Safe L (PostgresStore.claimDue workerId now leaseFor limit) [] ∅ a
      (ClaimsDue L workerId now leaseFor limit a) := by
  unfold PostgresStore.claimDue
  by_cases hlimit : limit ≤ 0
  · rw [if_pos hlimit, safe_pure]
    exact .inl ⟨hlimit, rfl, rfl⟩
  · rw [if_neg hlimit]
    have hpositive : 0 < limit := by omega
    cases hadd : now.add leaseFor with
    | none => exact ⟨rfl, hpositive, hadd⟩
    | some leaseUntil =>
      dsimp only
      rw [safe_bind]
      refine safe_request fun a₁ s₁ passed locked hrely₁ hholds₁ henv _ => ?_
      have hs₁ := hL.holds hholds₁
      have hunique := hs₁.good.toUnique
      let picked := Book.picksOverdue a₁.book.queue (fun e => passed e || locked (.row e)) now limit
      have hselect : s₁.selectDue passed locked now limit = picked.map jsonb.effectRow :=
        hs₁.selectDue passed locked now limit
      have hm : ∀ l ∈ picked, l ∈ a₁.book := fun l hl =>
        Book.mem_queue.mp (Book.mem_picksOverdue hl).1
      have hdue : ∀ l ∈ picked, l.due now = true := fun l hl =>
        EffectLedger.due_of_overdue (Book.mem_picksOverdue hl).2
      have hnodup : (picked.map EffectLedger.id).Nodup := Book.nodup_picksOverdue hunique _ now limit
      refine .inr ⟨⟨s₁.selectDue passed locked now limit, [], _⟩, rfl, fun k hk g hg => ?_, ?_⟩
      · rw [hL.guard] at hg
        obtain ⟨row, -, rfl⟩ := List.mem_map.mp hk
        cases hg
      · dsimp only
        rw [hselect, List.nil_append, Set.empty_union]
        let keys := (s₁.selectDue passed locked now limit).map fun row => PostgresKey.row row.effectId
        have hrows : ∀ l ∈ picked, PostgresKey.row l.id ∈ {k | k ∈ keys} := by
          intro l hl
          refine List.mem_map.mpr ⟨jsonb.effectRow l, ?_, rfl⟩
          rw [hselect]
          exact List.mem_map_of_mem hl
        have hkept : ∀ a', L.rely {k | k ∈ keys} a₁ a' → ∀ l ∈ picked, a'.book.ledger l.id = some l := by
          intro a' hrely l hl
          exact hL.keeps (hrows l hl) hrely (hunique.ledger_of_mem (hm l hl))
        refine (safe_claimRows hL (g := id) hrows hdue (fun l hl => hs₁.readable l (hm l hl)) hnodup
          fun a' s hrely hs => ?_).mono ?_
        · exact ⟨hs, hkept a' hrely⟩
        rintro result writes' held' a₂ ⟨records, rfl, hrecords, hsubset, hrely₂, hafter⟩
        exact .inr ⟨leaseUntil, a₁, passed, locked, hpositive, hadd, hrely₁, henv, hunique,
          hL.weaken (Set.empty_subset _) hrely₂, hrecords, fun l hl => hsubset (hrows l hl), hkept a₂ hrely₂, hafter⟩

end
end EffectBroker
