import EffectBroker.AttemptPayload
import EffectBroker.DurableTarget
import EffectBroker.Fronts
import EffectBroker.SuccessEvidence

/-!
# Successes and the durable target

The broker over a store and the durable target.  Callers may stop at any point and never come
back: whatever the broker records as a success of a dispatch or a probe is the one row that the
target has for the key of the effect, and the target has no row but of effects that were
presented to it.
-/
namespace EffectBroker
open Python Concurrency

/-! ## What adapters are told -/

/-- The row that the target has for the effect has the id. -/
def DurableTarget.Names (target : DurableTarget) (effect : EffectRecord) (externalId : Value) : Prop :=
  ∃ row, target.select effect.downstreamKey = some row ∧ externalId = .str row.externalId

/-- The row is of an effect. -/
def TargetEffectRow.IsOf (row : TargetEffectRow) (effect : EffectRecord) : Prop :=
  row.downstreamKey = effect.downstreamKey ∧ ∃ payload, DurableTargetAdapter.payload effect = .ok payload ∧
    canonicalJson (.dict payload) = .ok row.payloadJson

/-- The ids that a caller has been told are those of the target. -/
def Hold.Told (target : DurableTarget) : Hold → Prop
  | .dispatched _ effect _ (.ok result) =>
    ∀ externalId, result.externalId = .ok externalId → target.Names effect externalId
  | .probed effect (.ok probe) => probe.status = .ok (.known .committed) →
    ∀ externalId, probe.externalId = .ok externalId → target.Names effect externalId
  | _ => True

section
variable {target target' : DurableTarget} {effect : EffectRecord} {moment : DurableTarget.Moment}

theorem DurableTarget.Names.later {externalId : Value} (h : target.Names effect externalId)
    (heffects : target.effects <+: target'.effects) : target'.Names effect externalId := by
  obtain ⟨row, hselect, hid⟩ := h
  exact ⟨row, select_later hselect heffects, hid⟩

theorem Hold.Told.later {hold : Hold} (h : hold.Told target)
    (heffects : target.effects <+: target'.effects) : hold.Told target' := by
  cases hold with
  | dispatched route effect attemptId answer =>
    cases answer with
    | error exc => trivial
    | ok result => exact fun externalId hid => (h externalId hid).later heffects
  | probed effect answer =>
    cases answer with
    | error exc => trivial
    | ok probe => exact fun hstatus externalId hid => (h hstatus externalId hid).later heffects
  | _ => trivial

/-- What a dispatch makes of the target, and what it tells. -/
theorem DurableTargetAdapter.dispatch_spec (h : target.Sound) (moment : DurableTarget.Moment)
    (effect : EffectRecord) :
    let out := DurableTargetAdapter.dispatch target moment effect
    out.2.Sound ∧ target.effects <+: out.2.effects ∧
      (∀ row ∈ out.2.effects, row ∈ target.effects ∨ row.IsOf effect) ∧
      ∀ result, out.1 = .ok result → out.2.Names effect (optionalText result.externalId) := by
  unfold DurableTargetAdapter.dispatch
  cases hpayload : DurableTargetAdapter.payload effect with
  | error exc => exact ⟨h, List.prefix_rfl, fun _ hm => .inl hm, fun _ hreply => by cases hreply⟩
  | ok payload =>
    have hserves := h.serve moment effect.downstreamKey payload
    refine ⟨hserves.sound, hserves.effects, fun row hrow => ?_, fun result hresult => ?_⟩
    · exact (hserves.added row hrow).imp id fun hadded => ⟨hadded.1, payload, hpayload, hadded.2⟩
    · cases hreply : (target.serve moment effect.downstreamKey payload).1 with
      | error exc =>
        simp only [hreply] at hresult
        cases hresult
      | ok externalId =>
        simp only [hreply] at hresult
        cases hresult
        obtain ⟨row, hselect, rfl⟩ := hserves.told externalId hreply
        exact ⟨row, hselect, rfl⟩

/-- A probe that reports a commit tells the id of the row. -/
theorem DurableTargetAdapter.probe_spec {result : ProbeResult}
    (h : DurableTargetAdapter.probe target moment effect = .ok result)
    (hstatus : result.status = .committed) :
    target.Names effect (optionalText result.externalId) := by
  unfold DurableTargetAdapter.probe at h
  split at h
  · cases h
    cases hstatus
  · split at h
    · cases h
    · obtain ⟨probe, hprobe, h⟩ := bind_eq_ok.mp h
      obtain ⟨-, -, hprobe⟩ := bind_eq_ok.mp hprobe
      split at h
      · cases h
        cases hstatus
      · cases h
        cases hselect : target.select effect.downstreamKey with
        | none =>
          simp only [hselect] at hprobe
          cases hprobe
          cases hstatus
        | some row =>
          simp only [hselect] at hprobe
          cases hprobe
          exact ⟨row, hselect, rfl⟩

end

/-! ## Runs over any store -/

section
variable {Store : Type} {store : EffectStore Store} {init shared : Shared Store DurableTarget}
  {log : List BrokerEvent}

theorem Hold.of_call_dispatch {hold : Hold} {effect : EffectRecord} {attemptId : Str}
    (h : hold.call? = some (.dispatch effect attemptId)) :
    ∃ route, hold = .built route effect attemptId (.ok ()) := by
  unfold Hold.call? at h
  split at h
  · cases h
    exact ⟨_, rfl⟩
  · cases h
  · cases h

theorem Hold.of_call_probe {hold : Hold} {effect : EffectRecord}
    (h : hold.call? = some (.probe effect)) : hold = .probeBuilt effect (.ok ()) := by
  unfold Hold.call? at h
  split at h
  · cases h
  · cases h
    rfl
  · cases h

/-- Only dispatches and probes tell of the target. -/
theorem Hold.Told.after {target : DurableTarget} {hold : Hold} (h : hold.Told target) (route : Route)
    {r : Request} (hr : r.external = false) (response : Response r) :
    (hold.after route r response).Told target := by
  cases r with
  | dispatch | probe => cases hr
  | transition effectId expectedVersion status data =>
    cases response with
    | error exc => exact h
    | ok moved =>
      show (Hold.entering route moved).Told target
      unfold Hold.entering
      split
      · trivial
      · trivial
      · trivial
  | startAttempt effectId expectedVersion workerId =>
    cases response with
    | error exc => exact h
    | ok attemptId =>
      cases hold with
      | entered => trivial
      | _ => exact h
  | adapterFor effect =>
    cases hold with
    | attempted | reconciling => trivial
    | _ => exact h
  | _ => exact h

/-- What a request makes of the target, and what its answer tells a caller that may make it. -/
theorem serve_durable (h : shared.target.Sound) {l : CallerState} (hl : l.hold.Told shared.target)
    {r : Request} (hallowed : Allowed l r) (input : Surroundings DurableTarget.Moment) :
    let out := serve store durableAdapters r input shared
    out.2.target.Sound ∧ shared.target.effects <+: out.2.target.effects ∧
      (∀ row ∈ out.2.target.effects, row ∈ shared.target.effects ∨
        ∃ effect, r.presented? = some effect ∧ row.IsOf effect) ∧
      (l.after r out.1).hold.Told out.2.target := by
  have hsame : ∀ row ∈ shared.target.effects, row ∈ shared.target.effects ∨
      ∃ effect, r.presented? = some effect ∧ row.IsOf effect := fun _ hm => .inl hm
  cases hr : r.external with
  | false =>
    have htold := hl.after l.procedure.route hr (serve store durableAdapters r input shared).1
    cases r with
    | dispatch | probe => cases hr
    | _ => exact ⟨h, List.prefix_rfl, hsame, htold⟩
  | true =>
    have hcall := hallowed.call?_of_external hr
    cases r with
    | dispatch effect attemptId =>
      -- the caller presents the record that it holds, so what it is told is of this effect
      obtain ⟨hsound, heffects, hrows, htold⟩ := DurableTargetAdapter.dispatch_spec h input.decision effect
      refine ⟨hsound, heffects, fun row hrow => ?_, ?_⟩
      · exact (hrows row hrow).imp id fun hof => ⟨effect, rfl, hof⟩
      · obtain ⟨route, hhold⟩ := Hold.of_call_dispatch hcall
        show (l.hold.dispatchedWith _).Told _
        rw [hhold]
        show Hold.Told _ (.dispatched route effect attemptId _)
        cases hanswer : (DurableTargetAdapter.dispatch shared.target input.decision effect).1 with
        | error exc =>
          simp only [serve, durableAdapters, hanswer]
          trivial
        | ok result =>
          simp only [serve, durableAdapters, hanswer]
          rintro externalId ⟨⟩
          exact htold result hanswer
    | probe effect =>
      refine ⟨h, List.prefix_rfl, hsame, ?_⟩
      show (l.hold.probedWith _).Told _
      rw [Hold.of_call_probe hcall]
      show Hold.Told _ (.probed effect _)
      cases hanswer : DurableTargetAdapter.probe shared.target input.decision effect with
      | error exc =>
        simp only [serve, durableAdapters, hanswer]
        trivial
      | ok result =>
        simp only [serve, durableAdapters, hanswer]
        rintro hstatus externalId ⟨⟩
        refine DurableTargetAdapter.probe_spec hanswer ?_
        cases hstatus' : result.status with
        | committed => rfl
        | _ =>
          simp only [ProbeResult.read, hstatus'] at hstatus
          cases hstatus
    | _ => cases hr

/-- The data of a success name the row of the effect, or they are those of an operator. -/
def NamesCharge (log : List BrokerEvent) (target : DurableTarget) (effect : EffectRecord)
    (data : Items) : Prop :=
  (∃ externalId, data.get? (str "external_id") = some externalId ∧ target.Names effect externalId) ∨
  ∃ c tenantId evidence, .called c (.resolve tenantId effect.effectId .succeeded evidence) ∈ log ∧
    data = [(text "evidence", .dict evidence), (text "actor", text "operator")]

/-- A success of an effect that has been read. -/
def SuccessTold (log : List BrokerEvent) (target : DurableTarget) (e : Str) (data : Items) : Prop :=
  ∃ effect, Seen log effect ∧ effect.effectId = e ∧ NamesCharge log target effect data

theorem SuccessTold.later {target target' : DurableTarget} {e : Str} {data : Items}
    {event : BrokerEvent} (h : SuccessTold log target e data)
    (heffects : target.effects <+: target'.effects) : SuccessTold (event :: log) target' e data := by
  obtain ⟨effect, hseen, hid, hnames⟩ := h
  refine ⟨effect, hseen.cons, hid, ?_⟩
  rcases hnames with ⟨externalId, hdata, hnames⟩ | ⟨c, tenantId, evidence, hm, hdata⟩
  · exact .inl ⟨externalId, hdata, hnames.later heffects⟩
  · exact .inr ⟨c, tenantId, evidence, List.mem_cons_of_mem _ hm, hdata⟩

/-- What a log tells of the target. -/
structure ChargesTold (log : List BrokerEvent) (target : DurableTarget) : Prop where
  sound : target.Sound
  held : ∀ c l, localOf callerProtocol log c = some l → l.hold.Told target
  presented : ∀ row ∈ target.effects, ∃ effect, Seen log effect ∧ row.IsOf effect
  successes : ∀ c e version data (after : EffectRecord), .answered c
    (.transition e version .succeeded data) (.ok after : Except Exc EffectRecord) ∈ log →
      SuccessTold log target e data

theorem called_of_localOf {c : Nat} {l : CallerState} (h : localOf callerProtocol log c = some l) :
    .called c l.procedure ∈ log :=
  mem_of_taskIn (taskIn_of_localOf CallerState.procedure (fun _ => rfl) (fun _ _ _ => rfl) h)

/-- A caller that records a success has been told of it. -/
theorem Allowed.success {target : DurableTarget} {c : Nat} {l : CallerState} {e : Str} {version : Int}
    {data : Items} (h : Allowed l (.transition e version .succeeded data))
    (hl : localOf callerProtocol log c = some l) (htold : l.hold.Told target) :
    SuccessTold log target e data := by
  obtain ⟨hknown, hhold⟩ := seen_of_known hl
  generalize hr : Request.transition e version .succeeded data = r at h
  cases h with
  | @start effect status data' hfree hmem hstarts =>
    cases hr
    cases hstarts with
    | @resolve tenantId status evidence hprocedure =>
      refine ⟨effect, hknown effect hmem, rfl, .inr ⟨c, tenantId, evidence, ?_, rfl⟩⟩
      rw [← hprocedure]
      exact called_of_localOf hl
  | @settle effect status data' hrecord hsettles =>
    cases hr
    have hseen := hknown effect (hhold effect hrecord)
    generalize l.hold = hold at hrecord hsettles htold
    generalize hstatus : EffectStatus.succeeded = status at hsettles
    cases hsettles with
    | committed hcommitted hid houtput =>
      cases hrecord
      exact ⟨_, hseen, rfl, .inl ⟨_, rfl, htold _ hid⟩⟩
    | probeCommitted hcommitted hid houtput hevidence =>
      cases hrecord
      exact ⟨_, hseen, rfl, .inl ⟨_, rfl, htold hcommitted _ hid⟩⟩
    | refused | nonCommit => exact absurd hstatus.symm (nonCommitTarget_ne_succeeded _ _)
    | _ => cases hstatus
  | call hcall =>
    subst hr
    have hexternal := Hold.external_of_call? hcall
    cases hexternal
  | _ => cases hr

/-- Nothing is told but by answers. -/
theorem ChargesTold.silent {target : DurableTarget} {event : BrokerEvent} (h : ChargesTold log target)
    (hheld : ∀ c l, localOf callerProtocol (event :: log) c = some l → l.hold.Told target)
    (hanswer : ∀ c r response, event ≠ .answered c r response) : ChargesTold (event :: log) target := by
  refine ⟨h.sound, hheld, fun row hrow => ?_, fun c e version data after hm => ?_⟩
  · obtain ⟨effect, hseen, hof⟩ := h.presented row hrow
    exact ⟨effect, hseen.cons, hof⟩
  · rcases List.mem_cons.mp hm with heq | hm
    · exact absurd heq.symm (hanswer c _ _)
    · exact (h.successes c e version data after hm).later List.prefix_rfl

/-- The step of every run: an answer tells of the target as it is, and a success is recorded of
what its caller has been told. -/
theorem ChargesTold.answered (h : ChargesTold log shared.target) {c : Nat} {l : CallerState}
    {r : Request} (hl : localOf callerProtocol log c = some l) (hallowed : Allowed l r)
    (input : Surroundings DurableTarget.Moment) :
    ChargesTold (.answered c r (serve store durableAdapters r input shared).1 :: log)
      (serve store durableAdapters r input shared).2.target := by
  obtain ⟨hsound, heffects, hrows, htold⟩ := serve_durable h.sound (h.held c l hl) hallowed input
  generalize serve store durableAdapters r input shared = out at hsound heffects hrows htold
  refine ⟨hsound, fun d l' hl' => ?_, fun row hrow => ?_, fun d e version data after hm => ?_⟩
  · rw [localOf_answered_eq callerProtocol hl] at hl'
    by_cases hd : d = c
    · subst hd
      rw [Function.update_self] at hl'
      cases hl'
      exact htold
    · rw [Function.update_of_ne hd] at hl'
      exact (h.held d l' hl').later heffects
  · rcases hrows row hrow with hold | ⟨effect, hpresented, hof⟩
    · obtain ⟨effect, hseen, hof⟩ := h.presented row hold
      exact ⟨effect, hseen.cons, hof⟩
    · -- the caller has read what it presents
      obtain ⟨hknown, hhold⟩ := seen_of_known hl
      exact ⟨effect, (hknown effect (hhold effect (hallowed.presented hpresented))).cons, hof⟩
  · rcases List.mem_cons.mp hm with heq | hm
    · obtain ⟨-, rfl, -⟩ := Event.answered.inj heq
      exact (hallowed.success hl (h.held c l hl)).later heffects
    · exact (h.successes d e version data after hm).later heffects

theorem chargesTold_of_protocolRun (hinit : init.target = .empty)
    (h : ProtocolRun (broker store durableAdapters) callerProtocol init shared log) :
    ChargesTold log shared.target := by
  induction h with
  | initial =>
    rw [hinit]
    refine ⟨rfl, fun c l hl => ?_, List.forall_mem_nil _, fun c e version data after hm => ?_⟩
    · cases hl
    · cases hm
  | @call s log c task hrun hnone ih =>
    refine ih.silent (fun d l hl => ?_) fun _ _ _ heq => by cases heq
    rw [localOf_called_eq] at hl
    by_cases hd : d = c
    · subst hd
      rw [Function.update_self] at hl
      cases hl
      trivial
    · rw [Function.update_of_ne hd] at hl
      exact ih.held d l hl
  | begin _ _ _ _ _ ih | land _ _ ih | stop _ ih =>
    exact ih.silent (fun d l hl => ih.held d l hl) fun _ _ _ heq => by cases heq
  | answer input _ hl hallowed _ ih => exact ih.answered hl hallowed input
  | disturb _ _ ih => exact ih

/-! ## One charge for each success -/

/-- What has been charged, where a store has these keys of its effects. -/
structure ChargedOnce (keyOf : Str → Str → Prop) (log : List BrokerEvent) (target : DurableTarget) :
    Prop where
  once : (target.effects.map TargetEffectRow.downstreamKey).Nodup
  /-- Each recorded success names the one charge of its effect, or an operator has resolved it. -/
  successes : ∀ c e version (data : Items) (after : EffectRecord), .answered c
    (.transition e version .succeeded data) (.ok after : Except Exc EffectRecord) ∈ log →
      ∃ key, keyOf e key ∧
        ((∃ row, target.effects.filter (·.downstreamKey = key) = [row] ∧
          data.get? (str "external_id") = some (.str row.externalId)) ∨
        ∃ c tenantId evidence, .called c (.resolve tenantId e .succeeded evidence) ∈ log ∧
          data = [(text "evidence", .dict evidence), (text "actor", text "operator")])
  /-- Each charge is of an effect of the store, and of what was requested. -/
  rows : ∀ row ∈ target.effects, ∃ effect, Seen log effect ∧ row.IsOf effect ∧
    keyOf effect.effectId row.downstreamKey

theorem ChargesTold.chargedOnce {target : DurableTarget} {keyOf : Str → Str → Prop}
    (h : ChargesTold log target)
    (hkeys : ∀ effect, Seen log effect → keyOf effect.effectId effect.downstreamKey) :
    ChargedOnce keyOf log target := by
  refine ⟨h.sound.once, fun c e version data after hm => ?_, fun row hrow => ?_⟩
  · obtain ⟨effect, hseen, rfl, hnames⟩ := h.successes c e version data after hm
    refine ⟨effect.downstreamKey, hkeys effect hseen, hnames.imp ?_ id⟩
    rintro ⟨externalId, hdata, row, hselect, rfl⟩
    exact ⟨row, h.sound.filter_of_select hselect, hdata⟩
  · obtain ⟨effect, hseen, hof⟩ := h.presented row hrow
    refine ⟨effect, hseen, hof, ?_⟩
    rw [hof.1]
    exact hkeys effect hseen

end

/-- The database fails at the first dispatch; the redispatch commits. -/
def redispatchedRun (e : Str) : List (Choice Procedure (Surroundings DurableTarget.Moment)) :=
  let failing : Surroundings DurableTarget.Moment :=
    ⟨sampleTime 0, str "1", ⟨sampleTime 0, some .overflowError⟩⟩
  let serving : Surroundings DurableTarget.Moment := ⟨sampleTime 1, str "2", ⟨sampleTime 1, none⟩⟩
  let contract := sampleContract .idempotent 1
  submitSample 0 contract failing ++ claimSample 1 (sampleTime 0) failing ++
    List.replicate 3 (.answer 1 failing) ++
    .call 2 (.reconcile (sampleBroker contract) sampleTenant e) ::
    List.replicate 9 (.answer 2 serving) ++ .begin 2 :: List.replicate 3 (.answer 2 serving)

/-! ## The SQLite store -/

section
variable {hashes : Hashes} {tenantKeyProvider : TenantKeyProvider}

/-- The row of the effect has the key. -/
def SqliteStore.KeyOf (s : SqliteStore) (e key : Str) : Prop :=
  ∃ row ∈ s.effects, row.effectId = e ∧ row.downstreamKey = key

theorem SqliteStore.keyOf_iff {s : SqliteStore} {e key : Str} :
    s.KeyOf e key ↔ ∃ row ∈ s.fixed, row.effectId = e ∧ row.downstreamKey = key := by
  unfold SqliteStore.KeyOf SqliteStore.fixed
  constructor
  · rintro ⟨row, hrow, hid, hkey⟩
    exact ⟨row.fixed, List.mem_map_of_mem hrow, hid, hkey⟩
  · rintro ⟨fixed, hfixed, hid, hkey⟩
    obtain ⟨row, hrow, rfl⟩ := List.mem_map.mp hfixed
    exact ⟨row, hrow, hid, hkey⟩

/-- What is read of a row has its key. -/
theorem SqliteStore.Shows.keyOf {s : SqliteStore} {record : EffectRecord} (h : s.Shows record) :
    s.KeyOf record.effectId record.downstreamKey := by
  obtain ⟨row, hrow, hread⟩ := h
  have hkey : record.downstreamKey = row.downstreamKey := by
    obtain ⟨arguments, -, h⟩ := bind_eq_ok.mp hread
    obtain ⟨safety, -, h⟩ := bind_eq_ok.mp h
    obtain ⟨keyRetention, -, h⟩ := bind_eq_ok.mp h
    obtain ⟨settlementBound, -, h⟩ := bind_eq_ok.mp h
    obtain ⟨status, -, h⟩ := bind_eq_ok.mp h
    obtain ⟨createdAt, -, h⟩ := bind_eq_ok.mp h
    obtain ⟨updatedAt, -, h⟩ := bind_eq_ok.mp h
    cases h
    rfl
  exact SqliteStore.keyOf_iff.mpr ⟨row.fixed, hrow, (SqliteEffectRow.toRecord_ok hread).effectId.symm,
    hkey.symm⟩

/-- Keys stay, and what a request returns has the key of its row. -/
theorem Leaves.keyOf {Decision : Type} {s s' : SqliteStore} {surroundings : Surroundings Decision}
    {r : Request} {response : Response r} (h : Leaves s surroundings r response s') :
    (∀ e key, s.KeyOf e key → s'.KeyOf e key) ∧
      ∀ record ∈ returned r response, s'.KeyOf record.effectId record.downstreamKey := by
  cases h with
  | kept hkeeps hshows =>
    have hsame : ∀ e key, s.KeyOf e key → s'.KeyOf e key := by
      intro e key hkey
      rw [SqliteStore.keyOf_iff, hkeeps.fixed, ← SqliteStore.keyOf_iff]
      exact hkey
    exact ⟨hsame, fun record hm => hsame _ _ (hshows record hm).keyOf⟩
  | reserved hrecord hjson hfresh hfixed =>
    constructor
    · intro e key hkey
      rw [SqliteStore.keyOf_iff] at hkey ⊢
      obtain ⟨row, hrow, hkey⟩ := hkey
      exact ⟨row, by rw [hfixed]; exact List.mem_append_left _ hrow, hkey⟩
    · refine List.forall_mem_singleton.mpr (SqliteStore.keyOf_iff.mpr ?_)
      rw [hfixed]
      exact ⟨_, List.mem_append_right _ (List.mem_singleton_self _), rfl, rfl⟩

theorem keyOf_of_seen {Target Decision : Type} {adapters : Adapters Target Decision} {target : Target}
    {shared : Shared SqliteStore Target} {log : List BrokerEvent}
    (h : ProtocolRun (sqliteBroker adapters) callerProtocol
      (.initialSqlite hashes tenantKeyProvider target) shared log) :
    ∀ record, Seen log record → shared.store.KeyOf record.effectId record.downstreamKey := by
  induction h with
  | initial =>
    rintro record ⟨c, r, response, hm, hreturned⟩
    cases hm
  | answer input hrun _ _ _ ih =>
    obtain ⟨hstay, hshown⟩ := (serve_sqlite (oneRowEach_of_protocolRun hrun) _ input).2.keyOf
    intro record hseen
    rcases seen_answered.mp hseen with hm | hseen
    · exact hshown record hm
    · exact hstay _ _ (ih record hseen)
  | call _ _ ih | begin _ _ _ _ _ ih | land _ _ ih | stop _ ih =>
    exact fun record hseen => ih record (hseen.of_cons fun _ _ _ heq => by cases heq)
  | disturb _ _ ih => exact ih

/-- **Each success is one charge**: over the tables and the durable target, wherever callers stop,
whatever fails and in whatever order the others run, no key is charged twice, each recorded
success names the one charge of its effect, and each charge is of what was reserved. -/
theorem sqlite_successes_charged
    {w : World Response Exc Procedure Reply (Shared SqliteStore DurableTarget)}
    (h : (sqliteBroker durableAdapters).Reachable
      (.initialSqlite hashes tenantKeyProvider .empty) w) :
    ChargedOnce w.shared.store.KeyOf w.log w.shared.target := by
  have hrun := reachable_sqlite_runs h
  exact (chargesTold_of_protocolRun rfl hrun).chargedOnce (keyOf_of_seen hrun)

/-- The world over the tables after the redispatch. -/
def redispatchedTables : World Response Exc Procedure Reply (Shared SqliteStore DurableTarget) :=
  (sqliteBroker durableAdapters).after
    (World.initial (.initialSqlite sampleHashes sampleKeys .empty)) (redispatchedRun (str "eff_1"))

theorem sqlite_successes_charged_sample :
    let w := redispatchedTables
    ChargedOnce w.shared.store.KeyOf w.log w.shared.target ∧
      w.shared.target.effects.map TargetEffectRow.externalId = [str "charge_000001"] :=
  ⟨sqlite_successes_charged (System.reachableFrom_after _ _ (redispatchedRun (str "eff_1"))),
    by decide +kernel⟩

end

/-! ## The in-memory store -/

/-- The record of the effect has the key. -/
def InMemoryStore.KeyOf (s : InMemoryStore) (e key : Str) : Prop :=
  ∃ record, s.records.get? e = some record ∧ record.downstreamKey = key

section
variable {hashes : Hashes} {tenantKeyProvider : TenantKeyProvider}
  {w : World Response Exc Procedure Reply (Shared InMemoryStore DurableTarget)}

theorem memory_keyOf_of_seen {Target Decision : Type} {adapters : Adapters Target Decision}
    {target : Target} {shared : Shared InMemoryStore Target} {log : List BrokerEvent}
    (h : ProtocolRun (memoryBroker adapters) callerProtocol
      (.initial hashes tenantKeyProvider target) shared log) :
    ∀ record, Seen log record → shared.store.KeyOf record.effectId record.downstreamKey := by
  obtain ⟨hgave, haccounts⟩ := memory_accounts h
  intro record hseen
  obtain ⟨⟨origin, hm, hsame⟩, -⟩ := haccounts.seen record hseen
  obtain ⟨found, hget, hfound⟩ := hgave.of_origin origin hm
  have hkey : record.downstreamKey = origin.downstreamKey := by rw [hsame.others]
  have hfoundKey : found.downstreamKey = origin.downstreamKey := by rw [hfound]
  rw [hsame.effectId]
  exact ⟨found, hget, hfoundKey.trans hkey.symm⟩

/-- **Each success is one charge**, over the in-memory store, and the receipt names it. -/
theorem receipts_name_charges
    (h : (memoryBroker durableAdapters).Reachable (.initial hashes tenantKeyProvider .empty) w) :
    ChargedOnce w.shared.store.KeyOf w.log w.shared.target ∧
    ∀ e effect, w.shared.store.records.get? e = some effect → effect.status = .succeeded →
      ∃ data, w.shared.store.receiptMetadata effect.tenantId e = some data ∧
        ((∃ row, w.shared.target.effects.filter (·.downstreamKey = effect.downstreamKey) = [row] ∧
          data.get? (str "external_id") = some (.str row.externalId)) ∨
        ∃ c tenantId evidence, .called c (.resolve tenantId e .succeeded evidence) ∈ w.log ∧
          data = [(text "evidence", .dict evidence), (text "actor", text "operator")]) := by
  have hrun := (reachable_runs h).1
  have honce := (chargesTold_of_protocolRun rfl hrun).chargedOnce (memory_keyOf_of_seen hrun)
  refine ⟨honce, fun e effect hget hstatus => ?_⟩
  -- the last move of the effect is the success that the receipt shows
  obtain ⟨mover, data, ms, hms, -, hreceipt⟩ := success_shown h hget hstatus
  obtain ⟨newer, older, c, version, status, hlog, -⟩ := logged_of_moved hms
  have hm : .answered c (.transition e version status data) (.ok effect : Except Exc EffectRecord) ∈
      w.log := by
    rw [hlog]
    exact List.mem_append_right _ (List.mem_cons_self ..)
  obtain rfl : effect.status = status := possible_of_answered hrun hm
  rw [hstatus] at hm
  obtain ⟨key, ⟨record, hrecord, hkey⟩, hnames⟩ := honce.successes c e version data effect hm
  rw [hget] at hrecord
  cases hrecord
  rw [hkey]
  exact ⟨data, hreceipt, hnames⟩

/-- The world over the in-memory store after the redispatch. -/
def redispatchedLedger : World Response Exc Procedure Reply (Shared InMemoryStore DurableTarget) :=
  (memoryBroker durableAdapters).after
    (World.initial (.initial sampleHashes sampleKeys .empty)) (redispatchedRun (effectIdOf 1))

theorem receipts_name_charges_sample :
    let w := redispatchedLedger
    ChargedOnce w.shared.store.KeyOf w.log w.shared.target ∧
      ((w.shared.store.receiptMetadata sampleTenant (effectIdOf 1)).bind (·.get? (str "external_id"))).any
        (Value.isStr (str "charge_000001")) :=
  ⟨(receipts_name_charges (System.reachableFrom_after _ _ (redispatchedRun (effectIdOf 1)))).1,
    by decide +kernel⟩

end
end EffectBroker
