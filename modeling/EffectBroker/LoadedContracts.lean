import EffectBroker.AttemptPayload
import EffectBroker.CallBudgets
import EffectBroker.ContractSpecs

/-!
# Loaded contracts

`ContractRegistry.from_mapping` validates every contract once, at startup.  Submissions are what
reserves effects, with the contract that their broker has for the tool, and both stores present
each effect with the contract that it was reserved with.  So where brokers load their contracts,
every effect that is ever read or presented to an adapter has an honest contract of its tool.
-/
namespace EffectBroker
open Python Concurrency

/-- `ContractRegistry.from_mapping`. -/
def ContractRegistry.fromMapping (conversions : Conversions) (data : Dict Str Items) :
    Except Exc ContractRegistry := do
  let byTool ← data.items.foldlM
    (fun byTool item => do
      return byTool.set item.1 (← contractFromMapping conversions item.1 item.2)) Dict.empty
  return ⟨byTool⟩

/-- The contract is one that can be kept, and is the tool's. -/
structure EffectContract.HonestFor (contract : EffectContract) (tool : Str) : Prop where
  honest : contract.Honest
  name : contract.name = tool

theorem contractFromMapping_honestFor {conversions : Conversions} {tool : Str} {data : Items}
    {contract : EffectContract} (h : contractFromMapping conversions tool data = .ok contract) :
    contract.HonestFor tool := by
  constructor
  · rcases validateContract_cases contract with ⟨fault, hrefused, -⟩ | ⟨-, hhonest⟩
    · exact nomatch (contractFromMapping_valid h).symm.trans hrefused
    · exact hhonest
  · unfold contractFromMapping at h
    obtain ⟨safety, -, h⟩ := bind_eq_ok.mp h
    obtain ⟨version, -, h⟩ := bind_eq_ok.mp h
    obtain ⟨retryLimit, -, h⟩ := bind_eq_ok.mp h
    obtain ⟨keyRetention, -, h⟩ := bind_eq_ok.mp h
    obtain ⟨settlementBound, -, h⟩ := bind_eq_ok.mp h
    rw [validateContract_ok h]

/-- What each step of a loop keeps, the loop keeps. -/
theorem foldlM_keeps {α β : Type} {step : β → α → Except Exc β} (I : β → Prop)
    (hstep : ∀ before item after, I before → step before item = .ok after → I after)
    {items : List α} {before after : β} (hbefore : I before)
    (h : items.foldlM step before = .ok after) : I after := by
  induction items generalizing before with
  | nil =>
    cases h
    exact hbefore
  | cons item items ih =>
    rw [List.foldlM_cons] at h
    obtain ⟨next, hnext, hrest⟩ := bind_eq_ok.mp h
    exact ih (hstep before item next hbefore hnext) hrest

/-- Every contract of a registry that is loaded is honest. -/
theorem ContractRegistry.fromMapping_honest {conversions : Conversions} {data : Dict Str Items}
    {registry : ContractRegistry} (h : fromMapping conversions data = .ok registry) {tool : Str}
    {contract : EffectContract} (hget : registry.get tool = .ok contract) : contract.HonestFor tool := by
  obtain ⟨byTool, hfold, hregistry⟩ := bind_eq_ok.mp h
  cases hregistry
  -- the loop puts in none but loaded contracts, each under its own name
  have hall : ∀ tool contract, byTool.get? tool = some contract → contract.HonestFor tool := by
    refine foldlM_keeps (fun byTool : Dict Str EffectContract =>
      ∀ tool contract, byTool.get? tool = some contract → contract.HonestFor tool)
      (fun before item after hbefore hnext tool contract hset => ?_) (fun tool contract hempty => ?_) hfold
    · obtain ⟨loaded, hloaded, hnext⟩ := bind_eq_ok.mp hnext
      cases hnext
      rw [Dict.get?_set] at hset
      split at hset
      · rename_i htool
        cases hset
        exact htool ▸ contractFromMapping_honestFor hloaded
      · exact hbefore tool contract hset
    · rw [Dict.get?_empty] at hempty
      cases hempty
  unfold ContractRegistry.get at hget
  split at hget
  · rename_i hfound
    cases hget
    exact hall tool contract hfound
  · cases hget

/-! ## Runs -/

/-- Effects are submitted through brokers that have loaded their contracts. -/
def LoadedBrokers (conversions : Conversions) (log : List BrokerEvent) : Prop :=
  ∀ c broker tenantId request, .called c (.submit broker tenantId request) ∈ log →
    ∃ data, ContractRegistry.fromMapping conversions data = .ok broker.contracts

theorem mem_origins {log : List BrokerEvent} {origin : EffectRecord} (h : origin ∈ origins log) :
    ∃ c r, ∃ response : Response r, .answered c r response ∈ log ∧ newEffect? r response = some origin := by
  induction log with
  | nil => cases h
  | cons event log ih =>
    have hold (h : origin ∈ origins log) : ∃ c r, ∃ response : Response r,
        .answered c r response ∈ event :: log ∧ newEffect? r response = some origin := by
      obtain ⟨c, r, response, hm, hnew⟩ := ih h
      exact ⟨c, r, response, List.mem_cons_of_mem _ hm, hnew⟩
    cases event with
    | answered c r response =>
      rcases List.mem_append.mp h with hnew | hrest
      · exact ⟨c, r, response, List.mem_cons_self .., Option.mem_toList.mp hnew⟩
      · exact hold hrest
    | called | began | landed | stopped => exact hold h

section
variable {Store Target Decision : Type} {store : EffectStore Store} {adapters : Adapters Target Decision}
  {init : Shared Store Target} {w : World Response Exc Procedure Reply (Shared Store Target)}
  {hashes : Hashes} {tenantKeyProvider : TenantKeyProvider} {same : Value → Value → Prop}
  {conversions : Conversions}

/-- What was reserved was submitted, through a broker with its contract. -/
theorem origin_honest (hstore : store.Limited) (h : (broker store adapters).Reachable init w)
    (hloaded : LoadedBrokers conversions w.log)
    (haccounts : Accounts hashes tenantKeyProvider same w.log)
    {origin : EffectRecord} (hm : origin ∈ origins w.log) :
    origin.contract.HonestFor origin.request.tool := by
  obtain ⟨c, r, response, hanswered, hnew⟩ := mem_origins hm
  obtain ⟨tenantId, request, contract, rfl, -, rfl, rfl⟩ :=
    haccounts.reserved c r response hanswered origin hnew
  -- reservations are asked for by submissions alone, with the contract of the broker
  obtain ⟨procedure, hcalled, broker, rfl, hget⟩ :=
    asked_of_answered costs_program (claimsLimited_serve hstore) h hanswered
  obtain ⟨data, hdata⟩ := hloaded c broker tenantId origin.request hcalled
  exact ContractRegistry.fromMapping_honest hdata hget

theorem SamePayload.honestFor {origin record : EffectRecord} (h : SamePayload same origin record)
    (honest : origin.contract.HonestFor origin.request.tool) :
    record.contract.HonestFor record.request.tool := by
  rw [h.others]
  exact honest

end

/-- **Contracts are checked once, and stay so**: where brokers load their contracts, the contract
of every effect that is read, or could be, is honest and its tool's, over both stores. -/
theorem loaded_contracts_stay {Target Decision : Type} (adapters : Adapters Target Decision)
    (hashes : Hashes) (tenantKeyProvider : TenantKeyProvider) (target : Target)
    (conversions : Conversions) :
    (∀ w, (memoryBroker adapters).Reachable (.initial hashes tenantKeyProvider target) w →
      LoadedBrokers conversions w.log → ∀ record, Readable memoryStore w record →
        record.contract.HonestFor record.request.tool) ∧
    ∀ w, (sqliteBroker adapters).Reachable (.initialSqlite hashes tenantKeyProvider target) w →
      (∀ origin ∈ origins w.log, SqliteStore.Fit origin) →
        LoadedBrokers conversions w.log → ∀ record, Readable sqliteStore w record →
          record.contract.HonestFor record.request.tool := by
  constructor
  · intro w hw hloaded record hreadable
    obtain ⟨hgave, haccounts⟩ := memory_accounts (reachable_runs hw).1
    have hcarries : CarriesPayload memoryStore hashes tenantKeyProvider Eq w :=
      haccounts.carriesPayload fun tenantId e record hget => hgave.shows hget
    obtain ⟨origin, hm, hsame⟩ := hcarries.unchanged record hreadable
    exact hsame.honestFor (origin_honest memoryStore_limited hw hloaded haccounts hm)
  · intro w hw hfit hloaded record hreadable
    obtain ⟨hgave, haccounts⟩ := sqlite_accounts (reachable_sqlite_runs hw)
    have hcarries : CarriesPayload sqliteStore hashes tenantKeyProvider SameJson w :=
      (haccounts hfit).carriesPayload fun tenantId e record hget =>
        (hgave.shows hfit (SqliteStore.get_some hget).1).1
    obtain ⟨origin, hm, hsame⟩ := hcarries.unchanged record hreadable
    exact hsame.honestFor (origin_honest sqliteStore_limited hw hloaded (haccounts hfit) hm)

/-- The sample effect is of a contract that was loaded, with a retry limit of two. -/
theorem loaded_contracts_stay_sample :
    let contract : EffectContract := ⟨str "charge", str "v1", .transactional, 2, none, none⟩
    let w := sampleWorld (submitSample 0 contract
      (⟨sampleTime 0, [], .ok (), .error .overflowError, .error .overflowError⟩ : Surroundings AnyAnswer))
    w.shared.store.records.size = 1 ∧ ∀ record, Readable memoryStore w record →
      record.contract.HonestFor record.request.tool := by
  intro contract w
  refine ⟨by decide +kernel, (loaded_contracts_stay anyAdapters sampleHashes sampleKeys ()
    (sampleConversions [])).1 w (sampleWorld_reachable _) fun c broker tenantId request hm => ?_⟩
  obtain ⟨r, response, r', response', hlog⟩ : ∃ r, ∃ response : Response r, ∃ r',
      ∃ response' : Response r', w.log = [.answered 0 r response, .answered 0 r' response',
        .called 0 (.submit (sampleBroker contract) sampleTenant sampleRequest)] := ⟨_, _, _, _, rfl⟩
  rw [hlog] at hm
  have hcalled := List.mem_singleton.mp ((List.mem_cons.mp ((List.mem_cons.mp hm).resolve_left
    fun heq => by cases heq)).resolve_left fun heq => by cases heq)
  cases hcalled
  exact ⟨Dict.empty.set (str "charge") [(text "safety", text "transactional"),
    (text "retry_limit", .int 2)], rfl⟩

end EffectBroker
