import AiCloud.Lib.Numbers
import AiCloud.Pricing.Store
import AiCloud.Routing.Candidates

/-!
# The cost ledger

`RecordModelUsage` makes an event for the input and one for the output tokens of a model
call, and one more for a premium tier, and appends them one after the other. The
repository is whatever answers to an append; what it has written stays when a later
append fails. The durable repository prices an event anew, with the policy and the
workload of the task's route, and each event by itself.
-/
namespace AiCloud.Cost

open Execution ModelRuntime List Lib Tasks Pricing

inductive CostComponent
  | modelInput
  | modelOutput
  | modelCache
  | serviceTier
  | other (text : String)
  deriving DecidableEq

/-- Go's map of metadata is an association list with one entry a key. -/
abbrev Metadata := List (String × String)

def Metadata.put (m : Metadata) (key value : String) : Metadata :=
  (key, value) :: m.filter (fun entry => entry.1 ≠ key)

structure CostEvent where
  (id taskID traceID : String)
  component : CostComponent
  (provider modelID modelVersion deploymentID : String)
  quantity : Rat
  unit : String
  (unitPrice amount : Rat)
  currency : String
  attempt : Int
  metadata : Metadata
  createdAt : Time
  deriving DecidableEq

inductive LedgerError (ε : Type)
  | identityRequired
  | append (error : ε)

def deploymentMetadata (id : String) : Metadata :=
  if id = "" then [] else [("deployment_id", id)]

variable (unixNano : Time → Int) (now : Time)

/-- The id counts nanoseconds, of which a microsecond has room for all events of a call. -/
def costEventID (offset : Int) : String :=
  "cost-" ++ toString (unixNano now + offset)

def newEvent (offset : Int) (usage : ModelUsage)
    (component : CostComponent) (quantity : Rat) (unit : String) (unitPrice : Rat)
    (currency : String) : CostEvent where
  id := costEventID unixNano now offset
  taskID := usage.taskID
  traceID := usage.traceID
  component := component
  provider := usage.provider
  modelID := usage.modelID
  modelVersion := usage.modelVersion
  deploymentID := usage.deploymentID
  quantity := quantity
  unit := unit
  unitPrice := unitPrice
  amount := quantity * unitPrice
  currency := currency
  attempt := usage.attempt
  metadata := deploymentMetadata usage.deploymentID
  createdAt := now

def usageCurrency (usage : ModelUsage) : String :=
  if usage.pricing.currency = "" then "USD" else usage.pricing.currency

def inputEvent (usage : ModelUsage) : CostEvent :=
  newEvent unixNano now 0 usage .modelInput usage.usage.inputTokens "token"
    (usage.pricing.inputPerMillion / 1000000) (usageCurrency usage)

def outputEvent (usage : ModelUsage) : CostEvent :=
  newEvent unixNano now 1 usage .modelOutput usage.usage.outputTokens "token"
    (usage.pricing.outputPerMillion / 1000000) (usageCurrency usage)

/-- A tier that costs more adds the difference as an event of its own. -/
def tierEvents (usage : ModelUsage) : List CostEvent :=
  if usage.serviceTier ≠ "" ∧ 1 < usage.pricing.serviceTierFactor then
    [newEvent unixNano now 2 usage .serviceTier 1 usage.serviceTier
      (((inputEvent unixNano now usage).amount + (outputEvent unixNano now usage).amount) *
        (usage.pricing.serviceTierFactor - 1)) (usageCurrency usage)]
  else []

def usageEvents (usage : ModelUsage) : List CostEvent :=
  inputEvent unixNano now usage :: outputEvent unixNano now usage :: tierEvents unixNano now usage

section

variable {σ ε : Type}

/-- One append after the other, up to the first that fails. -/
def appendAll (append : σ → CostEvent → Except ε CostEvent × σ) :
    List CostEvent → σ → Except ε (List CostEvent) × σ
  | [], s => (.ok [], s)
  | event :: events, s =>
    match append s event with
    | (.error e, s') => (.error e, s')
    | (.ok persisted, s') =>
      match appendAll append events s' with
      | (.error e, s'') => (.error e, s'')
      | (.ok rest, s'') => (.ok (persisted :: rest), s'')

/-- A ledger without a repository only makes the events. -/
def recordModelUsage
    (repo : Option (σ → CostEvent → Except ε CostEvent × σ)) (now : Time) (usage : ModelUsage)
    (s : σ) : Except (LedgerError ε) (List CostEvent) × σ :=
  if usage.taskID = "" ∨ usage.traceID = "" then (.error .identityRequired, s)
  else match repo with
    | none => (.ok (usageEvents unixNano now usage), s)
    | some append =>
      let (answer, s') := appendAll append (usageEvents unixNano now usage) s
      (answer.mapError .append, s')

end

variable {unixNano : Time → Int} {now : Time}

theorem costEventID_inj {a b : Int}
    (h : costEventID unixNano now a = costEventID unixNano now b) : a = b := by
  unfold costEventID at h
  have hrepr : (unixNano now + a).repr = (unixNano now + b).repr :=
    (String.append_right_inj _).mp h
  exact Int.add_left_cancel (Lib.Text.int_repr_inj hrepr)

def usageIDs (unixNano : Time → Int) (now : Time) : List String :=
  [0, 1, 2].map (costEventID unixNano now)

theorem usageEvents_ids (unixNano : Time → Int) (now : Time) (usage : ModelUsage) :
    ((usageEvents unixNano now usage).map CostEvent.id).Sublist (usageIDs unixNano now) := by
  unfold usageEvents tierEvents
  split
  · exact Sublist.refl _
  · exact Sublist.cons_cons _ (Sublist.cons_cons _ (nil_sublist _))

theorem usageEvents_distinct (unixNano : Time → Int) (now : Time) (usage : ModelUsage) :
    (usageEvents unixNano now usage).Pairwise (fun a b => a.id ≠ b.id) := by
  have hoffsets : ([0, 1, 2] : List Int).Pairwise (· ≠ ·) := by decide
  have hids : (usageIDs unixNano now).Pairwise (· ≠ ·) :=
    hoffsets.map _ (fun a b hne heq => hne (costEventID_inj heq))
  exact pairwise_map.mp (hids.sublist (usageEvents_ids unixNano now usage))

theorem mem_usageEvents {usage : ModelUsage} {e : CostEvent}
    (h : e ∈ usageEvents unixNano now usage) :
    e.taskID = usage.taskID ∧ e.attempt = usage.attempt ∧ e.createdAt = now := by
  unfold usageEvents tierEvents at h
  rcases mem_cons.mp h with rfl | h
  · exact ⟨rfl, rfl, rfl⟩
  rcases mem_cons.mp h with rfl | h
  · exact ⟨rfl, rfl, rfl⟩
  split at h
  · rw [mem_singleton.mp h]
    exact ⟨rfl, rfl, rfl⟩
  · cases h

/-- The factor that a call pays on its tokens. -/
def tierFactor (usage : ModelUsage) : Rat :=
  if usage.serviceTier ≠ "" ∧ 1 < usage.pricing.serviceTierFactor then
    usage.pricing.serviceTierFactor else 1

/-- What the events of a call add up to before anything is reconciled. -/
theorem sum_usageEvents (unixNano : Time → Int) (now : Time) (usage : ModelUsage) :
    ((usageEvents unixNano now usage).map CostEvent.amount).sum =
      (usage.usage.inputTokens * (usage.pricing.inputPerMillion / 1000000) +
        usage.usage.outputTokens * (usage.pricing.outputPerMillion / 1000000)) *
        tierFactor usage := by
  unfold usageEvents tierEvents tierFactor
  split
  · simp only [map_cons, map_nil, sum_cons, sum_nil, newEvent, inputEvent, outputEvent]
    ring
  · simp only [map_cons, map_nil, sum_cons, sum_nil, newEvent, inputEvent, outputEvent]
    ring

/-- A row of `route_pricing_evidence`, without the columns that only replays read. -/
structure EvidenceRow where
  (routeDecisionID deploymentID policyID policyVersion policyDigest : String)
  deriving DecidableEq

abbrev EvidenceRow.Clash (a b : EvidenceRow) : Prop :=
  a.routeDecisionID = b.routeDecisionID ∧ a.deploymentID = b.deploymentID

abbrev CostEvent.Check (e : CostEvent) : Prop :=
  -(integerMax + 1) ≤ e.attempt ∧ e.attempt ≤ integerMax

abbrev CostEvent.Clash (a b : CostEvent) : Prop := a.id = b.id

/-- `exempt` says that the connection's role bypasses row-level security. The
repository sets no tenant, and any other role then sees no task and no task event. -/
structure CostDb where
  tasks : Tasks.Db
  policies : PolicyTable
  evidence : Table EvidenceRow (fun _ => True) EvidenceRow.Clash
  costs : Table CostEvent CostEvent.Check CostEvent.Clash
  exempt : Bool

/-- Go's zero value where nothing was recorded. -/
structure RoutePricingInputs where
  (serviceTier inferenceEffort : String)
  (inputTokens outputTokens : Int)
  deriving DecidableEq

def noInputs : RoutePricingInputs := ⟨"", "", 0, 0⟩

/-- What the queries read of a stored event payload. -/
structure PayloadReader where
  routeDecisionID : String → Option String
  inputs : String → RoutePricingInputs

variable (db : CostDb)

namespace CostDb

/-- The rows of `tasks` and `task_events` that the repository's own queries see. -/
def visibleTask (id : String) : Option Task :=
  if db.exempt then db.tasks.task id else none

def visibleEvents (taskID : String) : List TaskEvent :=
  if db.exempt then db.tasks.eventsOf taskID else []

/-- The task's route decision, by the join of `tasks` and `route_decisions`. -/
def routeOf (taskID : String) : Option RouteDecisionRow :=
  (db.visibleTask taskID).bind (fun task =>
    Table.lookup RouteDecisionRow.id task.routeDecisionID db.tasks.decisions.rows)

def evidenceFor (routeID deploymentID : String) : Option EvidenceRow :=
  Table.lookup (fun row : EvidenceRow => (row.routeDecisionID, row.deploymentID))
    (routeID, deploymentID) db.evidence.rows

/-- A policy with the reference that goes into the event. -/
structure PinnedPolicy where
  policy : PricingPolicy
  (id version digest : String)
  deriving DecidableEq

/-- The pinned policy, or else the one in force when the route was decided. -/
def routePolicy (routeID deploymentID : String) (createdAt : Time) : Option PinnedPolicy :=
  match db.evidenceFor routeID deploymentID with
  | some row => (db.policies.get row.policyID row.policyVersion).map
      (fun policy => ⟨policy, row.policyID, row.policyVersion, row.policyDigest⟩)
  | none => (db.policies.resolve deploymentID createdAt).map
      (fun policy => ⟨policy, policy.id, policy.version, policy.digest⟩)

/-- The last route command's workload; `ORDER BY sequence DESC LIMIT 1`. -/
def recordedInputs (reader : PayloadReader) (db : CostDb) (taskID routeID : String) :
    RoutePricingInputs :=
  match (((db.visibleEvents taskID).filter (fun e => e.eventType = "TaskRoutingStarted" ∧
      reader.routeDecisionID e.payload = some routeID)).mergeSort
      (fun a b => decide (b.sequence ≤ a.sequence))).head? with
  | none => noInputs
  | some event => reader.inputs event.payload

end CostDb

def truncate (q : Rat) : Int := q.num.tdiv q.den

/-- The workload of a route around the tokens of one event. -/
def RoutePricingInputs.usage (inputs : RoutePricingInputs) (region : String)
    (inputTokens outputTokens cacheHit : Int) : PricingUsageEstimate where
  inputTokens := inputTokens
  outputTokens := outputTokens
  cacheHitInputTokens := cacheHit
  contextTokens := inputs.inputTokens + inputs.outputTokens
  region := region
  batch := inputs.serviceTier = Routing.tierBatch
  async := false
  serviceTier := inputs.serviceTier
  inferenceEffort := inputs.inferenceEffort
  capacityUnits := 0
  gpuHours := 0
  cpuCoreHours := 0
  memoryGBHours := 0
  storageGBHours := 0

def pricingComponentMatchesCostEvent (name : String) : CostComponent → Bool
  | .modelInput => name = "input-cache-miss"
  | .modelOutput => name = "output"
  | .modelCache => name = "input-cache-hit"
  | _ => false

/-- The tokens of an event as the workload that is quoted for it. -/
def eventUsage (inputs : RoutePricingInputs) (region : String) (event : CostEvent) :
    Option PricingUsageEstimate :=
  let tokens := truncate event.quantity
  match event.component with
  | .modelInput => some (inputs.usage region tokens 0 0)
  | .modelOutput => some (inputs.usage region 0 tokens 0)
  | .modelCache => some (inputs.usage region tokens 0 tokens)
  | _ => none

variable (event : CostEvent)

/-- A quote has prices per million tokens, an event per token. -/
def CostEvent.priced (quote : PricingQuote) : CostEvent :=
  match quote.components.find? (fun c =>
    pricingComponentMatchesCostEvent c.name event.component) with
  | none => { event with currency := quote.currency }
  | some c => { event with
      unitPrice := c.unitPrice * c.factor / 1000000, amount := c.amount
      currency := quote.currency }

/-- The quote already contains the tier, so a premium of its own costs nothing. -/
def CostEvent.withoutPremium : CostEvent :=
  if event.component = .serviceTier then { event with unitPrice := 0, amount := 0 } else event

def CostEvent.pinned (routeID : String) (pin : CostDb.PinnedPolicy) : CostEvent :=
  { event with
    metadata := ((((event.metadata.put "deployment_id" event.deploymentID).put
      "route_decision_id" routeID).put "pricing_policy_id" pin.id).put
      "pricing_policy_version" pin.version).put "pricing_policy_digest" pin.digest }

inductive CostError
  | quote (error : PricingError)
  | database (context : String)
  deriving DecidableEq

variable (fold : Folding) (reader : PayloadReader)

def reconcileDeploymentCostEvent (db : CostDb) (event : CostEvent) : Except CostError CostEvent :=
  if event.deploymentID = "" ∨ event.taskID = "" then .ok event
  else match db.routeOf event.taskID with
    | none => .ok event
    | some route =>
      if route.id = "" then .ok event
      else match db.routePolicy route.id event.deploymentID route.createdAt with
        | none => .ok event
        | some pin =>
          let inputs := db.recordedInputs reader event.taskID route.id
          match eventUsage inputs pin.policy.region event with
          | none => .ok (event.withoutPremium.pinned route.id pin)
          | some usage =>
            match quotePricing fold pin.policy usage route.createdAt with
            | .error e => .error (.quote e)
            | .ok quote => .ok ((event.priced quote).pinned route.id pin)

def CostDb.append (db : CostDb) (event : CostEvent) : Except CostError CostEvent × CostDb :=
  match reconcileDeploymentCostEvent fold reader db event with
  | .error e => (.error e, db)
  | .ok reconciled =>
    match db.costs.insert reconciled with
    | none => (.error (.database "append deployment cost event"), db)
    | some costs => (.ok reconciled, { db with costs := costs })

/-- What the queries for an event of the task and the deployment find. -/
structure Found (taskID deploymentID : String) (route : RouteDecisionRow)
    (pin : CostDb.PinnedPolicy) : Prop where
  task : taskID ≠ ""
  deployment : deploymentID ≠ ""
  named : route.id ≠ ""
  routed : db.routeOf taskID = some route
  policy : db.routePolicy route.id deploymentID route.createdAt = some pin

theorem reconcile_found {db : CostDb} {event : CostEvent}
    {route : RouteDecisionRow} {pin : CostDb.PinnedPolicy}
    (h : Found db event.taskID event.deploymentID route pin) :
    reconcileDeploymentCostEvent fold reader db event =
      match eventUsage (db.recordedInputs reader event.taskID route.id) pin.policy.region event with
      | none => .ok (event.withoutPremium.pinned route.id pin)
      | some usage =>
        match quotePricing fold pin.policy usage route.createdAt with
        | .error e => .error (.quote e)
        | .ok quote => .ok ((event.priced quote).pinned route.id pin) := by
  unfold reconcileDeploymentCostEvent
  rw [if_neg (not_or.mpr ⟨h.deployment, h.task⟩), h.routed]
  simp only [if_neg h.named, h.policy]

theorem reconcile_hidden {fold : Folding} {reader : PayloadReader} {db : CostDb}
    (h : db.exempt = false) (event : CostEvent) :
    reconcileDeploymentCostEvent fold reader db event = .ok event := by
  have hroute : db.routeOf event.taskID = none := by
    simp [CostDb.routeOf, CostDb.visibleTask, h]
  unfold reconcileDeploymentCostEvent
  rw [hroute]
  split <;> rfl

section

variable {fold : Folding} {reader : PayloadReader} {db : CostDb}

/-- Reconciling changes prices only. -/
structure SameCharge (event r : CostEvent) : Prop where
  id : r.id = event.id
  task : r.taskID = event.taskID
  attempt : r.attempt = event.attempt

theorem reconcile_keeps {event r : CostEvent}
    (h : reconcileDeploymentCostEvent fold reader db event = .ok r) : SameCharge event r := by
  have hpriced : ∀ quote, SameCharge event (event.priced quote) := by
    intro quote
    unfold CostEvent.priced
    split <;> exact ⟨rfl, rfl, rfl⟩
  have hpremium : SameCharge event event.withoutPremium := by
    unfold CostEvent.withoutPremium
    split <;> exact ⟨rfl, rfl, rfl⟩
  have hpinned : ∀ {e : CostEvent} (routeID : String) (pin : CostDb.PinnedPolicy),
      SameCharge event e → SameCharge event (e.pinned routeID pin) :=
    fun _ _ h => ⟨h.id, h.task, h.attempt⟩
  unfold reconcileDeploymentCostEvent at h
  simp only at h
  repeat' split at h
  all_goals cases h
  all_goals first
    | exact ⟨rfl, rfl, rfl⟩
    | exact hpinned _ _ hpremium
    | exact hpinned _ _ (hpriced _)

theorem append_stores {event r : CostEvent}
    (hrec : reconcileDeploymentCostEvent fold reader db event = .ok r) (hchecked : event.Check)
    (hfresh : ∀ x ∈ db.costs.rows, x.id ≠ event.id) :
    ∃ costs, db.append fold reader event = (.ok r, { db with costs := costs }) ∧
      costs.rows = db.costs.rows ++ [r] := by
  obtain ⟨hid, _, hattempt⟩ := reconcile_keeps hrec
  have hr : r.Check := by
    unfold CostEvent.Check
    rw [hattempt]
    exact hchecked
  have hclash : ∀ x ∈ db.costs.rows, ¬ x.Clash r := by
    intro x hx
    change x.id ≠ r.id
    rw [hid]
    exact hfresh x hx
  obtain ⟨costs, hcosts⟩ := Table.insert_fresh hr hclash
  refine ⟨costs, ?_, (Table.insert_some hcosts).2.2⟩
  unfold CostDb.append
  rw [hrec]
  simp only [hcosts]

/-- Events with unused ids are stored as they were reconciled: no append changes what
the next event is reconciled with. -/
theorem appendAll_stores {events stored : List CostEvent}
    (hrec : Forall₂ (fun e r => reconcileDeploymentCostEvent fold reader db e = .ok r)
      events stored)
    (hchecked : ∀ e ∈ events, e.Check)
    (hfresh : ∀ e ∈ events, ∀ x ∈ db.costs.rows, x.id ≠ e.id)
    (hdistinct : events.Pairwise (fun a b => a.id ≠ b.id)) :
    ∃ costs, appendAll (CostDb.append fold reader) events db =
      (.ok stored, { db with costs := costs }) ∧ costs.rows = db.costs.rows ++ stored := by
  induction events generalizing db stored with
  | nil =>
    cases hrec
    exact ⟨db.costs, rfl, (append_nil _).symm⟩
  | cons event events ih =>
    obtain ⟨r, stored, he, hrest, rfl⟩ := forall₂_cons_left_iff.mp hrec
    obtain ⟨hahead, hdistinct⟩ := pairwise_cons.mp hdistinct
    obtain ⟨costs, happend, hrows⟩ := append_stores he (hchecked event mem_cons_self)
      (hfresh event mem_cons_self)
    have hfresh' : ∀ e ∈ events, ∀ x ∈ costs.rows, x.id ≠ e.id := by
      intro e hmem x hx
      rw [hrows] at hx
      rcases mem_append.mp hx with hx | hx
      · exact hfresh e (mem_cons_of_mem _ hmem) x hx
      · rw [mem_singleton.mp hx, (reconcile_keeps he).id]
        exact hahead e hmem
    have hrest' : Forall₂ (fun e r => reconcileDeploymentCostEvent fold reader
        { db with costs := costs } e = .ok r) events stored := hrest
    obtain ⟨costs', hall, hrows'⟩ := ih hrest'
      (fun e hmem => hchecked e (mem_cons_of_mem _ hmem)) hfresh' hdistinct
    refine ⟨costs', ?_, ?_⟩
    · simp only [appendAll, happend, hall]
    · rw [hrows', hrows, append_assoc]
      rfl

/-- A call whose events reconcile and whose ids are unused records all of them. -/
theorem record_stores {usage : ModelUsage} {stored : List CostEvent}
    (hrec : Forall₂ (fun e r => reconcileDeploymentCostEvent fold reader db e = .ok r)
      (usageEvents unixNano now usage) stored)
    (hids : usage.taskID ≠ "" ∧ usage.traceID ≠ "")
    (hattempt : -(integerMax + 1) ≤ usage.attempt ∧ usage.attempt ≤ integerMax)
    (hfresh : ∀ x ∈ db.costs.rows, x.id ∉ usageIDs unixNano now) :
    ∃ costs, recordModelUsage unixNano (some (CostDb.append fold reader)) now usage db =
      (.ok stored, { db with costs := costs }) ∧ costs.rows = db.costs.rows ++ stored := by
  have hchecked : ∀ e ∈ usageEvents unixNano now usage, e.Check := by
    intro e he
    unfold CostEvent.Check
    rw [(mem_usageEvents he).2.1]
    exact hattempt
  have hunused : ∀ e ∈ usageEvents unixNano now usage, ∀ x ∈ db.costs.rows, x.id ≠ e.id := by
    intro e he x hx hid
    have hmem := (usageEvents_ids unixNano now usage).subset (mem_map_of_mem he)
    rw [← hid] at hmem
    exact hfresh x hx hmem
  obtain ⟨costs, hall, hrows⟩ :=
    appendAll_stores hrec hchecked hunused (usageEvents_distinct unixNano now usage)
  refine ⟨costs, ?_, hrows⟩
  unfold recordModelUsage
  rw [if_neg (not_or.mpr hids)]
  simp only [hall]
  rfl

end

end AiCloud.Cost
