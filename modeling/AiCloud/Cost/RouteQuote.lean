import Mathlib.Tactic.FieldSimp
import Mathlib.Tactic.Linarith
import AiCloud.Cost.Reconcile

/-!
# The route's quote and the recorded costs

A route quotes the whole workload at once, with the fixed price of reserved
capacity. The events of the call that follows are quoted one by one, for tokens
only, and only where the repository may see the task at all.
-/
namespace AiCloud.Cost

open Lib Execution Tasks ModelRuntime Pricing Routing List

theorem find_component (p : String → Bool) (name : String) (quantity : Rat) (unit : String)
    (unitPrice factor : Rat) :
    (component name quantity unit unitPrice factor).find? (fun c => p c.name) =
      if p name then (component name quantity unit unitPrice factor).head? else none := by
  unfold component
  by_cases hzero : quantity = 0 ∧ unitPrice = 0
  · simp [hzero]
  · by_cases hp : p name <;> simp [hzero, hp]

theorem find_fixed (p : String → Bool) (price : Rat) (hp : p "capacity-fixed" = false) :
    (if price ≠ 0 then component "capacity-fixed" 1 "allocation" price 1 else []).find?
      (fun c => p c.name) = none := by
  split
  · rw [find_component]
    simp [hp]
  · rfl

variable (policy : PricingPolicy)

theorem find_input (usage : PricingUsageEstimate) : (quoteComponents policy usage).find?
        (fun c => pricingComponentMatchesCostEvent c.name .modelInput) =
      (component "input-cache-miss" (million (usage.inputTokens - usage.cacheHitInputTokens))
        "million-token" (policy.tokenPrices usage.contextTokens).cacheMiss
        (policy.factor usage)).head? := by
  unfold quoteComponents
  simp only [find?_append, find_component (fun n => pricingComponentMatchesCostEvent n .modelInput),
    find_fixed (fun n => pricingComponentMatchesCostEvent n .modelInput) _ rfl]
  simp [pricingComponentMatchesCostEvent]

theorem find_output (usage : PricingUsageEstimate) : (quoteComponents policy usage).find?
        (fun c => pricingComponentMatchesCostEvent c.name .modelOutput) =
      (component "output" (million usage.outputTokens) "million-token"
        (policy.tokenPrices usage.contextTokens).output (policy.factor usage)).head? := by
  unfold quoteComponents
  simp only [find?_append,
    find_component (fun n => pricingComponentMatchesCostEvent n .modelOutput),
    find_fixed (fun n => pricingComponentMatchesCostEvent n .modelOutput) _ rfl]
  simp [pricingComponentMatchesCostEvent]

theorem truncate_intCast (n : Int) : truncate (n : Rat) = n := by
  simp [truncate]

theorem million_eq_zero {n : Int} (h : million n = 0) : (n : Rat) = 0 := by
  unfold million at h
  linarith

section

variable {fold : Folding} {reader : PayloadReader} {db : CostDb} {route : RouteDecisionRow}
  {pin : CostDb.PinnedPolicy}

/-- An event of tokens costs the part of the quote it stands for. Where the quote leaves
that part out, there was nothing to pay before either. -/
theorem reconcile_tokens {event : CostEvent} {workload : PricingUsageEstimate} {name unit : String}
    {quantity unitPrice factor : Rat}
    (husage : eventUsage (db.recordedInputs reader event.taskID route.id) pin.policy.region event =
      some workload) (hfound : Found db event.taskID event.deploymentID route pin)
    (hvalid : pin.policy.validate = .ok ()) (heffective : pin.policy.EffectiveAt route.createdAt)
    (hregion : workload.region = pin.policy.region) (hhit : 0 ≤ workload.cacheHitInputTokens)
    (htokens : workload.cacheHitInputTokens ≤ workload.inputTokens)
    (hfind : (quoteComponents pin.policy workload).find?
        (fun c => pricingComponentMatchesCostEvent c.name event.component) =
      (component name quantity unit unitPrice factor).head?)
    (hfree : quantity = 0 → event.amount = 0)
    (hcharge : pin.policy.tokenCharge workload = quantity * unitPrice * factor) :
    ∃ r, reconcileDeploymentCostEvent fold reader db event = .ok r ∧
      r.amount = pin.policy.tokenCharge workload := by
  obtain ⟨quote, hquote, hcomponents, _⟩ :=
    quotePricing_own fold workload hvalid heffective hregion hhit htokens
  have hrec := reconcile_found fold reader hfound
  simp only [husage, hquote] at hrec
  refine ⟨_, hrec, ?_⟩
  change (event.priced quote).amount = _
  unfold CostEvent.priced
  rw [hcomponents, hfind, hcharge]
  unfold component
  by_cases hzero : quantity = 0 ∧ unitPrice = 0
  · rw [if_pos hzero, hzero.1, Rat.zero_mul, Rat.zero_mul]
    exact hfree hzero.1
  · rw [if_neg hzero]
    rfl

/-- Tokens are charged apart as they are together. -/
theorem tokenCharge_split (inputs : RoutePricingInputs) (region : String)
    (inputTokens outputTokens : Int) : policy.tokenCharge (inputs.usage region inputTokens 0 0) +
      policy.tokenCharge (inputs.usage region 0 outputTokens 0) =
    policy.tokenCharge (inputs.usage region inputTokens outputTokens 0) := by
  have hfactor : ∀ input output, policy.factor (inputs.usage region input output 0) =
      policy.factor (inputs.usage region 0 0 0) := fun _ _ => rfl
  simp only [PricingPolicy.tokenCharge, hfactor]
  simp only [RoutePricingInputs.usage, million, Int.sub_zero, Int.cast_zero]
  ring

variable {unixNano : Time → Int} {now : Time} {usage : ModelUsage}
  (hfound : Found db usage.taskID usage.deploymentID route pin)
include hfound

/-- The premium of a tier is part of the quoted tokens. -/
theorem reconcile_tier :
    ∃ rs, Forall₂ (fun e r => reconcileDeploymentCostEvent fold reader db e = .ok r)
      (tierEvents unixNano now usage) rs ∧ (rs.map CostEvent.amount).sum = 0 := by
  unfold tierEvents
  split
  · refine ⟨[_], Forall₂.cons (reconcile_found fold reader hfound) Forall₂.nil, ?_⟩
    simp [CostEvent.pinned, CostEvent.withoutPremium, newEvent]
  · exact ⟨[], Forall₂.nil, rfl⟩

variable (hvalid : pin.policy.validate = .ok ())
    (heffective : pin.policy.EffectiveAt route.createdAt)
include hvalid heffective

theorem reconcile_input (htokens : 0 ≤ usage.usage.inputTokens) :
    ∃ r, reconcileDeploymentCostEvent fold reader db (inputEvent unixNano now usage) = .ok r ∧
      r.amount = pin.policy.tokenCharge ((db.recordedInputs reader usage.taskID route.id).usage
        pin.policy.region usage.usage.inputTokens 0 0) := by
  have husage : ∀ inputs region, eventUsage inputs region (inputEvent unixNano now usage) =
      some (inputs.usage region usage.usage.inputTokens 0 0) := by
    simp only [eventUsage, inputEvent, newEvent, truncate_intCast, implies_true]
  have hfree : million (usage.usage.inputTokens - 0) = 0 →
      (inputEvent unixNano now usage).amount = 0 := by
    intro hzero
    rw [Int.sub_zero] at hzero
    simp only [inputEvent, newEvent, million_eq_zero hzero, zero_mul]
  refine reconcile_tokens (husage (db.recordedInputs reader usage.taskID route.id) _)
    hfound hvalid heffective rfl le_rfl htokens (find_input _ _) hfree ?_
  simp [PricingPolicy.tokenCharge, RoutePricingInputs.usage, million]

theorem reconcile_output :
    ∃ r, reconcileDeploymentCostEvent fold reader db (outputEvent unixNano now usage) = .ok r ∧
      r.amount = pin.policy.tokenCharge ((db.recordedInputs reader usage.taskID route.id).usage
        pin.policy.region 0 usage.usage.outputTokens 0) := by
  have husage : ∀ inputs region, eventUsage inputs region (outputEvent unixNano now usage) =
      some (inputs.usage region 0 usage.usage.outputTokens 0) := by
    simp only [eventUsage, outputEvent, newEvent, truncate_intCast, implies_true]
  have hfree : million usage.usage.outputTokens = 0 →
      (outputEvent unixNano now usage).amount = 0 := by
    intro hzero
    simp only [outputEvent, newEvent, million_eq_zero hzero, zero_mul]
  refine reconcile_tokens (husage (db.recordedInputs reader usage.taskID route.id) _)
    hfound hvalid heffective rfl le_rfl le_rfl (find_output _ _) hfree ?_
  simp [PricingPolicy.tokenCharge, RoutePricingInputs.usage, million]

/-- The events of a call, reconciled: their amounts are the charge for its tokens. -/
theorem reconcile_call (htokens : 0 ≤ usage.usage.inputTokens) :
    ∃ rs, Forall₂ (fun e r => reconcileDeploymentCostEvent fold reader db e = .ok r)
        (usageEvents unixNano now usage) rs ∧ (rs.map CostEvent.amount).sum =
        pin.policy.tokenCharge ((db.recordedInputs reader usage.taskID route.id).usage
          pin.policy.region usage.usage.inputTokens usage.usage.outputTokens 0) := by
  obtain ⟨ri, hi, hiamount⟩ := reconcile_input hfound hvalid heffective htokens
  obtain ⟨ro, ho, hoamount⟩ := reconcile_output hfound hvalid heffective
  obtain ⟨rt, ht, htamount⟩ := reconcile_tier hfound
  refine ⟨ri :: ro :: rt, Forall₂.cons hi (Forall₂.cons ho ht), ?_⟩
  rw [map_cons, map_cons, sum_cons, sum_cons, hiamount, hoamount, htamount,
    add_zero, tokenCharge_split]

end

/-- How a task came to its route: by the route command of the control plane, whose event
records the workload, or by the selection of a workflow, whose event does not. -/
inductive RouteCommit
  | command
  | selection

def RouteCommit.inputs (req : Request) : RouteCommit → RoutePricingInputs
  | .command => ⟨req.serviceTier, req.inferenceEffort, req.estimatedInputTokens,
      req.estimatedOutputTokens⟩
  | .selection => noInputs

/-- The same rows under a role that sees all of them. -/
def CostDb.exempted (db : CostDb) : CostDb := { db with exempt := true }

/-- The rows of a task whose route was committed for the request with the pinned policy. -/
structure Routed (reader : PayloadReader) (db : CostDb) (how : RouteCommit) (req : Request)
    (taskID deploymentID : String) (route : RouteDecisionRow)
    (pin : CostDb.PinnedPolicy) : Prop where
  found : Found db.exempted taskID deploymentID route pin
  recorded : db.exempted.recordedInputs reader taskID route.id = how.inputs req

/-- What the policy asks for besides the tokens of the request, the recorded workload
has to make up for. -/
def RouteCommit.Covers (how : RouteCommit) (policy : PricingPolicy) (req : Request) : Prop :=
  match how with
  | .command => policy.capacity.fixedPrice = 0
  | .selection =>
    policy.tokenCharge (noInputs.usage policy.region req.estimatedInputTokens
      req.estimatedOutputTokens 0) =
      policy.tokenCharge (req.usageEstimate policy.region) + policy.capacity.fixedPrice

section

variable {fold : Folding} {reader : PayloadReader} {db : CostDb} {how : RouteCommit}
  {req : Request} {route : RouteDecisionRow} {pin : CostDb.PinnedPolicy} {region : String}
  {quote : PricingQuote}

theorem routeQuote_total {policy : PricingPolicy} {at_ : Time}
    (hquote : quotePricing fold policy (req.usageEstimate region) at_ = .ok quote) :
    quote.total = policy.tokenCharge (req.usageEstimate policy.region) +
      policy.capacity.fixedPrice := by
  obtain ⟨_, _, _, _, htotal, _⟩ := quotePricing_ok hquote
  have hcapacity : policy.capacityCharge (req.usageEstimate region) =
    policy.capacity.fixedPrice := by
    simp [PricingPolicy.capacityCharge, Request.usageEstimate]
  have hregion : policy.tokenCharge (req.usageEstimate region) =
      policy.tokenCharge (req.usageEstimate policy.region) := rfl
  rw [htotal, hcapacity, hregion]

/-- The recorded workload charges what the route quoted. -/
theorem covers_iff {policy : PricingPolicy} {at_ : Time}
    (hquote : quotePricing fold policy (req.usageEstimate region) at_ = .ok quote) :
    policy.tokenCharge ((how.inputs req).usage policy.region req.estimatedInputTokens
      req.estimatedOutputTokens 0) = quote.total ↔ how.Covers policy req := by
  rw [routeQuote_total hquote]
  cases how with
  | command =>
    have hsame : (RouteCommit.command.inputs req).usage policy.region req.estimatedInputTokens
        req.estimatedOutputTokens 0 = req.usageEstimate policy.region := rfl
    rw [hsame]
    exact left_eq_add
  | selection => exact Iff.rfl

theorem tokenCharge_nothing (inputs : RoutePricingInputs)
    (region : String) : policy.tokenCharge (inputs.usage region 0 0 0) = 0 := by
  simp [PricingPolicy.tokenCharge, RoutePricingInputs.usage, million]

def RecordsTotal (fold : Folding) (reader : PayloadReader) (unixNano : Time → Int) (now : Time)
    (usage : ModelUsage) (db : CostDb) (total : Rat) : Prop :=
  ∃ events costs, recordModelUsage unixNano (some (CostDb.append fold reader)) now usage db =
      (.ok events, { db with costs := costs }) ∧ costs.rows = db.costs.rows ++ events ∧
    (events.map CostEvent.amount).sum = total

variable {unixNano : Time → Int} {now : Time}

theorem RecordsTotal.unique {usage : ModelUsage} {total total' : Rat}
    (h : RecordsTotal fold reader unixNano now usage db total)
    (h' : RecordsTotal fold reader unixNano now usage db total') : total = total' := by
  obtain ⟨events, costs, hrun, _, hsum⟩ := h
  obtain ⟨events', costs', hrun', _, hsum'⟩ := h'
  have hevents : Except.ok events = Except.ok events' := (Prod.mk.inj (hrun.symm.trans hrun')).1
  cases hevents
  exact hsum.symm.trans hsum'

variable (usage : ModelUsage)

/-- Under a role that sees the task a call costs what the recorded workload charges,
whatever the model's own prices. -/
theorem record_visible
    (hrouted : Routed reader db how req usage.taskID usage.deploymentID route pin)
    (hquote : quotePricing fold pin.policy (req.usageEstimate region) route.createdAt = .ok quote)
    (hinput : usage.usage.inputTokens = req.estimatedInputTokens)
    (houtput : usage.usage.outputTokens = req.estimatedOutputTokens) (htrace : usage.traceID ≠ "")
    (hattempt : -(integerMax + 1) ≤ usage.attempt ∧ usage.attempt ≤ integerMax)
    (hfresh : ∀ x ∈ db.costs.rows, x.id ∉ usageIDs unixNano now) (hexempt : db.exempt = true) :
    RecordsTotal fold reader unixNano now usage db (pin.policy.tokenCharge ((how.inputs req).usage
      pin.policy.region req.estimatedInputTokens req.estimatedOutputTokens 0)) := by
  have hsame : db.exempted = db := by
    unfold CostDb.exempted
    rw [← hexempt]
  obtain ⟨hfound, hrecorded⟩ := hrouted
  rw [hsame] at hfound hrecorded
  obtain ⟨hvalid, heffective, _, _, _, _, htokens⟩ := quotePricing_ok hquote
  have hnonneg : 0 ≤ usage.usage.inputTokens := hinput ▸ htokens
  obtain ⟨events, hrec, hsum⟩ := reconcile_call hfound hvalid heffective hnonneg
  obtain ⟨costs, hrun, hrows⟩ := record_stores hrec ⟨hfound.task, htrace⟩ hattempt hfresh
  refine ⟨events, costs, hrun, hrows, ?_⟩
  rw [hsum, hrecorded, hinput, houtput]

theorem record_hidden (fold : Folding) (reader : PayloadReader) (htask : usage.taskID ≠ "")
    (htrace : usage.traceID ≠ "")
    (hattempt : -(integerMax + 1) ≤ usage.attempt ∧ usage.attempt ≤ integerMax)
    (hfresh : ∀ x ∈ db.costs.rows, x.id ∉ usageIDs unixNano now) (hexempt : db.exempt = false) :
    RecordsTotal fold reader unixNano now usage db
      ((usageEvents unixNano now usage).map CostEvent.amount).sum := by
  have hrec : Forall₂ (fun e r => reconcileDeploymentCostEvent fold reader db e = .ok r)
      (usageEvents unixNano now usage) (usageEvents unixNano now usage) :=
    forall₂_same.mpr (fun e _ => reconcile_hidden hexempt e)
  obtain ⟨costs, hrun, hrows⟩ := record_stores hrec ⟨htask, htrace⟩ hattempt hfresh
  exact ⟨_, costs, hrun, hrows, rfl⟩

/-- Prices that nobody reconciled add up to one total for every profile only where no
token was used. -/
theorem profiles_agree {total : Rat} (hsums : ∀ profile : PricingProfile,
      ((usageEvents unixNano now { usage with pricing := profile }).map CostEvent.amount).sum =
        total) :
    usage.usage.inputTokens = 0 ∧ usage.usage.outputTokens = 0 ∧ total = 0 := by
  have hfree := hsums ⟨"", 0, 0, 0, 0⟩
  have hinput := hsums ⟨"", 1000000, 0, 0, 0⟩
  have houtput := hsums ⟨"", 0, 1000000, 0, 0⟩
  simp only [sum_usageEvents, tierFactor, not_lt.mpr (zero_le_one (α := Rat)), and_false, if_false,
    zero_div, mul_zero, add_zero, zero_add, mul_one] at hfree hinput houtput
  rw [← hfree] at hinput houtput
  norm_num at hinput houtput
  exact ⟨hinput, houtput, hfree.symm⟩

end

/-- For every profile of the model's own prices, the events of a call with the tokens of
the request add up to the route's quote exactly if the recording role sees the task and the
recorded workload covers the quote, or if there was nothing to pay. -/
theorem recorded_total_iff (fold : Folding) (reader : PayloadReader) (unixNano : Time → Int)
    (now : Time) (db : CostDb) (usage : ModelUsage) (how : RouteCommit) (req : Request)
    (route : RouteDecisionRow) (pin : CostDb.PinnedPolicy) (region : String) (quote : PricingQuote)
    (hrouted : Routed reader db how req usage.taskID usage.deploymentID route pin)
    (hquote : quotePricing fold pin.policy (req.usageEstimate region) route.createdAt = .ok quote)
    (hinput : usage.usage.inputTokens = req.estimatedInputTokens)
    (houtput : usage.usage.outputTokens = req.estimatedOutputTokens)
    (htrace : usage.traceID ≠ "")
    (hattempt : -(integerMax + 1) ≤ usage.attempt ∧ usage.attempt ≤ integerMax)
    (hfresh : ∀ x ∈ db.costs.rows, x.id ∉ usageIDs unixNano now) :
    (∀ profile : PricingProfile, RecordsTotal fold reader unixNano now
      { usage with pricing := profile } db quote.total) ↔
      (db.exempt = true ∨ (req.estimatedInputTokens = 0 ∧ req.estimatedOutputTokens = 0)) ∧
        how.Covers pin.policy req := by
  rw [← covers_iff hquote]
  by_cases hexempt : db.exempt = true
  · have hrecord := fun profile : PricingProfile =>
      record_visible { usage with pricing := profile } hrouted hquote hinput houtput htrace hattempt
        hfresh hexempt
    constructor
    · intro h
      exact ⟨.inl hexempt, (hrecord usage.pricing).unique (h usage.pricing)⟩
    · intro ⟨_, hcovers⟩ profile
      exact hcovers ▸ hrecord profile
  · have hrecord := fun profile : PricingProfile =>
      record_hidden { usage with pricing := profile } fold reader hrouted.found.task htrace hattempt
        hfresh (Bool.eq_false_iff.mpr hexempt)
    constructor
    · intro h
      obtain ⟨hin, hout, htotal⟩ :=
        profiles_agree usage (fun profile => (hrecord profile).unique (h profile))
      rw [hinput] at hin
      rw [houtput] at hout
      refine ⟨.inr ⟨hin, hout⟩, ?_⟩
      rw [hin, hout, htotal, tokenCharge_nothing]
    · rintro ⟨hexempt' | ⟨hin, hout⟩, hcovers⟩ profile
      · exact absurd hexempt' hexempt
      have hsum := sum_usageEvents unixNano now { usage with pricing := profile }
      simp only [hinput, houtput, hin, hout, Int.cast_zero, zero_mul, add_zero] at hsum
      rw [hin, hout, tokenCharge_nothing] at hcovers
      exact (hsum.trans hcovers) ▸ hrecord profile

variable (fixedPrice : Rat)

/-- One and two per million tokens, and a fixed price for reserved capacity. -/
def meteredPolicy : PricingPolicy :=
  { tokenPolicy "price" "v1" "deployment" 1 1 with capacity := ⟨"", "", 0, fixedPrice⟩ }

def meteredPin : CostDb.PinnedPolicy :=
  ⟨meteredPolicy fixedPrice, "price", "v1", ""⟩

def routedTask : Task :=
  ⟨"task", "tenant", "project", "user", "", "", .routing, 2, "", 0, 0, 0, "", "route",
    "trace", 1, 1, none⟩

def routingStarted : TaskEvent :=
  ⟨"event", "tenant", "project", "task", 1, "TaskRoutingStarted", ⟨"", ""⟩, "routed", "",
    "trace", 1, 1, 1⟩

def meteredRoute : RouteDecisionRow := ⟨"route", "task", "", "", "", "", "", "", 10⟩

/-- The rows after a route command, read by a role that sees them. -/
def meteredDb : CostDb where
  tasks :=
    { Tasks.Db.empty with
      tasks := ⟨[routedTask], forall_mem_singleton.mpr (by decide), pairwise_singleton _ _⟩
      events := ⟨[routingStarted], forall_mem_singleton.mpr (by decide), pairwise_singleton _ _⟩
      decisions := ⟨[meteredRoute], fun _ _ => trivial, pairwise_singleton _ _⟩ }
  policies := ⟨[meteredPolicy fixedPrice], fun _ _ => trivial, pairwise_singleton _ _⟩
  evidence := ⟨[⟨"route", "deployment", "price", "v1", ""⟩], fun _ _ => trivial,
    pairwise_singleton _ _⟩
  costs := Table.empty
  exempt := true

def meteredRequest : Request :=
  ⟨"task", "", [], "", "", 1000000, 100000, 0, "", "", "", "", false, false, 0⟩

def meteredReader : PayloadReader where
  routeDecisionID := fun _ => some "route"
  inputs := fun _ => ⟨"", "", 1000000, 100000⟩

def meteredUsage : ModelUsage :=
  ⟨"task", "trace", "provider", "model", "v1", "deployment", ⟨"USD", 2, 4, 0, 0⟩,
    ⟨1000000, 100000, 1100000⟩, 1, ""⟩

theorem metered_routed : Routed meteredReader (meteredDb fixedPrice) .command
    meteredRequest "task" "deployment" meteredRoute (meteredPin fixedPrice) where
  found := ⟨by decide, by decide, by decide, rfl, rfl⟩
  recorded := by
    simp [CostDb.recordedInputs, CostDb.visibleEvents, CostDb.exempted, meteredDb,
      Tasks.Db.eventsOf,
      Table.select, meteredReader, routingStarted, meteredRoute, RouteCommit.inputs, meteredRequest]

/-- Without a fixed price the call costs what the route quoted. -/
theorem metered_total : ∃ quote, quotePricing asciiFolding (meteredPolicy 0)
      (meteredRequest.usageEstimate "") 10 = .ok quote ∧ quote.total = 6 / 5 ∧
    ∀ profile : PricingProfile, RecordsTotal asciiFolding meteredReader (fun t => t * 1000) 20
      { meteredUsage with pricing := profile } (meteredDb 0) quote.total := by
  refine ⟨_, rfl, by decide +kernel, ?_⟩
  refine (recorded_total_iff asciiFolding meteredReader (fun t => t * 1000) 20 (meteredDb 0)
    meteredUsage .command meteredRequest meteredRoute (meteredPin 0) "" _
      (metered_routed 0) rfl rfl rfl
    (by decide) (by decide) ?_).mpr ⟨.inl rfl, rfl⟩
  intro x hx
  cases hx

/-- A fixed price of five is part of the quote and of no event. -/
theorem fixed_price_unrecorded :
    Routed meteredReader (meteredDb 5) .command meteredRequest "task" "deployment" meteredRoute
        (meteredPin 5) ∧
      (quotePricing asciiFolding (meteredPolicy 5)
        (meteredRequest.usageEstimate "") 10).toOption.map PricingQuote.total = some (31 / 5) ∧
      (recordModelUsage (fun t => t * 1000) (some (CostDb.append asciiFolding meteredReader)) 20
        meteredUsage (meteredDb 5)).1.toOption.map (fun events =>
          (events.map CostEvent.amount).sum) = some (6 / 5) := by
  refine ⟨metered_routed 5, by decide +kernel, by decide +kernel⟩

end AiCloud.Cost
