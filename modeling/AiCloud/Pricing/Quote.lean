import AiCloud.Execution.Plan
import AiCloud.Lib.Json
import Mathlib.Algebra.BigOperators.Group.List.Basic
import Mathlib.Tactic.Ring

/-!
# Pricing policies

A versioned price list of one deployment with the time it is in force. Amounts are
exact, Go's maps of factors are association lists, and an absent factor reads as zero.
The first context band that covers the workload replaces token prices, and the total of
a quote is linear in the workload.
-/
namespace AiCloud.Pricing

open Lib Execution

structure PricingContextBand where
  (minTokens maxTokens : Int)
  (inputPerMillion outputPerMillion cacheHitPerMillion cacheMissPerMillion : Option Rat)
  deriving DecidableEq

structure CapacityPricing where
  (mode unit : String)
  (unitPrice fixedPrice : Rat)
  deriving DecidableEq

structure SelfHostedAllocation where
  (gpuHourPrice cpuCoreHourPrice memoryGBHourPrice storageGBHourPrice : Rat)
  deriving DecidableEq

structure PricingPolicy where
  (id version deploymentID currency region : String)
  (inputPerMillion outputPerMillion cacheHitPerMillion cacheMissPerMillion : Rat)
  contextBands : List PricingContextBand
  (batchFactor asyncFactor : Rat)
  (serviceTierFactors inferenceEffortFactors : List (String × Rat))
  capacity : CapacityPricing
  selfHosted : SelfHostedAllocation
  effectiveFrom : Time
  effectiveTo : Option Time
  (evidenceRef digest : String)
  createdAt : Time
  deriving DecidableEq

variable (p : PricingPolicy)

def PricingPolicy.ref : String := p.id ++ "@" ++ p.version

inductive PricingError
  | identityRequired
  | termsRequired
  | emptyInterval
  | notEffective (ref : String)
  | region (policy requested : String)
  | cachedTokens
  deriving DecidableEq

def PricingPolicy.validate : Except PricingError Unit :=
  if p.id = "" ∨ p.version = "" ∨ p.deploymentID = "" then .error .identityRequired
  else if p.currency = "" ∨ p.effectiveFrom = 0 then .error .termsRequired
  else match p.effectiveTo with
    | none => .ok ()
    | some upTo => if p.effectiveFrom < upTo then .ok () else .error .emptyInterval

theorem policy_currency {p : PricingPolicy} (h : p.validate = .ok ()) : p.currency ≠ "" := by
  intro hcurrency
  unfold PricingPolicy.validate at h
  rw [if_pos (Or.inl hcurrency)] at h
  split at h <;> cases h

/-- In force from its start up to, but not at, its end. -/
def PricingPolicy.EffectiveAt (at_ : Time) : Prop :=
  p.effectiveFrom ≤ at_ ∧ ∀ upTo ∈ p.effectiveTo, at_ < upTo

instance (at_ : Time) : Decidable (p.EffectiveAt at_) := by
  unfold PricingPolicy.EffectiveAt
  infer_instance

/-- Go's `strings.EqualFold`; a text equals itself under every folding. -/
structure Folding where
  equalFold : String → String → Bool
  refl : ∀ s, equalFold s s = true

/-- Folding where only letters that fold into ASCII matter. -/
def asciiFolding : Folding where
  equalFold := fun a b => Json.foldName a = Json.foldName b
  refl := fun _ => decide_eq_true rfl

structure PricingUsageEstimate where
  (inputTokens outputTokens cacheHitInputTokens contextTokens : Int)
  region : String
  (batch async : Bool)
  (serviceTier inferenceEffort : String)
  (capacityUnits gpuHours cpuCoreHours memoryGBHours storageGBHours : Rat)
  deriving DecidableEq

structure PricingQuoteComponent where
  name : String
  quantity : Rat
  unit : String
  (unitPrice factor amount : Rat)
  deriving DecidableEq

structure PricingQuote where
  (policyID policyVersion policyDigest deploymentID currency : String)
  components : List PricingQuoteComponent
  total : Rat
  quotedAt : Time
  deriving DecidableEq

structure TokenPrices where
  (output cacheHit cacheMiss : Rat)

def PricingContextBand.covers (band : PricingContextBand) (contextTokens : Int) : Bool :=
  decide (¬ (contextTokens < band.minTokens ∨
    (0 < band.maxTokens ∧ band.maxTokens < contextTokens)))

variable (policy : PricingPolicy)

def PricingPolicy.tokenPrices (contextTokens : Int) : TokenPrices :=
  let cacheMiss := if policy.cacheMissPerMillion = 0 then policy.inputPerMillion
    else policy.cacheMissPerMillion
  match policy.contextBands.find? (fun band => band.covers contextTokens) with
  | none => ⟨policy.outputPerMillion, policy.cacheHitPerMillion, cacheMiss⟩
  | some band =>
    { output := band.outputPerMillion.getD policy.outputPerMillion
      cacheHit := band.cacheHitPerMillion.getD policy.cacheHitPerMillion
      -- A band's own input price also replaces the price of a cache miss.
      cacheMiss := (band.cacheMissPerMillion.or band.inputPerMillion).getD cacheMiss }

/-- A factor that is absent, zero or negative is not applied. -/
def applied (use : Bool) (value : Rat) : Rat := if use = true ∧ 0 < value then value else 1

def factorOf (factors : List (String × Rat)) (key : String) : Rat := (factors.lookup key).getD 0

variable (usage : PricingUsageEstimate)

def PricingPolicy.factor : Rat :=
  applied usage.batch policy.batchFactor * applied usage.async policy.asyncFactor *
    applied true (factorOf policy.serviceTierFactors usage.serviceTier) *
    applied true (factorOf policy.inferenceEffortFactors usage.inferenceEffort)

/-- No component for nothing at no price. -/
def component (name : String) (quantity : Rat) (unit : String) (unitPrice factor : Rat) :
    List PricingQuoteComponent :=
  if quantity = 0 ∧ unitPrice = 0 then []
  else [⟨name, quantity, unit, unitPrice, factor, quantity * unitPrice * factor⟩]

/-- Tokens are priced by the million. -/
def million (tokens : Int) : Rat := tokens / 1000000

def quoteComponents : List PricingQuoteComponent :=
  let prices := policy.tokenPrices usage.contextTokens
  let factor := policy.factor usage
  component "input-cache-miss" (million (usage.inputTokens - usage.cacheHitInputTokens))
      "million-token" prices.cacheMiss factor ++
    component "input-cache-hit" (million usage.cacheHitInputTokens) "million-token"
      prices.cacheHit factor ++
    component "output" (million usage.outputTokens) "million-token" prices.output factor ++
    component "capacity" usage.capacityUnits policy.capacity.unit policy.capacity.unitPrice 1 ++
    (if policy.capacity.fixedPrice ≠ 0 then
      component "capacity-fixed" 1 "allocation" policy.capacity.fixedPrice 1 else []) ++
    component "self-hosted-gpu" usage.gpuHours "gpu-hour" policy.selfHosted.gpuHourPrice 1 ++
    component "self-hosted-cpu" usage.cpuCoreHours "cpu-core-hour"
      policy.selfHosted.cpuCoreHourPrice 1 ++
    component "self-hosted-memory" usage.memoryGBHours "memory-gb-hour"
      policy.selfHosted.memoryGBHourPrice 1 ++
    component "self-hosted-storage" usage.storageGBHours "storage-gb-hour"
      policy.selfHosted.storageGBHourPrice 1

def quotePricing (fold : Folding) (policy : PricingPolicy) (usage : PricingUsageEstimate)
    (at_ : Time) : Except PricingError PricingQuote :=
  match policy.validate with
  | .error e => .error e
  | .ok _ =>
    if ¬ policy.EffectiveAt at_ then .error (.notEffective policy.ref)
    else if policy.region ≠ "" ∧ usage.region ≠ "" ∧
        fold.equalFold policy.region usage.region = false then
      .error (.region policy.region usage.region)
    else if usage.cacheHitInputTokens < 0 ∨ usage.inputTokens < usage.cacheHitInputTokens then
      .error .cachedTokens
    else .ok
      { policyID := policy.id, policyVersion := policy.version, policyDigest := policy.digest
        deploymentID := policy.deploymentID, currency := policy.currency
        components := quoteComponents policy usage
        total := ((quoteComponents policy usage).map PricingQuoteComponent.amount).sum
        quotedAt := at_ }

abbrev amounts (components : List PricingQuoteComponent) : Rat :=
  (components.map PricingQuoteComponent.amount).sum

theorem amounts_component (name : String) (quantity : Rat) (unit : String)
    (unitPrice factor : Rat) :
    amounts (component name quantity unit unitPrice factor) = quantity * unitPrice * factor := by
  unfold component
  split
  · rename_i h
    rw [h.1, Rat.zero_mul, Rat.zero_mul]
    rfl
  · simp [amounts]

theorem amounts_append (a b : List PricingQuoteComponent) :
    amounts (a ++ b) = amounts a + amounts b := by
  simp [amounts]

theorem amounts_fixed (price : Rat) :
    amounts (if price ≠ 0 then component "capacity-fixed" 1 "allocation" price 1 else []) =
      price := by
  split
  · rw [amounts_component]
    ring
  · rename_i h
    rw [not_not.mp h]
    rfl

def PricingPolicy.tokenCharge : Rat :=
  (million (usage.inputTokens - usage.cacheHitInputTokens) *
      (policy.tokenPrices usage.contextTokens).cacheMiss +
    million usage.cacheHitInputTokens * (policy.tokenPrices usage.contextTokens).cacheHit +
    million usage.outputTokens * (policy.tokenPrices usage.contextTokens).output) *
    policy.factor usage

/-- What the reserved capacity and the policy's own hardware cost. -/
def PricingPolicy.capacityCharge : Rat :=
  usage.capacityUnits * policy.capacity.unitPrice + policy.capacity.fixedPrice +
    usage.gpuHours * policy.selfHosted.gpuHourPrice +
    usage.cpuCoreHours * policy.selfHosted.cpuCoreHourPrice +
    usage.memoryGBHours * policy.selfHosted.memoryGBHourPrice +
    usage.storageGBHours * policy.selfHosted.storageGBHourPrice

theorem amounts_quoteComponents : amounts (quoteComponents policy usage) =
      policy.tokenCharge usage + policy.capacityCharge usage := by
  unfold quoteComponents PricingPolicy.tokenCharge PricingPolicy.capacityCharge
  simp only [amounts_append, amounts_component, amounts_fixed]
  ring

/-- A quote: the policy is valid and in force, and the total is what the parts cost. -/
theorem quotePricing_ok {fold : Folding} {policy : PricingPolicy} {usage : PricingUsageEstimate}
    {at_ : Time} {quote : PricingQuote} (h : quotePricing fold policy usage at_ = .ok quote) :
    policy.validate = .ok () ∧ policy.EffectiveAt at_ ∧
      quote.components = quoteComponents policy usage ∧ quote.currency = policy.currency ∧
      quote.total = policy.tokenCharge usage + policy.capacityCharge usage ∧
      0 ≤ usage.cacheHitInputTokens ∧ usage.cacheHitInputTokens ≤ usage.inputTokens := by
  unfold quotePricing at h
  split at h
  · cases h
  rename_i u hvalid
  cases u
  split at h
  · cases h
  rename_i heffective
  split at h
  · cases h
  split at h
  · cases h
  rename_i htokens
  cases h
  exact ⟨hvalid, not_not.mp heffective, rfl, rfl, amounts_quoteComponents policy usage,
    by omega, by omega⟩

theorem quotePricing_own (fold : Folding) (usage : PricingUsageEstimate) {policy : PricingPolicy}
    {at_ : Time} (hvalid : policy.validate = .ok ()) (heffective : policy.EffectiveAt at_)
    (hregion : usage.region = policy.region) (hhit : 0 ≤ usage.cacheHitInputTokens)
    (htokens : usage.cacheHitInputTokens ≤ usage.inputTokens) :
    ∃ quote, quotePricing fold policy usage at_ = .ok quote ∧
      quote.components = quoteComponents policy usage ∧ quote.currency = policy.currency := by
  have hfold : ¬ (policy.region ≠ "" ∧ usage.region ≠ "" ∧
      fold.equalFold policy.region usage.region = false) := by
    rw [hregion, fold.refl]
    simp
  have hcached : ¬ (usage.cacheHitInputTokens < 0 ∨
      usage.inputTokens < usage.cacheHitInputTokens) := by omega
  unfold quotePricing
  simp only [hvalid, not_true_eq_false, heffective, if_false, if_neg hfold, if_neg hcached]
  exact ⟨_, rfl, rfl, rfl⟩

/-- One and two per million tokens, under any name and for any deployment. -/
def tokenPolicy (id version deploymentID : String) (effectiveFrom createdAt : Time) :
    PricingPolicy :=
  ⟨id, version, deploymentID, "USD", "", 1, 2, 0, 0, [], 0, 0, [], [], ⟨"", "", 0, 0⟩, ⟨0, 0, 0, 0⟩,
    effectiveFrom, none, "", "", createdAt⟩

end AiCloud.Pricing
