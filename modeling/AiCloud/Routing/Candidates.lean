import AiCloud.ModelRuntime.Executor
import AiCloud.Pricing.Quote

/-!
# Records of the router

Models, deployments and requests with the fields routing reads, and the repositories as
what they answer while nothing changes in them. Every offer becomes a candidate with the
reasons against it, its cost and its score; the best one without a reason is selected.
-/
namespace AiCloud.Routing

open Lib Execution Tasks ModelRuntime Pricing List

inductive ModelLifecycle
  | draft
  | active
  | degraded
  | deprecated
  | retired
  | revoked
  | other (text : String)
  deriving DecidableEq

inductive HealthStatus
  | unknown
  | healthy
  | degraded
  | unhealthy
  | other (text : String)
  deriving DecidableEq

inductive ApprovalStatus
  | discovered
  | evidenceCollected
  | reviewed
  | approved
  | restricted
  | rejected
  | revoked
  | other (text : String)
  deriving DecidableEq

inductive DeploymentMode
  | publicAPI
  | enterpriseAPI
  | privateEndpoint
  | selfHosted
  | local
  | other (text : String)
  deriving DecidableEq

inductive DeploymentLifecycle
  | discovered
  | ready
  | degraded
  | draining
  | retired
  | blocked
  | other (text : String)
  deriving DecidableEq

def routeDeterministic : String := "deterministic"
def routeEfficient : String := "efficient"
def routeSpecialist : String := "specialist"
def tierBatch : String := "batch"

structure RouterModel where
  (id version : String)
  deploymentMode : DeploymentMode
  lifecycle : ModelLifecycle
  capabilities : List String
  pricing : PricingProfile
  health : HealthStatus
  healthCheckedAt : Option Time
  (p95LatencyMS quotaRemaining capacityAvailable : Int)
  (serviceTiers inferenceEfforts : List String)
  approvalStatus : ApprovalStatus
  dataResidency : String
  deriving DecidableEq

structure ModelVersion where
  (id version : String)
  lifecycle : ModelLifecycle
  capabilities : List String
  approvalStatus : ApprovalStatus
  deriving DecidableEq

def noProfile : PricingProfile := ⟨"", 0, 0, 0, 0⟩

/-- A version has no runtime state of its own. -/
def ModelVersion.legacyModel (v : ModelVersion) (mode : DeploymentMode) : RouterModel where
  id := v.id
  version := v.version
  deploymentMode := mode
  lifecycle := v.lifecycle
  capabilities := v.capabilities
  pricing := noProfile
  health := .other ""
  healthCheckedAt := none
  p95LatencyMS := 0
  quotaRemaining := 0
  capacityAvailable := 0
  serviceTiers := []
  inferenceEfforts := []
  approvalStatus := v.approvalStatus
  dataResidency := ""

structure Deployment where
  (id modelVersionID modelID modelVersion : String)
  mode : DeploymentMode
  (region dataResidency : String)
  pricing : PricingProfile
  health : HealthStatus
  healthCheckedAt : Option Time
  (p95LatencyMS quotaRemaining capacityAvailable : Int)
  (serviceTiers inferenceEfforts : List String)
  lifecycle : DeploymentLifecycle
  routingEligible : Bool
  deriving DecidableEq

def Deployment.isRoutingEligible (d : Deployment) (now : Time) (maxSignalAge : Duration) : Bool :=
  d.routingEligible && decide (d.lifecycle = .ready ∨ d.lifecycle = .degraded) &&
    decide (d.health ≠ .unhealthy) &&
    decide (0 < maxSignalAge → ∃ checked ∈ d.healthCheckedAt, now - checked ≤ maxSignalAge)

structure Request where
  (taskID routeClass : String)
  requiredCapabilities : List String
  (inferenceEffort serviceTier : String)
  (estimatedInputTokens estimatedOutputTokens : Int)
  budget : Rat
  (currency dataResidency evidenceVersion policyVersion : String)
  (allowDegraded requireFreshSignals : Bool)
  signalMaxAge : Duration
  deriving DecidableEq

structure AdmissionDecision where
  allowed : Bool
  reasons : List String
  deriving DecidableEq

/-- The error text of a repository or of the admission service. -/
abbrev ServiceError := String

/-- What the repository lists it also reads. -/
structure DeploymentRepository where
  listByModelVersion : String → Except ServiceError (List Deployment)
  listByModel : String → String → Except ServiceError (List Deployment)
  get : String → Except ServiceError Deployment
  listedByVersion : ∀ id items, listByModelVersion id = .ok items → ∀ d ∈ items, get d.id = .ok d
  listedByModel : ∀ id version items, listByModel id version = .ok items →
    ∀ d ∈ items, get d.id = .ok d

structure PricingPolicyRepository where
  resolve : String → Time → Except ServiceError PricingPolicy

abbrev ModelVersionRepository := Except ServiceError (List ModelVersion)

/-- `decisions` is absent where nothing is to be persisted. -/
structure Router where
  models : Except ServiceError (List RouterModel)
  decisions : Option (RouteDecision → Except ServiceError RouteDecision)
  admission : Option (RouterModel → Except ServiceError AdmissionDecision)

/-- The deployments of a memory map or of `model_deployments`, one under each id. -/
abbrev Deployments := Table Deployment (fun _ => True) (fun a b => a.id = b.id)

namespace Deployments

variable (r : Deployments)

def get (id : String) : Except ServiceError Deployment :=
  match Table.lookup Deployment.id id r.rows with
  | some d => .ok d
  | none => .error "not found"

def listed (keep : Deployment → Bool) : List Deployment :=
  (r.rows.filter keep).mergeSort (fun a b => decide (a.id ≤ b.id))

theorem get_listed {keep : Deployment → Bool} {d : Deployment} (h : d ∈ listed r keep) :
    get r d.id = .ok d := by
  have hmem : d ∈ r.rows := (mem_filter.mp (mem_mergeSort.mp h)).1
  unfold get
  cases hf : Table.lookup Deployment.id d.id r.rows with
  | none => exact absurd rfl (Table.lookup_none.mp hf d hmem)
  | some found => rw [Table.eq_of_lookup (fun _ _ h => h) hf hmem rfl]

def repository : DeploymentRepository where
  listByModelVersion := fun id => .ok (listed r (fun d => d.modelVersionID = id))
  listByModel := fun id version =>
    .ok (listed r (fun d => d.modelID = id ∧ d.modelVersion = version))
  get := get r
  listedByVersion := by
    intro id items h d hd
    cases h
    exact get_listed r hd
  listedByModel := by
    intro id version items h d hd
    cases h
    exact get_listed r hd

end Deployments

def rejectIf (p : Prop) [Decidable p] (reason : String) : List String := if p then [reason] else []

variable (fold : Folding)

def containsFold (items : List String) (target : String) : Bool :=
  items.any (fun item => fold.equalFold item target)

def missingCapabilities (required available : List String) : List String :=
  (required.filter (fun capability => ¬ containsFold fold available capability)).map
    ("missing capability: " ++ ·)

/-- A requested value that a non-empty list of supported ones leaves out. -/
def Unsupported (requested : String) (supported : List String) : Prop :=
  requested ≠ "" ∧ supported ≠ [] ∧ requested ∉ supported

instance (requested : String) (supported : List String) :
    Decidable (Unsupported requested supported) := by
  unfold Unsupported
  infer_instance

def Elsewhere (requested actual : String) : Prop :=
  requested ≠ "" ∧ actual ≠ "" ∧ fold.equalFold requested actual = false

instance (requested actual : String) :
    Decidable (Elsewhere fold requested actual) := by
  unfold Elsewhere
  infer_instance

def Stale (now : Time) (checkedAt : Option Time) (maxAge : Duration) : Prop :=
  ∀ checked ∈ checkedAt, maxAge < now - checked

instance (now : Time) (checkedAt : Option Time) (maxAge : Duration) :
    Decidable (Stale now checkedAt maxAge) := by
  unfold Stale
  infer_instance

variable (model : RouterModel) (req : Request)

def Unroutable : Prop :=
  model.lifecycle ≠ .active ∧ ¬ (req.allowDegraded = true ∧ model.lifecycle = .degraded)

instance : Decidable (Unroutable model req) := by
  unfold Unroutable
  infer_instance

def OverBudget (cost : Rat) : Prop := 0 < req.budget ∧ req.budget < cost

instance (cost : Rat) : Decidable (OverBudget req cost) := by
  unfold OverBudget
  infer_instance

def estimateCost (pricing : PricingProfile) (inputTokens outputTokens : Int) : Rat :=
  (million inputTokens * pricing.inputPerMillion +
    million outputTokens * pricing.outputPerMillion) *
    (if pricing.serviceTierFactor ≤ 0 then 1 else pricing.serviceTierFactor)

def hasSpecialistCapability (available required : List String) : Bool :=
  required.any (fun capability => containsFold fold available capability)

def score (estimatedCost : Rat) : Rat :=
  50 + (match model.health with
      | .healthy => 20
      | .degraded => 5
      | _ => 0) +
    (if 0 < model.capacityAvailable then 10 else 0) -
    (if 0 < model.p95LatencyMS then (model.p95LatencyMS : Rat) / 1000 else 0) - estimatedCost +
    (if req.routeClass = routeSpecialist ∧
      hasSpecialistCapability fold model.capabilities req.requiredCapabilities = true
      then 15 else 0)

def evaluate (now : Time) : RouteCandidate :=
  let cost := estimateCost model.pricing req.estimatedInputTokens req.estimatedOutputTokens
  { modelID := model.id, modelVersion := model.version, deploymentID := ""
    routeClass := req.routeClass, inferenceEffort := req.inferenceEffort
    serviceTier := req.serviceTier, estimatedCost := cost, score := score fold model req cost
    rejectionReasons :=
      rejectIf (Unroutable model req) "model lifecycle is not routable" ++
      rejectIf (model.approvalStatus ≠ .approved) "model version is not approved" ++
      rejectIf (model.health = .unhealthy) "model endpoint is unhealthy" ++
      rejectIf (req.requireFreshSignals = true ∧ Stale now model.healthCheckedAt req.signalMaxAge)
        "runtime health and capacity signals are stale" ++
      rejectIf (model.healthCheckedAt ≠ none ∧ model.capacityAvailable = 0)
        "model has no reported available capacity" ++
      rejectIf (model.healthCheckedAt ≠ none ∧ model.quotaRemaining = 0)
        "provider quota is exhausted" ++
      rejectIf (Elsewhere fold req.dataResidency model.dataResidency)
        "data-residency requirement is not satisfied" ++
      missingCapabilities fold req.requiredCapabilities model.capabilities ++
      rejectIf (Unsupported req.inferenceEffort model.inferenceEfforts)
        "requested inference effort is unsupported" ++
      rejectIf (Unsupported req.serviceTier model.serviceTiers)
        "requested service tier is unsupported" ++
      rejectIf (OverBudget req cost) "estimated model cost exceeds task budget" }

variable (deployment : Deployment)

/-- A deployment without prices of its own has those of its model. -/
def priceProfile : PricingProfile :=
  if deployment.pricing = noProfile then model.pricing else deployment.pricing

def profileEstimate (req : Request) : Rat :=
  estimateCost (priceProfile model deployment) req.estimatedInputTokens req.estimatedOutputTokens

def deploymentCandidate (req : Request) (now : Time) : RouteCandidate :=
  let cost := profileEstimate model deployment req
  { modelID := model.id, modelVersion := model.version, deploymentID := deployment.id
    routeClass := req.routeClass, inferenceEffort := req.inferenceEffort
    serviceTier := req.serviceTier, estimatedCost := cost
    score := 50 - cost + (if deployment.health = .healthy then 20 else 0) +
      (if 0 < deployment.capacityAvailable then 10 else 0) -
      (if 0 < deployment.p95LatencyMS then (deployment.p95LatencyMS : Rat) / 1000 else 0)
    rejectionReasons :=
      rejectIf (Unroutable model req) "model lifecycle is not routable" ++
      rejectIf (model.approvalStatus ≠ .approved) "model version is not approved" ++
      missingCapabilities fold req.requiredCapabilities model.capabilities ++
      rejectIf (deployment.isRoutingEligible now
        (if req.requireFreshSignals then req.signalMaxAge else 0) = false)
        "deployment is not eligible" ++
      rejectIf (deployment.lifecycle = .degraded ∧ req.allowDegraded = false)
        "degraded deployment is not allowed" ++
      rejectIf (deployment.healthCheckedAt ≠ none ∧ deployment.capacityAvailable = 0)
        "deployment has no available capacity" ++
      rejectIf (deployment.healthCheckedAt ≠ none ∧ deployment.quotaRemaining = 0)
        "deployment quota is unavailable" ++
      rejectIf (Elsewhere fold req.dataResidency deployment.dataResidency)
        "data residency does not match" ++
      rejectIf (Unsupported req.inferenceEffort deployment.inferenceEfforts)
        "inference effort is unsupported" ++
      rejectIf (Unsupported req.serviceTier deployment.serviceTiers)
        "service tier is unsupported" ++
      rejectIf (OverBudget req cost) "estimated cost exceeds budget" }

/-- The workload of a request, as both the planner and the evidence quote it. -/
def Request.usageEstimate (region : String) : PricingUsageEstimate where
  inputTokens := req.estimatedInputTokens
  outputTokens := req.estimatedOutputTokens
  cacheHitInputTokens := 0
  contextTokens := req.estimatedInputTokens + req.estimatedOutputTokens
  region := region
  batch := req.serviceTier = tierBatch
  async := false
  serviceTier := req.serviceTier
  inferenceEffort := req.inferenceEffort
  capacityUnits := 0
  gpuHours := 0
  cpuCoreHours := 0
  memoryGBHours := 0
  storageGBHours := 0

def RouteCandidate.reject (candidate : RouteCandidate) (reason : String) : RouteCandidate :=
  { candidate with rejectionReasons := candidate.rejectionReasons ++ [reason] }

/-- The policy's quote replaces the estimate, also in the score. -/
def quoteCandidate (repo : PricingPolicyRepository) (candidate : RouteCandidate)
    (deployment : Deployment) (req : Request) (at_ : Time) : RouteCandidate :=
  if candidate.deploymentID = "" then candidate
  else match repo.resolve candidate.deploymentID at_ with
    | .error _ => RouteCandidate.reject candidate "effective pricing policy is unavailable"
    | .ok policy =>
      match quotePricing fold policy (req.usageEstimate deployment.region) at_ with
      | .error _ => RouteCandidate.reject candidate "pricing policy cannot quote requested workload"
      | .ok quote =>
        { candidate with
          estimatedCost := quote.total
          score := candidate.score + (candidate.estimatedCost - quote.total)
          rejectionReasons := candidate.rejectionReasons ++
            rejectIf (OverBudget req quote.total) "estimated cost exceeds budget" }

/-- The order of `sort.SliceStable`: better scores first, at the same score lower costs. -/
def ahead (a b : RouteCandidate) : Bool :=
  if a.score = b.score then decide (a.estimatedCost ≤ b.estimatedCost)
    else decide (b.score < a.score)

/-- The first candidate of the order, and the others behind it. -/
def firstOf (eligible : List RouteCandidate) : Option (RouteCandidate × List RouteCandidate) :=
  match eligible.mergeSort ahead with
  | [] => none
  | selected :: fallback => some (selected, fallback)

def selectDeploymentCandidate (items : List RouteCandidate) :
    Option (RouteCandidate × List RouteCandidate) :=
  firstOf (items.filter (fun item => item.deploymentID ≠ "" ∧ item.rejectionReasons = []))

theorem selectDeploymentCandidate_mem {items : List RouteCandidate} {selected : RouteCandidate}
    {fallback : List RouteCandidate}
    (h : selectDeploymentCandidate items = some (selected, fallback)) :
    selected ∈ items ∧ selected.deploymentID ≠ "" ∧ selected.rejectionReasons = [] := by
  unfold selectDeploymentCandidate firstOf at h
  split at h
  · cases h
  rename_i first rest hsorted
  cases h
  have hmem := mem_mergeSort.mp (hsorted ▸ mem_cons_self)
  obtain ⟨hin, hok⟩ := mem_filter.mp hmem
  exact ⟨hin, by simpa using hok⟩

theorem quoteCandidate_eligible {fold : Folding} {repo : PricingPolicyRepository}
    {candidate : RouteCandidate} {deployment : Deployment} {req : Request} {at_ : Time}
    (hid : candidate.deploymentID ≠ "")
    (h : (quoteCandidate fold repo candidate deployment req at_).rejectionReasons = []) :
    ∃ policy quote, repo.resolve candidate.deploymentID at_ = .ok policy ∧
      quotePricing fold policy (req.usageEstimate deployment.region) at_ = .ok quote ∧
      (quoteCandidate fold repo candidate deployment req at_).estimatedCost = quote.total := by
  unfold quoteCandidate at h ⊢
  rw [if_neg hid] at h ⊢
  cases hp : repo.resolve candidate.deploymentID at_ with
  | error e =>
    rw [hp] at h
    exact absurd h (append_ne_nil_of_right_ne_nil _ (cons_ne_nil _ _))
  | ok policy =>
    rw [hp] at h
    simp only at h ⊢
    cases hq : quotePricing fold policy (req.usageEstimate deployment.region) at_ with
    | error e =>
      rw [hq] at h
      exact absurd h (append_ne_nil_of_right_ne_nil _ (cons_ne_nil _ _))
    | ok quote => exact ⟨policy, quote, rfl, hq, rfl⟩

theorem quoteCandidate_deployment (repo : PricingPolicyRepository)
    (candidate : RouteCandidate) (deployment : Deployment) (req : Request) (at_ : Time) :
    (quoteCandidate fold repo candidate deployment req at_).deploymentID =
      candidate.deploymentID := by
  unfold quoteCandidate
  split
  · rfl
  · split
    · rfl
    · split <;> rfl

end AiCloud.Routing
