import AiCloud.Lib.Transaction
import AiCloud.Routing.Candidates

/-!
# Planning a route

`Plan` decides without persisting. The repositories of a router are kept outside of it,
in maps from its address, and with model versions bound the planner is a copy of the
router with an address of its own. `PricingEvidence` quotes the candidates of a decision
once more and agrees with the plan where that saw the pricing policies.
-/
namespace AiCloud.Routing

open Lib Execution Tasks ModelRuntime Pricing

/-- The three `sync.Map`s of the package and the next address the heap hands out:
a map holds live pointers, so a new address is in none of them. -/
structure Bindings where
  deployments : Nat → Option DeploymentRepository
  modelVersions : Nat → Option ModelVersionRepository
  pricingPolicies : Nat → Option PricingPolicyRepository
  next : Nat
  fresh : ∀ a, next ≤ a → deployments a = none ∧ modelVersions a = none ∧ pricingPolicies a = none

namespace Bindings

def empty : Bindings := ⟨fun _ => none, fun _ => none, fun _ => none, 0, fun _ _ => ⟨rfl, rfl, rfl⟩⟩

variable (b : Bindings)

/-- `New`, or any other value with an address. -/
def allocate : Nat × Bindings :=
  (b.next, { b with next := b.next + 1, fresh := fun a ha => b.fresh a (by omega) })

/-- An entry for a live address; an absent repository deletes it. -/
def set {α : Type} (map : Nat → Option α) (r : Nat) (repo : Option α) :
    Nat → Option α := fun a => if a = r then repo else map a

theorem set_fresh {α : Type} {map : Nat → Option α} {r a : Nat} (repo : Option α)
    (hr : a ≠ r) (h : map a = none) : set map r repo a = none := by
  rw [set, if_neg hr, h]

theorem ne_of_fresh {b : Bindings} {r a : Nat} (hr : r < b.next) (ha : b.next ≤ a) : a ≠ r := by
  omega

def withDeployments (r : Nat) (hr : r < b.next) (repo : Option DeploymentRepository) : Bindings :=
  { b with
    deployments := set b.deployments r repo
    fresh := fun a ha =>
      ⟨set_fresh repo (ne_of_fresh hr ha) (b.fresh a ha).1, (b.fresh a ha).2⟩ }

def withModelVersions (r : Nat) (hr : r < b.next)
    (repo : Option ModelVersionRepository) : Bindings :=
  { b with
    modelVersions := set b.modelVersions r repo
    fresh := fun a ha => ⟨(b.fresh a ha).1,
      set_fresh repo (ne_of_fresh hr ha) (b.fresh a ha).2.1, (b.fresh a ha).2.2⟩ }

def withPricingPolicies (r : Nat) (hr : r < b.next)
    (repo : Option PricingPolicyRepository) : Bindings :=
  { b with
    pricingPolicies := set b.pricingPolicies r repo
    fresh := fun a ha => ⟨(b.fresh a ha).1, (b.fresh a ha).2.1,
      set_fresh repo (ne_of_fresh hr ha) (b.fresh a ha).2.2⟩ }

/-- The control plane's `WithDeployments`: a service with models also binds their
versions, and a repository that has pricing policies brings them along. -/
def serviceWithDeployments (r : Nat) (hr : r < b.next)
    (repo : DeploymentRepository) (models : Option ModelVersionRepository)
    (pricing : Option PricingPolicyRepository) : Bindings :=
  let bound := b.withDeployments r hr (some repo)
  let versioned := match models with
    | none => bound
    | some versions => bound.withModelVersions r hr (some versions)
  match pricing with
  | none => versioned
  | some policies => versioned.withPricingPolicies r (by cases models <;> exact hr) (some policies)

end Bindings

/-- Folding and formatting of the standard library. -/
structure RouterEnv where
  fold : Folding
  unixNano : Time → Int
  sixDigits : Rat → String

inductive PlanError
  | taskIDRequired
  | service (error : ServiceError)
  | noModelCapacity
  | noDeployment
  deriving DecidableEq

abbrev Answered (α : Type) := Except PlanError α

/-- A service's answer; its error is wrapped in a text of the caller's. -/
def fromService {α : Type} (context : String) (x : Except ServiceError α) : Answered α :=
  x.mapError (fun e => .service (context ++ e))

def Request.normalized (req : Request) : Request :=
  { req with
    routeClass := if req.routeClass = "" then routeEfficient else req.routeClass
    signalMaxAge := if req.signalMaxAge ≤ 0 then 300000000 else req.signalMaxAge }

variable (env : RouterEnv)

def routeDecisionID (now : Time) : String :=
  "route-" ++ toString (env.unixNano now)

/-- What the admission service says against a candidate. -/
def judgeCandidate (context : String)
    (admission : Option (RouterModel → Except ServiceError AdmissionDecision))
    (model : RouterModel) (candidate : RouteCandidate) : Answered RouteCandidate :=
  match admission with
  | none => .ok candidate
  | some check =>
    match check model with
    | .error e => .error (.service (context ++ e))
    | .ok decision =>
      .ok (if decision.allowed then candidate else
        { candidate with rejectionReasons := candidate.rejectionReasons ++ decision.reasons })

def persist (r : Router) (decision : RouteDecision) : Answered RouteDecision :=
  match r.decisions with
  | none => .ok decision
  | some create => fromService "" (create decision)

def noCandidate : RouteCandidate := ⟨"", "", "", "", "", "", 0, 0, []⟩

def decideRoute (r : Router) (now : Time) (request : Request) : Answered RouteDecision :=
  if request.taskID = "" then .error .taskIDRequired
  else
    let req := request.normalized
    let decision : RouteDecision :=
      { id := routeDecisionID env now, taskID := req.taskID, selected := noCandidate
        candidates := [], reason := "", fallbackChain := []
        evidenceVersion := req.evidenceVersion, policyVersion := req.policyVersion
        createdAt := now }
    if req.routeClass = routeDeterministic then
      persist r { decision with
        selected := { noCandidate with routeClass := routeDeterministic, score := 100 }
        reason := "task classified for deterministic execution without a model call" }
    else do
      let models ← fromService "list route models: " r.models
      let candidates ← models.mapM (fun model =>
        judgeCandidate ("check model admission for " ++ model.id ++ ": ") r.admission model
          (evaluate env.fold model req now))
      match firstOf (candidates.filter (fun c => c.rejectionReasons = [])) with
      | none => .error .noModelCapacity
      | some (selected, fallback) =>
        persist r { decision with
          selected := selected, candidates := candidates, fallbackChain := fallback
          reason := "selected " ++ selected.modelID ++ "@" ++ selected.modelVersion ++
            " by capability, admission evidence, health, capacity and estimated task cost" }

variable (deployments : DeploymentRepository)

def modelItems (model : RouterModel) : Except ServiceError (List Deployment) :=
  match deployments.listByModelVersion model.id with
  | .error e => .error e
  | .ok [] => deployments.listByModel model.id model.version
  | .ok items => .ok items

variable (pricing : Option PricingPolicyRepository)

/-- One deployment as a candidate; the admission service judges its mode of deployment. -/
def planCandidate
    (admission : Option (RouterModel → Except ServiceError AdmissionDecision)) (req : Request)
    (now : Time) (model : RouterModel) (item : Deployment) : Answered RouteCandidate :=
  let candidate := deploymentCandidate env.fold model item req now
  judgeCandidate "" admission { model with deploymentMode := item.mode } (match pricing with
    | none => candidate
    | some repo => quoteCandidate env.fold repo candidate item req now)

def planCandidates
    (admission : Option (RouterModel → Except ServiceError AdmissionDecision)) (req : Request)
    (now : Time) (deployments : DeploymentRepository) (models : List RouterModel) :
    Answered (List RouteCandidate) := do
  let lists ← models.mapM (fun model => do
    let items ← fromService "" (modelItems deployments model)
    items.mapM (planCandidate env pricing admission req now model))
  return lists.flatten

/-- How the rationale names the policy of the selected deployment. -/
def pricingEvidenceRef (deploymentID : String) (at_ : Time) : String :=
  match pricing with
  | none => ""
  | some repo =>
    if deploymentID = "" then ""
    else match repo.resolve deploymentID at_ with
      | .error _ => ""
      | .ok policy => policy.ref ++ (if policy.digest = "" then "" else "#" ++ policy.digest)

variable (b : Bindings) (self : Nat)

/-- `self` is the address of `r`, under which its repositories are found. -/
def planWithDeployments (r : Router) (now : Time)
    (request : Request) (deployments : DeploymentRepository) : Answered RouteDecision :=
  if request.routeClass = routeDeterministic then
    decideRoute env { r with decisions := none } now request
  else if request.taskID = "" then .error .taskIDRequired
  else do
    let req := request.normalized
    let models ← fromService "" r.models
    let pricing := b.pricingPolicies self
    let candidates ← planCandidates env pricing r.admission req now deployments models
    match selectDeploymentCandidate candidates with
    | none => .error .noDeployment
    | some (selected, fallback) =>
      let reason := "selected deployment " ++ selected.deploymentID ++ " for " ++
        selected.modelID ++ "@" ++ selected.modelVersion
      let ref := pricingEvidenceRef pricing selected.deploymentID now
      return {
        id := routeDecisionID env now, taskID := req.taskID, selected := selected
        candidates := candidates
        reason := if ref = "" then reason else reason ++ " using pricing policy " ++ ref ++
          " with estimated task cost " ++ env.sixDigits selected.estimatedCost
        fallbackChain := fallback, evidenceVersion := req.evidenceVersion
        policyVersion := req.policyVersion, createdAt := now }

def legacyModels (versions : ModelVersionRepository) : Except ServiceError (List RouterModel) :=
  versions.map (fun items => items.map (fun item => item.legacyModel (.other "")))

def plan (r : Router) (now : Time)
    (req : Request) : Answered RouteDecision :=
  match b.deployments self with
  | none => decideRoute env { r with decisions := none } now req
  | some deployments =>
    match b.modelVersions self with
    | none => planWithDeployments env b self r now req deployments
    | some versions =>
      -- The copy of the router lives at an address of its own.
      planWithDeployments env b.allocate.2 b.allocate.1
        { r with models := legacyModels versions, decisions := none } now req deployments

structure RoutePricingEvidence where
  (routeDecisionID deploymentID policyID policyVersion policyDigest : String)
  quote : PricingQuote
  selected : Bool
  createdAt : Time
  deriving DecidableEq

inductive EvidenceError
  | creationTimeRequired
  | selectedDeployment (error : ServiceError)
  | selectedPolicy (error : ServiceError)
  | selectedQuote (error : PricingError)
  | routeRequired
  | policyRequired
  | quoteIdentity
  | timestampsRequired
  deriving DecidableEq

def RoutePricingEvidence.validate (e : RoutePricingEvidence) : Except EvidenceError Unit :=
  if e.routeDecisionID = "" ∨ e.deploymentID = "" then .error .routeRequired
  else if e.policyID = "" ∨ e.policyVersion = "" then .error .policyRequired
  else if e.quote.deploymentID ≠ e.deploymentID ∨ e.quote.policyID ≠ e.policyID ∨
      e.quote.policyVersion ≠ e.policyVersion then .error .quoteIdentity
  else if e.quote.quotedAt = 0 ∨ e.createdAt = 0 then .error .timestampsRequired
  else .ok ()

variable (decision : RouteDecision)

def evidenceItem (candidate : RouteCandidate) (policy : PricingPolicy)
    (quote : PricingQuote) : RoutePricingEvidence where
  routeDecisionID := decision.id
  deploymentID := candidate.deploymentID
  policyID := policy.id
  policyVersion := policy.version
  policyDigest := policy.digest
  quote := quote
  selected := candidate.deploymentID = decision.selected.deploymentID
  createdAt := decision.createdAt

/-- A failure matters for the selected deployment only. -/
def skipped (candidate : RouteCandidate) (e : EvidenceError) :
    Except EvidenceError (Option RoutePricingEvidence) :=
  if candidate.deploymentID = decision.selected.deploymentID then .error e else .ok none

def candidateEvidence (pricing : PricingPolicyRepository) (decision : RouteDecision) (req : Request)
    (candidate : RouteCandidate) : Except EvidenceError (Option RoutePricingEvidence) :=
  if candidate.deploymentID = "" ∨ candidate.rejectionReasons ≠ [] then .ok none
  else match deployments.get candidate.deploymentID with
    | .error e => skipped decision candidate (.selectedDeployment e)
    | .ok deployment =>
      match pricing.resolve candidate.deploymentID decision.createdAt with
      | .error e => skipped decision candidate (.selectedPolicy e)
      | .ok policy =>
        match quotePricing env.fold policy (req.usageEstimate deployment.region)
            decision.createdAt with
        | .error e => skipped decision candidate (.selectedQuote e)
        | .ok quote =>
          match (evidenceItem decision candidate policy quote).validate with
          | .error e => .error e
          | .ok _ => .ok (some (evidenceItem decision candidate policy quote))

def pricingEvidence
    (req : Request) : Except EvidenceError (List RoutePricingEvidence) :=
  match b.deployments self, b.pricingPolicies self with
  | some deployments, some pricing =>
    if decision.createdAt = 0 then .error .creationTimeRequired
    else do
      let items ← decision.candidates.mapM (candidateEvidence env deployments pricing decision req)
      return items.filterMap id
  | _, _ => .ok []

/-- The cost is the total that the effective policy of the deployment quotes at the time. -/
def QuotedAt
    (pricing : PricingPolicyRepository) (req : Request) (at_ : Time) (id : String) (cost : Rat) :
    Prop :=
  ∃ deployment policy quote, deployments.get id = .ok deployment ∧
    pricing.resolve id at_ = .ok policy ∧
    quotePricing env.fold policy (req.usageEstimate deployment.region) at_ = .ok quote ∧
    cost = quote.total

def CandidatesQuoted
    (pricing : PricingPolicyRepository) (req : Request) (decision : RouteDecision) : Prop :=
  ∀ c ∈ decision.candidates, c.deploymentID ≠ "" → c.rejectionReasons = [] →
    QuotedAt env deployments pricing req decision.createdAt c.deploymentID c.estimatedCost

/-- The evidence has the selected deployment, at the cost it was selected with. -/
def EvidenceAgrees (req : Request) (decision : RouteDecision) : Prop :=
  ∀ items, pricingEvidence env b self decision req = .ok items →
    decision.selected.deploymentID ≠ "" → (∃ item ∈ items, item.selected = true) ∧
      ∀ item ∈ items, item.selected = true → item.quote.total = decision.selected.estimatedCost

section

variable {env : RouterEnv} {b : Bindings} {self : Nat} {deployments : DeploymentRepository}
  {pricing : PricingPolicyRepository} {req : Request} {decision : RouteDecision}

theorem candidateEvidence_some {candidate : RouteCandidate} {item : RoutePricingEvidence}
    (h : candidateEvidence env deployments pricing decision req candidate = .ok (some item)) :
    (item.selected = true → candidate.deploymentID = decision.selected.deploymentID) ∧
      QuotedAt env deployments pricing req decision.createdAt candidate.deploymentID
        item.quote.total := by
  have hskip : ∀ e, skipped decision candidate e ≠ .ok (some item) := by
    intro e he
    unfold skipped at he
    split at he <;> cases he
  unfold candidateEvidence at h
  split at h
  · cases h
  split at h
  · exact absurd h (hskip _)
  rename_i deployment hget
  split at h
  · exact absurd h (hskip _)
  rename_i policy hpolicy
  split at h
  · exact absurd h (hskip _)
  rename_i quote hquote
  split at h
  · cases h
  cases h
  exact ⟨of_decide_eq_true, deployment, policy, quote, hget, hpolicy, hquote, rfl⟩

/-- A quoted candidate of the selected deployment is in the evidence, or there is none. -/
theorem candidateEvidence_quoted {candidate : RouteCandidate}
    {answer : Option RoutePricingEvidence} (hid : candidate.deploymentID ≠ "")
    (hreasons : candidate.rejectionReasons = [])
    (hselected : candidate.deploymentID = decision.selected.deploymentID) {cost : Rat}
    (hquoted : QuotedAt env deployments pricing req decision.createdAt candidate.deploymentID cost)
    (h : candidateEvidence env deployments pricing decision req candidate = .ok answer) :
    ∃ item, answer = some item ∧ item.selected = true := by
  obtain ⟨deployment, policy, quote, hget, hpolicy, hquote, _⟩ := hquoted
  unfold candidateEvidence at h
  rw [if_neg (not_or.mpr ⟨hid, not_not.mpr hreasons⟩)] at h
  simp only [hget, hpolicy, hquote] at h
  split at h
  · cases h
  cases h
  exact ⟨_, rfl, decide_eq_true hselected⟩

theorem QuotedAt.unique {at_ : Time} {id : String} {cost cost' : Rat}
    (h : QuotedAt env deployments pricing req at_ id cost)
    (h' : QuotedAt env deployments pricing req at_ id cost') : cost = cost' := by
  obtain ⟨deployment, policy, quote, hget, hpolicy, hquote, rfl⟩ := h
  obtain ⟨deployment', policy', quote', hget', hpolicy', hquote', rfl⟩ := h'
  rw [hget] at hget'
  cases hget'
  rw [hpolicy] at hpolicy'
  cases hpolicy'
  rw [hquote] at hquote'
  cases hquote'
  rfl

/-- The second pass over quoted candidates comes to the same costs. -/
theorem evidence_agrees (hd : b.deployments self = some deployments)
    (hp : b.pricingPolicies self = some pricing)
    (hmem : decision.selected.deploymentID ≠ "" → decision.selected ∈ decision.candidates ∧
      decision.selected.rejectionReasons = [])
    (hquoted : CandidatesQuoted env deployments pricing req decision) :
    EvidenceAgrees env b self req decision := by
  intro items hitems hid
  obtain ⟨hin, hreasons⟩ := hmem hid
  have hselected := hquoted _ hin hid hreasons
  unfold pricingEvidence at hitems
  rw [hd, hp] at hitems
  simp only at hitems
  split at hitems
  · cases hitems
  obtain ⟨answers, hanswers, hfiltered⟩ := except_bind_ok.mp hitems
  cases hfiltered
  obtain ⟨hback, hforth⟩ := except_mapM_ok hanswers
  constructor
  · obtain ⟨answer, hanswer, hev⟩ := hforth _ hin
    obtain ⟨item, rfl, hsel⟩ := candidateEvidence_quoted hid hreasons rfl hselected hev
    exact ⟨item, List.mem_filterMap.mpr ⟨_, hanswer, rfl⟩, hsel⟩
  · intro item hitem hsel
    obtain ⟨answer, hanswer, hsome⟩ := List.mem_filterMap.mp hitem
    obtain ⟨candidate, _, hev⟩ := hback _ hanswer
    rw [show answer = some item from hsome] at hev
    obtain ⟨hsame, hitemQuoted⟩ := candidateEvidence_some hev
    rw [hsame hsel] at hitemQuoted
    exact hitemQuoted.unique hselected

end

end AiCloud.Routing
