import AiCloud.Routing.Plan

/-!
# Plans and their evidence

A plan prices its candidates by the policies bound to the router, except over bound
model versions: there the candidates keep the estimates of their price profiles.
-/
namespace AiCloud.Routing

open Lib Execution Tasks ModelRuntime Pricing List

section

variable {env : RouterEnv} {b : Bindings} {self : Nat} {deployments : DeploymentRepository}
  {pricing : PricingPolicyRepository} {req : Request} {now : Time} {decision : RouteDecision}
  {priced : Option PricingPolicyRepository}
  {admission : Option (RouterModel → Except ServiceError AdmissionDecision)} {model : RouterModel}
  {item : Deployment}

theorem modelItems_get {items : List Deployment} (h : modelItems deployments model = .ok items)
    (hi : item ∈ items) : deployments.get item.id = .ok item := by
  unfold modelItems at h
  split at h
  · cases h
  · exact deployments.listedByModel _ _ _ h item hi
  · rename_i _ hlist
    cases h
    exact deployments.listedByVersion _ _ hlist item hi

theorem admit_ok {context : String} {candidate c : RouteCandidate}
    (h : judgeCandidate context admission model candidate = .ok c) :
    c.deploymentID = candidate.deploymentID ∧ c.estimatedCost = candidate.estimatedCost ∧
      (c.rejectionReasons = [] → candidate.rejectionReasons = []) := by
  unfold judgeCandidate at h
  split at h
  · cases h
    exact ⟨rfl, rfl, id⟩
  · split at h
    · cases h
    cases h
    split
    · exact ⟨rfl, rfl, id⟩
    · exact ⟨rfl, rfl, fun hnil => (append_eq_nil_iff.mp hnil).1⟩

variable {models : List RouterModel}

theorem planCandidates_ok {cs : List RouteCandidate}
    (h : planCandidates env priced admission req now deployments models = .ok cs) :
    (∀ c ∈ cs, ∃ model ∈ models, ∃ items, modelItems deployments model = .ok items ∧
      ∃ item ∈ items, planCandidate env priced admission req now model item = .ok c) ∧
    ∀ model ∈ models, ∀ items, modelItems deployments model = .ok items →
      ∀ item ∈ items, ∃ c ∈ cs, planCandidate env priced admission req now model item = .ok c := by
  unfold planCandidates at h
  obtain ⟨lists, hlists, hflat⟩ := except_bind_ok.mp h
  cases hflat
  obtain ⟨hback, hforth⟩ := except_mapM_ok hlists
  constructor
  · intro c hc
    obtain ⟨list, hlist, hin⟩ := mem_flatten.mp hc
    obtain ⟨model, hmodel, hrun⟩ := hback list hlist
    obtain ⟨items, hitems, hmap⟩ := except_bind_ok.mp hrun
    obtain ⟨item, hitem, hplan⟩ := (except_mapM_ok hmap).1 c hin
    exact ⟨model, hmodel, items, except_mapError_ok.mp hitems, item, hitem, hplan⟩
  · intro model hmodel items hitems item hitem
    obtain ⟨list, hlist, hrun⟩ := hforth model hmodel
    obtain ⟨items', hitems', hmap⟩ := except_bind_ok.mp hrun
    have hsame : items' = items := by
      have := except_mapError_ok.mp hitems'
      rw [hitems] at this
      cases this
      rfl
    rw [hsame] at hmap
    obtain ⟨c, hc, hplan⟩ := (except_mapM_ok hmap).2 item hitem
    exact ⟨c, mem_flatten.mpr ⟨list, hlist, hc⟩, hplan⟩

/-- A planned decision over deployments. -/
structure Planned (env : RouterEnv) (priced : Option PricingPolicyRepository)
    (admission : Option (RouterModel → Except ServiceError AdmissionDecision)) (req : Request)
    (now : Time) (deployments : DeploymentRepository) (models : List RouterModel)
    (decision : RouteDecision) : Prop where
  candidates : planCandidates env priced admission req.normalized now deployments models =
    .ok decision.candidates
  createdAt : decision.createdAt = now
  selected : decision.selected ∈ decision.candidates
  eligible : decision.selected.rejectionReasons = []

theorem planWithDeployments_ok {r : Router} (hclass : req.routeClass ≠ routeDeterministic)
    (h : planWithDeployments env b self r now req deployments = .ok decision) :
    ∃ models, r.models = .ok models ∧
      Planned env (b.pricingPolicies self) r.admission req now deployments models decision := by
  unfold planWithDeployments at h
  rw [if_neg hclass] at h
  split at h
  · cases h
  obtain ⟨models, hmodels, hrest⟩ := except_bind_ok.mp h
  obtain ⟨cs, hcs, hselect⟩ := except_bind_ok.mp hrest
  split at hselect
  · cases hselect
  rename_i selected fallback hsel
  cases hselect
  obtain ⟨hin, _, hreasons⟩ := selectDeploymentCandidate_mem hsel
  exact ⟨models, except_mapError_ok.mp hmodels, hcs, rfl, hin, hreasons⟩

theorem deterministic_unpriced {r : Router} (hclass : req.routeClass = routeDeterministic)
    (h : planWithDeployments env b self r now req deployments = .ok decision) :
    decision.candidates = [] ∧ decision.selected.deploymentID = "" := by
  unfold planWithDeployments at h
  rw [if_pos hclass] at h
  unfold decideRoute at h
  split at h
  · cases h
  have hnormal : req.normalized.routeClass = routeDeterministic := by
    unfold Request.normalized
    simp only [hclass]
    decide
  simp only [hnormal, if_true] at h
  cases h
  exact ⟨rfl, rfl⟩

/-- Every deployment that is eligible at the estimate of its price profile is quoted
at just that. -/
def ProfilesQuoted (env : RouterEnv) (deployments : DeploymentRepository)
    (pricing : PricingPolicyRepository)
    (admission : Option (RouterModel → Except ServiceError AdmissionDecision)) (req : Request)
    (now : Time) (models : List RouterModel) : Prop :=
  ∀ model ∈ models, ∀ items, modelItems deployments model = .ok items → ∀ item ∈ items,
    item.id ≠ "" → ∀ c, planCandidate env none admission req.normalized now model item = .ok c →
      c.rejectionReasons = [] →
      QuotedAt env deployments pricing req now item.id (profileEstimate model item req)

theorem planCandidate_priced {c : RouteCandidate} (hget : deployments.get item.id = .ok item)
    (h : planCandidate env (some pricing) admission req.normalized now model item = .ok c)
    (hid : c.deploymentID ≠ "") (hreasons : c.rejectionReasons = []) :
    QuotedAt env deployments pricing req now c.deploymentID c.estimatedCost := by
  obtain ⟨hsame, hcost, hback⟩ := admit_ok h
  rw [quoteCandidate_deployment] at hsame
  have hitem : c.deploymentID = item.id := hsame
  obtain ⟨policy, quote, hpolicy, hquote, htotal⟩ :=
    quoteCandidate_eligible (by rw [← hsame]; exact hid) (hback hreasons)
  rw [hcost, hitem]
  exact ⟨item, policy, quote, hget, hpolicy, hquote, htotal⟩

theorem planCandidate_unpriced {c : RouteCandidate}
    (h : planCandidate env none admission req.normalized now model item = .ok c) :
    c.deploymentID = item.id ∧ c.estimatedCost = profileEstimate model item req := by
  obtain ⟨hsame, hcost, _⟩ := admit_ok h
  exact ⟨hsame, hcost⟩

theorem Planned.quoted
    (h : Planned env (some pricing) admission req now deployments models decision) :
    CandidatesQuoted env deployments pricing req decision := by
  intro c hc hid hreasons
  obtain ⟨model, _, items, hitems, item, hitem, hplan⟩ := (planCandidates_ok h.candidates).1 c hc
  rw [h.createdAt]
  exact planCandidate_priced (modelItems_get hitems hitem) hplan hid hreasons

theorem Planned.quoted_iff (h : Planned env none admission req now deployments models decision) :
    CandidatesQuoted env deployments pricing req decision ↔
      ProfilesQuoted env deployments pricing admission req now models := by
  obtain ⟨hback, hforth⟩ := planCandidates_ok h.candidates
  constructor
  · intro hq model hmodel items hitems item hitem hid c hplan hreasons
    obtain ⟨c', hc', hplan'⟩ := hforth model hmodel items hitems item hitem
    rw [hplan] at hplan'
    cases hplan'
    obtain ⟨hsame, hcost⟩ := planCandidate_unpriced hplan
    have := hq c hc' (by rw [hsame]; exact hid) hreasons
    rwa [h.createdAt, hsame, hcost] at this
  · intro hq c hc hid hreasons
    obtain ⟨model, hmodel, items, hitems, item, hitem, hplan⟩ := hback c hc
    obtain ⟨hsame, hcost⟩ := planCandidate_unpriced hplan
    rw [h.createdAt, hsame, hcost]
    exact hq model hmodel items hitems item hitem (by rw [← hsame]; exact hid) c hplan hreasons

theorem Planned.agrees (h : Planned env priced admission req now deployments models decision)
    (hd : b.deployments self = some deployments) (hp : b.pricingPolicies self = some pricing)
    (hq : CandidatesQuoted env deployments pricing req decision) :
    EvidenceAgrees env b self req decision :=
  evidence_agrees hd hp (fun _ => ⟨h.selected, h.eligible⟩) hq

/-- A copy of the router is not in the maps. -/
theorem copy_unpriced (b : Bindings) : b.allocate.2.pricingPolicies b.allocate.1 = none :=
  (b.fresh b.next (Nat.le_refl _)).2.2

/-- The candidates of a plan cost what their policies quote and the evidence agrees,
exactly if the plan is deterministic, has no model versions bound, or finds every
eligible deployment quoted at the estimate of its price profile. -/
theorem plan_priced_iff {r : Router} (hd : b.deployments self = some deployments)
    (hp : b.pricingPolicies self = some pricing) (h : plan env b self r now req = .ok decision) :
    (CandidatesQuoted env deployments pricing req decision ∧
      EvidenceAgrees env b self req decision) ↔
    req.routeClass = routeDeterministic ∨ b.modelVersions self = none ∨
      ∃ versions, b.modelVersions self = some (.ok versions) ∧
        ProfilesQuoted env deployments pricing r.admission req now
          (versions.map (fun v => v.legacyModel (.other ""))) := by
  unfold plan at h
  rw [hd] at h
  by_cases hclass : req.routeClass = routeDeterministic
  · have hnone : decision.candidates = [] ∧ decision.selected.deploymentID = "" := by
      cases hv : b.modelVersions self <;> rw [hv] at h <;> exact deterministic_unpriced hclass h
    refine iff_of_true ⟨?_, ?_⟩ (.inl hclass)
    · intro c hc
      rw [hnone.1] at hc
      cases hc
    · exact fun _ _ => absurd hnone.2
  · cases hv : b.modelVersions self with
    | none =>
      rw [hv] at h
      obtain ⟨models, _, hplanned⟩ := planWithDeployments_ok hclass h
      rw [hp] at hplanned
      exact iff_of_true ⟨hplanned.quoted, hplanned.agrees hd hp hplanned.quoted⟩ (.inr (.inl rfl))
    | some versions =>
      rw [hv] at h
      obtain ⟨models, hmodels, hplanned⟩ := planWithDeployments_ok hclass h
      rw [copy_unpriced] at hplanned
      cases versions with
      | error e => cases hmodels
      | ok items =>
        cases hmodels
        have hiff : CandidatesQuoted env deployments pricing req decision ↔ _ :=
          hplanned.quoted_iff
        constructor
        · exact fun hq => .inr (.inr ⟨items, rfl, hiff.mp hq.1⟩)
        rintro (hdet | hnone | ⟨items', hsome, hq⟩)
        · exact absurd hdet hclass
        · cases hnone
        cases hsome
        exact ⟨hiff.mpr hq, hplanned.agrees hd hp (hiff.mpr hq)⟩

end

def sampleEnv : RouterEnv := ⟨asciiFolding, fun now => now * 1000, fun cost => toString cost⟩

/-- Its own profile says 2 and 4 per million tokens. -/
def readyDeployment : Deployment :=
  ⟨"deployment-ready", "version-1", "version-1", "v1", .publicAPI, "", "", ⟨"USD", 2, 4, 0, 0⟩,
    .healthy, some 9, 0, 10, 10, [], [], .ready, true⟩

/-- The policy in force says 1 and 2. -/
def efficientPolicy : PricingPolicy := tokenPolicy "price-efficient" "v3" "deployment-ready" 1 1

def sampleDeployments : DeploymentRepository :=
  Deployments.repository ⟨[readyDeployment], fun _ _ => trivial, pairwise_singleton _ _⟩

def samplePricing : PricingPolicyRepository :=
  ⟨fun id _ => if id = "deployment-ready" then .ok efficientPolicy else .error "not found"⟩

def sampleVersion : ModelVersion := ⟨"version-1", "v1", .active, [], .approved⟩

def sampleRouter : Router := ⟨.ok [sampleVersion.legacyModel .publicAPI], none, none⟩

def sampleRequest : Request :=
  ⟨"task", "efficient", [], "", "", 1000000, 100000, 0, "USD", "", "", "", false, true, 60⟩

/-- The bindings of the control plane, with or without models. -/
def sampleBindings (models : Option ModelVersionRepository) : Bindings :=
  Bindings.empty.allocate.2.serviceWithDeployments 0 Nat.zero_lt_one sampleDeployments models
    (some samplePricing)

theorem plan_priced_unversioned :
    ∃ decision, plan sampleEnv (sampleBindings none) 0 sampleRouter 10 sampleRequest =
        .ok decision ∧ decision.selected.estimatedCost = 6 / 5 ∧
      CandidatesQuoted sampleEnv sampleDeployments samplePricing sampleRequest decision ∧
      EvidenceAgrees sampleEnv (sampleBindings none) 0 sampleRequest decision := by
  have hplan : (plan sampleEnv (sampleBindings none) 0 sampleRouter 10
      sampleRequest).toOption.map (fun d => d.selected.estimatedCost) = some (6 / 5) := by
    decide +kernel
  cases hp : plan sampleEnv (sampleBindings none) 0 sampleRouter 10 sampleRequest with
  | error e =>
    rw [hp] at hplan
    cases hplan
  | ok decision =>
    rw [hp] at hplan
    have hcost : decision.selected.estimatedCost = 6 / 5 := by simpa [Except.toOption] using hplan
    obtain ⟨hquoted, hagrees⟩ := (plan_priced_iff rfl rfl hp).mpr (.inr (.inl rfl))
    exact ⟨decision, rfl, hcost, hquoted, hagrees⟩

/-- The only candidate of the versioned plan. -/
def unpricedCandidate : RouteCandidate :=
  ⟨"version-1", "v1", "deployment-ready", "efficient", "", "", 12 / 5, 388 / 5, []⟩

def unpricedDecision : RouteDecision :=
  ⟨"route-10000", "task", unpricedCandidate, [unpricedCandidate],
    "selected deployment deployment-ready for version-1@v1", [], "", "", 10⟩

/-- Over the versions the control plane binds, the plan misses the policy that its
evidence then quotes. -/
theorem versioned_plan_unpriced :
    plan sampleEnv (sampleBindings (some (.ok [sampleVersion]))) 0 sampleRouter 10 sampleRequest =
        .ok unpricedDecision ∧
      (pricingEvidence sampleEnv (sampleBindings (some (.ok [sampleVersion]))) 0 unpricedDecision
        sampleRequest).map (map (fun item => (item.selected, item.quote.total))) =
        .ok [(true, 6 / 5)] ∧ unpricedDecision.selected.estimatedCost = 12 / 5 := by
  decide +kernel

end AiCloud.Routing
