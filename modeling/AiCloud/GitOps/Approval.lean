import AiCloud.GitOps.PatchPlan

/-!
# Changes as steps of one counter

All a patch touches is the size of the group `gpu-workers`. A list of changes is
accepted exactly when it is a path of that counter, and leaves the counter at the path's
end. The default policy looks at each change by itself, and a patch writes to an array
of its own.
-/
namespace AiCloud.GitOps

open Lib List Option Lib.UnixTime

def gpuGroup (workers : List WorkerGroupSpec) : Option WorkerGroupSpec :=
  workers.find? (fun worker => worker.name = "gpu-workers")

/-- The workers with the group `gpu-workers` at another size. -/
def resize (n : I32) : List WorkerGroupSpec → List WorkerGroupSpec
  | [] => []
  | worker :: rest =>
    if worker.name = "gpu-workers" then { worker with replicas := n } :: rest
    else worker :: resize n rest

theorem gpuGroup_cons (worker : WorkerGroupSpec) (rest : List WorkerGroupSpec) :
    gpuGroup (worker :: rest) =
      if worker.name = "gpu-workers" then some worker else gpuGroup rest := by
  unfold gpuGroup
  by_cases h : worker.name = "gpu-workers" <;> simp [h]

variable {n : I32}

theorem gpuGroup_resize {workers : List WorkerGroupSpec} :
    gpuGroup (resize n workers) = (gpuGroup workers).map (fun w => { w with replicas := n }) := by
  induction workers with
  | nil => rfl
  | cons worker rest ih =>
    unfold resize
    by_cases h : worker.name = "gpu-workers"
    · simp [gpuGroup_cons, h]
    · simp [gpuGroup_cons, h, ih]

theorem resize_resize (m n : I32) (workers : List WorkerGroupSpec) :
    resize n (resize m workers) = resize n workers := by
  induction workers with
  | nil => rfl
  | cons worker rest ih =>
    by_cases h : worker.name = "gpu-workers" <;> simp [resize, h, ih]

theorem length_resize (n : I32) (workers : List WorkerGroupSpec) :
    (resize n workers).length = workers.length := by
  induction workers with
  | nil => rfl
  | cons worker rest ih =>
    by_cases h : worker.name = "gpu-workers" <;> simp [resize, h, ih]

theorem resize_self {workers : List WorkerGroupSpec} {worker : WorkerGroupSpec}
    (h : gpuGroup workers = some worker) : resize worker.replicas workers = workers := by
  induction workers with
  | nil => rfl
  | cons first rest ih =>
    rw [gpuGroup_cons] at h
    by_cases hname : first.name = "gpu-workers"
    · rw [if_pos hname, some.injEq] at h
      subst h
      unfold resize
      rw [if_pos hname]
    · rw [if_neg hname] at h
      simp [resize, hname, ih h]

theorem findIdx_gpuGroup (n : I32) (workers : List WorkerGroupSpec) :
    (workers.findIdx? (fun worker => worker.name = "gpu-workers") = none ∧
      gpuGroup workers = none) ∨
      ∃ i worker, workers.findIdx? (fun worker => worker.name = "gpu-workers") = some i ∧
        workers[i]? = some worker ∧ gpuGroup workers = some worker ∧
        workers.modify i (fun w => { w with replicas := n }) = resize n workers := by
  induction workers with
  | nil => exact .inl ⟨rfl, rfl⟩
  | cons first rest ih =>
    rw [findIdx?_cons, gpuGroup_cons]
    by_cases hname : first.name = "gpu-workers"
    · exact .inr ⟨0, first, by simp [hname], rfl, by simp [hname], by simp [resize, hname]⟩
    rcases ih with ⟨hnone, hgroup⟩ | ⟨i, worker, hidx, hget, hgroup, hmodify⟩
    · exact .inl ⟨by simp [hname, hnone], by simp [hname, hgroup]⟩
    · exact .inr ⟨i + 1, worker, by simp [hname, hidx], by simpa using hget,
        by simp [hname, hgroup], by simp [resize, hname, hmodify]⟩

variable (cluster : ManagedCluster)

def ManagedCluster.resized (n : I32) : ManagedCluster :=
  { cluster with spec := { cluster.spec with workers := resize n cluster.spec.workers } }

def ManagedCluster.gpuReplicas : Option I32 :=
  (gpuGroup cluster.spec.workers).map WorkerGroupSpec.replicas

variable {r : I32}

theorem gpuReplicas_resized {cluster : ManagedCluster} (h : cluster.gpuReplicas = some r)
    (n : I32) : (cluster.resized n).gpuReplicas = some n := by
  unfold ManagedCluster.gpuReplicas ManagedCluster.resized at *
  obtain ⟨worker, hworker, -⟩ := map_eq_some_iff.mp h
  simp [gpuGroup_resize, hworker]

theorem resized_resized (m n : I32) : (cluster.resized m).resized n = cluster.resized n := by
  simp [ManagedCluster.resized, resize_resize]

theorem resized_self {cluster : ManagedCluster} (h : cluster.gpuReplicas = some r) :
    cluster.resized r = cluster := by
  obtain ⟨worker, hworker, rfl⟩ := map_eq_some_iff.mp h
  simp [ManagedCluster.resized, resize_self hworker]

/-- A change is a step of the counter from one size to another. -/
structure StepOf (change : FieldChange) (source target : I32) : Prop where
  field : change.field = gpuReplicasField
  from_ : toInt32 change.from_ = some source
  to_ : toInt32 change.to_ = some target
  nonneg : 0 ≤ target.val

variable {cluster updated : ManagedCluster} {change : FieldChange}

theorem applyChange_ok_iff : applyChange cluster change = .ok updated ↔
    ∃ r n, cluster.gpuReplicas = some r ∧ StepOf change r n ∧ updated = cluster.resized n := by
  constructor
  · intro h
    unfold applyChange at h
    split at h
    · cases h
    rename_i hfield
    split at h
    · cases h
    rename_i source hsource
    split at h
    · cases h
    rename_i target htarget
    split at h
    · cases h
    rename_i hnonneg
    split at h
    · cases h
    rename_i index hindex
    split at h
    · cases h
    rename_i worker hworker
    split at h
    · cases h
    rename_i hsame
    cases h
    rcases findIdx_gpuGroup target cluster.spec.workers with ⟨hnone, -⟩ | hfound
    · rw [show findWorkerGroup cluster "gpu-workers" = none from hnone] at hindex
      cases hindex
    obtain ⟨i, worker', hidx, hget, hgroup, hmodify⟩ := hfound
    rw [show findWorkerGroup cluster "gpu-workers" = some i from hidx] at hindex
    cases hindex
    rw [hget] at hworker
    cases hworker
    refine ⟨worker.replicas, target, ?_, ⟨not_not.mp hfield, ?_, htarget, not_lt.mp hnonneg⟩, ?_⟩
    · simp [ManagedCluster.gpuReplicas, hgroup]
    · rw [not_not.mp hsame]
      exact hsource
    · simp only [ManagedCluster.setReplicas, ManagedCluster.resized, hmodify]
  · rintro ⟨r, n, hr, hstep, rfl⟩
    obtain ⟨worker, hworker, rfl⟩ := map_eq_some_iff.mp hr
    rcases findIdx_gpuGroup n cluster.spec.workers with ⟨-, hnone⟩ | hfound
    · rw [hnone] at hworker
      cases hworker
    obtain ⟨i, worker', hidx, hget, hgroup, hmodify⟩ := hfound
    rw [hgroup, some.injEq] at hworker
    subst hworker
    have hindex : findWorkerGroup cluster "gpu-workers" = some i := hidx
    simp only [applyChange, hstep.field, hstep.from_, hstep.to_, hindex, hget, not_true, if_false,
      ne_eq, not_lt.mpr hstep.nonneg, ManagedCluster.setReplicas, ManagedCluster.resized, hmodify]

/-- A path of the counter. -/
inductive Steps : I32 → List FieldChange → I32 → Prop
  | nil (r : I32) : Steps r [] r
  | cons {r m n : I32} {change : FieldChange} {rest : List FieldChange} :
      StepOf change r m → Steps m rest n → Steps r (change :: rest) n

variable {changes : List FieldChange}

theorem applyChanges_ok_iff (hr : cluster.gpuReplicas = some r) :
    applyChanges changes cluster = .ok updated ↔
      ∃ n, Steps r changes n ∧ updated = cluster.resized n := by
  induction changes generalizing cluster r with
  | nil =>
    constructor
    · intro h
      cases h
      exact ⟨r, .nil r, (resized_self hr).symm⟩
    · rintro ⟨n, hsteps, rfl⟩
      cases hsteps
      rw [resized_self hr]
      rfl
  | cons change rest ih =>
    constructor
    · intro h
      unfold applyChanges at h
      split at h
      · cases h
      rename_i next hnext
      obtain ⟨r', m, hr', hstep, rfl⟩ := applyChange_ok_iff.mp hnext
      rw [hr, some.injEq] at hr'
      subst hr'
      obtain ⟨n, hsteps, rfl⟩ := (ih (gpuReplicas_resized hr m)).mp h
      exact ⟨n, .cons hstep hsteps, resized_resized cluster m n⟩
    · rintro ⟨n, hsteps, rfl⟩
      cases hsteps with
      | cons hstep hrest =>
        rename_i m
        unfold applyChanges
        rw [applyChange_ok_iff.mpr ⟨r, m, hr, hstep, rfl⟩]
        exact (ih (gpuReplicas_resized hr m)).mpr ⟨n, hrest, (resized_resized cluster m n).symm⟩

/-- Without the group no change is accepted. -/
theorem applyChanges_gpuReplicas (h : applyChanges changes cluster = .ok updated)
    (hne : changes ≠ []) : ∃ r, cluster.gpuReplicas = some r := by
  cases changes with
  | nil => exact absurd rfl hne
  | cons change rest =>
    unfold applyChanges at h
    split at h
    · cases h
    rename_i next hnext
    obtain ⟨r, -, hr, -⟩ := applyChange_ok_iff.mp hnext
    exact ⟨r, hr⟩

/-- The checks of a patch that do not look at the changes. -/
def Targets (plan : ManifestPatchPlan) (cluster : ManagedCluster) : Prop :=
  ¬ (plan.target.kind ≠ "" ∧ plan.target.kind ≠ kindManagedCluster) ∧
    ¬ (plan.target.name ≠ "" ∧ plan.target.name ≠ cluster.metadata.name) ∧
    ¬ (plan.target.namespaceName ≠ "" ∧ plan.target.namespaceName ≠ cluster.metadata.namespaceName)

variable {plan : ManifestPatchPlan}

/-- A patch succeeds exactly on a valid target whose group the changes lead to a valid size. -/
theorem applyManagedClusterPatch_ok_iff : applyManagedClusterPatch plan cluster = .ok updated ↔
    cluster.Valid ∧ Targets plan cluster ∧ plan.changes ≠ [] ∧
      ∃ r n, cluster.gpuReplicas = some r ∧ Steps r plan.changes n ∧
        updated = cluster.resized n ∧ updated.Valid := by
  simp only [applyManagedClusterPatch, patchError, except_guard_ok, not_not]
  constructor
  · rintro ⟨hvalid, hkind, hname, hnamespace, hchanges, h⟩
    split at h
    · cases h
    rename_i result hresult
    obtain ⟨hupdated, rfl⟩ : result.Valid ∧ result = updated := by
      simpa only [except_guard_ok, not_not, Except.ok.injEq] using h
    obtain ⟨r, hr⟩ := applyChanges_gpuReplicas hresult hchanges
    obtain ⟨n, hsteps, rfl⟩ := (applyChanges_ok_iff hr).mp hresult
    exact ⟨hvalid, ⟨hkind, hname, hnamespace⟩, hchanges, r, n, hr, hsteps, rfl, hupdated⟩
  · rintro ⟨hvalid, ⟨hkind, hname, hnamespace⟩, hchanges, r, n, hr, hsteps, rfl, hupdated⟩
    refine ⟨hvalid, hkind, hname, hnamespace, hchanges, ?_⟩
    rw [(applyChanges_ok_iff hr).mpr ⟨n, hsteps, rfl⟩]
    exact if_neg (not_not.mpr hupdated)

theorem planChanges_ok {plan' : ManifestPatchPlan} (h : planChanges changes plan = .ok plan') :
    plan'.changes = plan.changes ++ changes ∧
      plan'.rollback = plan.rollback ++ changes.map FieldChange.inverse ∧
      plan'.target = plan.target := by
  induction changes generalizing plan with
  | nil =>
    cases h
    simp
  | cons change rest ih =>
    unfold planChanges at h
    split at h
    · cases h
    obtain ⟨hchanges, hrollback, htarget⟩ := ih h
    exact ⟨by simp [hchanges], by simp [hrollback], htarget⟩

theorem planChanges_eq (h : ∀ change ∈ changes, validateField change.field = .ok ()) :
    planChanges changes plan = .ok { plan with
      changes := plan.changes ++ changes
      rollback := plan.rollback ++ changes.map FieldChange.inverse } := by
  induction changes generalizing plan with
  | nil => simp [planChanges]
  | cons change rest ih =>
    unfold planChanges
    rw [h change mem_cons_self]
    simp [ih (fun c hc => h c (mem_cons_of_mem _ hc))]

variable {changes : List FieldChange} {p : ChangeProposal}

theorem buildPatchPlan_eq {toLower : String → String}
    {sourcePath outputPath : String} {result : PolicyResult}
    (hresult : p.policyResult = some result)
    (hpass : result.result ≠ "") (hsource : sourcePath ≠ "") (hne : p.changes ≠ [])
    (h : ∀ change ∈ p.changes, validateField change.field = .ok ()) :
    buildPatchPlan toLower p sourcePath outputPath = .ok {
      requestID := p.requestID
      proposalID := p.id
      target := p.target
      sourcePath := sourcePath
      outputPath := if outputPath = "" then sourcePath else outputPath
      changes := p.changes
      rollback := p.changes.map FieldChange.inverse
      validation := p.validationExpected
      policyResult := result
      pr := buildPRMetadata toLower p } := by
  have hevaluated : p.isPolicyEvaluated = true := by
    simp [ChangeProposal.isPolicyEvaluated, hresult, hpass]
  unfold buildPatchPlan
  simp [hresult, hevaluated, hsource, hne, planChanges_eq h]

theorem buildPatchPlan_ok {toLower : String → String} {sourcePath outputPath : String}
    (h : buildPatchPlan toLower p sourcePath outputPath = .ok plan) :
    plan.changes = p.changes ∧ plan.rollback = p.changes.map FieldChange.inverse := by
  unfold buildPatchPlan at h
  split at h
  · cases h
  simp only [except_guard_ok] at h
  obtain ⟨-, -, -, h⟩ := h
  obtain ⟨hchanges, hrollback, -⟩ := planChanges_ok h
  exact ⟨by simpa using hchanges, by simpa using hrollback⟩

theorem evaluate_unapproved {result : PolicyResult}
    (h : evaluate defaultPolicy p = .ok result) (happroval : result.approvalRequired = false) :
    p.environment = "dev" ∧ ∀ change ∈ p.changes, replicaDelta change.from_ change.to_ ≤ 3 := by
  unfold evaluate at h
  split at h
  · cases h
  split at h
  · rename_i rule hrule
    cases h
    have hmem := mem_of_find?_eq_some hrule
    have hmatches : rule.Matches p := by simpa using find?_some hrule
    simp only [defaultPolicy, mem_cons, not_mem_nil, or_false] at hmem
    rcases hmem with rfl | rfl
    · obtain ⟨henv, -, -, hadmits⟩ := hmatches
      refine ⟨?_, fun change hchange => ?_⟩
      · exact (not_not.mp (fun hne => henv ⟨by decide, hne⟩)).symm
      · exact not_lt.mp (fun hlt => (hadmits change hchange).2 ⟨by decide, hlt⟩)
    · cases happroval
  · cases h
    cases happroval

theorem checkedInt32_some {v : Int} (h : checkedInt32 v = some n) : v = n.val := by
  unfold checkedInt32 at h
  split at h
  · cases h
    rfl
  · cases h

/-- What the patcher accepts as an `int32` the checker reads as the same number. -/
theorem toInt_of_toInt32 {value : AnyValue} (h : toInt32 value = some n) :
    toInt value = some n.val := by
  have hfloat : ∀ x : FloatValue, floatInt32 x = some n →
      toInt (.float64 x) = some n.val ∧ toInt (.float32 x) = some n.val := by
    intro x hx
    cases x with
    | finite x =>
      simp only [floatInt32] at hx
      split at hx
      · cases hx
      have htrunc := checkedInt32_some hx
      have hbounds := n.property
      have hint : toInt64 x = n.val := by
        rw [toInt64_of_bounds (by omega) (by omega), htrunc]
      simp [toInt, hint]
    | infinite negative => cases hx
    | nan => cases hx
  cases value with
  | int v => exact congrArg some (checkedInt32_some h)
  | int32 v =>
    cases h
    rfl
  | int64 v => exact congrArg some (checkedInt32_some h)
  | float64 x => exact (hfloat x h).1
  | float32 x => exact (hfloat x h).2
  | other => cases h

/-- The difference of a change as the checker reads it. -/
def signedDelta (change : FieldChange) : Int :=
  (toInt change.to_).getD 0 - (toInt change.from_).getD 0

def totalDelta (changes : List FieldChange) : Int := (changes.map signedDelta).sum

theorem StepOf.signedDelta (h : StepOf change r n) : signedDelta change = n.val - r.val := by
  simp [AiCloud.GitOps.signedDelta, toInt_of_toInt32 h.from_, toInt_of_toInt32 h.to_]

theorem StepOf.replicaDelta (h : StepOf change r n) :
    replicaDelta change.from_ change.to_ = |n.val - r.val| := by
  have hr := r.property
  have hn := n.property
  simp only [AiCloud.GitOps.replicaDelta, toInt_of_toInt32 h.from_, toInt_of_toInt32 h.to_]
  split
  · rw [wrap64_eq_self (by omega) (by omega), abs_of_nonneg (by omega)]
  · rw [wrap64_eq_self (by omega) (by omega), abs_of_nonpos (by omega)]
    omega

theorem Steps.total (h : Steps r changes n) : n.val = r.val + totalDelta changes := by
  unfold totalDelta
  induction h with
  | nil r => simp
  | cons hstep _ ih =>
    rw [ih, map_cons, sum_cons, hstep.signedDelta]
    omega

theorem Steps.near (h : Steps r changes n)
    (hsmall : ∀ change ∈ changes, replicaDelta change.from_ change.to_ ≤ 3) :
    |n.val - r.val| ≤ 3 * changes.length := by
  induction h with
  | nil r => simp
  | @cons r m n change rest hstep _ ih =>
    have hfirst := hsmall change mem_cons_self
    rw [hstep.replicaDelta] at hfirst
    have hrest := ih (fun c hc => hsmall c (mem_cons_of_mem _ hc))
    have hsum : |n.val - r.val| ≤ |n.val - m.val| + |m.val - r.val| := abs_sub_le _ _ _
    simp only [length_cons, Nat.cast_add, Nat.cast_one]
    omega

/-- Without approval the count moves by at most three for each change; it stays within
three upwards exactly when the changes add up to that. -/
theorem unapproved_scale_iff (toLower : String → String) (p : ChangeProposal)
    (result : PolicyResult)
    (sourcePath outputPath : String) (plan : ManifestPatchPlan) (cluster updated : ManagedCluster)
    (hresult : evaluate defaultPolicy p = .ok result) (happroval : result.approvalRequired = false)
    (hplan : buildPatchPlan toLower (p.applyPolicyResult result) sourcePath outputPath = .ok plan)
    (hpatch : applyManagedClusterPatch plan cluster = .ok updated) :
    ∃ r r', cluster.gpuReplicas = some r ∧ updated.gpuReplicas = some r' ∧
      |r'.val - r.val| ≤ 3 * p.changes.length ∧
      ((r.val ≤ r'.val ∧ r'.val ≤ r.val + 3) ↔
        0 ≤ totalDelta p.changes ∧ totalDelta p.changes ≤ 3) := by
  obtain ⟨-, -, -, r, n, hr, hsteps, rfl, -⟩ := applyManagedClusterPatch_ok_iff.mp hpatch
  have hchanges : plan.changes = p.changes := (buildPatchPlan_ok hplan).1
  rw [hchanges] at hsteps
  refine ⟨r, n, hr, gpuReplicas_resized hr n,
    hsteps.near (evaluate_unapproved hresult happroval).2, ?_⟩
  have htotal := hsteps.total
  constructor <;> rintro ⟨hlow, hhigh⟩ <;> constructor <;> omega

variable (environment : String)

/-- A change plan for the cluster `dev-gpu-cluster`, as the plans of the tests have it. -/
def scaleOutPlan (changes : List FieldChange) : ChangePlan where
  requestID := "req-001"
  intent := "scale_cluster"
  target := ⟨"infra.aicloud.dev/v1alpha1", kindManagedCluster, "default", "dev-gpu-cluster"⟩
  operationType := "ScaleOut"
  environment := environment
  riskHint := "Medium"
  changes := changes
  rollbackSummary := "restore replicas"
  validationExpected := ["kustomize build"]

def scaleOutProposal (changes : List FieldChange) : ChangeProposal :=
  ⟨"proposal-req-001", "req-001", "scale_cluster", (scaleOutPlan environment changes).target,
    "ScaleOut", environment, changes, "Medium", none, "restore replicas", ["kustomize build"],
    false, "system", 0⟩

def replicaChange (source target : Int) : FieldChange :=
  ⟨gpuReplicasField, .int source, .int target, "capacity"⟩

def devPass : PolicyResult where
  riskLevel := "Medium"
  approvalRequired := false
  policyName := "default-risk-policy"
  matchedRule := "dev-managedcluster-small-scale"
  result := "PASS"
  reason := "dev ManagedCluster scale-out within small replica delta"

def scaleOutPatch (changes : List FieldChange) : ManifestPatchPlan where
  requestID := "req-001"
  proposalID := "proposal-req-001"
  target := (scaleOutPlan "dev" changes).target
  sourcePath := "cluster.yaml"
  outputPath := "cluster.yaml"
  changes := changes
  rollback := changes.map FieldChange.inverse
  validation := ["kustomize build"]
  policyResult := devPass
  pr := {
    branchName := "aicloud/req-001/scaleout/dev-gpu-cluster"
    commitMessage := "aicloud: ScaleOut ManagedCluster/dev-gpu-cluster"
    title := "ScaleOut ManagedCluster/dev-gpu-cluster"
    draft := false }

def gpuCluster (replicas : I32) : ManagedCluster where
  apiVersion := "infra.aicloud.dev/v1alpha1"
  kind := kindManagedCluster
  metadata := ⟨"dev-gpu-cluster", "default", [], [], 1, [], []⟩
  spec := {
    environment := environment
    providerRef := ⟨"Provider", "metal"⟩
    workers := [⟨"gpu-workers", replicas, ⟨"MachineClass", "gpu-large"⟩, []⟩] }
  status := ⟨1, "Ready", replicas, []⟩

/-- Lower-casing on the letters of ASCII. -/
def asciiLower (s : String) : String := String.ofList (s.toList.map Char.toLower)

theorem scaleOut_built (hne : changes ≠ [])
    (hfield : ∀ change ∈ changes, change.field = gpuReplicasField) :
    buildPatchPlan asciiLower ((scaleOutProposal "dev" changes).applyPolicyResult devPass)
      "cluster.yaml" "" = .ok (scaleOutPatch changes) := by
  have hvalid : ∀ change ∈ changes, validateField change.field = .ok () := by
    intro change hchange
    rw [hfield change hchange]
    decide
  have hpr : buildPRMetadata asciiLower ((scaleOutProposal "dev" []).applyPolicyResult devPass) =
      (scaleOutPatch []).pr := by decide
  rw [buildPatchPlan_eq rfl (by decide) (by decide) hne hvalid]
  exact congrArg (fun pr => Except.ok { scaleOutPatch changes with pr := pr }) hpr

theorem small_scale_out_unapproved :
    ∃ r r', (gpuCluster "dev" ⟨3, by decide⟩).gpuReplicas = some r ∧
      (gpuCluster "dev" ⟨3, by decide⟩ |>.resized ⟨6, by decide⟩).gpuReplicas = some r' ∧
      |r'.val - r.val| ≤ 3 * [replicaChange 3 6].length ∧
      ((r.val ≤ r'.val ∧ r'.val ≤ r.val + 3) ↔
        0 ≤ totalDelta [replicaChange 3 6] ∧ totalDelta [replicaChange 3 6] ≤ 3) :=
  unapproved_scale_iff asciiLower (scaleOutProposal "dev" [replicaChange 3 6]) devPass
    "cluster.yaml" "" (scaleOutPatch [replicaChange 3 6]) _ _
    (by decide) rfl (scaleOut_built (by decide) (by decide)) (by decide)

/-- Two changes of three each take one worker to seven, and a change that is called a
scale-out takes five to two. -/
theorem scale_beyond_limit_unapproved : (∃ plan updated,
    evaluate defaultPolicy (scaleOutProposal "dev" [replicaChange 1 4, replicaChange 4 7]) =
        .ok devPass ∧ devPass.approvalRequired = false ∧
      buildPatchPlan asciiLower ((scaleOutProposal "dev"
        [replicaChange 1 4, replicaChange 4 7]).applyPolicyResult devPass) "cluster.yaml" "" =
        .ok plan ∧ applyManagedClusterPatch plan (gpuCluster "dev" ⟨1, by decide⟩) = .ok updated ∧
      updated.gpuReplicas = some ⟨7, by decide⟩) ∧ ∃ plan updated,
    evaluate defaultPolicy (scaleOutProposal "dev" [replicaChange 5 2]) = .ok devPass ∧
      buildPatchPlan asciiLower ((scaleOutProposal "dev"
        [replicaChange 5 2]).applyPolicyResult devPass) "cluster.yaml" "" = .ok plan ∧
      applyManagedClusterPatch plan (gpuCluster "dev" ⟨5, by decide⟩) = .ok updated ∧
      updated.gpuReplicas = some ⟨2, by decide⟩ := by
  refine ⟨⟨scaleOutPatch [replicaChange 1 4, replicaChange 4 7],
    (gpuCluster "dev" ⟨1, by decide⟩).resized ⟨7, by decide⟩, ?_, rfl,
    scaleOut_built (by decide) (by decide), ?_, rfl⟩, scaleOutPatch [replicaChange 5 2],
    (gpuCluster "dev" ⟨5, by decide⟩).resized ⟨2, by decide⟩, ?_,
    scaleOut_built (by decide) (by decide), ?_, rfl⟩ <;>
  decide

theorem fromChangePlan_ok {plan : ChangePlan} {createdBy : String} {now : Int}
    (h : fromChangePlan plan createdBy now = .ok p) : p.environment = plan.environment := by
  simp only [fromChangePlan, except_guard_ok] at h
  obtain ⟨_, _, _, _, ⟨⟩⟩ := h
  rfl

theorem environment_resized (cluster : ManagedCluster) (n : I32) :
    (cluster.resized n).spec.environment = cluster.spec.environment := rfl

/-- Without approval the plan says `dev`, and the patch keeps the environment the cluster
has; the two are the same exactly when the plan names the cluster's own. -/
theorem unapproved_environment_iff (changePlan : ChangePlan) (createdBy : String) (now : Int)
    (p : ChangeProposal) (result : PolicyResult) (plan : ManifestPatchPlan)
    (cluster updated : ManagedCluster)
    (hp : fromChangePlan changePlan createdBy now = .ok p)
    (hresult : evaluate defaultPolicy p = .ok result) (happroval : result.approvalRequired = false)
    (hpatch : applyManagedClusterPatch plan cluster = .ok updated) :
    (cluster.spec.environment = "dev" ↔ cluster.spec.environment = changePlan.environment) ∧
      updated.spec.environment = cluster.spec.environment := by
  obtain ⟨-, -, -, r, n, -, -, rfl, -⟩ := applyManagedClusterPatch_ok_iff.mp hpatch
  rw [← fromChangePlan_ok hp, (evaluate_unapproved hresult happroval).1, environment_resized]
  exact ⟨Iff.rfl, rfl⟩

theorem dev_cluster_unapproved : ((gpuCluster "dev" ⟨3, by decide⟩).spec.environment = "dev" ↔
    (gpuCluster "dev" ⟨3, by decide⟩).spec.environment =
      (scaleOutPlan "dev" [replicaChange 3 6]).environment) ∧
    (gpuCluster "dev" ⟨3, by decide⟩ |>.resized ⟨6, by decide⟩).spec.environment =
      (gpuCluster "dev" ⟨3, by decide⟩).spec.environment :=
  unapproved_environment_iff (scaleOutPlan "dev" [replicaChange 3 6]) "" 0
    (scaleOutProposal "dev" [replicaChange 3 6]) devPass (scaleOutPatch [replicaChange 3 6]) _ _
    rfl (by decide) rfl (by decide)

/-- A plan that says `dev` scales a cluster of `production` without approval. -/
theorem production_cluster_unapproved :
    fromChangePlan (scaleOutPlan "dev" [replicaChange 3 6]) "" 0 =
        .ok (scaleOutProposal "dev" [replicaChange 3 6]) ∧
      evaluate defaultPolicy (scaleOutProposal "dev" [replicaChange 3 6]) = .ok devPass ∧
      devPass.approvalRequired = false ∧ buildPatchPlan asciiLower ((scaleOutProposal "dev"
        [replicaChange 3 6]).applyPolicyResult devPass) "cluster.yaml" "" =
        .ok (scaleOutPatch [replicaChange 3 6]) ∧
      applyManagedClusterPatch (scaleOutPatch [replicaChange 3 6])
          (gpuCluster "production" ⟨3, by decide⟩) =
        .ok ((gpuCluster "production" ⟨3, by decide⟩).resized ⟨6, by decide⟩) ∧
      (gpuCluster "production" ⟨3, by decide⟩).spec.environment ≠ "dev" := by
  refine ⟨rfl, ?_, rfl, scaleOut_built (by decide) (by decide), ?_, by decide⟩ <;>
  decide

abbrev Heap := List (List WorkerGroupSpec)

structure WorkerSlice where
  (array start length : Nat)

def WorkerSlice.read (s : WorkerSlice) (heap : Heap) : List WorkerGroupSpec :=
  ((heap.getD s.array []).drop s.start).take s.length

def ManagedCluster.withWorkers (cluster : ManagedCluster) (workers : List WorkerGroupSpec) :
    ManagedCluster :=
  { cluster with spec := { cluster.spec with workers := workers } }

/-- A cluster as a caller holds it: the worker list of `fields` is not looked at. -/
structure ClusterValue where
  fields : ManagedCluster
  workers : WorkerSlice

def ClusterValue.load (c : ClusterValue) (heap : Heap) : ManagedCluster :=
  c.fields.withWorkers (c.workers.read heap)

/-- One round of the loop: the checks read, and the last statement writes one cell. -/
def changeInMemory (updated : ClusterValue) (change : FieldChange) (heap : Heap) :
    Except PatchError Heap :=
  match applyChange (updated.load heap) change with
  | .error e => .error e
  | .ok _ =>
    match findWorkerGroup (updated.load heap) "gpu-workers", toInt32 change.to_ with
    | some index, some target =>
      .ok (heap.modify updated.workers.array fun groups =>
        groups.modify (updated.workers.start + index) fun w => { w with replicas := target })
    | _, _ => .ok heap

def changesInMemory (updated : ClusterValue) : List FieldChange → Heap →
    Heap × Except PatchError Unit
  | [], heap => (heap, .ok ())
  | change :: rest, heap =>
    match changeInMemory updated change heap with
    | .error e => (heap, .error e)
    | .ok heap => changesInMemory updated rest heap

/-- The call with the memory it leaves. -/
def applyInMemory (plan : ManifestPatchPlan) (cluster : ClusterValue) (heap : Heap) :
    Heap × Except PatchError ClusterValue :=
  let given := cluster.load heap
  if ¬ given.Valid then (heap, .error (.invalidCluster (validateManagedCluster given)))
  else if plan.target.kind ≠ "" ∧ plan.target.kind ≠ kindManagedCluster then
    (heap, patchError "TargetKindMismatch"
      ("expected target kind " ++ kindManagedCluster ++ ", got " ++ plan.target.kind))
  else if plan.target.name ≠ "" ∧ plan.target.name ≠ given.metadata.name then
    (heap, patchError "TargetNameMismatch"
      ("plan targets " ++ plan.target.name ++ " but manifest is " ++ given.metadata.name))
  else if plan.target.namespaceName ≠ "" ∧
      plan.target.namespaceName ≠ given.metadata.namespaceName then
    (heap, patchError "TargetNamespaceMismatch" ("plan targets namespace " ++
      plan.target.namespaceName ++ " but manifest is namespace " ++ given.metadata.namespaceName))
  else if plan.changes = [] then
    (heap, patchError "MissingChanges" "manifest patch plan changes must not be empty")
  else
    let groups := cluster.workers.read heap
    let updated := { cluster with workers := ⟨heap.length, 0, groups.length⟩ }
    match changesInMemory updated plan.changes (heap ++ [groups]) with
    | (heap, .error e) => (heap, .error e)
    | (heap, .ok ()) =>
      if ¬ (updated.load heap).Valid then
        (heap, .error (.invalidCluster (validateManagedCluster (updated.load heap))))
      else (heap, .ok updated)

section Memory

variable {c : ClusterValue} {heap : Heap} {groups : List WorkerGroupSpec}

theorem load_fresh (hworkers : c.workers = ⟨heap.length, 0, groups.length⟩) :
    c.load (heap ++ [groups]) = c.fields.withWorkers groups := by
  simp [ClusterValue.load, hworkers, WorkerSlice.read]

theorem modify_fresh (f : List WorkerGroupSpec → List WorkerGroupSpec) :
    (heap ++ [groups]).modify heap.length f = heap ++ [f groups] := by
  induction heap with
  | nil => rfl
  | cons first rest ih => simpa using ih

/-- A change of the fresh array is the change of the cluster. -/
theorem changeInMemory_fresh (hworkers : c.workers = ⟨heap.length, 0, groups.length⟩)
    (change : FieldChange) : changeInMemory c change (heap ++ [groups]) =
    (applyChange (c.fields.withWorkers groups) change).map
      fun next => heap ++ [next.spec.workers] := by
  unfold changeInMemory
  rw [load_fresh hworkers]
  cases hchange : applyChange (c.fields.withWorkers groups) change with
  | error e => rfl
  | ok next =>
    obtain ⟨r, n, hr, hstep, rfl⟩ := applyChange_ok_iff.mp hchange
    obtain ⟨worker, hworker, -⟩ := map_eq_some_iff.mp hr
    rcases findIdx_gpuGroup n groups with ⟨-, hnone⟩ | ⟨i, -, hidx, -, -, hmodify⟩
    · exact absurd (hnone.symm.trans hworker) (by simp)
    have hindex : findWorkerGroup (c.fields.withWorkers groups) "gpu-workers" = some i := hidx
    simp only [hindex, hstep.to_, hworkers, Nat.zero_add]
    rw [modify_fresh, hmodify]
    rfl

/-- The loop writes into the fresh array only. -/
theorem changesInMemory_fresh (changes : List FieldChange)
    (hworkers : c.workers = ⟨heap.length, 0, groups.length⟩) :
    ∃ groups' result, changesInMemory c changes (heap ++ [groups]) = (heap ++ [groups'], result) ∧
      groups'.length = groups.length ∧ result.map (fun _ => c.fields.withWorkers groups') =
        applyChanges changes (c.fields.withWorkers groups) := by
  induction changes generalizing groups with
  | nil => exact ⟨groups, .ok (), rfl, rfl, rfl⟩
  | cons change rest ih =>
    simp only [changesInMemory, applyChanges, changeInMemory_fresh hworkers]
    cases hchange : applyChange (c.fields.withWorkers groups) change with
    | error e => exact ⟨groups, .error e, rfl, rfl, rfl⟩
    | ok next =>
      obtain ⟨r, n, -, -, rfl⟩ := applyChange_ok_iff.mp hchange
      have hlength : (resize n groups).length = groups.length := length_resize n groups
      have hfresh : c.workers = ⟨heap.length, 0, (resize n groups).length⟩ := by
        rw [hlength]
        exact hworkers
      obtain ⟨groups', result, hrun, hsame, hresult⟩ := ih hfresh
      exact ⟨groups', result, hrun, hsame.trans hlength, hresult⟩

/-- The call keeps every array there was and returns what the pure function returns. -/
theorem applyInMemory_refines (plan : ManifestPatchPlan) (c : ClusterValue) (heap : Heap) :
    ∃ fresh result, applyInMemory plan c heap = (heap ++ fresh, result) ∧
      result.map (·.load (heap ++ fresh)) = applyManagedClusterPatch plan (c.load heap) := by
  unfold applyInMemory applyManagedClusterPatch
  dsimp only
  split_ifs with hvalid
  case neg =>
    obtain ⟨groups, result, hrun, hlength, hresult⟩ := changesInMemory_fresh plan.changes
      (c := { c with workers := ⟨heap.length, 0, (c.workers.read heap).length⟩ }) rfl
    have hload : ({ c with workers := ⟨heap.length, 0, (c.workers.read heap).length⟩ } :
        ClusterValue).load (heap ++ [groups]) = c.fields.withWorkers groups :=
      load_fresh (by rw [hlength])
    rw [hrun, show c.load heap = c.fields.withWorkers (c.workers.read heap) from rfl, ← hresult]
    cases result with
    | error e => exact ⟨[groups], _, rfl, rfl⟩
    | ok u =>
      simp only [hload, Except.map]
      split_ifs with hupdated
      · exact ⟨[groups], _, rfl, congrArg Except.ok hload⟩
      · exact ⟨[groups], _, rfl, rfl⟩
  -- a refusal before the copy leaves the memory as it is
  all_goals exact ⟨[], _, by rw [append_nil], rfl⟩

/-- A call leaves the caller's cluster as it was; where it succeeds, the cluster was valid,
the changes lead from its replica count to the last one, and nothing else is changed. -/
theorem applied_patch_frames (plan : ManifestPatchPlan) (c : ClusterValue) (heap : Heap)
    (hc : c.workers.length = 0 ∨ c.workers.array < heap.length) :
    c.load (applyInMemory plan c heap).1 = c.load heap ∧ heap <+: (applyInMemory plan c heap).1 ∧
      ∀ updated, (applyInMemory plan c heap).2 = .ok updated →
        (c.load heap).Valid ∧ plan.changes ≠ [] ∧
          ∃ r n, (c.load heap).gpuReplicas = some r ∧ Steps r plan.changes n ∧
            updated.load (applyInMemory plan c heap).1 = (c.load heap).resized n ∧
            ((c.load heap).resized n).Valid := by
  obtain ⟨fresh, result, hrun, hresult⟩ := applyInMemory_refines plan c heap
  rw [hrun]
  refine ⟨?_, prefix_append heap fresh, ?_⟩
  · have hread : c.workers.read (heap ++ fresh) = c.workers.read heap := by
      rcases hc with hempty | harray
      · simp [WorkerSlice.read, hempty]
      · simp [WorkerSlice.read, getElem?_append_left harray]
    rw [ClusterValue.load, hread]
    rfl
  · rintro updated rfl
    obtain ⟨hvalid, -, hchanges, r, n, hr, hsteps, hload, hupdated⟩ :=
      applyManagedClusterPatch_ok_iff.mp hresult.symm
    exact ⟨hvalid, hchanges, r, n, hr, hsteps, hload, hload ▸ hupdated⟩

end Memory

/-- A cluster whose workers a larger array holds is scaled from three to six. -/
theorem scaled_patch_frames : ∃ c : ClusterValue, ∃ heap : Heap,
    c.load heap = gpuCluster "dev" ⟨3, by decide⟩ ∧
      c.load (applyInMemory (scaleOutPatch [replicaChange 3 6]) c heap).1 = c.load heap ∧
      ∃ updated, (applyInMemory (scaleOutPatch [replicaChange 3 6]) c heap).2 = .ok updated ∧
        (c.load heap).Valid := by
  let groups := (gpuCluster "dev" ⟨3, by decide⟩).spec.workers
  have h := applied_patch_frames (scaleOutPatch [replicaChange 3 6])
    ⟨gpuCluster "dev" ⟨3, by decide⟩, 0, 1, groups.length⟩ [groups ++ groups ++ groups]
    (.inr (by decide))
  exact ⟨_, _, by decide, h.1, _, rfl, (h.2.2 _ rfl).1⟩

end AiCloud.GitOps
