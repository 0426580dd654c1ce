import AiCloud.GitOps.Proposal

/-!
# Manifest patch plans

A policy-evaluated proposal becomes a patch plan with a rollback, and a plan is applied to
a managed cluster in memory, change by change.
-/
namespace AiCloud.GitOps

open Lib Lib.Text

structure PRMetadata where
  (branchName commitMessage title : String)
  draft : Bool
  deriving DecidableEq

structure ManifestPatchPlan where
  (requestID proposalID : String)
  target : ResourceRef
  (sourcePath outputPath : String)
  (changes rollback : List FieldChange)
  validation : List String
  policyResult : PolicyResult
  pr : PRMetadata

def collapseDashes : List Char → List Char
  | '-' :: '-' :: rest => collapseDashes ('-' :: rest)
  | c :: rest => c :: collapseDashes rest
  | [] => []

variable (toLower : String → String)

/-- `toLower` is the lower-casing of all letters of Unicode. -/
def sanitizePathPart (value : String) : String :=
  let dashed := (trimSpace (toLower value)).toList.map
    (fun c => if c = '_' ∨ c = ' ' ∨ c = '/' then '-' else c)
  String.ofList (Path.trim '-' (collapseDashes dashed))

def orDefault (value fallback : String) : String := if value = "" then fallback else value

def buildPRMetadata (p : ChangeProposal) : PRMetadata :=
  let operation := orDefault (sanitizePathPart toLower (toLower p.operationType)) "change"
  let requestID := orDefault (sanitizePathPart toLower p.requestID) "request"
  let targetName := orDefault (sanitizePathPart toLower p.target.name) "target"
  { branchName := "aicloud/" ++ requestID ++ "/" ++ operation ++ "/" ++ targetName
    commitMessage := "aicloud: " ++ p.operationType ++ " " ++ p.target.kind ++ "/" ++ p.target.name
    title := p.operationType ++ " " ++ p.target.kind ++ "/" ++ p.target.name
    draft := match p.policyResult with
      | none => false
      | some result => result.approvalRequired }

def blockedPrefixes : List String :=
  ["status", "metadata.finalizers", "metadata.ownerReferences", "spec.credentials",
    "spec.secretRef", "spec.bmcSecretRef"]

def isBlockedField (field : String) : Bool :=
  blockedPrefixes.any (fun start => field = start ∨ (start ++ ".").toList.isPrefixOf field.toList)

def allowedFields : List String := [gpuReplicasField]

def validateField (field : String) : Except CodedError Unit :=
  if field = "" then .error ⟨"MissingField", "change field is required"⟩
  else if isBlockedField field then
    .error ⟨"BlockedField", "field " ++ field ++ " is blocked for GitOps manifest generation"⟩
  else if field ∉ allowedFields then
    .error ⟨"FieldNotAllowed", "field " ++ field ++ " is not in GitOps allowlist"⟩
  else .ok ()

def FieldChange.inverse (change : FieldChange) : FieldChange where
  field := change.field
  from_ := change.to_
  to_ := change.from_
  reason := "rollback: " ++ change.reason

/-- The loop of `BuildPatchPlan`: changes and rollback grow together. -/
def planChanges : List FieldChange → ManifestPatchPlan → Except CodedError ManifestPatchPlan
  | [], plan => .ok plan
  | change :: rest, plan =>
    match validateField change.field with
    | .error e => .error e
    | .ok _ => planChanges rest { plan with
        changes := plan.changes ++ [change], rollback := plan.rollback ++ [change.inverse] }

def buildPatchPlan (p : ChangeProposal) (sourcePath outputPath : String) :
    Except CodedError ManifestPatchPlan :=
  match p.policyResult with
  | none => .error ⟨"PolicyNotEvaluated",
      "proposal must be evaluated by policy before manifest patch planning"⟩
  | some result =>
    if p.isPolicyEvaluated = false then .error ⟨"PolicyNotEvaluated",
      "proposal must be evaluated by policy before manifest patch planning"⟩
    else if sourcePath = "" then
      .error ⟨"MissingSourcePath", "source manifest path is required"⟩
    else if p.changes = [] then
      .error ⟨"MissingChanges", "proposal changes must not be empty"⟩
    else planChanges p.changes {
      requestID := p.requestID
      proposalID := p.id
      target := p.target
      sourcePath := sourcePath
      outputPath := if outputPath = "" then sourcePath else outputPath
      changes := []
      rollback := []
      validation := p.validationExpected
      policyResult := result
      pr := buildPRMetadata toLower p }

inductive PatchError
  | invalidCluster (errors : List ValidationError)
  | gitOps (e : CodedError)
  deriving DecidableEq

def patchError {α : Type} (code message : String) : Except PatchError α :=
  .error (.gitOps ⟨code, message⟩)

def checkedInt32 (v : Int) : Option I32 :=
  if h : -2147483648 ≤ v ∧ v ≤ 2147483647 then some ⟨v, h⟩ else none

/-- A whole floating-point number that is an `int32`. -/
def floatInt32 : FloatValue → Option I32
  | .finite x =>
    if (UnixTime.truncate x : Rat) ≠ x then none else checkedInt32 (UnixTime.truncate x)
  | _ => none

def toInt32 : AnyValue → Option I32
  | .int v => checkedInt32 v
  | .int32 v => some v
  | .int64 v => checkedInt32 v
  | .float64 x => floatInt32 x
  | .float32 x => floatInt32 x
  | .other => none

def findWorkerGroup (cluster : ManagedCluster) (name : String) : Option Nat :=
  cluster.spec.workers.findIdx? (fun worker => worker.name = name)

def ManagedCluster.setReplicas (cluster : ManagedCluster) (index : Nat) (n : I32) :
    ManagedCluster :=
  { cluster with spec := { cluster.spec with
      workers := cluster.spec.workers.modify index (fun w => { w with replicas := n }) } }

def applyChange (updated : ManagedCluster) (change : FieldChange) :
    Except PatchError ManagedCluster :=
  if change.field ≠ gpuReplicasField then patchError "UnsupportedManagedClusterField"
      ("unsupported ManagedCluster patch field " ++ change.field)
  else match toInt32 change.from_ with
    | none => patchError "InvalidFromValue"
      ("from value for " ++ change.field ++ " must be an integer")
    | some source =>
      match toInt32 change.to_ with
      | none => patchError "InvalidToValue"
        ("to value for " ++ change.field ++ " must be an integer")
      | some target =>
        if target.val < 0 then patchError "InvalidReplicaValue" "replicas must be >= 0"
        else match findWorkerGroup updated "gpu-workers" with
          | none => patchError "WorkerGroupNotFound" "worker group gpu-workers not found"
          | some index =>
            match updated.spec.workers[index]? with
            | none => patchError "WorkerGroupNotFound" "worker group gpu-workers not found"
            | some worker =>
              if worker.replicas ≠ source then
                patchError "CurrentValueMismatch" ("expected current replicas " ++
                  toString source.val ++ ", got " ++ toString worker.replicas.val)
              else .ok (updated.setReplicas index target)

def applyChanges : List FieldChange → ManagedCluster → Except PatchError ManagedCluster
  | [], updated => .ok updated
  | change :: rest, updated =>
    match applyChange updated change with
    | .error e => .error e
    | .ok updated => applyChanges rest updated

def applyManagedClusterPatch (plan : ManifestPatchPlan) (cluster : ManagedCluster) :
    Except PatchError ManagedCluster :=
  if ¬ cluster.Valid then .error (.invalidCluster (validateManagedCluster cluster))
  else if plan.target.kind ≠ "" ∧ plan.target.kind ≠ kindManagedCluster then
    patchError "TargetKindMismatch"
      ("expected target kind " ++ kindManagedCluster ++ ", got " ++ plan.target.kind)
  else if plan.target.name ≠ "" ∧ plan.target.name ≠ cluster.metadata.name then
    patchError "TargetNameMismatch"
      ("plan targets " ++ plan.target.name ++ " but manifest is " ++ cluster.metadata.name)
  else if plan.target.namespaceName ≠ "" ∧
      plan.target.namespaceName ≠ cluster.metadata.namespaceName then
    patchError "TargetNamespaceMismatch" ("plan targets namespace " ++ plan.target.namespaceName ++
      " but manifest is namespace " ++ cluster.metadata.namespaceName)
  else if plan.changes = [] then
    patchError "MissingChanges" "manifest patch plan changes must not be empty"
  else match applyChanges plan.changes cluster with
    | .error e => .error e
    | .ok updated =>
      if ¬ updated.Valid then .error (.invalidCluster (validateManagedCluster updated))
      else .ok updated

end AiCloud.GitOps
