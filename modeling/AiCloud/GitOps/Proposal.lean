import AiCloud.GitOps.ManagedCluster

/-!
# Change proposals and their policy

A change plan of the model becomes a proposal, and the policy checker decides about risk
and approval. Values of changes are untyped; here they come as the numbers Go may hold in
an interface.
-/
namespace AiCloud.GitOps

open Lib

inductive FloatValue
  | finite (x : Rat)
  | infinite (negative : Bool)
  | nan

/-- A value of type `any`. -/
inductive AnyValue
  | int (v : Int)
  | int32 (v : I32)
  | int64 (v : Int)
  | float64 (x : FloatValue)
  | float32 (x : FloatValue)
  | other

structure ResourceRef where
  (apiVersion kind namespaceName name : String)

/-- One changed field: a planned change, a proposal change or a manifest field change. -/
structure FieldChange where
  field : String
  (from_ to_ : AnyValue)
  reason : String

structure ChangePlan where
  (requestID intent : String)
  target : ResourceRef
  (operationType environment riskHint : String)
  changes : List FieldChange
  rollbackSummary : String
  validationExpected : List String

structure PolicyResult where
  riskLevel : String
  approvalRequired : Bool
  (policyName matchedRule result reason : String)
  deriving DecidableEq

structure ChangeProposal where
  (id requestID intent : String)
  target : ResourceRef
  (operationType environment : String)
  changes : List FieldChange
  modelRiskHint : String
  policyResult : Option PolicyResult
  rollbackSummary : String
  validationExpected : List String
  approvalRequired : Bool
  createdBy : String
  createdAt : Int

/-- An error with its code, as the packages of the proposal flow return it. -/
structure CodedError where
  (code message : String)
  deriving DecidableEq

def fromChangePlan (plan : ChangePlan) (createdBy : String) (now : Int) :
    Except CodedError ChangeProposal :=
  if plan.requestID = "" then .error ⟨"MissingRequestID", "ChangePlan.requestId is required"⟩
  else if plan.intent = "" then .error ⟨"MissingIntent", "ChangePlan.intent is required"⟩
  else if plan.target.kind = "" ∨ plan.target.name = "" then
    .error ⟨"MissingTarget", "ChangePlan.target.kind and target.name are required"⟩
  else if plan.changes = [] then
    .error ⟨"MissingChanges", "ChangePlan.changes must not be empty"⟩
  else .ok {
    id := "proposal-" ++ plan.requestID
    requestID := plan.requestID
    intent := plan.intent
    target := plan.target
    operationType := plan.operationType
    environment := plan.environment
    changes := plan.changes
    modelRiskHint := plan.riskHint
    policyResult := none
    rollbackSummary := plan.rollbackSummary
    validationExpected := plan.validationExpected
    approvalRequired := false
    createdBy := if createdBy = "" then "system" else createdBy
    createdAt := now }

def ChangeProposal.applyPolicyResult (p : ChangeProposal) (result : PolicyResult) :
    ChangeProposal :=
  { p with policyResult := some result, approvalRequired := result.approvalRequired }

def ChangeProposal.isPolicyEvaluated (p : ChangeProposal) : Bool :=
  match p.policyResult with
  | none => false
  | some result => result.result ≠ ""

inductive RiskLevel
  | low
  | medium
  | high
  | critical

def RiskLevel.text : RiskLevel → String
  | .low => "Low"
  | .medium => "Medium"
  | .high => "High"
  | .critical => "Critical"

structure Rule where
  (name environment operationType targetKind allowedField : String)
  maxReplicaDelta : Int
  riskLevel : RiskLevel
  approvalRequired : Bool
  reason : String

structure Policy where
  name : String
  rules : List Rule

def gpuReplicasField : String := "spec.workers[name=gpu-workers].replicas"

def defaultPolicy : Policy where
  name := "default-risk-policy"
  rules := [
    { name := "dev-managedcluster-small-scale"
      environment := "dev"
      operationType := "ScaleOut"
      targetKind := "ManagedCluster"
      allowedField := gpuReplicasField
      maxReplicaDelta := 3
      riskLevel := .medium
      approvalRequired := false
      reason := "dev ManagedCluster scale-out within small replica delta" },
    { name := "staging-managedcluster-small-scale"
      environment := "staging"
      operationType := "ScaleOut"
      targetKind := "ManagedCluster"
      allowedField := gpuReplicasField
      maxReplicaDelta := 3
      riskLevel := .medium
      approvalRequired := true
      reason := "staging infrastructure change requires review" }]

/-- The checker's reading of a value: `int(v)` cuts a floating-point number. -/
def toInt : AnyValue → Option Int
  | .int v => some v
  | .int32 v => some v.val
  | .int64 v => some v
  | .float64 (.finite x) => some (UnixTime.toInt64 x)
  | .float32 (.finite x) => some (UnixTime.toInt64 x)
  | .float64 _ => some (-2 ^ 63)
  | .float32 _ => some (-2 ^ 63)
  | .other => none

def replicaDelta (source target : AnyValue) : Int :=
  match toInt source, toInt target with
  | some a, some b => if a ≤ b then UnixTime.wrap64 (b - a) else UnixTime.wrap64 (a - b)
  | _, _ => 0

variable (r : Rule)

/-- The tests of a rule on one change. -/
def Rule.Admits (change : FieldChange) : Prop :=
  ¬ (r.allowedField ≠ "" ∧ change.field ≠ r.allowedField) ∧
    ¬ (0 < r.maxReplicaDelta ∧ r.maxReplicaDelta < replicaDelta change.from_ change.to_)

instance (change : FieldChange) : Decidable (r.Admits change) :=
  inferInstanceAs (Decidable (_ ∧ _))

def Rule.Matches (p : ChangeProposal) : Prop :=
  ¬ (r.environment ≠ "" ∧ r.environment ≠ p.environment) ∧
    ¬ (r.operationType ≠ "" ∧ r.operationType ≠ p.operationType) ∧
    ¬ (r.targetKind ≠ "" ∧ r.targetKind ≠ p.target.kind) ∧ ∀ change ∈ p.changes, r.Admits change

instance (p : ChangeProposal) : Decidable (r.Matches p) :=
  inferInstanceAs (Decidable (_ ∧ _))

def evaluate (policy : Policy) (p : ChangeProposal) : Except CodedError PolicyResult :=
  if p.changes = [] then .error ⟨"MissingChanges", "proposal changes must not be empty"⟩
  else match policy.rules.find? (fun rule => rule.Matches p) with
    | some rule => .ok {
        riskLevel := rule.riskLevel.text
        approvalRequired := rule.approvalRequired
        policyName := policy.name
        matchedRule := rule.name
        result := "PASS"
        reason := rule.reason }
    | none => .ok {
        riskLevel := RiskLevel.high.text
        approvalRequired := true
        policyName := policy.name
        matchedRule := "fail-closed"
        result := "REVIEW_REQUIRED"
        reason := "no explicit policy rule matched; fail closed" }

end AiCloud.GitOps
