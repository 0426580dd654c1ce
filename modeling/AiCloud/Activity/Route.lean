import AiCloud.Activity.Execute

/-!
# The routing activity

`DurableRoutingActivity.Route`: a stored selection is taken as it is; otherwise
the activity plans a route, freezes its target and commits both once. Policy,
planner and deployments may answer differently on every run.
-/
namespace AiCloud.Activity

open Lib Text Execution Identity Tasks Lineage NodeLease

open Lib.Fallible (failIf orFail)

def selectionInconsistentError (message : String) : ActivityError :=
  .nonRetryable message errorTypeRouteSelectionInconsistent

/-- `candidate` is a later plan than `current`. -/
def laterPlan (candidate current : ExecutionPlan) : Prop :=
  current.createdAt < candidate.createdAt ∨
    (candidate.createdAt = current.createdAt ∧ current.revision < candidate.revision) ∨
    (candidate.createdAt = current.createdAt ∧ candidate.revision = current.revision ∧
      current.id < candidate.id)

instance (candidate current : ExecutionPlan) : Decidable (laterPlan candidate current) :=
  inferInstanceAs (Decidable (_ ∨ _))

variable (taskID : String)

def currentPlan : ActivityM ExecutionPlan := do
  let plans ← orFail (.lineage "list task execution plans") (← ask (.listPlansByTask taskID))
  match plans with
  | [] => throw (.invalid "task has no durable execution plan")
  | first :: rest =>
    let current := rest.foldl
      (fun current candidate => if laterPlan candidate current then candidate else current) first
    orFail (fun _ => .invalid "validate persisted execution plan") (validatePlan current)
    return current

def selectTaskRoutingNode (plan : ExecutionPlan) : Except ActivityError ExecutionNode :=
  match plan.nodes.filter (fun node => node.type = .model) with
  | [] => .error (.invalid "execution plan has no model node to route")
  | [node] => .ok node
  | _ => .error (.invalid "task-level route activity cannot resolve multiple model nodes")

variable (encoding : Encoding)

def targetFromRouteDecision (decision : RouteDecision)
    (deployment : Option Deployment) : Except ServiceError ExecutionTarget :=
  let selected := decision.selected
  let freeze := fun (id : String) (deployment : Option Deployment) =>
    match encoding.routeTargetDigest decision deployment with
    | none => Except.error "encode execution target snapshot"
    | some digest => .ok (⟨id, 1, .model, ⟨digest⟩⟩ : ExecutionTarget)
  if Blank decision.id ∨ Blank decision.taskID then
    .error "route decision id and task id are required"
  else if Blank selected.modelID ∨ Blank selected.modelVersion then
    .error "route decision does not select a model target"
  else if selected.deploymentID ≠ "" then
    match deployment with
    | none =>
      .error ("selected deployment \"" ++ selected.deploymentID ++
        "\" requires a deployment snapshot")
    | some deployment =>
      if deployment.id ≠ selected.deploymentID then
        .error "deployment snapshot does not match selected deployment"
      else if deployment.modelID ≠ "" ∧ deployment.modelID ≠ selected.modelID then
        .error "deployment model does not match selected model"
      else if deployment.modelVersion ≠ "" ∧ deployment.modelVersion ≠ selected.modelVersion then
        .error "deployment model version does not match selected model version"
      else freeze ("deployment/" ++ deployment.id) (some deployment)
  else freeze ("model/" ++ selected.modelID ++ "@" ++ selected.modelVersion) none

def selectedDeployment (decision : RouteDecision) : ActivityM (Option Deployment) := do
  if decision.selected.deploymentID ≠ "" then
    let item ← orFail (.service "load selected deployment snapshot")
      (← ask (.getDeployment decision.selected.deploymentID))
    return some item
  else return none

def policyAllows (policy : PolicyDecisionRecord) : Except ActivityError Unit :=
  match policy.decision with
  | .allow => .ok ()
  | .deny =>
    .error (.nonRetryable "routing policy denied target selection" errorTypeRoutePolicyDenied)
  | .requireApproval =>
    .error (.nonRetryable "routing policy requires approval before target selection"
      errorTypeRouteApprovalRequired)
  | .other text => .error (.invalid ("routing policy returned unknown decision \"" ++ text ++ "\""))

def day : Duration := 24 * 60 * 60 * 1000000

variable (lookup : IdempotencyLookup)

/-- The command that freezes a planned route. -/
def selectionCommit (task : Task) (plan : ExecutionPlan)
    (node : ExecutionNode) (decision : RouteDecision) (policy : PolicyDecisionRecord)
    (target : ExecutionTarget) (eventID payload : String) (now : Time) :
    RouteSelectionCommit where
  task := { task with updatedAt := now }
  plan := ⟨plan.id, plan.revision⟩
  node := node.id
  decision := decision
  policy := policy
  target := target
  event := {
    eventID := eventID, tenantID := "", projectID := "", taskID := "", sequence := 0
    eventType := "TaskRouteSelected", actor := ⟨"system", "temporal-task-lifecycle"⟩
    payload := payload, requestID := "", traceID := "", schemaVersion := 1
    occurredAt := now, createdAt := now }
  idempotency := {
    tenantID := lookup.tenantID, projectID := lookup.projectID, operation := lookup.operation
    key := lookup.key, requestDigest := lookup.requestDigest, status := .completed
    resourceID := "", responseCode := 0, responseDigest := "", responsePayload := ""
    createdAt := now, expiresAt := now + day }

/-- A stored selection that does not belong to the workflow's task. -/
def replayMismatch (binding : Binding) : Prop :=
  binding.decision.taskID ≠ taskID ∨ binding.plan.planID = "" ∨ binding.plan.revision < 1 ∨
    binding.node = "" ∨ binding.policy.id = "" ∨ binding.policy.decision ≠ .allow ∨
    binding.policy.planRevision ≠ binding.plan.revision ∨ binding.policy.nodeRef ≠ binding.node ∨
    binding.target.id = "" ∨ binding.target.snapshot.digest = ""

instance (binding : Binding) : Decidable (replayMismatch taskID binding) :=
  inferInstanceAs (Decidable (_ ∨ _))

/-- The selection names the task, plan and node that were planned, and allows it. -/
def selects (plan : PlanRevisionRef) (node : String) (binding : Binding) : Prop :=
  binding.decision.taskID = taskID ∧ binding.plan = plan ∧ binding.node = node ∧
    binding.policy.id ≠ "" ∧ binding.policy.decision = .allow

instance (plan : PlanRevisionRef) (node : String) (binding : Binding) :
    Decidable (selects taskID plan node binding) := inferInstanceAs (Decidable (_ ∧ _))

/-- Commit the selection; after an error another run may have committed it. -/
def commitSelection (taskID : String) (command : RouteSelectionCommit) : ActivityM Unit := do
  match ← ask (.commitRouteSelection command) with
  | .error e =>
    match ← ask (.resolveRouteSelection lookup) with
    | .ok (some replay) =>
      failIf (¬ selects taskID command.plan command.node replay.binding)
        (.tasks "commit route selection" e)
    | .ok none => throw (.tasks "commit route selection" e)
    | .error _ => throw (.tasks "commit route selection" e)
  | .ok result =>
    failIf (¬ selects taskID command.plan command.node result.binding ∨
        result.binding.target.snapshot.digest = "")
      (selectionInconsistentError "committed route selection is incomplete")

/-- Plan a route for the task and freeze it. -/
def planSelection (task : Task) : ActivityM Unit := do
  let plan ← currentPlan task.id
  let goal ← orFail (.lineage "load routing goal") (← ask (.getGoal plan.goalRef))
  failIf (goal.taskRef ≠ task.id) (.invalid "routing goal does not belong to task")
  let node ← orFail id (selectTaskRoutingNode plan)
  let policy ← orFail (.service "evaluate routing policy") (← ask (.evaluate task goal plan node))
  orFail id (policyAllows policy)
  let request ← orFail (.service "build route request") (← ask (.build task goal plan node))
  let decision ← orFail (.service "plan route")
    (← ask (.planRoute { request with policyVersion := policy.policyVersion }))
  failIf (decision.taskID ≠ task.id) (.invalid "router returned decision for a different task")
  let deployment ← selectedDeployment decision
  let target ← orFail (.service "freeze execution target")
    (targetFromRouteDecision encoding decision deployment)
  let now ← ask .now
  match encoding.marshalSelectionEvent decision plan node policy target with
  | none => throw (.invalid "encode route selection event")
  | some payload =>
    let eventID ← ask .newID
    commitSelection lookup task.id
      (selectionCommit lookup task plan node decision policy target eventID payload now)

def route (input : StepInput) : ActivityM Unit := do
  validateStepInput "routing" input
  let lookup := routeSelectionLookup encoding input
  let found ← orFail (.tasks "") (← ask (.resolveRouteSelection lookup))
  match found with
  | some replay =>
    failIf (replayMismatch input.taskID replay.binding) (selectionInconsistentError
      "durable route selection replay does not match workflow execution binding")
  | none =>
    let task ← orFail (.tasks "load task for routing") (← ask (.getTask input.taskID))
    failIf (task.tenantID ≠ input.tenantID ∨ task.projectID ≠ input.projectID ∨
      task.traceID ≠ input.traceID) .lifecycleScope
    failIf (task.status ≠ .routing)
      (.invalidTaskTransition ("cannot select route from " ++ task.status.text))
    failIf (task.routeDecisionID ≠ "") (selectionInconsistentError
      "Task already references route evidence but durable workflow replay is missing")
    planSelection encoding lookup task

end AiCloud.Activity
