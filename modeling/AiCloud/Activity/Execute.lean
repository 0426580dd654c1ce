import AiCloud.Activity.Requests

/-!
# The execution activity

`DurableExecutionActivity.Execute`: it takes the frozen route selection, makes
sure that the execution and the node-runtime record exist, prepares a retry of a
failed node and hands the node to the worker.
-/
namespace AiCloud.Activity

open Lib Text Execution Identity Tasks Lineage NodeLease

open Lib.Fallible (failIf orFail)

def bindingInconsistentError (message : String) : ActivityError :=
  .nonRetryable message errorTypeExecutionBindingInconsistent

def retryNotAllowedError (message : String) : ActivityError :=
  .nonRetryable message errorTypeExecutionRetryNotAllowed

/-- The frozen binding of a task: a stored selection's payload. -/
abbrev Binding := RouteSelectionReplayPayload

def validExecutionBinding (taskID : String) (binding : Binding) : Prop :=
  binding.decision.taskID = taskID ∧ binding.plan.planID ≠ "" ∧ 0 < binding.plan.revision ∧
    binding.node ≠ "" ∧ binding.policy.id ≠ "" ∧ binding.policy.decision = .allow ∧
    binding.policy.planRevision = binding.plan.revision ∧ binding.policy.nodeRef = binding.node ∧
    binding.target.id ≠ "" ∧ 0 < binding.target.revision ∧ ¬ Blank binding.target.snapshot.digest

instance (taskID : String) (binding : Binding) : Decidable (validExecutionBinding taskID binding) :=
  inferInstanceAs (Decidable (_ ∧ _))

def nodeByID (plan : ExecutionPlan) (id : String) : Except String ExecutionNode :=
  match plan.nodes.find? (fun node => node.id = id) with
  | some node => .ok node
  | none => .error ("frozen node " ++ id ++ " is not present in plan " ++ plan.id ++ "@" ++
      toString plan.revision)

def preparedNodeFromFrozenBinding (node : ExecutionNode) (binding : Binding) :
    Except String PreparedNode :=
  if binding.policy.nodeRef ≠ node.id ∨ binding.policy.planRevision ≠ binding.plan.revision then
    .error "frozen policy does not match plan node"
  else if binding.decision.selected.estimatedCost < 0 then
    .error "frozen route estimated cost cannot be negative"
  else .ok {
    node := node, target := binding.target, policy := binding.policy
    estimate := {
      cost := binding.decision.selected.estimatedCost, nodeAttempts := 1
      frontierCalls := if binding.target.type = .model then 1 else 0
      toolCalls := if binding.target.type = .tool then 1 else 0 } }

def executionID (taskID planID : String) (revision : Int) : String :=
  "execution/" ++ taskID ++ "/" ++ planID ++ "@" ++ toString revision ++ "/" ++
    executionActivityVersion

def newExecution (task : Task) (goal : Goal) (plan : ExecutionPlan) (now : Time) : Execution where
  id := executionID task.id plan.id plan.revision
  taskRef := task.id
  goalRef := goal.id
  planRef := ⟨plan.id, plan.revision⟩
  identity := ⟨"system:temporal-task-lifecycle", task.tenantID⟩
  phase := .running
  createdAt := now
  updatedAt := now

def ensureExecution (task : Task) (goal : Goal) (plan : ExecutionPlan) (now : Time) :
    ActivityM Execution := do
  let id := executionID task.id plan.id plan.revision
  match ← ask (.getExecution id) with
  | .ok existing => return existing
  | .error .notFound =>
    match ← ask (.createExecution (newExecution task goal plan now)) with
    | .ok created => return created
    | .error createErr =>
      match ← ask (.getExecution id) with
      | .ok existing => return existing
      | .error _ => throw (.lineage "create durable Execution" createErr)
  | .error e => throw (.lineage "load durable Execution" e)

variable (item : Execution) (node : ExecutionNode)

/-- The runtime record of a plan node that was never executed. -/
def newRuntime : NodeRuntimeRecord where
  executionRef := item.id
  planRevision := item.planRef.revision
  nodeRef := node.id
  state := .ready
  effectClass := node.effect.effectClass
  retrySafe := node.effect.retrySafe
  idempotencyKey := node.effect.idempotencyKey
  attemptNumber := 0
  leaseFence := 0

/-- `Runtime.Register`, which may find the node registered already. -/
def registerRuntime (record : NodeRuntimeRecord) : ActivityM Unit := do
  match ← ask (.register record) with
  | .ok _ => return ()
  | .error .nodeRuntimeExists => return ()
  | .error e => throw (.store "register execution node runtime" e)

def ensureRuntime : ActivityM NodeRuntimeRecord := do
  match ← ask (.getNode item.id item.planRef.revision node.id) with
  | .ok (record, _) => return record
  | .error .nodeRuntimeNotFound =>
    registerRuntime (newRuntime item node)
    let (record, _) ← orFail (.store "reload execution node runtime")
      (← ask (.getNode item.id item.planRef.revision node.id))
    return record
  | .error e => throw (.store "load execution node runtime" e)

def retryClassAllowed (allowed : List ErrorClass) (actual : ErrorClass) : Prop :=
  actual ≠ "" ∧ actual ∈ allowed

instance (allowed : List ErrorClass) (actual : ErrorClass) :
    Decidable (retryClassAllowed allowed actual) := inferInstanceAs (Decidable (_ ∧ _))

def maxAttempts : Int :=
  if node.retryPolicy.maxAttempts ≤ 0 then 1 else node.retryPolicy.maxAttempts

def prepareRetry : ActivityM Unit := do
  let attempts ← orFail (.store "list execution attempts for retry")
    (← ask (.listAttempts item.id item.planRef.revision node.id))
  match attempts.getLast? with
  | none => throw (retryNotAllowedError "failed node has no durable attempt evidence")
  | some latest =>
    failIf (maxAttempts node ≤ latest.attemptNumber)
      (retryNotAllowedError "execution node exhausted retry attempts")
    failIf (node.effect.retrySafe = false ∨ isMutation node.effect.effectClass)
      (retryNotAllowedError "execution node effect is not safe for automatic retry")
    failIf (¬ retryClassAllowed node.retryPolicy.retryOn (latest.errorClass.getD ""))
      (retryNotAllowedError "execution failure class is not retryable by the frozen plan")
    orFail (.store "requeue failed execution node")
      (← ask (.requeueFailed item.id item.planRef.revision node.id))

variable (w : Worker.PersistentWorker)

/-- The worker's program as a part of the activity. -/
def runWorker (item : Execution) (candidate : PreparedNode) : ActivityM Worker.Outcome :=
  ExceptT.lift ((Worker.execute w item candidate).embed Request.worker (fun _ a => a))

/-- A failed node is requeued first if its plan allows another attempt. -/
def readyRuntime (item : Execution) (node : ExecutionNode) (runtime : NodeRuntimeRecord) :
    ActivityM NodeRuntimeRecord := do
  if runtime.state = .failed then
    prepareRetry item node
    let (record, _) ← orFail (.store "reload requeued execution node")
      (← ask (.getNode item.id item.planRef.revision node.id))
    return record
  else return runtime

/-- From the runtime record on. -/
def executeNode (item : Execution) (node : ExecutionNode) (binding : Binding) : ActivityM Unit := do
  let runtime ← ensureRuntime item node
  if runtime.state = .succeeded then return ()
  let runtime ← readyRuntime item node runtime
  failIf (runtime.state ≠ .ready ∧ runtime.state ≠ .running)
    (.invalid ("execution node " ++ node.id ++ " is not executable from state " ++
      runtime.state.text))
  let candidate ← orFail bindingInconsistentError (preparedNodeFromFrozenBinding node binding)
  let outcome ← runWorker w item candidate
  failIf (outcome.2 ≠ []) (.worker outcome.2)
  let (completed, _) ← orFail (.store "load completed execution node")
    (← ask (.getNode item.id item.planRef.revision node.id))
  failIf (completed.state ≠ .succeeded)
    (.invalid ("worker returned success but node " ++ node.id ++ " is " ++ completed.state.text))

/-- From the frozen binding on: plan, node, goal and execution must agree with it. -/
def executeBinding (task : Task) (binding : Binding) : ActivityM Unit := do
  let plan ← orFail (.lineage "load frozen execution plan")
    (← ask (.getPlan binding.plan.planID binding.plan.revision))
  orFail (fun _ => bindingInconsistentError "persisted execution plan is invalid")
    (validatePlan plan)
  failIf (plan.id ≠ binding.plan.planID ∨ plan.revision ≠ binding.plan.revision)
    (bindingInconsistentError "persisted plan does not match frozen plan revision")
  let node ← orFail bindingInconsistentError (nodeByID plan binding.node)
  let goal ← orFail (.lineage "load execution goal") (← ask (.getGoal plan.goalRef))
  failIf (goal.taskRef ≠ task.id)
    (bindingInconsistentError "execution goal does not belong to task")
  let now ← ask .now
  let item ← ensureExecution task goal plan now
  failIf (item.taskRef ≠ task.id ∨ item.goalRef ≠ goal.id ∨ item.planRef ≠ binding.plan)
    (bindingInconsistentError "durable Execution parent lineage mismatch")
  executeNode w item node binding

def execute (encoding : Encoding) (w : Worker.PersistentWorker) (input : StepInput) :
    ActivityM Unit := do
  validateStepInput "execution" input
  let task ← orFail (.tasks "load task for execution") (← ask (.getTask input.taskID))
  failIf (task.tenantID ≠ input.tenantID ∨ task.projectID ≠ input.projectID ∨
    task.traceID ≠ input.traceID) .lifecycleScope
  failIf (task.status ≠ .executing)
    (.invalidTaskTransition ("cannot execute from " ++ task.status.text))
  let found ← orFail (.tasks "resolve frozen route selection")
    (← ask (.resolveRouteSelection (routeSelectionLookup encoding input)))
  match found with
  | none => throw (bindingInconsistentError "durable execution binding is missing or inconsistent")
  | some selection =>
    failIf (¬ validExecutionBinding task.id selection.binding)
      (bindingInconsistentError "durable execution binding is missing or inconsistent")
    executeBinding w task selection.binding

end AiCloud.Activity
