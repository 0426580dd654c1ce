import AiCloud.Lineage.Store
import AiCloud.Tasks.ModelExecution
import AiCloud.Worker.Execute

/-!
# Requests of the lifecycle activities

The routing and the execution activity of a task, as far as they talk to their
surroundings: the task store, the lineage store, the node-lease store, the
worker's collaborators, and the policy, planner and deployment services whose
answers are left open.
-/
namespace AiCloud.Activity

open Lib Text Execution Identity Tasks Lineage NodeLease

structure StepInput where
  (tenantID projectID taskID traceID : String)

/-- The principal both activities act as. -/
def executionWorkflowProjectContext (input : StepInput) : Context :=
  some {
    type := .system, subjectID := "temporal-task-lifecycle", tenantID := input.tenantID
    projectID := input.projectID, roles := [], capabilities := [capabilityTaskSystemAccess]
    authnMethod := "internal_temporal", issuer := "aicloud", sessionID := ""
    purpose := "task-lifecycle" }

def routingActivityVersion : String := "ecp-route-v1"
def executionActivityVersion : String := "ecp-execute-v1"

/-- The fields of a deployment the routing activity reads; `document` stands for
the others, which only enter the target digest. -/
structure Deployment where
  (id modelID modelVersion document : String)

/-- The part of `router.Request` the activity sets itself; `document` is the rest. -/
structure RouteRequest where
  (policyVersion document : String)

/-- Hashing and JSON encoding, left open. -/
structure Encoding where
  sha256Hex : String → String
  /-- The digest over a decision and its deployment; `none` if they do not encode. -/
  routeTargetDigest : RouteDecision → Option Deployment → Option String
  /-- The payload of `TaskRouteSelected`. -/
  marshalSelectionEvent : RouteDecision → ExecutionPlan → ExecutionNode →
    PolicyDecisionRecord → ExecutionTarget → Option String

/-- An error of a service outside the repository. -/
abbrev ServiceError := String

inductive Request
  | getTask (id : String)
  | resolveRouteSelection (lookup : IdempotencyLookup)
  | commitRouteSelection (command : RouteSelectionCommit)
  | getPlan (id : String) (revision : Int)
  | listPlansByTask (taskID : String)
  | getGoal (id : String)
  | getExecution (id : String)
  | createExecution (item : Execution)
  | getNode (executionID : String) (planRevision : Int) (nodeID : String)
  | listAttempts (executionID : String) (planRevision : Int) (nodeID : String)
  | register (record : NodeRuntimeRecord)
  | requeueFailed (executionID : String) (planRevision : Int) (nodeID : String)
  | now
  | newID
  | evaluate (task : Task) (goal : Goal) (plan : ExecutionPlan) (node : ExecutionNode)
  | build (task : Task) (goal : Goal) (plan : ExecutionPlan) (node : ExecutionNode)
  | planRoute (request : RouteRequest)
  | getDeployment (id : String)
  | worker (q : Worker.Request)

def Answer : Request → Type
  | .getTask _ => Except CommandError Task
  | .resolveRouteSelection _ => Except CommandError (Option RouteSelectionResult)
  | .commitRouteSelection _ => Except CommandError RouteSelectionResult
  | .getPlan .. => Except LineageError ExecutionPlan
  | .listPlansByTask _ => Except LineageError (List ExecutionPlan)
  | .getGoal _ => Except LineageError Goal
  | .getExecution _ => Except LineageError Execution
  | .createExecution _ => Except LineageError Execution
  | .getNode .. => Except StoreError (NodeRuntimeRecord × Option NodeLease)
  | .listAttempts .. => Except StoreError (List AttemptRow)
  | .register _ => Except StoreError Unit
  | .requeueFailed .. => Except StoreError Unit
  | .now => Time
  | .newID => String
  | .evaluate .. => Except ServiceError PolicyDecisionRecord
  | .build .. => Except ServiceError RouteRequest
  | .planRoute _ => Except ServiceError RouteDecision
  | .getDeployment _ => Except ServiceError Deployment
  | .worker q => Worker.Answer q

inductive ActivityError
  | invalid (text : String)
  | lifecycleScope
  | invalidTaskTransition (text : String)
  | nonRetryable (message type : String)
  | tasks (context : String) (e : CommandError)
  | lineage (context : String) (e : LineageError)
  | store (context : String) (e : StoreError)
  | service (context : String) (e : ServiceError)
  | worker (errors : Worker.Joined)

abbrev ActivityM := Fallible Request Answer ActivityError

abbrev ask (q : Request) : ActivityM (Answer q) := Fallible.ask q

def errorTypeExecutionBindingInconsistent : String := "EXECUTION_BINDING_INCONSISTENT"
def errorTypeExecutionRetryNotAllowed : String := "EXECUTION_RETRY_NOT_ALLOWED"
def errorTypeRoutePolicyDenied : String := "ROUTE_POLICY_DENIED"
def errorTypeRouteApprovalRequired : String := "ROUTE_POLICY_APPROVAL_REQUIRED"
def errorTypeRouteSelectionInconsistent : String := "ROUTE_SELECTION_INCONSISTENT"

/-- `validateExecutionStepInput` and `validateRoutingStepInput`. -/
def validateStepInput (step : String) (input : StepInput) : ActivityM Unit :=
  Fallible.failIf (Blank input.tenantID ∨ Blank input.projectID ∨ Blank input.taskID ∨
      Blank input.traceID)
    (.invalid (step ++ " step requires tenant, project, task and trace identity"))

/-- The key under which a task's route selection is stored. -/
def selectionKey (tenantID projectID taskID : String) : IdempotencyKey where
  tenantID := trimSpace tenantID
  projectID := trimSpace projectID
  operation := "workflow:task-route-select:" ++ routingActivityVersion
  key := trimSpace taskID ++ ":route:" ++ routingActivityVersion

def routeSelectionLookup (encoding : Encoding) (input : StepInput) : IdempotencyLookup where
  tenantID := trimSpace input.tenantID
  projectID := trimSpace input.projectID
  operation := "workflow:task-route-select:" ++ routingActivityVersion
  key := trimSpace input.taskID ++ ":route:" ++ routingActivityVersion
  requestDigest := "sha256:" ++ encoding.sha256Hex (String.intercalate "\x00"
    [routingActivityVersion, trimSpace input.tenantID, trimSpace input.projectID,
      trimSpace input.taskID, trimSpace input.traceID])

theorem routeSelectionLookup_key (encoding : Encoding) (input : StepInput) :
    (routeSelectionLookup encoding input).rowKey =
      selectionKey input.tenantID input.projectID input.taskID := rfl

end AiCloud.Activity
