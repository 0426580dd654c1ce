import AiCloud.Lib.Program
import AiCloud.NodeLease.Cell

/-!
# The persistent worker

`PersistentWorker.Execute` as a program over its three collaborators: the
durable attempt coordinator, the budget and the target invoker. Every call is
one request; what the collaborators answer is left open.
-/
namespace AiCloud.Worker

open Lib Text Execution NodeLease

inductive EffectDisposition
  | notApplicable
  | notApplied
  | committed
  | unknown
  | other (text : String)
  deriving DecidableEq

structure InvocationResult where
  usage : Usage
  artifactRefs : List String
  effectDisposition : EffectDisposition
  deriving DecidableEq

def InvocationResult.empty : InvocationResult := ⟨Usage.zero, [], .notApplicable⟩

/-- What the classification of an invocation error looks at: the class of the
first `InvocationError` in its chain, if any, and the two context errors. -/
structure InvokeError where
  invocationClass : Option ErrorClass
  (deadlineExceeded canceled : Bool)

def classifyInvocationError : Option InvokeError → ErrorClass
  | none => ""
  | some err =>
    match err.invocationClass with
    | some (cls : String) => if cls ≠ "" then cls else contextClass err
    | none => contextClass err
where contextClass (err : InvokeError) : ErrorClass :=
    if err.deadlineExceeded then errorTimeout
    else if err.canceled then errorTransient
    else errorUnknown

abbrev BudgetError := String

structure BudgetReservation where
  id : String

/-- The operations of `AttemptExecutionCoordinator`. -/
inductive Coordinate
  | claim (executionID : String) (planRevision : Int) (nodeID owner : String)
      (leaseDuration : Duration)
  | startAttempt (lease : NodeLease) (binding : AttemptBinding)
  | markEffectStarted (lease : NodeLease)
  | markEffectCommitted (lease : NodeLease)
  | releaseBeforeEffect (lease : NodeLease)
  | complete (lease : NodeLease) (terminal : NodeState) (completion : AttemptCompletion)

def Coordinate.Result : Coordinate → Type
  | .claim .. => NodeLease
  | .startAttempt .. => AttemptRow
  | _ => Unit

inductive Request
  | coordinate (r : Coordinate)
  | reserve (id executionRef nodeRef : String) (estimate : BudgetEstimate)
  | settle (id : String) (actual : BudgetEstimate)
  | release (id : String)
  | invoke (execution : Execution) (node : ExecutionNode) (target : ExecutionTarget)

def Answer : Request → Type
  | .coordinate r => Except StoreError r.Result
  | .reserve .. => Except BudgetError BudgetReservation
  | .settle .. => Except BudgetError Unit
  | .release .. => Except BudgetError Unit
  | .invoke .. => InvocationResult × Option InvokeError

inductive WorkerError
  | config
  | preparedNodeInvalid (detail : String)
  | effectResolutionRequired (detail : String)
  | store (e : StoreError)
  | budget (e : BudgetError)
  | settleAttemptBudget (e : BudgetError)
  | invocation (e : InvokeError)

/-- `errors.Join`: the non-nil errors in order; none of them is nil. -/
abbrev Joined := List WorkerError

def storeErr {α : Type} : Except StoreError α → Joined
  | .error e => [.store e]
  | .ok _ => []

def budgetErr {α : Type} : Except BudgetError α → Joined
  | .error e => [.budget e]
  | .ok _ => []

def invokeErrs : Option InvokeError → Joined
  | some e => [.invocation e]
  | none => []

/-- `ready` says that coordinator, budget and invoker are all set. -/
structure PersistentWorker where
  workerID : String
  leaseTTL : Duration
  ready : Bool

structure WorkerExecutionResult where
  lease : Option NodeLease
  reservationRef : String
  invocation : InvocationResult

/-- The result with the error returned beside it; no error is the empty join. -/
abbrev Outcome := WorkerExecutionResult × Joined

def validate (w : PersistentWorker) (execution : Execution) (candidate : PreparedNode) :
    Except WorkerError Unit :=
  if Blank w.workerID ∨ w.leaseTTL ≤ 0 ∨ w.ready = false then .error .config
  else if execution.id = "" ∨ execution.planRef.revision < 1 ∨ candidate.node.id = "" then
    .error (.preparedNodeInvalid "execution, plan revision and node are required")
  else if candidate.policy.id = "" ∨ candidate.policy.decision ≠ .allow then
    .error (.preparedNodeInvalid "an ALLOW policy decision with id is required")
  else if candidate.policy.executionRef ≠ "" ∧ candidate.policy.executionRef ≠ execution.id then
    .error (.preparedNodeInvalid "policy execution mismatch")
  else if candidate.policy.planRevision > 0 ∧
      candidate.policy.planRevision ≠ execution.planRef.revision then
    .error (.preparedNodeInvalid "policy plan revision mismatch")
  else if candidate.policy.nodeRef ≠ "" ∧ candidate.policy.nodeRef ≠ candidate.node.id then
    .error (.preparedNodeInvalid "policy node mismatch")
  else if candidate.target.id = "" ∨ candidate.target.revision < 1 ∨
      Blank candidate.target.snapshot.digest then
    .error (.preparedNodeInvalid "target id, revision and immutable snapshot digest are required")
  else .ok ()

def actualBudgetForInvocation (target : ExecutionTarget) (usage : Usage) : BudgetEstimate where
  cost := usage.cost
  nodeAttempts := 1
  frontierCalls := 0
  toolCalls := if target.type = .tool then 1 else 0

abbrev WorkerProg := Prog Request Answer Outcome

def ask (q : Request) : Prog Request Answer (Answer q) := Prog.request q

def coordinate (r : Coordinate) : Prog Request Answer (Except StoreError r.Result) :=
  Prog.request (A := Answer) (.coordinate r)

variable (lease : NodeLease)

def finishReadOnly (result : WorkerExecutionResult)
    (invokeErr : Option InvokeError) : WorkerProg := do
  match invokeErr with
  | none =>
    let done ← coordinate (.complete lease .succeeded ⟨.succeeded, "", result.invocation.usage⟩)
    return (result, storeErr done)
  | some err =>
    let done ← coordinate (.complete lease .failed
      ⟨.failed, classifyInvocationError (some err), result.invocation.usage⟩)
    return (result, .invocation err :: storeErr done)

def finishMutation (candidate : PreparedNode) (result : WorkerExecutionResult)
    (invokeErr : Option InvokeError) : WorkerProg := do
  match result.invocation.effectDisposition with
  | .committed =>
    match ← coordinate (.markEffectCommitted lease) with
    | .error e => return (result, [.effectResolutionRequired "", .store e])
    | .ok _ =>
      match invokeErr with
      | some err => return (result, [.effectResolutionRequired "", .invocation err])
      | none =>
        let done ← coordinate (.complete lease .succeeded ⟨.succeeded, "", result.invocation.usage⟩)
        return (result, storeErr done)
  | .notApplied =>
    match invokeErr with
    | none =>
      return (result, [.effectResolutionRequired
        "target reported NOT_APPLIED without an invocation error"])
    | some err =>
      let done ← coordinate (.complete lease .failed
        ⟨.failed, classifyInvocationError (some err), result.invocation.usage⟩)
      return (result, .invocation err :: storeErr done)
  | .unknown => return (result, .effectResolutionRequired "" :: invokeErrs invokeErr)
  | .notApplicable => return (result, .effectResolutionRequired "" :: invokeErrs invokeErr)
  | .other text =>
    return (result, [.effectResolutionRequired
      ("unknown effect disposition \"" ++ text ++ "\" for node " ++ candidate.node.id)])

def bindingFor (candidate : PreparedNode) (reservationID : String) : AttemptBinding where
  targetRef := candidate.target.id
  targetRevision := candidate.target.revision
  targetSnapshot := candidate.target.snapshot.digest
  policyDecisionRef := candidate.policy.id
  budgetReservationRef := reservationID

variable (execution : Execution) (candidate : PreparedNode) (reservation : BudgetReservation)

/-- From the invocation on: settle the budget, then close the attempt. -/
def invokeAndFinish (mutation : Bool) : WorkerProg := do
  let (invocation, invokeErr) ← ask (.invoke execution candidate.node candidate.target)
  let result : WorkerExecutionResult := ⟨some lease, reservation.id, invocation⟩
  match ← ask (.settle reservation.id
      (actualBudgetForInvocation candidate.target invocation.usage)) with
  | .error e => return (result, [.settleAttemptBudget e])
  | .ok _ =>
    if mutation then finishMutation lease candidate result invokeErr
    else finishReadOnly lease result invokeErr

/-- From the started attempt on: a mutation first records that its effect starts. -/
def runStarted : WorkerProg := do
  if isMutation candidate.node.effect.effectClass then
    match ← coordinate (.markEffectStarted lease) with
    | .error e =>
      let settled ← ask (.settle reservation.id ⟨0, 1, 0, 0⟩)
      let done ← coordinate (.complete lease .failed ⟨.failed, errorUnknown, Usage.zero⟩)
      return (⟨some lease, reservation.id, .empty⟩, .store e :: budgetErr settled ++ storeErr done)
    | .ok _ => invokeAndFinish lease execution candidate reservation true
  else invokeAndFinish lease execution candidate reservation false

/-- From the reservation on: start the attempt under the reserved budget. -/
def startAndRun : WorkerProg := do
  match ← coordinate (.startAttempt lease (bindingFor candidate reservation.id)) with
  | .error e =>
    let released ← ask (.release reservation.id)
    let cleanup ← coordinate (.releaseBeforeEffect lease)
    return (⟨some lease, reservation.id, .empty⟩,
      .store e :: budgetErr released ++ storeErr cleanup)
  | .ok _ => runStarted lease execution candidate reservation

def execute (w : PersistentWorker) (execution : Execution) (candidate : PreparedNode) :
    WorkerProg := do
  match validate w execution candidate with
  | .error e => return (⟨none, "", .empty⟩, [e])
  | .ok _ =>
    match ← coordinate (.claim execution.id execution.planRef.revision candidate.node.id
        w.workerID w.leaseTTL) with
    | .error e => return (⟨none, "", .empty⟩, [.store e])
    | .ok lease =>
      match ← ask (.reserve ("attempt/" ++ NodeLease.attemptRef lease) execution.id
          candidate.node.id candidate.estimate) with
      | .error e =>
        let cleanup ← coordinate (.releaseBeforeEffect lease)
        return (⟨some lease, "", .empty⟩, .budget e :: storeErr cleanup)
      | .ok reservation => startAndRun lease execution candidate reservation

end AiCloud.Worker
