import AiCloud.Tasks.Types
import AiCloud.Lib.Json
import AiCloud.Lib.Transaction

/-!
# Starting task workflows

The start request of a task's workflow, the Temporal engine that sends it and the outbox
adapter that builds it from a message. The backend's answer is an argument. The started
workflow decodes what the sender encoded; the schema version has no sender. Go maps of
the memory backend are functions, and its lock makes every call one atomic step.
-/
namespace AiCloud.Workflow

open Lib.Text Tasks Lib Json Execution

def taskExecutionWorkflowType : String := "task-execution-v1"

inductive WorkflowError
  | invalidStartRequest (detail : String)
  | temporal (text : String)
  | adapter (text : String)

def WorkflowError.text : WorkflowError → String
  | .invalidStartRequest detail => "invalid workflow start request: " ++ detail
  | .temporal text => text
  | .adapter text => text

structure StartRequest where
  (tenantID projectID taskID traceID workflowType : String)
  deriving DecidableEq

variable (r : StartRequest)

def StartRequest.validate : Except WorkflowError Unit :=
  if Blank r.tenantID then .error (.invalidStartRequest "tenant ID is required")
  else if Blank r.projectID then .error (.invalidStartRequest "project ID is required")
  else if Blank r.taskID then .error (.invalidStartRequest "task ID is required")
  else if Blank r.traceID then .error (.invalidStartRequest "trace ID is required")
  else if Blank r.workflowType then .error (.invalidStartRequest "workflow type is required")
  else if trimSpace r.workflowType ≠ taskExecutionWorkflowType then
    .error (.invalidStartRequest
      ("workflow type \"" ++ trimSpace r.workflowType ++ "\" is unsupported"))
  else .ok ()

def workflowID (taskID : String) : Except WorkflowError String :=
  if trimSpace taskID = "" then .error (.invalidStartRequest "task ID is required")
  else .ok ("task/" ++ trimSpace taskID)

structure TemporalStartRequest where
  (workflowID workflowType taskQueue : String)
  input : StartRequest
  deriving DecidableEq

structure TemporalStartResult where
  runID : String
  alreadyStarted : Bool

structure StartResult where
  (workflowID runID : String)
  alreadyStarted : Bool

/-- An engine has a trimmed, nonempty task queue. -/
structure TemporalEngine where
  taskQueue : String
  deriving DecidableEq

/-- What `Start` sends to Temporal. -/
def TemporalEngine.sends (e : TemporalEngine) (request : StartRequest) :
    Except WorkflowError TemporalStartRequest := do
  request.validate
  let id ← workflowID request.taskID
  return ⟨id, request.workflowType, e.taskQueue, request⟩

/-- What `Start` makes of the backend's answer. -/
def TemporalEngine.finish (sent : TemporalStartRequest) :
    Except String TemporalStartResult → Except WorkflowError StartResult
  | .error text => .error (.temporal
    ("start Temporal workflow " ++ sent.workflowID ++ ": " ++ text))
  | .ok result => .ok ⟨sent.workflowID, result.runID, result.alreadyStarted⟩

def destinationWorkflowStart : String := "workflow.start"

/-- The members of a start payload the adapter reads. -/
structure StartPayload where
  (taskID traceID : String)

/-- The request `StartDeliveryAdapter.Deliver` makes for a message. -/
def startDelivery (unmarshalPayload : String → Option StartPayload) (m : OutboxMessage) :
    Except WorkflowError StartRequest :=
  if m.destination ≠ destinationWorkflowStart then
    .error (.adapter ("unsupported workflow destination \"" ++ m.destination ++ "\""))
  else if Blank m.tenantID ∨ Blank m.projectID ∨ Blank m.taskID then
    .error (.adapter "workflow start Outbox message requires tenant, project and task identity")
  else if m.aggregateType ≠ "Task" ∨ m.aggregateID ≠ m.taskID then
    .error (.adapter "workflow start Outbox aggregate does not match Task identity")
  else match unmarshalPayload m.payload with
    | none => .error (.adapter "decode workflow start payload")
    | some payload =>
      if payload.taskID ≠ m.taskID then
        .error (.adapter "workflow start payload Task identity mismatch")
      else .ok ⟨m.tenantID, m.projectID, m.taskID, payload.traceID, taskExecutionWorkflowType⟩

def StartRequest.marshal : Json.Object :=
  [("tenantId", .text r.tenantID), ("projectId", .text r.projectID), ("taskId", .text r.taskID),
    ("traceId", .text r.traceID), ("workflowType", .text r.workflowType)]

def taskWorkflowSchemaVersion : Int := 1

structure TaskWorkflowInput where
  schemaVersion : Int
  (tenantID projectID taskID traceID : String)

inductive InputError
  | unsupportedSchemaVersion (version : Int)
  | required (field : String)
  deriving DecidableEq

def TaskWorkflowInput.validate (i : TaskWorkflowInput) : Except InputError Unit :=
  if i.schemaVersion ≠ taskWorkflowSchemaVersion then
    .error (.unsupportedSchemaVersion i.schemaVersion)
  else if Blank i.tenantID then .error (.required "tenant ID")
  else if Blank i.projectID then .error (.required "project ID")
  else if Blank i.taskID then .error (.required "task ID")
  else if Blank i.traceID then .error (.required "trace ID")
  else .ok ()

def TaskWorkflowInput.fields : List (Json.Field TaskWorkflowInput) :=
  [intField "schemaVersion" (fun n i => { i with schemaVersion := n }),
    textField "tenantId" (fun s i => { i with tenantID := s }),
    textField "projectId" (fun s i => { i with projectID := s }),
    textField "taskId" (fun s i => { i with taskID := s }),
    textField "traceId" (fun s i => { i with traceID := s })]

def TaskWorkflowInput.zero : TaskWorkflowInput := ⟨0, "", "", "", ""⟩

def TaskWorkflowInput.unmarshal (o : Json.Object) : Option TaskWorkflowInput :=
  Json.unmarshal TaskWorkflowInput.fields o TaskWorkflowInput.zero

inductive WorkflowFunction
  | taskLifecycleWorkflow

/-- The workflows `RegisterLifecycle` registers. -/
def registeredWorkflows : List (String × WorkflowFunction) :=
  [(taskExecutionWorkflowType, .taskLifecycleWorkflow)]

/-- The started workflow is registered, decodes the sent input to one it accepts,
and reads the sent ids. -/
def WellReceived (sent : TemporalStartRequest) : Prop :=
  registeredWorkflows.lookup sent.workflowType = some .taskLifecycleWorkflow ∧
    ∃ input, TaskWorkflowInput.unmarshal sent.input.marshal = some input ∧
      input.validate = .ok () ∧ input.tenantID = sent.input.tenantID ∧
      input.projectID = sent.input.projectID ∧ input.taskID = sent.input.taskID ∧
      input.traceID = sent.input.traceID

theorem unmarshal_marshal : TaskWorkflowInput.unmarshal r.marshal =
    some ⟨0, r.tenantID, r.projectID, r.taskID, r.traceID⟩ := by
  have htenant : fieldFor TaskWorkflowInput.fields "tenantId" =
      some (textField "tenantId" (fun s i => { i with tenantID := s })) := rfl
  have hproject : fieldFor TaskWorkflowInput.fields "projectId" =
      some (textField "projectId" (fun s i => { i with projectID := s })) := rfl
  have htask : fieldFor TaskWorkflowInput.fields "taskId" =
      some (textField "taskId" (fun s i => { i with taskID := s })) := rfl
  have htrace : fieldFor TaskWorkflowInput.fields "traceId" =
      some (textField "traceId" (fun s i => { i with traceID := s })) := rfl
  have htype : fieldFor TaskWorkflowInput.fields "workflowType" = none := rfl
  unfold TaskWorkflowInput.unmarshal StartRequest.marshal
  rw [unmarshal_set htenant rfl, unmarshal_set hproject rfl, unmarshal_set htask rfl,
    unmarshal_set htrace rfl, unmarshal_unknown htype]
  rfl

/-- No request the engine sends is well received: the workflow rejects the
schema version of every input. -/
theorem not_wellReceived (e : TemporalEngine) (request : StartRequest) (sent : TemporalStartRequest)
    (h : e.sends request = .ok sent) : ¬ WellReceived sent := by
  rintro ⟨_, input, hdecode, hvalid, _⟩
  have hinput : sent.input = request := by
    unfold TemporalEngine.sends at h
    simp only [except_bind_ok] at h
    obtain ⟨_, _, _, _, hsent⟩ := h
    cases hsent
    rfl
  rw [hinput, unmarshal_marshal] at hdecode
  cases hdecode
  -- the decoded version is zero, the workflow asks for one
  cases hvalid

def sampleStart : StartRequest := ⟨"t", "p", "task", "trace", taskExecutionWorkflowType⟩

def sampleEngine : TemporalEngine := ⟨"task-queue"⟩

def sampleSent : TemporalStartRequest :=
  ⟨"task/task", taskExecutionWorkflowType, "task-queue", sampleStart⟩

theorem not_wellReceived_sample :
    sampleEngine.sends sampleStart = .ok sampleSent ∧ ¬ WellReceived sampleSent :=
  ⟨rfl, not_wellReceived sampleEngine sampleStart sampleSent rfl⟩

/-- A request that the engine sends, and the error its workflow ends with. -/
theorem started_input_rejected : sampleEngine.sends sampleStart = .ok sampleSent ∧
    ∃ input, TaskWorkflowInput.unmarshal sampleSent.input.marshal = some input ∧
      input.validate = .error (.unsupportedSchemaVersion 0) := by
  refine ⟨rfl, ⟨0, "t", "p", "task", "trace"⟩, ?_, rfl⟩
  exact unmarshal_marshal sampleStart

inductive Stub
  | plan
  | route
  | execute
  | validate
  deriving DecidableEq

structure LoadTaskInput where
  (tenantID projectID taskID traceID : String)
  deriving DecidableEq

abbrev StepInput := LoadTaskInput

structure TransitionTaskInput where
  (tenantID projectID taskID traceID : String)
  expectedVersion : Int
  target : TaskStatus
  (cause operationKey : String)
  deriving DecidableEq

structure TaskSnapshot where
  (taskID traceID : String)
  status : TaskStatus
  version : Int
  terminal : Bool

def snapshotFromTask (task : Task) : TaskSnapshot :=
  ⟨task.id, task.traceID, task.status, task.version, task.isTerminal⟩

structure TransitionRecord where
  target : TaskStatus
  snapshot : TaskSnapshot

/-- The errors of an activity, and that of a call none of whose attempts was heard of. -/
inductive ActivityError
  | operationKeyRequired
  | taskNotFound
  | scope
  | operationKeyConflict (key : String) (recorded requested : TaskStatus)
  | staleTaskVersion (expected actual : Int)
  | transition (error : TransitionError)
  | transient (stub : Stub)
  | timeout
  deriving DecidableEq

/-- A task is stored under its own id. -/
structure MemoryLifecycleActivities where
  tasks : String → Option Task
  operations : String → Option TransitionRecord
  stepFailures : Stub → Nat
  terminalOnStep : Stub → Option TaskStatus
  staleOnceForKey : String → Bool
  named : ∀ id task, tasks id = some task → task.id = id

variable (a : MemoryLifecycleActivities) (now : Time) (stub : Stub)

namespace MemoryLifecycleActivities

def taskForScope (tenantID projectID taskID traceID : String) : Except ActivityError Task :=
  match a.tasks taskID with
  | none => .error .taskNotFound
  | some task =>
    if task.tenantID ≠ tenantID ∨ task.projectID ≠ projectID ∨ task.traceID ≠ traceID then
      .error .scope
    else .ok task

def put (task : Task) : MemoryLifecycleActivities :=
  { a with
    tasks := fun id => if id = task.id then some task else a.tasks id
    named := by
      intro id stored h
      split at h
      · rename_i hid
        cases h
        exact hid.symm
      · exact a.named id stored h }

def recordOperation (key : String) (record : TransitionRecord) : MemoryLifecycleActivities :=
  { a with operations := fun k => if k = key then some record else a.operations k }

def clearStale (key : String) : MemoryLifecycleActivities :=
  { a with staleOnceForKey := fun k => if k = key then false else a.staleOnceForKey k }

def clearTerminal : MemoryLifecycleActivities :=
  { a with terminalOnStep := fun k => if k = stub then none else a.terminalOnStep k }

def countFailure : MemoryLifecycleActivities :=
  { a with stepFailures := fun k => if k = stub then a.stepFailures k - 1 else a.stepFailures k }

def loadTask (input : LoadTaskInput) : Except ActivityError TaskSnapshot :=
  (a.taskForScope input.tenantID input.projectID input.taskID input.traceID).map snapshotFromTask

/-- A transition of the aggregate that also raises the version. -/
def moveTask (task : Task) (command : TaskTransitionCommand) : Except TransitionError Task :=
  (task.transition command).map (fun r => { r.1 with version := r.1.version + 1 })

def transitionTask (input : TransitionTaskInput) :
    Except ActivityError TaskSnapshot × MemoryLifecycleActivities :=
  if Blank input.operationKey then (.error .operationKeyRequired, a)
  else match a.taskForScope input.tenantID input.projectID input.taskID input.traceID with
    | .error e => (.error e, a)
    | .ok task =>
      match a.operations input.operationKey with
      | some record =>
        if record.target ≠ input.target then
          (.error (.operationKeyConflict input.operationKey record.target input.target), a)
        else (.ok record.snapshot, a)
      | none =>
        if task.isTerminal then (.ok (snapshotFromTask task), a)
        else if a.staleOnceForKey input.operationKey then
          (.error (.staleTaskVersion input.expectedVersion task.version),
            a.clearStale input.operationKey)
        else if task.version ≠ input.expectedVersion then
          (.error (.staleTaskVersion input.expectedVersion task.version), a)
        else match moveTask task
            ⟨input.target, "workflow:" ++ taskExecutionWorkflowType, input.cause, now⟩ with
          | .error e => (.error (.transition e), a)
          | .ok moved =>
            (.ok (snapshotFromTask moved), (a.put moved).recordOperation input.operationKey
                ⟨input.target, snapshotFromTask moved⟩)

/-- A stub may fail for a while, and may find that another writer ended the task. -/
def runStep (input : StepInput) : Except ActivityError Unit × MemoryLifecycleActivities :=
  match a.taskForScope input.tenantID input.projectID input.taskID input.traceID with
  | .error e => (.error e, a)
  | .ok task =>
    if 0 < a.stepFailures stub then (.error (.transient stub), a.countFailure stub)
    else match a.terminalOnStep stub with
      | none => (.ok (), a)
      | some status =>
        if task.isTerminal then (.ok (), a.clearTerminal stub)
        else match moveTask task ⟨status, "test:external", "S3C terminal race fixture", now⟩ with
          | .error e => (.error (.transition e), a.clearTerminal stub)
          | .ok moved => (.ok (), (a.clearTerminal stub).put moved)

end MemoryLifecycleActivities

/-- How far a status is on the way to an end. -/
def rank : TaskStatus → Nat
  | .created => 0
  | .planning => 1
  | .routing => 2
  | .executing => 3
  | .waitingApproval => 3
  | .validating => 4
  | _ => 5

theorem rank_le {source target : TaskStatus} (h : source.canTransition target = true) :
    rank source ≤ rank target := by
  have hle : rank source ≤ 5 := by cases source <;> simp [rank]
  by_cases hend : target = .failed ∨ target = .cancelled ∨ target = .expired
  · rcases hend with rfl | rfl | rfl <;> exact hle
  · unfold TaskStatus.canTransition at h
    rw [if_neg hend] at h
    cases source <;> simp [TaskStatus.isTerminal] at h <;> grind [rank]

/-- What a transition with its version does to a task. -/
structure Moves (task moved : Task) (target : TaskStatus) : Prop where
  id : moved.id = task.id
  allowed : task.status.canTransition target = true
  status : moved.status = target
  version : moved.version = task.version + 1

theorem moveTask_ok {task moved : Task} {command : TaskTransitionCommand}
    (h : MemoryLifecycleActivities.moveTask task command = .ok moved) :
    Moves task moved command.target := by
  unfold MemoryLifecycleActivities.moveTask at h
  cases ht : task.transition command with
  | error e =>
    rw [ht] at h
    cases h
  | ok r =>
    obtain ⟨stored, evidence⟩ := r
    rw [ht] at h
    cases h
    obtain ⟨hsame, hstatus, _⟩ := transition_ok ht
    refine ⟨hsame.id, transition_allowed ht, hstatus, ?_⟩
    change stored.version + 1 = task.version + 1
    rw [hsame.version]

namespace MemoryLifecycleActivities

theorem taskForScope_ok {a : MemoryLifecycleActivities} {tenantID projectID taskID traceID : String}
    {task : Task} (h : a.taskForScope tenantID projectID taskID traceID = .ok task) :
    a.tasks taskID = some task := by
  unfold taskForScope at h
  split at h
  · cases h
  split at h
  · cases h
  rename_i heq _
  cases h
  exact heq

theorem taskForScope_error {a : MemoryLifecycleActivities}
    {tenantID projectID taskID traceID : String} {e : ActivityError}
    (h : a.taskForScope tenantID projectID taskID traceID = .error e) :
    e = .taskNotFound ∨ e = .scope := by
  unfold taskForScope at h
  split at h
  · cases h
    exact Or.inl rfl
  · split at h
    · cases h
      exact Or.inr rfl
    · cases h

/-- The outcome of `TransitionTask` with the backend it leaves. -/
inductive Transitioned (a : MemoryLifecycleActivities) (i : TransitionTaskInput) :
    Except ActivityError TaskSnapshot × MemoryLifecycleActivities → Prop
  | failed {e : ActivityError} : (∀ x y, e ≠ .staleTaskVersion x y) → Transitioned a i (.error e, a)
  | replayed {record : TransitionRecord} : a.operations i.operationKey = some record →
      record.target = i.target → Transitioned a i (.ok record.snapshot, a)
  | ended {task : Task} : a.tasks i.taskID = some task → a.operations i.operationKey = none →
      task.isTerminal = true → Transitioned a i (.ok (snapshotFromTask task), a)
  | faulted {x y : Int} : a.staleOnceForKey i.operationKey = true →
      Transitioned a i (.error (.staleTaskVersion x y), a.clearStale i.operationKey)
  | stale {task : Task} {x y : Int} : a.tasks i.taskID = some task →
      task.version ≠ i.expectedVersion → Transitioned a i (.error (.staleTaskVersion x y), a)
  | committed {task moved : Task} : a.tasks i.taskID = some task →
      a.operations i.operationKey = none → Moves task moved i.target →
      Transitioned a i (.ok (snapshotFromTask moved),
        (a.put moved).recordOperation i.operationKey ⟨i.target, snapshotFromTask moved⟩)

theorem transitionTask_cases
    (i : TransitionTaskInput) : Transitioned a i (a.transitionTask now i) := by
  unfold transitionTask
  split
  · exact .failed (fun _ _ h => by cases h)
  split
  · rename_i e herr
    refine .failed ?_
    rintro x y rfl
    rcases taskForScope_error herr with h | h <;> cases h
  rename_i task hscope
  have htask := taskForScope_ok hscope
  split
  · rename_i record hrec
    split
    · exact .failed (fun _ _ h => by cases h)
    · rename_i htarget
      exact .replayed hrec (not_not.mp htarget)
  rename_i hnone
  split
  · rename_i hterm
    exact .ended htask hnone hterm
  split
  · rename_i hstale
    exact .faulted hstale
  split
  · rename_i hversion
    exact .stale htask hversion
  split
  · exact .failed (fun _ _ h => by cases h)
  · rename_i moved hmove
    exact .committed htask hnone (moveTask_ok hmove)

/-- The backend a stub leaves. -/
inductive Stepped (a : MemoryLifecycleActivities) (stub : Stub) (i : StepInput) :
    MemoryLifecycleActivities → Prop
  | same {b : MemoryLifecycleActivities} : b.tasks = a.tasks → b.operations = a.operations →
      b.terminalOnStep = a.terminalOnStep → b.staleOnceForKey = a.staleOnceForKey →
      Stepped a stub i b
  | dropped : a.terminalOnStep stub ≠ none → Stepped a stub i (a.clearTerminal stub)
  | moved {status : TaskStatus} {task moved : Task} : a.terminalOnStep stub = some status →
      a.tasks i.taskID = some task → Moves task moved status →
      Stepped a stub i ((a.clearTerminal stub).put moved)

theorem runStep_cases (i : StepInput) : Stepped a stub i (a.runStep now stub i).2 := by
  unfold runStep
  split
  · exact .same rfl rfl rfl rfl
  rename_i task hscope
  split
  · exact .same rfl rfl rfl rfl
  split
  · exact .same rfl rfl rfl rfl
  rename_i status hsome
  have hne : a.terminalOnStep stub ≠ none := by
    rw [hsome]
    exact Option.some_ne_none status
  split
  · exact .dropped hne
  split
  · exact .dropped hne
  · rename_i moved hmove
    exact .moved hsome (taskForScope_ok hscope) (moveTask_ok hmove)

end MemoryLifecycleActivities

end AiCloud.Workflow
