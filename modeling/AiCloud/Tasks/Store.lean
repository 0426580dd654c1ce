import AiCloud.Lib.Transaction
import AiCloud.Tasks.Types

/-!
# Statements of the task command transactions

What the commands of `ScopedPostgresTaskCommands` share: admission, the idempotency
reservation, the guarded task update, and the appends of events, outbox messages and
route decisions. Each command is the body of its one transaction, with clock readings as
arguments. A result field at Go's zero value is `none` or empty.
-/
namespace AiCloud.Tasks

open Lib Text Identity Execution Tx

abbrev CommandTx := Tx Db CommandError

/-- The record check that opens every command; `text` names the statuses it takes. -/
def checkRecord (codec : Codec) (statusOk : IdempotencyStatus → Bool) (text : String)
    (record : IdempotencyRecord) : Except CommandError Unit := do
  record.validate codec
  if statusOk record.status then .ok () else .error (.invalid text)

/-- The caller's principal, whose scope must be the record's. -/
def admitScope (ctx : Context) (record : IdempotencyRecord) : Except CommandError Principal :=
  match scopedPrincipal ctx with
  | .error e => .error (.identity e)
  | .ok p =>
    if record.tenantID ≠ p.tenantID ∨ record.projectID ≠ p.projectID then
      .error (.invalid "idempotency scope must match authenticated principal")
    else .ok p

def IdempotencyRecord.rowKey (r : IdempotencyRecord) : IdempotencyKey :=
  ⟨r.tenantID, r.projectID, r.operation, r.key⟩

/-- A row as the load statements return it; a stored JSON null reads as no payload. -/
def IdempotencyRow.load (row : IdempotencyRow) : IdempotencyRecord where
  tenantID := row.key.tenantID
  projectID := row.key.projectID
  operation := row.key.operation
  key := row.key.key
  requestDigest := row.requestDigest
  status := row.status
  resourceID := row.resourceID
  responseCode := row.responseCode
  responseDigest := row.responseDigest
  responsePayload := match row.responsePayload with
    | none => ""
    | some text => if text = "null" then "" else text
  createdAt := row.createdAt
  expiresAt := row.expiresAt

def IdempotencyRecord.reservedRow (r : IdempotencyRecord) : IdempotencyRow where
  key := r.rowKey
  requestDigest := r.requestDigest
  status := .inProgress
  resourceID := ""
  responseCode := 0
  responseDigest := ""
  responsePayload := none
  createdAt := r.createdAt
  expiresAt := r.expiresAt

/-- `INSERT ... ON CONFLICT DO NOTHING`: did it insert? -/
def insertRecordOrNothing (row : IdempotencyRow) : CommandTx Bool :=
  statement (fun db =>
    if row.Check ∧ (db.record row.key).isSome then some (false, db)
    else (db.idempotency.insert row).map (fun t => (true, { db with idempotency := t })))
    (.database "reserve idempotency record")

def updateRecords (context : String) (p : IdempotencyRow → Prop) [DecidablePred p]
    (f : IdempotencyRow → IdempotencyRow) : CommandTx Nat :=
  statement
    (fun db => (db.idempotency.update p f).map (fun r => (r.1, { db with idempotency := r.2 })))
    (.database context)

def loadIdempotencyForUpdate (k : IdempotencyKey) : CommandTx IdempotencyRecord :=
  query (fun db => (db.record k).map IdempotencyRow.load) (.database "load idempotency record")

/-- Reserve the key of a command. An earlier final result comes back as a
replay; `none` means that this command owns the key. -/
def reserveIdempotency (desired : IdempotencyRecord) : CommandTx (Option IdempotencyRecord) := do
  if ← insertRecordOrNothing desired.reservedRow then return none
  let existing ← loadIdempotencyForUpdate desired.rowKey
  failIf (existing.requestDigest ≠ desired.requestDigest) .idempotencyConflict
  match existing.status with
  | .completed => return some existing
  | .failedFinal => return some existing
  | .inProgress => fail .idempotencyInProgress
  | .failedRetryable =>
    let _ ← updateRecords "reacquire retryable idempotency record"
      (fun r => r.key = desired.rowKey) (fun r => { r with
        status := .inProgress, resourceID := "", responseCode := 0, responseDigest := ""
        responsePayload := none })
    return none
  | .other text => fail (.invalid ("unsupported idempotency status \"" ++ text ++ "\""))

/-- The parameter `$9::jsonb`; an absent payload is NULL. -/
def Codec.payloadColumn (codec : Codec) (payload context : String) :
    Except CommandError (Option String) :=
  if payload = "" then .ok none
  else match codec.jsonb payload with
    | none => .error (.database context)
    | some text => .ok (some text)

variable (codec : Codec)

def completeIdempotency (record : IdempotencyRecord) : CommandTx Unit := do
  let payload ← lift (codec.payloadColumn record.responsePayload "complete idempotency record")
  let affected ← updateRecords "complete idempotency record"
    (fun r => r.key = record.rowKey ∧ r.requestDigest = record.requestDigest) (fun r => { r with
      status := record.status, resourceID := record.resourceID
      responseCode := record.responseCode, responseDigest := record.responseDigest
      responsePayload := payload })
  failIf (affected ≠ 1)
    (.invalid ("complete idempotency record affected " ++ toString affected ++ " rows"))

variable (p : Principal)

/-- `SELECT ... FOR UPDATE` of the command's task. -/
def lockTask (id : String) : CommandTx Task := do
  let current ← query (fun db => db.scopedTask p id) .notFound
  failIf (¬ p.ownsProject current.tenantID current.projectID) .notFound
  return current

def immutableIdentity : CommandError :=
  .invalid "task tenant, project and creator identity are immutable"

/-- The command's task names another tenant, project or creator than the row. -/
def Task.Disowns (current task : Task) : Prop :=
  current.tenantID ≠ task.tenantID ∨ current.projectID ≠ task.projectID ∨
    current.createdBy ≠ task.createdBy

instance (current task : Task) : Decidable (current.Disowns task) :=
  inferInstanceAs (Decidable (_ ∨ _))

def insertTask (task : Task) : CommandTx Unit :=
  statement (fun db => (db.tasks.insert task).map (fun t => ((), { db with tasks := t })))
    (.database "create task projection in command transaction")

variable (context : String)

/-- `UPDATE tasks SET ..., version = version + increment WHERE id AND version ...
RETURNING version`; no row means that the version moved on. -/
def updateTask (p : Principal) (id : String) (version increment : Int)
    (extra : Task → Prop) [DecidablePred extra] (f : Task → Task) : CommandTx Int := do
  let affected ← statement (fun db =>
    (db.tasks.update
      (fun t => (t.id = id ∧ InScope p t.tenantID t.projectID) ∧ t.version = version ∧ extra t)
      (fun t => { f t with version := t.version + increment })).map
      (fun r => (r.1, { db with tasks := r.2 }))) (.database context)
  failIf (affected = 0) .versionConflict
  return version + increment

/-- The columns a transition takes over from the command's task. -/
def Task.project (row task : Task) : Task :=
  { row with
    agentID := task.agentID, input := task.input, status := task.status, result := task.result
    cost := task.cost, estimatedCost := task.estimatedCost, actualCost := task.actualCost
    currency := task.currency, routeDecisionID := task.routeDecisionID, traceID := task.traceID
    updatedAt := task.updatedAt, completedAt := task.completedAt }

def nextSequence (taskID : String) : CommandTx Int :=
  read (fun db => db.maxSequence p taskID + 1)

/-- The fields a command sets on the event it appends, and its defaults. -/
def TaskEvent.stamp (e : TaskEvent) (current : Task) (sequence : Int) (traceID : String)
    (occurredAt now : Time) : TaskEvent :=
  { e with
    tenantID := current.tenantID, projectID := current.projectID, taskID := current.id
    sequence := sequence, traceID := traceID
    occurredAt := if e.occurredAt = 0 then occurredAt else e.occurredAt
    createdAt := if e.createdAt = 0 then now else e.createdAt
    schemaVersion := if e.schemaVersion = 0 then 1 else e.schemaVersion }

def TaskEvent.defaultType (e : TaskEvent) (eventType : String) : TaskEvent :=
  if e.eventType = "" then { e with eventType := eventType } else e

def insertTaskEvent (e : TaskEvent) : CommandTx Unit :=
  statement (fun db =>
    match codec.jsonb e.payload with
    | none => none
    | some payload => (db.events.insert { e with payload := payload }).map
        (fun t => ((), { db with events := t }))) (.database context)

/-- Validate a stamped event and append it. -/
def appendEvent (e : TaskEvent) : CommandTx Unit := do
  lift (e.validate codec)
  insertTaskEvent codec context e

def prepareTaskOutboxMessage (m : OutboxMessage) (task : Task) (now : Time) : OutboxMessage :=
  { m with
    tenantID := if m.tenantID = "" then task.tenantID else m.tenantID
    projectID := if m.projectID = "" then task.projectID else m.projectID
    taskID := if m.taskID = "" ∧ m.aggregateType = "Task" ∧ m.aggregateID = task.id then task.id
      else m.taskID
    status := if m.status = .other "" then .pending else m.status
    createdAt := if m.createdAt = 0 then now else m.createdAt
    availableAt := if m.availableAt = 0 then now else m.availableAt }

def insertOutboxMessage (m : OutboxMessage) : CommandTx Unit :=
  statement (fun db =>
    match codec.jsonb m.payload with
    | none => none
    | some payload => (db.outbox.insert (.unleased { m with payload := payload })).map
        (fun t => ((), { db with outbox := t }))) (.database "append outbox message")

/-- Prepare, check and append the messages in order. -/
def appendOutbox (codec : Codec) (mismatch : String) (task : Task) (now : Time) :
    List OutboxMessage → CommandTx (List OutboxMessage)
  | [] => return []
  | m :: rest => do
    let message := prepareTaskOutboxMessage m task now
    failIf (message.tenantID ≠ task.tenantID ∨ message.projectID ≠ task.projectID)
      (.invalid "outbox scope must match task scope")
    failIf (message.taskID ≠ "" ∧ message.taskID ≠ task.id) (.invalid mismatch)
    lift (message.validate codec)
    insertOutboxMessage codec message
    let appended ← appendOutbox codec mismatch task now rest
    return message :: appended

/-- `json.Marshal` with the context its error is wrapped in. -/
def encode {α : Type} (marshal : α → Option String) (value : α) (context : String) :
    Except CommandError String :=
  match marshal value with
  | none => .error (.invalid context)
  | some text => .ok text

/-- `priced` says that the pricing-evidence trigger accepts the decision. -/
def insertRouteDecisionTx (priced : Bool) (decision : RouteDecision) : CommandTx Unit := do
  let selected ← lift (encode codec.marshalCandidate decision.selected
    "encode selected route candidate")
  let candidates ← lift (encode codec.marshalCandidates decision.candidates
    "encode route candidates")
  let fallback ← lift (encode codec.marshalCandidates decision.fallbackChain
    "encode route fallback chain")
  statement (fun db =>
    match codec.jsonb selected, codec.jsonb candidates, codec.jsonb fallback with
    | some selected, some candidates, some fallback =>
      if priced then (db.decisions.insert ⟨decision.id, decision.taskID, selected, candidates,
          decision.reason, fallback, decision.evidenceVersion, decision.policyVersion,
          decision.createdAt⟩).map (fun t => ((), { db with decisions := t }))
      else none
    | _, _, _ => none) (.database "persist route decision in task transaction")

structure TaskCommandCommitResult where
  task : Option Task
  event : Option TaskEvent
  outbox : List OutboxMessage
  idempotency : IdempotencyRecord
  replayed : Bool
  deriving DecidableEq

/-- Reserve the key; a final earlier result is replayed instead of running the body. -/
def once {α : Type} (record : IdempotencyRecord) (replay : IdempotencyRecord → CommandTx α)
    (body : CommandTx α) : CommandTx α := do
  match ← reserveIdempotency record with
  | some existing => replay existing
  | none => body

structure TaskCreateCommit where
  task : Task
  event : TaskEvent
  outbox : List OutboxMessage
  idempotency : IdempotencyRecord

def validateTaskCreation (task : Task) : Except CommandError Unit :=
  if Blank task.id ∨ Blank task.input ∨ Blank task.traceID then
    .error (.invalid "task id, input and trace id are required")
  else if task.tenantID = "" ∨ task.projectID = "" ∨ task.createdBy = "" then
    .error (.invalid "task tenant, project and creator identity are required")
  else if task.status ≠ .created ∨ task.version ≠ 1 then
    .error (.invalid "new task must start at CREATED with version 1")
  else if task.createdAt = 0 ∨ task.updatedAt = 0 then
    .error (.invalid "task creation timestamps are required")
  else if task.completedAt ≠ none then .error (.invalid "new task cannot have completed_at")
  else .ok ()

def adoptTask (task : Task) : Except CommandError Task :=
  if task.tenantID ≠ "" ∧ task.tenantID ≠ p.tenantID then
    .error (.invalid "task tenant identity does not match principal")
  else if task.projectID ≠ "" ∧ task.projectID ≠ p.projectID then
    .error (.invalid "task project identity does not match principal")
  else if task.createdBy ≠ "" ∧ task.createdBy ≠ p.subjectID then
    .error (.invalid "task creator identity does not match principal")
  else .ok { task with tenantID := p.tenantID, projectID := p.projectID, createdBy := p.subjectID }

def replayCreate (existing : IdempotencyRecord) : CommandTx TaskCommandCommitResult := do
  failIf (existing.status ≠ .completed ∨ existing.resourceID = "")
    (.invalid "completed task creation replay is missing resource identity")
  let task ← query (fun db => db.scopedTask p existing.resourceID)
    (.invalid ("idempotency replay references missing task \"" ++ existing.resourceID ++ "\""))
  return ⟨some task, none, [], existing, true⟩

def createBody (now : Time) (task : Task) (command : TaskCreateCommit) :
    CommandTx TaskCommandCommitResult := do
  insertTask task
  let event := (command.event.defaultType "TaskCreated").stamp task 1 task.traceID
    task.createdAt now
  failIf (event.eventType ≠ "TaskCreated") (.invalid "task creation must append TaskCreated")
  appendEvent codec "append TaskCreated event" event
  let outbox ← appendOutbox codec "outbox task id must match command task" task now command.outbox
  let idempotency := { command.idempotency with resourceID := task.id }
  completeIdempotency codec idempotency
  return ⟨some task, some event, outbox, idempotency, false⟩

variable (ctx : Context)

/-- What `CreateTask` checks before it opens its transaction; so for the other commands. -/
def admitCreate (command : TaskCreateCommit) : Except CommandError (Principal × Task) := do
  checkRecord codec (· = .completed)
    "successful task creation requires completed idempotency status" command.idempotency
  let p ← admitScope ctx command.idempotency
  let task ← adoptTask p command.task
  validateTaskCreation task
  return (p, task)

def createTask (now : Time) (command : TaskCreateCommit) : CommandTx TaskCommandCommitResult := do
  let (p, task) ← lift (admitCreate codec ctx command)
  once command.idempotency (replayCreate p) (createBody codec now task command)

structure TaskCommandCommit where
  task : Task
  transition : TaskTransition
  event : TaskEvent
  outbox : List OutboxMessage
  idempotency : IdempotencyRecord

def transitionBody (now : Time) (p : Principal) (command : TaskCommandCommit) :
    CommandTx TaskCommandCommitResult := do
  let current ← lockTask p command.task.id
  failIf (current.Disowns command.task) immutableIdentity
  failIf (command.task.version ≠ current.version) .versionConflict
  failIf (command.transition.source ≠ current.status ∨
      command.transition.target ≠ command.task.status)
    (.invalid "task transition evidence does not match persisted state")
  failIf command.transition.Incomplete (.invalid "task transition evidence is incomplete")
  failIf (canonicalTaskStateEvent command.task.status ≠ some command.event.eventType)
    (.invalid ("canonical event mismatch for task state " ++ command.task.status.text))
  let sequence ← nextSequence p current.id
  let version ← updateTask "update task projection in command transaction" p command.task.id
    command.task.version 1 (fun _ => True) (fun t => t.project command.task)
  let event := command.event.stamp current sequence command.task.traceID command.transition.at_ now
  appendEvent codec "append task event" event
  let outbox ← appendOutbox codec "outbox task id must match command task" current now
    command.outbox
  let idempotency := if command.idempotency.resourceID = "" then
    { command.idempotency with resourceID := current.id } else command.idempotency
  completeIdempotency codec idempotency
  return ⟨some { command.task with version := version }, some event, outbox, idempotency, false⟩

def admitTransition (command : TaskCommandCommit) : Except CommandError Principal := do
  checkRecord codec (· ≠ .inProgress) "final idempotency status must not be in_progress"
    command.idempotency
  admitScope ctx command.idempotency

def commitTransition (now : Time) (command : TaskCommandCommit) :
    CommandTx TaskCommandCommitResult := do
  let p ← lift (admitTransition codec ctx command)
  once command.idempotency (fun existing => return ⟨none, none, [], existing, true⟩)
    (transitionBody codec now p command)

structure RouteTaskCommandCommit where
  task : Task
  transition : TaskTransition
  decision : RouteDecision
  event : TaskEvent
  outbox : List OutboxMessage
  idempotency : IdempotencyRecord

structure RouteTaskCommandResult where
  task : Option Task
  decision : Option RouteDecision
  event : Option TaskEvent
  outbox : List OutboxMessage
  idempotency : IdempotencyRecord
  replayed : Bool
  deriving DecidableEq

def replayRouteCommand (p : Principal) (record : IdempotencyRecord) :
    CommandTx RouteTaskCommandResult := do
  failIf (record.status ≠ .completed ∨ record.resourceID = "")
    (.invalid "completed route replay is missing task resource identity")
  failIf (record.responsePayload = "")
    (.invalid "completed route replay is missing durable response payload")
  let decision ← query (fun _ => codec.unmarshalDecision record.responsePayload)
    (.invalid "decode durable route replay result")
  let task ← query (fun db => db.scopedTask p record.resourceID)
    (.invalid ("route replay references missing task \"" ++ record.resourceID ++ "\""))
  return ⟨some task, some decision, none, [], record, true⟩

variable (priced : Bool)

def routeBody (now : Time) (p : Principal)
    (command : RouteTaskCommandCommit) : CommandTx RouteTaskCommandResult := do
  let current ← lockTask p command.task.id
  failIf (current.Disowns command.task) immutableIdentity
  failIf (command.task.version ≠ current.version) .versionConflict
  failIf (current.status ≠ .planning ∨ command.transition.source ≠ .planning ∨
      command.transition.target ≠ .routing ∨ command.task.status ≠ .routing)
    (.invalid "route command requires PLANNING -> ROUTING transition")
  failIf command.transition.Incomplete (.invalid "task transition evidence is incomplete")
  failIf (Blank command.decision.id) (.invalid "route decision id is required")
  failIf (command.decision.taskID ≠ "" ∧ command.decision.taskID ≠ current.id)
    (.invalid "route decision task id must match command task")
  let decision := { command.decision with
    taskID := current.id
    createdAt := if command.decision.createdAt = 0 then command.transition.at_
      else command.decision.createdAt }
  let task := { command.task with
    routeDecisionID := decision.id, estimatedCost := decision.selected.estimatedCost }
  let sequence ← nextSequence p current.id
  insertRouteDecisionTx codec priced decision
  let version ← updateTask "update task projection in route transaction" p task.id task.version 1
    (fun _ => True) (fun t => t.project task)
  let event := (command.event.defaultType "TaskRoutingStarted").stamp current sequence task.traceID
    command.transition.at_ now
  failIf (event.eventType ≠ "TaskRoutingStarted")
    (.invalid "route command must append TaskRoutingStarted")
  appendEvent codec "append route TaskEvent" event
  let outbox ← appendOutbox codec "outbox task id must match route command task" task now
    command.outbox
  let payload ← lift (encode codec.marshalDecision decision "encode durable route result")
  let idempotency := { command.idempotency with
    resourceID := current.id, responsePayload := payload
    responseCode := if command.idempotency.responseCode = 0 then 201
      else command.idempotency.responseCode }
  completeIdempotency codec idempotency
  return ⟨some { task with version := version }, some decision, some event, outbox, idempotency,
    false⟩

def admitRoute (command : RouteTaskCommandCommit) : Except CommandError Principal := do
  checkRecord codec (· = .completed)
    "successful route command requires completed idempotency status" command.idempotency
  admitScope ctx command.idempotency

def commitRouteTransition (now : Time)
    (command : RouteTaskCommandCommit) : CommandTx RouteTaskCommandResult := do
  let p ← lift (admitRoute codec ctx command)
  once command.idempotency (replayRouteCommand codec p) (routeBody codec priced now p command)

structure RouteSelectionCommit where
  task : Task
  plan : PlanRevisionRef
  node : String
  decision : RouteDecision
  policy : PolicyDecisionRecord
  target : ExecutionTarget
  event : TaskEvent
  idempotency : IdempotencyRecord

/-- The binding a selection stores. -/
def RouteSelectionCommit.payload (command : RouteSelectionCommit) : RouteSelectionReplayPayload :=
  ⟨command.plan, command.node, command.decision, command.policy, command.target⟩

structure RouteSelectionResult where
  task : Option Task
  binding : RouteSelectionReplayPayload
  event : Option TaskEvent
  idempotency : IdempotencyRecord
  replayed : Bool
  deriving DecidableEq

def replayRouteSelection (p : Principal) (record : IdempotencyRecord) :
    CommandTx RouteSelectionResult := do
  failIf (record.status ≠ .completed ∨ record.resourceID = "" ∨ record.responsePayload = "")
    (.invalid "completed route selection replay is incomplete")
  let payload ← query (fun _ => codec.unmarshalSelection record.responsePayload)
    (.invalid "decode route selection replay")
  failIf (payload.target.id = "" ∨ payload.target.snapshot.digest = "")
    (.invalid "route selection replay is missing frozen target evidence")
  let task ← query (fun db => db.scopedTask p record.resourceID)
    (.invalid ("route selection replay references missing task \"" ++ record.resourceID ++ "\""))
  return ⟨some task, payload, none, record, true⟩

def Task.select (row : Task) (decision : RouteDecision) (updatedAt : Time) : Task :=
  { row with
    routeDecisionID := decision.id, estimatedCost := decision.selected.estimatedCost
    updatedAt := updatedAt }

/-- `updateClock` is the reading taken when the command's task has no update time. -/
def selectionBody (updateClock now : Time) (p : Principal)
    (command : RouteSelectionCommit) : CommandTx RouteSelectionResult := do
  let current ← lockTask p command.task.id
  failIf (current.status ≠ .routing ∨ command.task.status ≠ .routing)
    (.invalid "route selection requires TaskStatus=ROUTING")
  failIf (command.task.version ≠ current.version) .versionConflict
  failIf (current.Disowns command.task) immutableIdentity
  failIf (command.decision.taskID ≠ current.id)
    (.invalid "route decision task id must match command task")
  failIf (command.decision.createdAt = 0) (.invalid "route decision created time is required")
  insertRouteDecisionTx codec priced command.decision
  let updatedAt := if command.task.updatedAt = 0 then updateClock else command.task.updatedAt
  let version ← updateTask "update task route selection projection" p current.id current.version 1
    (fun t => t.status = .routing) (fun t => t.select command.decision updatedAt)
  let sequence ← nextSequence p current.id
  let event := (command.event.defaultType "TaskRouteSelected").stamp current sequence
    current.traceID command.decision.createdAt now
  failIf (event.eventType ≠ "TaskRouteSelected")
    (.invalid "route selection must append TaskRouteSelected")
  appendEvent codec "append route selection TaskEvent" event
  let payload ← lift (encode codec.marshalSelection command.payload "encode route selection result")
  let idempotency := { command.idempotency with
    resourceID := current.id, responsePayload := payload
    responseCode := if command.idempotency.responseCode = 0 then 200
      else command.idempotency.responseCode }
  completeIdempotency codec idempotency
  return ⟨some { current.select command.decision updatedAt with version := version },
    command.payload, some event, idempotency, false⟩

def admitSelection (command : RouteSelectionCommit) : Except CommandError Principal := do
  checkRecord codec (· = .completed)
    "successful route selection requires completed idempotency status" command.idempotency
  if Blank command.decision.id ∨ Blank command.decision.taskID then
    .error (.invalid "route decision id and task id are required")
  else if command.target.id = "" ∨ command.target.snapshot.digest = "" then
    .error (.invalid "frozen execution target identity and digest are required")
  else admitScope ctx command.idempotency

def commitRouteSelection (updateClock now : Time)
    (command : RouteSelectionCommit) : CommandTx RouteSelectionResult := do
  let p ← lift (admitSelection codec ctx command)
  once command.idempotency (replayRouteSelection codec p)
    (selectionBody codec priced updateClock now p command)

end AiCloud.Tasks
