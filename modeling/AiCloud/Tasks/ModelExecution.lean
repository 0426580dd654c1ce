import AiCloud.Tasks.Store
import AiCloud.Lib.Run

/-!
# Model execution commands and lookups

A model command keeps its key in progress between `BeginModelExecution` and
`FinalizeModelExecution`, while the provider runs outside any transaction. The lookups
only read. A call is one command as one atomic transaction; any interleaving of callers
is a list of calls.
-/
namespace AiCloud.Tasks

open Lib Text Identity Execution Tx

structure ModelExecutionBeginCommit where
  task : Task
  transition : Option TaskTransition
  event : Option TaskEvent
  idempotency : IdempotencyRecord

structure ModelExecutionBeginResult where
  task : Option Task
  event : Option TaskEvent
  idempotency : IdempotencyRecord
  replayed : Bool
  deriving DecidableEq

variable (codec : Codec)

/-- The first physical attempt moves the task from ROUTING to EXECUTING. -/
def startExecution (now : Time) (p : Principal) (current task : Task)
    (transition : TaskTransition) (event : TaskEvent) : CommandTx (Task × TaskEvent) := do
  failIf (transition.source ≠ .routing ∨ transition.target ≠ .executing ∨ task.status ≠ .executing)
    (.invalid "model execution begin must transition ROUTING to EXECUTING")
  failIf transition.Incomplete (.invalid "model execution transition evidence is incomplete")
  failIf (event.eventType ≠ "TaskExecutionStarted")
    (.invalid "model execution begin requires TaskExecutionStarted")
  let sequence ← nextSequence p current.id
  let version ← updateTask "update task to executing" p task.id task.version 1 (fun _ => True)
    (fun t => t.project task)
  let stamped := event.stamp current sequence task.traceID transition.at_ now
  appendEvent codec "append task event" stamped
  return ({ task with version := version }, stamped)

def beginBody (now : Time) (p : Principal) (command : ModelExecutionBeginCommit) :
    CommandTx ModelExecutionBeginResult := do
  let current ← lockTask p command.task.id
  failIf (current.Disowns command.task) immutableIdentity
  failIf (command.task.version ≠ current.version) .versionConflict
  match current.status with
  | .routing =>
    match command.transition, command.event with
    | some transition, some event =>
      let (task, stamped) ← startExecution codec now p current command.task transition event
      return ⟨some task, some stamped, command.idempotency, false⟩
    | _, _ =>
      fail (.invalid "first model execution attempt requires transition and event evidence")
  | .executing =>
    failIf (command.transition ≠ none ∨ command.event ≠ none)
      (.invalid "model execution retry must not append a duplicate execution-start transition")
    return ⟨some current, none, command.idempotency, false⟩
  | status =>
    fail (.invalidTaskTransition ("cannot begin model execution from " ++ status.text))

variable (ctx : Context)

def admitBegin (command : ModelExecutionBeginCommit) : Except CommandError Principal := do
  checkRecord codec (· = .inProgress)
    "model execution begin requires in_progress idempotency status" command.idempotency
  admitScope ctx command.idempotency

def beginModelExecution (now : Time)
    (command : ModelExecutionBeginCommit) : CommandTx ModelExecutionBeginResult := do
  let p ← lift (admitBegin codec ctx command)
  once command.idempotency (fun existing => return ⟨none, none, existing, true⟩)
    (beginBody codec now p command)

structure ModelExecutionFinalizeCommit where
  task : Task
  transitions : List TaskTransition
  events : List TaskEvent
  idempotency : IdempotencyRecord

structure ModelExecutionFinalizeResult where
  task : Task
  events : List TaskEvent
  idempotency : IdempotencyRecord
  deriving DecidableEq

/-- The transition chain from `expected` on, with the canonical event of each step. -/
def checkChain (expected : TaskStatus) :
    List (TaskTransition × TaskEvent) → Except CommandError TaskStatus
  | [] => .ok expected
  | (transition, event) :: rest =>
    if transition.source ≠ expected then
      .error (.invalid "model finalization transition chain is discontinuous")
    else if transition.Incomplete then
      .error (.invalid "model finalization transition evidence is incomplete")
    else if canonicalTaskStateEvent transition.target ≠ some event.eventType then
      .error (.invalid ("canonical model finalization event mismatch for " ++
        transition.target.text))
    else checkChain transition.target rest

/-- The final status must be reached the one way that is allowed for it. -/
def checkFinal (status : TaskStatus) (targets : List TaskStatus) (result : IdempotencyStatus) :
    Except CommandError Unit :=
  match status with
  | .completed =>
    if targets ≠ [.validating, .completed] ∨ result ≠ .completed then .error (.invalid
        "successful model execution must finalize EXECUTING -> VALIDATING -> COMPLETED")
    else .ok ()
  | .failed =>
    if targets ≠ [.failed] ∨ result ≠ .failedFinal then
      .error (.invalid "failed model execution must finalize EXECUTING -> FAILED")
    else .ok ()
  | other => .error (.invalid ("unsupported model execution final status " ++ other.text))

/-- Append the events with consecutive sequence numbers. -/
def appendEvents (codec : Codec) (now : Time) (current : Task) (traceID : String) (sequence : Int) :
    List (TaskTransition × TaskEvent) → CommandTx (List TaskEvent)
  | [] => return []
  | (transition, event) :: rest => do
    let stamped := event.stamp current sequence traceID transition.at_ now
    appendEvent codec "append task event" stamped
    let appended ← appendEvents codec now current traceID (sequence + 1) rest
    return stamped :: appended

def finalizeBody (now : Time) (p : Principal)
    (command : ModelExecutionFinalizeCommit) : CommandTx ModelExecutionFinalizeResult := do
  let reserved ← loadIdempotencyForUpdate command.idempotency.rowKey
  failIf (reserved.requestDigest ≠ command.idempotency.requestDigest) .idempotencyConflict
  failIf (reserved.status ≠ .inProgress) (.invalid "model execution command is not in progress")
  let current ← lockTask p command.task.id
  failIf (current.status ≠ .executing)
    (.invalidTaskTransition "model execution can only finalize from EXECUTING")
  failIf (current.Disowns command.task) immutableIdentity
  failIf (command.task.version ≠ current.version) .versionConflict
  failIf (command.transitions.length ≠ command.events.length ∨ command.transitions.length = 0)
    (.invalid "model finalization requires matching transition and event evidence")
  let steps := command.transitions.zip command.events
  let final ← lift (checkChain current.status steps)
  failIf (final ≠ command.task.status)
    (.invalid "model finalization transition chain does not match final task status")
  lift (checkFinal command.task.status (command.transitions.map TaskTransition.target)
    command.idempotency.status)
  let sequence ← nextSequence p current.id
  let version ← updateTask "update final model execution task projection" p command.task.id
    command.task.version command.transitions.length (fun _ => True)
    (fun t => t.project command.task)
  let events ← appendEvents codec now current command.task.traceID sequence steps
  let idempotency := if command.idempotency.resourceID = "" then
    { command.idempotency with resourceID := current.id } else command.idempotency
  completeIdempotency codec idempotency
  return ⟨{ command.task with version := version }, events, idempotency⟩

def admitFinalize (command : ModelExecutionFinalizeCommit) : Except CommandError Principal := do
  checkRecord codec (fun s => s = .completed ∨ s = .failedFinal)
    "model execution finalization requires completed or failed_final idempotency status"
    command.idempotency
  admitScope ctx command.idempotency

def finalizeModelExecution (now : Time)
    (command : ModelExecutionFinalizeCommit) : CommandTx ModelExecutionFinalizeResult := do
  let p ← lift (admitFinalize codec ctx command)
  finalizeBody codec now p command

/-- Unlike the other commands it does not ask system principals for the capability. -/
def admitRetryable (record : IdempotencyRecord) : Except CommandError Unit := do
  checkRecord codec (· = .failedRetryable)
    "retryable model execution result requires failed_retryable idempotency status" record
  match requireProject ctx with
  | .error e => .error (.identity e)
  | .ok p =>
    if record.tenantID ≠ p.tenantID ∨ record.projectID ≠ p.projectID then
      .error (.invalid "idempotency scope must match authenticated principal")
    else .ok ()

def markModelExecutionRetryable (record : IdempotencyRecord) : CommandTx Unit := do
  lift (admitRetryable codec ctx record)
  let existing ← loadIdempotencyForUpdate record.rowKey
  failIf (existing.requestDigest ≠ record.requestDigest) .idempotencyConflict
  failIf (existing.status ≠ .inProgress) (.invalid "model execution command is not in progress")
  completeIdempotency codec record

structure IdempotencyLookup where
  (tenantID projectID operation key requestDigest : String)

def IdempotencyLookup.rowKey (l : IdempotencyLookup) : IdempotencyKey :=
  ⟨l.tenantID, l.projectID, l.operation, l.key⟩

variable (lookup : IdempotencyLookup)

def admitLookup : Except CommandError Principal :=
  if Blank lookup.operation ∨ Blank lookup.key ∨ Blank lookup.requestDigest then
    .error (.invalid "operation, idempotency key and request digest are required")
  else match scopedPrincipal ctx with
    | .error e => .error (.identity e)
    | .ok p =>
      if lookup.tenantID ≠ p.tenantID ∨ lookup.projectID ≠ p.projectID then
        .error (.invalid "idempotency lookup scope must match authenticated principal")
      else .ok p

/-- The record found, if any, and whether it is a final result. -/
def resolveIdempotency : CommandTx (Option IdempotencyRecord × Bool) := do
  let _ ← lift (admitLookup ctx lookup)
  match ← read (fun db => db.record lookup.rowKey) with
  | none => return (none, false)
  | some row =>
    let record := row.load
    failIf (record.requestDigest ≠ lookup.requestDigest) .idempotencyConflict
    match record.status with
    | .completed => return (some record, true)
    | .failedFinal => return (some record, true)
    | .inProgress => fail .idempotencyInProgress
    | .failedRetryable => return (some record, false)
    | .other text => fail (.invalid ("unsupported idempotency status \"" ++ text ++ "\""))

/-- The stored binding, if the selection was committed before. -/
def resolveRouteSelection : CommandTx (Option RouteSelectionResult) := do
  match ← resolveIdempotency ctx lookup with
  | (some record, true) =>
    failIf (record.status ≠ .completed ∨ record.resourceID = "" ∨ record.responsePayload = "")
      (.invalid "completed route selection replay is incomplete")
    let payload ← query (fun _ => codec.unmarshalSelection record.responsePayload)
      (.invalid "decode route selection replay")
    failIf (payload.decision.id = "" ∨ payload.decision.taskID ≠ record.resourceID)
      (.invalid "route selection replay decision lineage is invalid")
    failIf (payload.target.id = "" ∨ payload.target.snapshot.digest = "")
      (.invalid "route selection replay is missing frozen target evidence")
    return some ⟨none, payload, none, record, true⟩
  | _ => return none

/-- `ScopedPostgresTasks.Get`. -/
def getTask (id : String) : CommandTx Task := do
  let p ← lift (match scopedPrincipal ctx with
    | .error e => .error (.identity e)
    | .ok p => .ok p)
  query (fun db => db.scopedTask p id) .notFound

inductive Op
  | createTask (command : TaskCreateCommit)
  | commitTransition (command : TaskCommandCommit)
  | commitRouteTransition (priced : Bool) (command : RouteTaskCommandCommit)
  | commitRouteSelection (priced : Bool) (updateClock : Time) (command : RouteSelectionCommit)
  | beginModelExecution (command : ModelExecutionBeginCommit)
  | finalizeModelExecution (command : ModelExecutionFinalizeCommit)
  | markModelExecutionRetryable (record : IdempotencyRecord)

structure Call where
  ctx : Context
  now : Time
  op : Op

inductive Reply
  | created (r : TaskCommandCommitResult)
  | transitioned (r : TaskCommandCommitResult)
  | routed (r : RouteTaskCommandResult)
  | selected (r : RouteSelectionResult)
  | begun (r : ModelExecutionBeginResult)
  | finalized (r : ModelExecutionFinalizeResult)
  | marked
  deriving DecidableEq

def Call.tx (c : Call) : CommandTx Reply :=
  match c.op with
  | .createTask command => do return .created (← createTask codec c.ctx c.now command)
  | .commitTransition command => do
    return .transitioned (← commitTransition codec c.ctx c.now command)
  | .commitRouteTransition priced command => do
    return .routed (← commitRouteTransition codec c.ctx priced c.now command)
  | .commitRouteSelection priced updateClock command => do
    return .selected (← commitRouteSelection codec c.ctx priced updateClock c.now command)
  | .beginModelExecution command => do
    return .begun (← beginModelExecution codec c.ctx c.now command)
  | .finalizeModelExecution command => do
    return .finalized (← finalizeModelExecution codec c.ctx c.now command)
  | .markModelExecutionRetryable record => do
    markModelExecutionRetryable codec c.ctx record
    return .marked

def exec (db : Db) (c : Call) : Except CommandError Reply × Db :=
  commit (c.tx codec) db

/-- What a call that succeeds runs. -/
inductive Executed (codec : Codec) (ctx : Context) (now : Time) (db db' : Db) : Op → Reply → Prop
  | createTask {command : TaskCreateCommit} {r : TaskCommandCommitResult} :
      createTask codec ctx now command db = .ok (r, db') →
      Executed codec ctx now db db' (.createTask command) (.created r)
  | commitTransition {command : TaskCommandCommit} {r : TaskCommandCommitResult} :
      commitTransition codec ctx now command db = .ok (r, db') →
      Executed codec ctx now db db' (.commitTransition command) (.transitioned r)
  | commitRouteTransition {priced : Bool} {command : RouteTaskCommandCommit}
      {r : RouteTaskCommandResult} :
      commitRouteTransition codec ctx priced now command db = .ok (r, db') →
      Executed codec ctx now db db' (.commitRouteTransition priced command) (.routed r)
  | commitRouteSelection {priced : Bool} {updateClock : Time} {command : RouteSelectionCommit}
      {r : RouteSelectionResult} :
      commitRouteSelection codec ctx priced updateClock now command db = .ok (r, db') →
      Executed codec ctx now db db' (.commitRouteSelection priced updateClock command) (.selected r)
  | beginModelExecution {command : ModelExecutionBeginCommit} {r : ModelExecutionBeginResult} :
      beginModelExecution codec ctx now command db = .ok (r, db') →
      Executed codec ctx now db db' (.beginModelExecution command) (.begun r)
  | finalizeModelExecution {command : ModelExecutionFinalizeCommit}
      {r : ModelExecutionFinalizeResult} :
      finalizeModelExecution codec ctx now command db = .ok (r, db') →
      Executed codec ctx now db db' (.finalizeModelExecution command) (.finalized r)
  | markModelExecutionRetryable {record : IdempotencyRecord} {u : Unit} :
      markModelExecutionRetryable codec ctx record db = .ok (u, db') →
      Executed codec ctx now db db' (.markModelExecutionRetryable record) .marked

theorem exec_executed {codec : Codec} {db db' : Db} {c : Call} {reply : Reply}
    (h : exec codec db c = (.ok reply, db')) : Executed codec c.ctx c.now db db' c.op reply := by
  have h := commit_ok.mp h
  obtain ⟨ctx, now, op⟩ := c
  cases op <;> simp only [Call.tx, bind_ok, pure_ok] at h <;>
    obtain ⟨r, _, hr, rfl, rfl⟩ := h
  · exact .createTask hr
  · exact .commitTransition hr
  · exact .commitRouteTransition hr
  · exact .commitRouteSelection hr
  · exact .beginModelExecution hr
  · exact .finalizeModelExecution hr
  · exact .markModelExecutionRetryable hr

theorem exec_db (db : Db) (c : Call) :
    (exec codec db c).2 = db ∨ ∃ reply, exec codec db c = (.ok reply, (exec codec db c).2) := by
  rcases commit_cases (c.tx codec) db with ⟨e, hc⟩ | ⟨reply, db', hc, _⟩
  · exact Or.inl (by rw [exec, hc])
  · exact Or.inr ⟨reply, by rw [exec, hc]⟩

def after (calls : List Call) : Db := run (exec codec) Db.empty calls

end AiCloud.Tasks
