import AiCloud.ControlPlane.Types
import AiCloud.ModelRuntime.Executor
import AiCloud.Tasks.Idempotency
import AiCloud.Lib.Schedule

/-!
# Executing the model of a task

`ExecuteModelIdempotent`: one transaction reserves the command and starts the task, the
provider runs outside of any, and a second transaction records the outcome. Calls of the
stores and of the runtime's surroundings are requests. Any number of such calls
interleave over one database; a store command is one atomic step.
-/
namespace AiCloud.ControlPlane

open Lib Text Identity Execution Tasks ModelRuntime Tx Prog Except Json

structure StoredModelCommandError where
  code : ProviderErrorCode
  message : String
  retryable : Bool

structure StoredModelCommandResponse where
  result : RunResult
  error : Option StoredModelCommandError

/-- JSON and the hash, as far as model commands use them. -/
structure ModelEncoding where
  operationDigest : String → String
  startedPayload : (operationID routeDecisionID modelID modelVersion : String) → Option String
  failedPayload : (operationID error : String) → Option String
  validationPayload : (operationID : String) → Option String
  completedPayload : (operationID modelID modelVersion : String) → (fallback : Bool) → Option String
  marshalResponse : ProviderResponse → Option String
  marshalStored : StoredModelCommandResponse → Option String
  unmarshalStored : String → Option StoredModelCommandResponse

structure ModelCommandResult where
  result : RunResult
  replayed : Bool

inductive ModelError
  | control (e : ControlError)
  | run (e : RunError)

/-- A result comes with the error, if there is one. -/
abbrev ModelReply := ModelCommandResult × Option ModelError

def refused (e : ControlError) : ModelReply := (⟨.zero, false⟩, some (.control e))

def providerErrorCodeText : ProviderErrorCode → String
  | .providerUnavailable => "ProviderUnavailable"
  | .providerTimeout => "ProviderTimeout"
  | .rateLimited => "RateLimited"
  | .invalidOutput => "InvalidOutput"
  | .schemaMismatch => "SchemaMismatch"
  | .unsafeOutput => "UnsafeOutput"
  | .contextTooLarge => "ContextTooLarge"
  | .costLimitExceeded => "CostLimitExceeded"
  | .other text => text

def StoredModelCommandError.load (e : StoredModelCommandError) : RunError :=
  if e.code = .other "" then .plain e.message
  else ⟨providerErrorCodeText e.code ++ ": " ++ e.message,
    some ⟨e.code, e.message, e.retryable⟩, false⟩

variable (enc : ModelEncoding)

def decodeStoredModelResponse (record : IdempotencyRecord) : ModelReply :=
  if record.responsePayload = "" then
    refused (.invalid "model command replay does not contain a response")
  else match enc.unmarshalStored record.responsePayload with
    | none => refused (.invalid "decode model command replay")
    | some stored => (⟨stored.result, true⟩, stored.error.map (fun e => .run e.load))

def storedError (e : RunError) : StoredModelCommandError :=
  match e.provider with
  | some p => ⟨p.code, p.message, p.retryable⟩
  | none => ⟨.other "", e.message, false⟩

def encodeStoredModelResponse (result : RunResult) (err : Option RunError) :
    Except ControlError String :=
  encoded "encode model command response" (enc.marshalStored ⟨result, err.map storedError⟩)

def modelExecutionRetryable (result : RunResult) (e : RunError) : Bool :=
  if result.attempts.getLast?.any Attempt.retryable then true
  else match e.provider with
    | some p => p.isRetryable
    | none => e.deadlineExceeded

def encodeProviderResult : Option ProviderResponse → String
  | none => ""
  | some response => (enc.marshalResponse response).getD response.rawText

def modelCommandOperation (taskID : String) : String :=
  "POST /api/v1/tasks/" ++ trimSpace taskID ++ "/model"

def logicalModelOperationID (taskID idempotencyKey : String) : String :=
  "model-op-" ++ enc.operationDigest (trimSpace taskID ++ "|" ++ trimSpace idempotencyKey)

inductive ModelRequest
  | now
  | newID
  | resolveIdempotency (lookup : IdempotencyLookup)
  | getTask (id : String)
  | getRoute (id : String)
  | beginModelExecution (command : ModelExecutionBeginCommit)
  | runtime (q : RuntimeRequest)
  | aggregateTask (taskID : String)
  | markModelExecutionRetryable (record : IdempotencyRecord)
  | finalizeModelExecution (command : ModelExecutionFinalizeCommit)

def ModelAnswer : ModelRequest → Type
  | .now => Time
  | .newID => String
  | .resolveIdempotency _ => Except CommandError (Option IdempotencyRecord × Bool)
  | .getTask _ => Except CommandError Task
  | .getRoute _ => Except String RouteDecision
  | .beginModelExecution _ => Except CommandError ModelExecutionBeginResult
  | .runtime q => RuntimeAnswer q
  | .aggregateTask _ => Except String (Rat × String)
  | .markModelExecutionRetryable _ => Except CommandError Unit
  | .finalizeModelExecution _ => Except CommandError ModelExecutionFinalizeResult

abbrev ModelProg := Prog ModelRequest ModelAnswer

abbrev askClock : ModelProg Time := request (A := ModelAnswer) .now

abbrev askNewID : ModelProg String := request (A := ModelAnswer) .newID

abbrev askResolve (lookup : IdempotencyLookup) :
    ModelProg (Except CommandError (Option IdempotencyRecord × Bool)) :=
  request (A := ModelAnswer) (.resolveIdempotency lookup)

abbrev askTask (id : String) : ModelProg (Except CommandError Task) :=
  request (A := ModelAnswer) (.getTask id)

abbrev askRoute (id : String) : ModelProg (Except String RouteDecision) :=
  request (A := ModelAnswer) (.getRoute id)

abbrev askBegin (command : ModelExecutionBeginCommit) :
    ModelProg (Except CommandError ModelExecutionBeginResult) :=
  request (A := ModelAnswer) (.beginModelExecution command)

abbrev askAggregate (taskID : String) : ModelProg (Except String (Rat × String)) :=
  request (A := ModelAnswer) (.aggregateTask taskID)

abbrev askMarkRetryable (record : IdempotencyRecord) : ModelProg (Except CommandError Unit) :=
  request (A := ModelAnswer) (.markModelExecutionRetryable record)

abbrev askFinalize (command : ModelExecutionFinalizeCommit) :
    ModelProg (Except CommandError ModelExecutionFinalizeResult) :=
  request (A := ModelAnswer) (.finalizeModelExecution command)

/-- The runtime's requests as requests of the command. -/
def runRuntime {α : Type} (p : RuntimeProg α) : ModelProg α :=
  p.embed .runtime (fun _ a => a)

/-- One call; `costs` and `ledger` say whether the runtime and the service have a
cost ledger. -/
structure ModelCall where
  ctx : Context
  taskID : String
  request : ProviderRequest
  metadata : CommandMetadata
  (costs ledger : Bool)

/-- What the stages of one command share. -/
structure ModelRun where
  call : ModelCall
  principal : Principal
  operationID : String
  record : IdempotencyRecord

def ModelCall.record (c : ModelCall) (principal : Principal) (now : Time) : IdempotencyRecord :=
  commandRecord principal c.metadata (modelCommandOperation c.taskID)
    (trimSpace c.metadata.idempotencyKey) .inProgress 0 now

variable (run : ModelRun) (task : Task)

/-- The command to begin with: the first one starts the task. -/
def prepareBegin (decision : RouteDecision)
    (now : Time) : ModelProg (Except ControlError ModelExecutionBeginCommit) :=
  if task.status = .routing then
    match task.transition ⟨.executing, transitionActor run.call.ctx,
        "execute selected model deployment", now⟩ with
    | .error e => pure (.error (.transition e))
    | .ok (moved, transition) =>
      match encoded "encode model execution start event" (enc.startedPayload run.operationID
          decision.id decision.selected.modelID decision.selected.modelVersion) with
      | .error e => pure (.error e)
      | .ok payload => do
        let random ← askNewID
        let event := commandEvent run.principal run.call.metadata "TaskExecutionStarted" payload
          random now
        pure (.ok ⟨moved, some transition, some event, run.record⟩)
  else if task.status ≠ .executing then
    pure (.error (.command (.invalidTaskTransition
      ("cannot execute model from " ++ task.status.text))))
  else pure (.ok ⟨task, none, none, run.record⟩)

variable (result : RunResult)

/-- A retryable failure releases the command; the task stays EXECUTING. -/
def releaseModel (e : RunError) : ModelProg ModelReply :=
  match encodeStoredModelResponse enc result (some e) with
  | .error err => pure (⟨result, false⟩, some (.control err))
  | .ok stored => do
    match ← askMarkRetryable { run.record with
        status := .failedRetryable, resourceID := task.id, responseCode := 503
        responsePayload := stored } with
    | .error err => pure (⟨result, false⟩, some (.control (.command err)))
    | .ok _ => pure (⟨result, false⟩, some (.run e))

/-- Finalize, and return the run's result with its error. -/
def finishModel (command : ModelExecutionFinalizeCommit) (result : RunResult)
    (err : Option RunError) : ModelProg ModelReply := do
  match ← askFinalize command with
  | .error e => pure (⟨result, false⟩, some (.control (.command e)))
  | .ok _ => pure (⟨result, false⟩, err.map .run)

def failModel (e : RunError) : ModelProg ModelReply := do
  let failedAt ← askClock
  match { task with result := e.message }.transition ⟨.failed, transitionActor run.call.ctx,
      "model execution failed", failedAt⟩ with
  | .error err => pure (⟨result, false⟩, some (.control (.transition err)))
  | .ok (failed, transition) =>
    match encoded "" (enc.failedPayload run.operationID e.message) with
    | .error err => pure (⟨result, false⟩, some (.control err))
    | .ok payload =>
      match encodeStoredModelResponse enc result (some e) with
      | .error err => pure (⟨result, false⟩, some (.control err))
      | .ok stored => do
        let random ← askNewID
        finishModel {
          task := failed
          transitions := [transition]
          events := [commandEvent run.principal run.call.metadata "TaskFailed" payload random
            failedAt]
          idempotency := { run.record with
            status := .failedFinal, resourceID := failed.id, responseCode := 500
            responsePayload := stored } } result (some e)

/-- The task with its result and, if the ledger answers, its cost. -/
def settleCost : ModelProg Task := do
  let task := { task with result := encodeProviderResult enc result.response }
  if run.call.ledger then
    match ← askAggregate task.id with
    | .error _ => pure task
    | .ok (total, currency) => pure { task with
        actualCost := total, cost := total
        currency := if currency = "" then task.currency else currency }
  else pure task

def completeModel : ModelProg ModelReply := do
  let task ← settleCost enc run task result
  let validatingAt ← askClock
  match task.transition ⟨.validating, transitionActor run.call.ctx,
      "validate model execution result", validatingAt⟩ with
  | .error err => pure (⟨result, false⟩, some (.control (.transition err)))
  | .ok (validated, validating) => do
    let completedAt ← askClock
    match validated.transition ⟨.completed, transitionActor run.call.ctx,
        "model execution result accepted", completedAt⟩ with
    | .error err => pure (⟨result, false⟩, some (.control (.transition err)))
    | .ok (final, completed) =>
      match encodeStoredModelResponse enc result none with
      | .error err => pure (⟨result, false⟩, some (.control err))
      | .ok stored => do
        let validatingRandom ← askNewID
        let completedRandom ← askNewID
        finishModel {
          task := final
          transitions := [validating, completed]
          events := [commandEvent run.principal run.call.metadata "TaskValidationStarted"
              ((enc.validationPayload run.operationID).getD "") validatingRandom validatingAt,
            commandEvent run.principal run.call.metadata "TaskCompleted"
              ((enc.completedPayload run.operationID result.candidate.modelID
                result.candidate.modelVersion result.fallback).getD "") completedRandom completedAt]
          idempotency := { run.record with
            status := .completed, resourceID := final.id, responseCode := 200
            responsePayload := stored } } result none

/-- The provider ran for the begun task. -/
def concludeModel : Option RunError → ModelProg ModelReply
  | some e =>
    if modelExecutionRetryable result e then releaseModel enc run task result e
    else failModel enc run task result e
  | none => completeModel enc run task result

def runModel (decision : RouteDecision)
    (begun : ModelExecutionBeginResult) : ModelProg ModelReply :=
  if begun.replayed then pure (decodeStoredModelResponse enc begun.idempotency)
  else match begun.task with
    | none => pure (⟨.zero, false⟩, none) -- a command that was not replayed has its task
    | some task => do
      let (result, err) ← runRuntime (execute run.call.costs task.id task.traceID decision
        { run.call.request with requestID := run.operationID })
      concludeModel enc run task result err

def startModel (c : ModelCall) (principal : Principal) : ModelProg ModelReply := do
  match ← askTask c.taskID with
  | .error e => pure (refused (.command e))
  | .ok task =>
    if task.routeDecisionID = "" then
      pure (refused (.invalid "task does not have a route decision"))
    else
      match ← askRoute task.routeDecisionID with
      | .error text => pure (refused (.service text))
      | .ok decision => do
        let now ← askClock
        let run : ModelRun := ⟨c, principal,
          logicalModelOperationID enc task.id c.metadata.idempotencyKey, c.record principal now⟩
        match ← prepareBegin enc run task decision now with
        | .error e => pure (refused e)
        | .ok command =>
          match ← askBegin command with
          | .error e => pure (refused (.command e))
          | .ok begun => runModel enc run decision begun

def executeModelIdempotent (c : ModelCall) : ModelProg ModelReply :=
  match c.metadata.validate with
  | .error e => pure (refused e)
  | .ok _ =>
    match principalOf c.ctx with
    | .error e => pure (refused e)
    | .ok principal => do
      match ← askResolve {
          tenantID := principal.tenantID, projectID := principal.projectID
          operation := modelCommandOperation c.taskID, key := trimSpace c.metadata.idempotencyKey
          requestDigest := trimSpace c.metadata.requestDigest } with
      | .error e => pure (refused (.command e))
      | .ok (some record, true) => pure (decodeStoredModelResponse enc record)
      | .ok _ => startModel enc c principal

abbrev ModelSystem := System Db ModelCall ModelRequest ModelAnswer ModelReply

def modelAnswers (codec : Codec) (θ : ModelCall) (db : Db) :
    (q : ModelRequest) → ModelAnswer q → Db → Prop
  | .now, a, db' => 0 < (show Time from a) ∧ db' = db
  | .newID, _, db' => db' = db
  | .resolveIdempotency lookup, a, db' => Stored (resolveIdempotency θ.ctx lookup) db a db'
  | .getTask id, a, db' => Stored (getTask θ.ctx id) db a db'
  | .getRoute _, _, db' => db' = db
  | .beginModelExecution command, a, db' =>
    ∃ now, Stored (beginModelExecution codec θ.ctx now command) db a db'
  | .runtime _, _, db' => db' = db
  | .aggregateTask _, _, db' => db' = db
  | .markModelExecutionRetryable record, a, db' =>
    Stored (markModelExecutionRetryable codec θ.ctx record) db a db'
  | .finalizeModelExecution command, a, db' =>
    ∃ now, Stored (finalizeModelExecution codec θ.ctx now command) db a db'

/-- Any task command by anyone. -/
inductive TaskCommands (codec : Codec) : Db → Db → Prop
  | command (db : Db) (call : Tasks.Call) : TaskCommands codec db (Tasks.exec codec db call).2

/-- The systems that model commands reach, among any other task commands. -/
abbrev ModelReachable (codec : Codec) (s : ModelSystem) : Prop :=
  System.Reach (executeModelIdempotent enc) (modelAnswers codec) (TaskCommands codec) Db.empty s

/-- A begin that was admitted and not replayed, with the task it returned. -/
def begunBy : Sigma ModelAnswer → Option (ModelExecutionBeginCommit × Task)
  | ⟨.beginModelExecution command, .ok r⟩ =>
    if r.replayed then none else r.task.map (fun task => (command, task))
  | _ => none

/-- A finalization or a release that the store carried out. -/
def closedBy : Sigma ModelAnswer → Bool
  | ⟨.finalizeModelExecution _, .ok _⟩ => true
  | ⟨.markModelExecutionRetryable _, .ok _⟩ => true
  | _ => false

/-- The effect of a request on the store. -/
inductive ModelStep (codec : Codec) (θ : ModelCall) (db db' : Db) :
    (q : ModelRequest) → ModelAnswer q → Prop
  | same (q : ModelRequest) (a : ModelAnswer q) (unchanged : db' = db)
      (idle : begunBy ⟨q, a⟩ = none) (unclosed : closedBy ⟨q, a⟩ = false) :
      ModelStep codec θ db db' q a
  | begun (command : ModelExecutionBeginCommit) (r : ModelExecutionBeginResult) (p : Principal)
      (db₁ : Db) (task : Task)
      (began : begunBy ⟨.beginModelExecution command, ok r⟩ = some (command, task))
      (admitted : admitBegin codec θ.ctx command = .ok p)
      (reserved : Reserved command.idempotency db db₁) (step : BeginStep p command task db₁ db') :
      ModelStep codec θ db db' (.beginModelExecution command) (ok r)
  | marked (record : IdempotencyRecord) (completed : Completed codec record db db')
      (pending : ∃ row, db.record record.rowKey = some row ∧ row.status = .inProgress) :
      ModelStep codec θ db db' (.markModelExecutionRetryable record) (ok ())
  | finalized (command : ModelExecutionFinalizeCommit) (r : ModelExecutionFinalizeResult)
      (p : Principal) (current : Task) (appended : List TaskEvent) (db₂ : Db)
      (completed : Completed codec r.idempotency db₂ db')
      (moved : Moved p current command.task (command.transitions.map TaskTransition.target)
        appended db db₂)
      (path : FinalPath (command.transitions.map TaskTransition.target) command.task.status
        command.idempotency.status) (request : SameRequest command.idempotency r.idempotency)
      (pending : ∃ row, db.record command.idempotency.rowKey = some row ∧
        row.status = .inProgress) :
      ModelStep codec θ db db' (.finalizeModelExecution command) (ok r)

variable {codec : Codec} {θ : ModelCall} {db db' : Db}

theorem beginModelExecution_step {now : Time}
    {command : ModelExecutionBeginCommit} {r : ModelExecutionBeginResult}
    (h : beginModelExecution codec θ.ctx now command db = .ok (r, db')) :
    ModelStep codec θ db db' (.beginModelExecution command) (ok r) := by
  obtain ⟨p, hadm, ⟨_, hrep, hdb⟩ | ⟨db₁, hown, hbody⟩⟩ := beginModelExecution_ran h
  · exact .same _ _ hdb (if_pos hrep) rfl
  · obtain ⟨task, htask, hstep, _, hrep⟩ := beginBody_inv hbody
    refine .begun command r p db₁ task ?_ hadm hown hstep
    simp [begunBy, hrep, htask]

theorem finalizeModelExecution_step {now : Time}
    {command : ModelExecutionFinalizeCommit} {r : ModelExecutionFinalizeResult}
    (h : finalizeModelExecution codec θ.ctx now command db = .ok (r, db')) :
    ModelStep codec θ db db' (.finalizeModelExecution command) (ok r) := by
  obtain ⟨p, _, hbody⟩ := lift_bind_ok.mp h
  obtain ⟨current, appended, db₂, hcomp, _, hmoved, _, hpath, hrow, hsame⟩ :=
    finalizeBody_inv hbody
  exact .finalized command r p current appended db₂ hcomp hmoved hpath hsame hrow

theorem modelAnswers_step {q : ModelRequest}
    {a : ModelAnswer q} (h : modelAnswers codec θ db q a db') : ModelStep codec θ db db' q a := by
  cases q with
  | now => exact .same _ _ h.2 rfl rfl
  | newID | getRoute | runtime | aggregateTask => exact .same _ _ h rfl rfl
  | resolveIdempotency lookup =>
    exact .same _ _ (Stored.same h (fun _ _ hr => (resolveIdempotency_ok hr).1)) rfl rfl
  | getTask id => exact .same _ _ (Stored.same h (fun _ _ hr => (getTask_ok hr).1)) rfl rfl
  | beginModelExecution command =>
    obtain ⟨now, h⟩ := h
    cases a with
    | error e => exact .same _ _ h.failed rfl rfl
    | ok r => exact beginModelExecution_step h.ok
  | markModelExecutionRetryable record =>
    cases a with
    | error e => exact .same _ _ (Stored.failed h) rfl rfl
    | ok r =>
      obtain ⟨hcomp, hrow⟩ := markModelExecutionRetryable_inv (Stored.ok h)
      exact .marked record hcomp hrow
  | finalizeModelExecution command =>
    obtain ⟨now, h⟩ := h
    cases a with
    | error e => exact .same _ _ h.failed rfl rfl
    | ok r => exact finalizeModelExecution_step h.ok

/-- To the tables, a step of a call is nothing or the effect of a task command. -/
theorem modelAnswers_effect {q : ModelRequest}
    {a : ModelAnswer q} (h : modelAnswers codec θ db q a db') :
    db' = db ∨ Tasks.Effect codec db db' := by
  cases modelAnswers_step h with
  | same q a unchanged idle unclosed => exact .inl unchanged
  | begun command r p db₁ task began admitted reserved step =>
    exact .inr (.begun command.idempotency db₁ reserved step.log step.records)
  | marked record completed pending =>
    obtain ⟨row, hrow, hst⟩ := pending
    refine .inr (.finished record ⟨?_, db, completed, .same rfl rfl, rfl, rfl, rfl, rfl⟩)
    intro row' hrow'
    rw [hrow] at hrow'
    cases hrow'
    exact hst
  | finalized command r p current appended db₂ completed moved path request pending =>
    refine .inr (.finished r.idempotency ⟨?_, db₂, completed, moved.write.log,
      moved.write.records, rfl, rfl, rfl⟩)
    obtain ⟨row, hrow, hst⟩ := pending
    intro row' hrow'
    rw [request.1, hrow] at hrow'
    cases hrow'
    exact hst

structure ModelChoice where
  now : Time
  random : String
  route : Except String RouteDecision
  runtime : (q : RuntimeRequest) → RuntimeAnswer q
  total : Except String (Rat × String)

section

variable (codec : Codec)

def modelReply (θ : ModelCall) (choice : ModelChoice) (db : Db) :
    (q : ModelRequest) → Option (ModelAnswer q × Db)
  | .now => if 0 < choice.now then some (choice.now, db) else none
  | .newID => some (choice.random, db)
  | .resolveIdempotency lookup => some (commit (resolveIdempotency θ.ctx lookup) db)
  | .getTask id => some (commit (getTask θ.ctx id) db)
  | .getRoute _ => some (choice.route, db)
  | .beginModelExecution command =>
    some (commit (beginModelExecution codec θ.ctx choice.now command) db)
  | .runtime q => some (choice.runtime q, db)
  | .aggregateTask _ => some (choice.total, db)
  | .markModelExecutionRetryable record =>
    some (commit (markModelExecutionRetryable codec θ.ctx record) db)
  | .finalizeModelExecution command =>
    some (commit (finalizeModelExecution codec θ.ctx choice.now command) db)

def commandChange (call : Tasks.Call) (db : Db) : Option Db := some (Tasks.exec codec db call).2

end

theorem modelReply_answers (codec : Codec) : ∀ θ choice db q a db',
    modelReply codec θ choice db q = some (a, db') → modelAnswers codec θ db q a db' := by
  intro θ choice db q a db' h
  cases q with
  | now =>
    simp only [modelReply] at h
    split at h
    · rename_i hpos
      cases h
      exact ⟨hpos, rfl⟩
    · cases h
  | newID | getRoute | runtime | aggregateTask =>
    exact (Prod.mk.inj (Option.some.inj h)).2.symm
  | resolveIdempotency | getTask | markModelExecutionRetryable =>
    exact .inl (Option.some.inj h)
  | beginModelExecution | finalizeModelExecution =>
    exact ⟨choice.now, .inl (Option.some.inj h)⟩

theorem commandChange_commands {codec : Codec} {call : Tasks.Call} {db db' : Db}
    (h : commandChange codec call db = some db') : TaskCommands codec db db' := by
  cases h
  exact .command db call

abbrev ModelMove := Move ModelCall ModelChoice Tasks.Call

def modelScheduled (codec : Codec) (moves : List ModelMove) : Option ModelSystem :=
  System.schedule (executeModelIdempotent enc) (modelReply codec) (commandChange codec) Db.empty
    moves

theorem modelScheduled_exists {P : ModelSystem → Prop} [DecidablePred P]
    (codec : Codec) (moves : List ModelMove)
    (h : (modelScheduled enc codec moves).any (fun s => P s) = true) :
    ∃ s, ModelReachable enc codec s ∧ P s := by
  refine System.exists_schedule (modelReply_answers codec) ?_ h
  exact fun _ _ _ => commandChange_commands

section

def responseText (response : ProviderResponse) : Option String :=
  let usage := response.tokenUsage
  let members (structured : List (String × String)) :=
    object (("rawText", quote response.rawText) ::
    structured ++ [("tokenUsage", object [("inputTokens", toString usage.inputTokens),
      ("outputTokens", toString usage.outputTokens), ("totalTokens", toString usage.totalTokens)])])
  match response.structured with
  | .nil => some (members [])
  | .json text => some (members [("structured", text)])
  | .unsupported _ => none

/-- An attempt of the sample runs, whose clock stands still. -/
def attemptText (a : Attempt) : String :=
  object ([("operationId", quote a.operationID), ("attemptId", quote a.attemptID),
      ("modelId", quote a.modelID), ("modelVersion", quote a.modelVersion),
      ("deploymentId", quote a.deploymentID), ("status", quote a.status)] ++
    (if a.errorMessage = "" then [] else [("errorCode", quote (providerErrorCodeText a.errorCode)),
      ("errorMessage", quote a.errorMessage)]) ++
    [("retryable", toString a.retryable), ("circuitState", quote "closed"), ("latencyMs", "0"),
      ("startedAt", quote "0001-01-01T00:00:00.00001Z"),
      ("completedAt", quote "0001-01-01T00:00:00.00001Z")])

def storedText (stored : StoredModelCommandResponse) : Option String :=
  let result := stored.result
  (result.response.elim (some [])
    (fun r => (responseText r).map (fun text => [("response", text)]))).map
    (fun response => object (("result", object (("candidate", candidateText) :: response ++
        [("attempts", array (result.attempts.map attemptText)),
          ("fallback", toString result.fallback)])) ::
      stored.error.toList.map (fun e => ("error", object [
        ("code", quote (providerErrorCodeText e.code)), ("message", quote e.message),
        ("retryable", toString e.retryable)]))))

/-- JSON as far as the samples go: texts with nothing to escape, one candidate. No sample reads
a response back. -/
def sampleModelEncoding : ModelEncoding where
  operationDigest := id
  startedPayload := fun operationID routeDecisionID modelID modelVersion =>
    some (object [("modelId", quote modelID), ("modelVersion", quote modelVersion),
      ("operationId", quote operationID), ("routeDecisionId", quote routeDecisionID)])
  failedPayload := fun operationID error =>
    some (object [("error", quote error), ("operationId", quote operationID)])
  validationPayload := fun operationID => some (object [("operationId", quote operationID)])
  completedPayload := fun operationID modelID modelVersion fallback =>
    some (object [("fallback", toString fallback), ("modelId", quote modelID),
      ("modelVersion", quote modelVersion), ("operationId", quote operationID)])
  marshalResponse := responseText
  marshalStored := storedText
  unmarshalStored := fun _ => none

end

/-- A task is created, planned and routed. -/
def routedMoves : List ModelMove :=
  [.env createCall, .env planCall, .env (routeCall "route")]

def sampleModelCall (key : String) : ModelCall :=
  ⟨some sampleCaller, "task", ⟨"", "say hello"⟩, ⟨key, "d", "r"⟩, true, false⟩

/-- Everything works; `recorded` is what the ledger answers. -/
def sampleRuntime (recorded : Except RunError Unit) : (q : RuntimeRequest) → RuntimeAnswer q
  | .now => (10 : Time)
  | .entropy => some "entropy"
  | .allow _ => ok (true, CircuitState.closed)
  | .getProvider _ => ok ()
  | .generate .. => ok ⟨"hello", .nil, ⟨1, 1, 2⟩⟩
  | .failure _ => ok CircuitState.closed
  | .success _ => ok ()
  | .getModel id => ok ⟨id, "1", "provider", ⟨"USD", 1, 1, 1, 1⟩⟩
  | .recordModelUsage _ => recorded

def sampleModelChoice (recorded : Except RunError Unit) (random : String) : ModelChoice :=
  ⟨10, random, .ok sampleDecision, sampleRuntime recorded, .ok (0, "")⟩

/-- The provider is overloaded. -/
def busyModelChoice (random : String) : ModelChoice :=
  { sampleModelChoice (.ok ()) random with
    runtime := fun
      | .generate .. => Except.error ⟨"busy", some ⟨.rateLimited, "busy", true⟩, false⟩
      | q => sampleRuntime (.ok ()) q }

def modelSteps (i n : Nat) (choice : ModelChoice) : List ModelMove :=
  List.replicate n (.run i choice)

end AiCloud.ControlPlane
