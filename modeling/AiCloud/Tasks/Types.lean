import AiCloud.Identity.Principal
import AiCloud.Execution.Plan
import AiCloud.Lib.Table

/-!
# The task aggregate and its records

Tasks, their immutable events, outbox messages, idempotency records and route decisions,
with the validation each record carries. JSON stays text; what Go's encoder and
PostgreSQL's `jsonb` do with it is a parameter. The tables have the CHECK, PRIMARY KEY
and UNIQUE clauses of migrations 001, 002, 006, 007 and 008; row-level security shows a
transaction the rows of its own tenant and project.
-/
namespace AiCloud.Tasks

open Lib.Text Identity Execution Lib

inductive TaskStatus
  | created
  | planning
  | routing
  | executing
  | waitingApproval
  | validating
  | completed
  | failed
  | cancelled
  | expired
  | other (text : String)
  deriving DecidableEq

def TaskStatus.text : TaskStatus → String
  | .created => "CREATED"
  | .planning => "PLANNING"
  | .routing => "ROUTING"
  | .executing => "EXECUTING"
  | .waitingApproval => "WAITING_APPROVAL"
  | .validating => "VALIDATING"
  | .completed => "COMPLETED"
  | .failed => "FAILED"
  | .cancelled => "CANCELLED"
  | .expired => "EXPIRED"
  | .other text => text

structure Task where
  (id tenantID projectID createdBy agentID input : String)
  status : TaskStatus
  version : Int
  result : String
  (cost estimatedCost actualCost : Rat)
  (currency routeDecisionID traceID : String)
  (createdAt updatedAt : Time)
  completedAt : Option Time
  deriving DecidableEq

structure TaskTransition where
  (source target : TaskStatus)
  (actor cause : String)
  at_ : Time

/-- The evidence test every command makes on a transition it is given. -/
def TaskTransition.Incomplete (t : TaskTransition) : Prop :=
  Blank t.actor ∨ Blank t.cause ∨ t.at_ = 0

instance (t : TaskTransition) : Decidable t.Incomplete := inferInstanceAs (Decidable (_ ∨ _))

structure TaskEventActor where
  (principalType subjectID : String)
  deriving DecidableEq

structure TaskEvent where
  (eventID tenantID projectID taskID : String)
  sequence : Int
  eventType : String
  actor : TaskEventActor
  (payload requestID traceID : String)
  schemaVersion : Int
  (occurredAt createdAt : Time)
  deriving DecidableEq

inductive OutboxStatus
  | pending
  | delivering
  | delivered
  | deadLetter
  | other (text : String)
  deriving DecidableEq

structure OutboxMessage where
  (outboxID tenantID projectID taskID aggregateType aggregateID eventType payload : String)
  (destination idempotencyKey : String)
  status : OutboxStatus
  attempts : Int
  (availableAt createdAt : Time)
  deliveredAt : Option Time
  deriving DecidableEq

inductive IdempotencyStatus
  | inProgress
  | completed
  | failedRetryable
  | failedFinal
  | other (text : String)
  deriving DecidableEq

structure IdempotencyRecord where
  (tenantID projectID operation key requestDigest : String)
  status : IdempotencyStatus
  resourceID : String
  responseCode : Int
  (responseDigest responsePayload : String)
  (createdAt expiresAt : Time)
  deriving DecidableEq

structure RouteCandidate where
  (modelID modelVersion deploymentID routeClass inferenceEffort serviceTier : String)
  (estimatedCost score : Rat)
  rejectionReasons : List String
  deriving DecidableEq

structure RouteDecision where
  (id taskID : String)
  selected : RouteCandidate
  candidates : List RouteCandidate
  reason : String
  fallbackChain : List RouteCandidate
  (evidenceVersion policyVersion : String)
  createdAt : Time
  deriving DecidableEq

/-- The frozen execution binding a route selection stores as its response. -/
structure RouteSelectionReplayPayload where
  plan : PlanRevisionRef
  node : String
  decision : RouteDecision
  policy : PolicyDecisionRecord
  target : ExecutionTarget
  deriving DecidableEq

/-- Go's `encoding/json` and PostgreSQL's `jsonb`. `jsonb` is the text a stored
value reads back as; an encoder or the database may refuse a value. -/
structure Codec where
  valid : String → Bool
  jsonb : String → Option String
  marshalCandidate : RouteCandidate → Option String
  marshalCandidates : List RouteCandidate → Option String
  marshalDecision : RouteDecision → Option String
  unmarshalDecision : String → Option RouteDecision
  marshalSelection : RouteSelectionReplayPayload → Option String
  unmarshalSelection : String → Option RouteSelectionReplayPayload

inductive CommandError
  | invalid (text : String)
  | identity (e : IdentityError)
  | notFound
  | versionConflict
  | idempotencyConflict
  | idempotencyInProgress
  | invalidTaskEvent (detail : String)
  | invalidOutboxMessage (detail : String)
  | invalidIdempotencyRecord (detail : String)
  | invalidTaskTransition (detail : String)
  | database (context : String)
  deriving DecidableEq

def TaskEvent.validate (codec : Codec) (e : TaskEvent) : Except CommandError Unit :=
  if Blank e.eventID ∨ Blank e.tenantID ∨ Blank e.projectID ∨ Blank e.taskID ∨
      Blank e.eventType ∨ Blank e.traceID then .error (.invalidTaskEvent "")
  else if e.sequence < 1 ∨ e.schemaVersion < 1 ∨ e.occurredAt = 0 ∨ e.createdAt = 0 then
    .error (.invalidTaskEvent "")
  else if Blank e.actor.principalType ∨ Blank e.actor.subjectID then .error (.invalidTaskEvent "")
  else if e.payload = "" ∨ codec.valid e.payload = false then
    .error (.invalidTaskEvent "payload must be valid JSON")
  else .ok ()

def canonicalTaskStateEvent : TaskStatus → Option String
  | .created => some "TaskCreated"
  | .planning => some "TaskPlanningStarted"
  | .routing => some "TaskRoutingStarted"
  | .executing => some "TaskExecutionStarted"
  | .waitingApproval => some "TaskApprovalRequested"
  | .validating => some "TaskValidationStarted"
  | .completed => some "TaskCompleted"
  | .failed => some "TaskFailed"
  | .cancelled => some "TaskCancelled"
  | .expired => some "TaskExpired"
  | .other _ => none

def OutboxMessage.validate (codec : Codec) (m : OutboxMessage) : Except CommandError Unit :=
  if Blank m.outboxID ∨ Blank m.tenantID ∨ Blank m.projectID ∨ Blank m.aggregateType ∨
      Blank m.aggregateID ∨ Blank m.eventType ∨ Blank m.destination ∨ Blank m.idempotencyKey then
    .error (.invalidOutboxMessage "")
  else if m.attempts < 0 ∨ m.availableAt = 0 ∨ m.createdAt = 0 then
    .error (.invalidOutboxMessage "")
  else if ¬ (m.status = .pending ∨ m.status = .delivering ∨ m.status = .delivered ∨
      m.status = .deadLetter) then .error (.invalidOutboxMessage "")
  else if m.payload = "" ∨ codec.valid m.payload = false then
    .error (.invalidOutboxMessage "payload must be valid JSON")
  else .ok ()

/-- The four statuses the contract knows. -/
def IdempotencyStatus.Known (s : IdempotencyStatus) : Prop :=
  s = .inProgress ∨ s = .completed ∨ s = .failedRetryable ∨ s = .failedFinal

instance (s : IdempotencyStatus) : Decidable s.Known := inferInstanceAs (Decidable (_ ∨ _))

def IdempotencyRecord.validate (codec : Codec) (r : IdempotencyRecord) : Except CommandError Unit :=
  if Blank r.tenantID ∨ Blank r.projectID ∨ Blank r.operation ∨ Blank r.key ∨
      Blank r.requestDigest ∨ r.createdAt = 0 ∨ r.expiresAt = 0 then
    .error (.invalidIdempotencyRecord "")
  else if ¬ r.createdAt < r.expiresAt then
    .error (.invalidIdempotencyRecord "expires_at must be after created_at")
  else if ¬ r.status.Known then .error (.invalidIdempotencyRecord "")
  else if r.responsePayload ≠ "" ∧ codec.valid r.responsePayload = false then
    .error (.invalidIdempotencyRecord "response payload must be valid JSON")
  else .ok ()

structure NewTaskParams where
  (id agentID input traceID currency : String)
  now : Time

def newTask (params : NewTaskParams) : Except CommandError Task :=
  if Blank params.id then .error (.invalid "task id is required")
  else if Blank params.input then .error (.invalid "task input is required")
  else if params.now = 0 then .error (.invalid "task creation time is required")
  else .ok {
    id := trimSpace params.id, tenantID := "", projectID := "", createdBy := ""
    agentID := trimSpace params.agentID, input := params.input, status := .created, version := 1
    result := "", cost := 0, estimatedCost := 0, actualCost := 0
    currency := if Blank params.currency then "USD" else trimSpace params.currency
    routeDecisionID := "", traceID := trimSpace params.traceID
    createdAt := params.now, updatedAt := params.now, completedAt := none }

def TaskStatus.isTerminal : TaskStatus → Bool
  | .completed | .failed | .cancelled | .expired => true
  | _ => false

def isKnownNonTerminal : TaskStatus → Bool
  | .created | .planning | .routing | .executing | .waitingApproval | .validating => true
  | _ => false

def TaskStatus.canTransition (source target : TaskStatus) : Bool :=
  if source.isTerminal then false
  else if target = .failed ∨ target = .cancelled ∨ target = .expired then isKnownNonTerminal source
  else match source with
    | .created => target = .planning
    | .planning => target = .routing
    | .routing => target = .executing
    | .executing => target = .waitingApproval ∨ target = .validating
    | .waitingApproval => target = .executing
    | .validating => target = .completed
    | _ => false

variable (t : Task)

def Task.isTerminal : Bool := t.status.isTerminal

def Task.canTransition (target : TaskStatus) : Bool := t.status.canTransition target

structure TaskTransitionCommand where
  target : TaskStatus
  (actor cause : String)
  at_ : Time

inductive TransitionError
  | actor
  | cause
  | time
  | terminal (status : TaskStatus)
  | invalid (source target : TaskStatus)
  deriving DecidableEq

/-- The moved task and the evidence of the move. -/
def Task.transition (command : TaskTransitionCommand) :
    Except TransitionError (Task × TaskTransition) :=
  if Blank command.actor then .error .actor
  else if Blank command.cause then .error .cause
  else if command.at_ = 0 then .error .time
  else if t.isTerminal then .error (.terminal t.status)
  else if ¬ t.canTransition command.target then .error (.invalid t.status command.target)
  else .ok (
    { t with
      status := command.target, updatedAt := command.at_
      completedAt := if command.target.isTerminal then some command.at_ else t.completedAt },
    { source := t.status, target := command.target, actor := trimSpace command.actor
      cause := trimSpace command.cause, at_ := command.at_ })

theorem canTransition_terminal {source target : TaskStatus} (h : source.isTerminal) :
    source.canTransition target = false := by
  unfold TaskStatus.canTransition
  rw [if_pos h]

/-- The same task at the same version. -/
structure SameVersion (t t' : Task) : Prop where
  id : t'.id = t.id
  tenantID : t'.tenantID = t.tenantID
  projectID : t'.projectID = t.projectID
  createdBy : t'.createdBy = t.createdBy
  version : t'.version = t.version
  traceID : t'.traceID = t.traceID

theorem SameVersion.trans {a b c : Task} (h : SameVersion a b) (h' : SameVersion b c) :
    SameVersion a c :=
  ⟨h'.id.trans h.id, h'.tenantID.trans h.tenantID, h'.projectID.trans h.projectID,
    h'.createdBy.trans h.createdBy, h'.version.trans h.version, h'.traceID.trans h.traceID⟩

variable {command : TaskTransitionCommand}

theorem transition_ok {t t' : Task} {evidence : TaskTransition}
    (h : t.transition command = .ok (t', evidence)) :
    SameVersion t t' ∧ t'.status = command.target ∧ evidence.source = t.status ∧
      evidence.target = command.target ∧ evidence.at_ = command.at_ ∧ ¬ evidence.Incomplete := by
  unfold Task.transition at h
  split at h
  · cases h
  split at h
  · cases h
  split at h
  · cases h
  split at h
  · cases h
  split at h
  · cases h
  rename_i hactor hcause htime _ _
  cases h
  refine ⟨⟨rfl, rfl, rfl, rfl, rfl, rfl⟩, rfl, rfl, rfl, rfl, ?_⟩
  rintro (hb | hb | hz)
  · exact hactor (blank_trimSpace.mp hb)
  · exact hcause (blank_trimSpace.mp hb)
  · exact htime hz

theorem transition_allowed {t : Task}
    {r : Task × TaskTransition} (h : t.transition command = .ok r) :
    t.canTransition command.target = true := by
  unfold Task.transition at h
  by_contra hno
  rw [if_pos hno] at h
  repeat' split at h
  all_goals cases h

theorem transition_of_allowed {t : Task}
    (hactor : ¬ Blank command.actor) (hcause : ¬ Blank command.cause) (htime : command.at_ ≠ 0)
    (hmove : t.canTransition command.target = true) : ∃ r, t.transition command = .ok r := by
  have hlive : ¬ t.isTerminal = true := by
    intro hterm
    have hstuck : t.status.canTransition command.target = false := canTransition_terminal hterm
    rw [Task.canTransition, hstuck] at hmove
    cases hmove
  unfold Task.transition
  rw [if_neg hactor, if_neg hcause, if_neg htime, if_neg hlive, if_neg (not_not.mpr hmove)]
  exact ⟨_, rfl⟩

namespace Task

abbrev Check : Prop :=
  (1 ≤ t.version ∧ t.version ≤ bigintMax) ∧ t.status ∈ [TaskStatus.created, .planning, .routing,
    .executing, .waitingApproval, .validating, .completed, .failed, .cancelled, .expired]

abbrev Clash (a b : Task) : Prop := a.id = b.id

end Task

namespace TaskEvent

abbrev Check (e : TaskEvent) : Prop :=
  (1 ≤ e.sequence ∧ e.sequence ≤ bigintMax) ∧ (1 ≤ e.schemaVersion ∧ e.schemaVersion ≤ integerMax)

abbrev Clash (a b : TaskEvent) : Prop :=
  a.eventID = b.eventID ∨ (a.taskID = b.taskID ∧ a.sequence = b.sequence)

end TaskEvent

namespace OutboxMessage

abbrev Check (m : OutboxMessage) : Prop :=
  (0 ≤ m.attempts ∧ m.attempts ≤ integerMax) ∧
    m.status ∈ [OutboxStatus.pending, .delivering, .delivered, .deadLetter]

abbrev Clash (a b : OutboxMessage) : Prop :=
  a.outboxID = b.outboxID ∨ (a.tenantID = b.tenantID ∧ a.projectID = b.projectID ∧
    a.destination = b.destination ∧ a.idempotencyKey = b.idempotencyKey)

end OutboxMessage

/-- A row of `outbox_messages`, with the lease columns of migration 008. -/
structure OutboxRow where
  message : OutboxMessage
  leaseOwner : Option String
  leaseExpiresAt : Option Time
  lastError : String

namespace OutboxRow

abbrev Check (r : OutboxRow) : Prop :=
  r.message.Check ∧
    ((r.message.status = .delivering ∧ r.leaseOwner ≠ none ∧ r.leaseOwner ≠ some "" ∧
        r.leaseExpiresAt ≠ none) ∨
      (r.message.status ≠ .delivering ∧ r.leaseOwner = none ∧ r.leaseExpiresAt = none))

abbrev Clash (a b : OutboxRow) : Prop := a.message.Clash b.message

/-- An inserted message is not leased. -/
def unleased (m : OutboxMessage) : OutboxRow := ⟨m, none, none, ""⟩

end OutboxRow

structure IdempotencyKey where
  (tenantID projectID operation key : String)
  deriving DecidableEq

/-- A row of `idempotency_records`. -/
structure IdempotencyRow where
  key : IdempotencyKey
  requestDigest : String
  status : IdempotencyStatus
  resourceID : String
  responseCode : Int
  responseDigest : String
  responsePayload : Option String
  (createdAt expiresAt : Time)

namespace IdempotencyRow

abbrev Check (r : IdempotencyRow) : Prop :=
  r.status.Known ∧ r.createdAt < r.expiresAt ∧
    -(integerMax + 1) ≤ r.responseCode ∧ r.responseCode ≤ integerMax

abbrev Clash (a b : IdempotencyRow) : Prop := a.key = b.key

end IdempotencyRow

/-- A row of `route_decisions`; the candidate columns hold `jsonb` text. -/
structure RouteDecisionRow where
  (id taskID selected candidates reason fallbackChain evidenceVersion policyVersion : String)
  createdAt : Time

abbrev RouteDecisionRow.Check (_ : RouteDecisionRow) : Prop := True
abbrev RouteDecisionRow.Clash (a b : RouteDecisionRow) : Prop := a.id = b.id

structure Db where
  tasks : Table Task Task.Check Task.Clash
  events : Table TaskEvent TaskEvent.Check TaskEvent.Clash
  outbox : Table OutboxRow OutboxRow.Check OutboxRow.Clash
  decisions : Table RouteDecisionRow RouteDecisionRow.Check RouteDecisionRow.Clash
  idempotency : Table IdempotencyRow IdempotencyRow.Check IdempotencyRow.Clash

variable (db : Db)

namespace Db

def empty : Db := ⟨Table.empty, Table.empty, Table.empty, Table.empty, Table.empty⟩

def task (id : String) : Option Task := Table.lookup Task.id id db.tasks.rows

def eventsOf (taskID : String) : List TaskEvent :=
  Table.select TaskEvent.taskID taskID db.events.rows

def record (k : IdempotencyKey) : Option IdempotencyRow :=
  Table.lookup IdempotencyRow.key k db.idempotency.rows

end Db

variable (p : Principal)

def InScope (tenantID projectID : String) : Prop :=
  tenantID = p.tenantID ∧ projectID = p.projectID

instance (tenantID projectID : String) :
    Decidable (InScope p tenantID projectID) := inferInstanceAs (Decidable (_ ∧ _))

/-- `SELECT ... FROM tasks WHERE id = $1`. -/
def Db.scopedTask (id : String) : Option Task :=
  db.tasks.rows.find? (fun t => t.id = id ∧ InScope p t.tenantID t.projectID)

/-- `SELECT COALESCE(MAX(sequence), 0) FROM task_events WHERE task_id = $1`; no
stored sequence is negative. -/
def Db.maxSequence (taskID : String) : Int :=
  ((db.events.rows.filter (fun e => e.taskID = taskID ∧ InScope p e.tenantID e.projectID)).map
    TaskEvent.sequence).foldl max 0

end AiCloud.Tasks
