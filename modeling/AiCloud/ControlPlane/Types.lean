import AiCloud.Tasks.Progress

/-!
# Commands of the control plane

What the public task commands share: the metadata a transport hands over, the actors
written into transitions and events, and the names of operations. A creation commits the
task, its event, the message that starts its workflow and the command's result in one
transaction.
-/
namespace AiCloud.ControlPlane

open Lib.Text Identity Execution Tasks

structure CommandMetadata where
  (idempotencyKey requestDigest requestID : String)

inductive ControlError
  | commandMetadataRequired
  | identity (e : IdentityError)
  | command (e : CommandError)
  | transition (e : TransitionError)
  | invalid (text : String)
  | service (text : String)
  deriving DecidableEq

def CommandMetadata.validate (m : CommandMetadata) : Except ControlError Unit :=
  if Blank m.idempotencyKey ∨ Blank m.requestDigest then .error .commandMetadataRequired else .ok ()

def principalTypeText : PrincipalType → String
  | .user => "user"
  | .serviceAccount => "service_account"
  | .system => "system"
  | .other text => text

def principalTaskEventActor (p : Principal) : TaskEventActor :=
  ⟨principalTypeText p.type, p.subjectID⟩

def transitionActor (ctx : Context) : String :=
  match principalFromContext ctx with
  | some p => principalTypeText p.type ++ ":" ++ p.subjectID
  | none => "controlplane"

def newID (kind random : String) : String := kind ++ "-" ++ random

/-- The microseconds after which a command's record expires. -/
def recordLifetime : Time := 24 * 3600 * 1000000

def principalOf (ctx : Context) : Except ControlError Principal :=
  match requireProject ctx with
  | .error e => .error (.identity e)
  | .ok p => .ok p

/-- The event a command hands to the store, which fills in the task. -/
def commandEvent (p : Principal) (m : CommandMetadata) (eventType payload random : String)
    (at_ : Time) : TaskEvent where
  eventID := newID "task-event" random
  tenantID := ""
  projectID := ""
  taskID := ""
  sequence := 0
  eventType := eventType
  actor := principalTaskEventActor p
  payload := payload
  requestID := trimSpace m.requestID
  traceID := ""
  schemaVersion := 1
  occurredAt := at_
  createdAt := at_

def commandRecord (p : Principal) (m : CommandMetadata) (operation key : String)
    (status : IdempotencyStatus) (responseCode : Int) (now : Time) : IdempotencyRecord where
  tenantID := p.tenantID
  projectID := p.projectID
  operation := operation
  key := key
  requestDigest := trimSpace m.requestDigest
  status := status
  resourceID := ""
  responseCode := responseCode
  responseDigest := ""
  responsePayload := ""
  createdAt := now
  expiresAt := now + recordLifetime

/-- What `json.Marshal` made, or its wrapped error. -/
def encoded (context : String) : Option String → Except ControlError String
  | none => .error (.invalid context)
  | some text => .ok text

/-- What a creation reads from its surroundings. -/
structure CreationInput where
  (input agentID : String)
  metadata : CommandMetadata
  now : Time
  unixNano : Int
  (eventRandom outboxRandom : String)

def workflowStartDeliveryKey (tenantID taskID : String) : String :=
  "workflow-start:" ++ trimSpace tenantID ++ ":" ++ trimSpace taskID

def workflowStartMessage (c : CreationInput) (tenantID taskID payload : String) :
    OutboxMessage where
  outboxID := newID "outbox" c.outboxRandom
  tenantID := ""
  projectID := ""
  taskID := ""
  aggregateType := "Task"
  aggregateID := taskID
  eventType := "TaskCreated"
  payload := payload
  destination := "workflow.start"
  idempotencyKey := workflowStartDeliveryKey tenantID taskID
  status := .pending
  attempts := 0
  availableAt := c.now
  createdAt := c.now
  deliveredAt := none

/-- The commit of `CreateTaskIdempotent`; `taskCreatedPayload` encodes the created task. -/
def createTaskCommit (taskCreatedPayload : Task → Option String) (ctx : Context)
    (c : CreationInput) : Except ControlError TaskCreateCommit := do
  c.metadata.validate
  let principal ← principalOf ctx
  let task ← (newTask ⟨"task-" ++ toString c.unixNano, c.agentID, c.input,
    "trace-" ++ toString c.unixNano, "USD", c.now⟩).mapError .command
  let payload ← encoded "encode TaskCreated payload" (taskCreatedPayload task)
  return {
    task := task
    event := commandEvent principal c.metadata "TaskCreated" payload c.eventRandom c.now
    outbox := [workflowStartMessage c principal.tenantID task.id payload]
    idempotency := commandRecord principal c.metadata "POST /api/v1/tasks"
      (trimSpace c.metadata.idempotencyKey) .completed 202 c.now }

theorem encoded_ok {context text : String} {o : Option String} (h : encoded context o = .ok text) :
    o = some text := by
  unfold encoded at h
  split at h
  · cases h
  cases h
  rfl

theorem encoded_error {context : String} {o : Option String} {e : ControlError}
    (h : encoded context o = .error e) : o = none := by
  unfold encoded at h
  split at h
  · rfl
  · cases h

variable {p : Principal}

theorem principalOf_ok {ctx : Context} (h : principalOf ctx = .ok p) :
    requireProject ctx = .ok p := by
  unfold principalOf at h
  split at h
  · cases h
  rename_i q hq
  cases h
  exact hq

theorem transitionActor_named {ctx : Context} (h : principalOf ctx = .ok p) :
    ¬ Blank (transitionActor ctx) := by
  obtain ⟨hctx, hin⟩ := requireProject_ok (principalOf_ok h)
  unfold transitionActor
  rw [hctx]
  simp only [blank_append]
  exact fun hb => hin.subject hb.2

theorem principalTypeText_named (hp : p.InProject) : ¬ Blank (principalTypeText p.type) := by
  rcases hp.type with h | h | h <;> rw [h] <;> decide

theorem commandEvent_stampable {codec : Codec} {m : CommandMetadata}
    {eventType payload random : String} {at_ : Time} (hp : p.InProject)
    (htype : ¬ Blank eventType) (hpayload : payload ≠ "" ∧ codec.valid payload = true)
    (hat : 0 < at_) : Stampable codec (commandEvent p m eventType payload random at_) where
  eventID := by
    change ¬ Blank ("task-event" ++ "-" ++ random)
    simp only [blank_append, not_and_or]
    exact Or.inl (Or.inl (by decide))
  eventType := htype
  schemaVersion := Int.le_refl 1
  times := ⟨Int.ne_of_gt hat, Int.ne_of_gt hat⟩
  actor := ⟨principalTypeText_named hp, hp.subject⟩
  payload := hpayload

theorem checkRecord_of_valid {codec : Codec} {statusOk : IdempotencyStatus → Bool}
    {text : String} {record : IdempotencyRecord} (hv : record.validate codec = .ok ())
    (hs : statusOk record.status = true) : checkRecord codec statusOk text record = .ok () := by
  unfold checkRecord
  rw [hv]
  exact if_pos hs

end AiCloud.ControlPlane
