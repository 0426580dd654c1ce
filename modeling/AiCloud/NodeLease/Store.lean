import AiCloud.Lib.Table
import AiCloud.Identity.Principal
import AiCloud.Execution.Plan
import AiCloud.Lib.Transaction

/-!
# Node runtime and attempt tables

The tables of migrations 017 and 018 with their CHECK, PRIMARY KEY and UNIQUE clauses.
Row-level security shows a transaction only the rows of its own tenant and project, so
the scope is part of every key. A nullable column is an `Option`; integer columns carry
the range of their SQL type. The operations follow statement by statement; the clock
reading of a transaction and the random texts of a claim are arguments.
-/
namespace AiCloud.NodeLease

open Lib Execution Identity Tx Lib.Text

structure NodeKey where
  (tenantID projectID executionID : String)
  planRevision : Int
  nodeID : String
  deriving DecidableEq

/-- A row of `execution_node_runtime`. -/
structure NodeRow where
  key : NodeKey
  state : NodeState
  effectClass : EffectClass
  retrySafe : Bool
  idempotencyKey : Option String
  attemptNumber : Int
  (leaseOwner leaseToken : Option String)
  leaseFence : Int
  (claimedAt heartbeatAt leaseExpiresAt effectStartedAt effectCommittedAt : Option Time)
  (createdAt updatedAt : Time)

/-- SQL's `a > b` on nullable instants, where a comparison with NULL does not hold. -/
def later (a b : Option Time) : Prop :=
  match a, b with
  | some x, some y => y < x
  | _, _ => False

instance (a b : Option Time) : Decidable (later a b) :=
  match a, b with
  | some x, some y => inferInstanceAs (Decidable (y < x))
  | none, _ => isFalse id
  | some _, none => isFalse id

/-- `NULLIF(x, '') IS NOT NULL`. -/
def present (x : Option String) : Prop := x ≠ none ∧ x ≠ some ""

instance (x : Option String) : Decidable (present x) := inferInstanceAs (Decidable (_ ∧ _))

/-- `x IS NOT NULL AND x >= 1`. -/
def atLeastOne (x : Option Int) : Prop := x.any (fun v => 1 ≤ v) = true

instance (x : Option Int) : Decidable (atLeastOne x) := inferInstanceAs (Decidable (_ = true))

/-- `NULLIF($n, '')`: the empty text is stored as NULL. -/
def nullIfEmpty (s : String) : Option String := if s = "" then none else some s

namespace NodeRow

variable (r : NodeRow)

abbrev PlanRevisionPositive : Prop := 1 ≤ r.key.planRevision
abbrev AttemptNonnegative : Prop :=
  0 ≤ r.attemptNumber ∧ r.attemptNumber ≤ integerMax
abbrev LeaseFenceNonnegative : Prop := 0 ≤ r.leaseFence ∧ r.leaseFence ≤ bigintMax
abbrev StateContract : Prop :=
  r.state ∈ [NodeState.pending, .ready, .running, .waitingApproval, .succeeded, .failed, .skipped,
    .blocked, .cancelled]
abbrev EffectContract : Prop :=
  r.effectClass ∈ [EffectClass.pure, .readOnly, .idempotentMutation, .nonIdempotentMutation]
abbrev IdempotentKeyContract : Prop :=
  r.effectClass ≠ .idempotentMutation ∨ present r.idempotencyKey
abbrev NonIdempotentRetryContract : Prop :=
  r.effectClass ≠ .nonIdempotentMutation ∨ r.retrySafe = false
abbrev LeaseStateContract : Prop :=
  (r.state = .running ∧ r.leaseOwner ≠ none ∧ r.leaseToken ≠ none ∧ r.claimedAt ≠ none ∧
    r.heartbeatAt ≠ none ∧ r.leaseExpiresAt ≠ none ∧ later r.leaseExpiresAt r.claimedAt) ∨
  (r.state ≠ .running ∧ r.leaseOwner = none ∧ r.leaseToken = none ∧ r.claimedAt = none ∧
    r.heartbeatAt = none ∧ r.leaseExpiresAt = none)
abbrev EffectCommitContract : Prop :=
  r.effectCommittedAt = none ∨ r.effectStartedAt ≠ none

abbrev Check : Prop :=
  r.PlanRevisionPositive ∧ r.AttemptNonnegative ∧ r.LeaseFenceNonnegative ∧ r.StateContract ∧
    r.EffectContract ∧ r.IdempotentKeyContract ∧ r.NonIdempotentRetryContract ∧
    r.LeaseStateContract ∧ r.EffectCommitContract

abbrev Clash (a b : NodeRow) : Prop := a.key = b.key

end NodeRow

/-- A row of `execution_attempts`; `key` holds its scope, execution, plan
revision and node columns. -/
structure AttemptRow where
  key : NodeKey
  attemptID : String
  (attemptNumber leaseFence : Int)
  leaseOwner : String
  status : AttemptStatus
  targetID : Option String
  targetRevision : Option Int
  (targetSnapshotDigest policyDecisionID budgetReservationID idempotencyKey : Option String)
  errorClass : Option String
  (inputTokens outputTokens : Int)
  cost : Rat
  durationMS : Int
  claimedAt : Time
  (startedAt effectStartedAt effectCommittedAt finishedAt : Option Time)
  (createdAt updatedAt : Time)
  deriving DecidableEq

namespace AttemptRow

variable (r : AttemptRow)

abbrev PlanRevisionPositive : Prop := 1 ≤ r.key.planRevision
abbrev NumberPositive : Prop := 1 ≤ r.attemptNumber ∧ r.attemptNumber ≤ integerMax
abbrev FencePositive : Prop := 1 ≤ r.leaseFence ∧ r.leaseFence ≤ bigintMax
abbrev StatusContract : Prop :=
  r.status ∈ [AttemptStatus.pending, .running, .succeeded, .failed, .cancelled, .abandoned]
abbrev TargetBound : Prop :=
  present r.targetID ∧ atLeastOne r.targetRevision ∧ present r.targetSnapshotDigest
abbrev TargetTupleContract : Prop :=
  (r.targetID = none ∧ r.targetRevision = none ∧ r.targetSnapshotDigest = none) ∨ r.TargetBound
abbrev LifecycleContract : Prop :=
  (r.status = .pending ∧ r.startedAt = none ∧ r.finishedAt = none) ∨
  (r.status = .running ∧ r.startedAt ≠ none ∧ r.finishedAt = none) ∨
  ((r.status = .succeeded ∨ r.status = .failed) ∧ r.startedAt ≠ none ∧ r.finishedAt ≠ none) ∨
  ((r.status = .cancelled ∨ r.status = .abandoned) ∧ r.finishedAt ≠ none)
abbrev StartedTargetContract : Prop := r.startedAt = none ∨ r.TargetBound
abbrev StartedGovernanceContract : Prop :=
  r.startedAt = none ∨ (present r.policyDecisionID ∧ present r.budgetReservationID)
abbrev FailureErrorContract : Prop := r.status ≠ .failed ∨ present r.errorClass
abbrev EffectCommitContract : Prop :=
  r.effectCommittedAt = none ∨ r.effectStartedAt ≠ none
abbrev UsageNonnegative : Prop :=
  0 ≤ r.inputTokens ∧ 0 ≤ r.outputTokens ∧ 0 ≤ r.cost ∧ 0 ≤ r.durationMS

abbrev Check : Prop :=
  r.PlanRevisionPositive ∧ r.NumberPositive ∧ r.FencePositive ∧ r.StatusContract ∧
    r.TargetTupleContract ∧ r.LifecycleContract ∧ r.StartedTargetContract ∧
    r.StartedGovernanceContract ∧ r.FailureErrorContract ∧ r.EffectCommitContract ∧
    r.UsageNonnegative

abbrev Clash (a b : AttemptRow) : Prop :=
  (a.key.tenantID = b.key.tenantID ∧ a.key.projectID = b.key.projectID ∧
    a.attemptID = b.attemptID) ∨
  (a.key = b.key ∧ a.attemptNumber = b.attemptNumber) ∨
  (a.key = b.key ∧ a.leaseFence = b.leaseFence)

end AttemptRow

structure Db where
  nodes : Table NodeRow NodeRow.Check NodeRow.Clash
  attempts : Table AttemptRow AttemptRow.Check AttemptRow.Clash

def Db.empty : Db := ⟨Table.empty, Table.empty⟩

def Db.node (db : Db) (k : NodeKey) : Option NodeRow := Table.lookup NodeRow.key k db.nodes.rows

def Db.attemptsOf (db : Db) (k : NodeKey) : List AttemptRow :=
  Table.select AttemptRow.key k db.attempts.rows

inductive StoreError
  | nodeRuntimeNotFound
  | nodeRuntimeExists
  | nodeNotClaimable
  | nodeLeaseHeld
  | nodeLeaseLost
  | nodeRecoveryRequired
  | nodeEffectNotCommitted
  | attemptCompletion (detail : String)
  | attemptNotFound
  | attemptStateConflict
  | attemptBindingInvalid (detail : String)
  | invalid (message : String)
  | identity (error : IdentityError)
  | database (context : String)
  deriving DecidableEq

abbrev StoreTx := Tx Db StoreError

def validateNodeRuntimeRecord (record : NodeRuntimeRecord) : Except StoreError Unit :=
  if record.executionRef = "" ∨ record.planRevision < 1 ∨ record.nodeRef = "" then
    .error (.invalid "execution, positive plan revision and node are required")
  else if record.state = .other "" then .error (.invalid "node state is required")
  else if record.effectClass = .idempotentMutation ∧ Blank record.idempotencyKey then
    .error (.invalid "idempotent mutation requires idempotency key")
  else if record.effectClass = .nonIdempotentMutation ∧ record.retrySafe = true then
    .error (.invalid "non-idempotent mutation cannot be registered retry-safe")
  else .ok ()

def validateLeaseIdentity (executionID : String) (planRevision : Int) (nodeID owner : String)
    (leaseDuration : Duration) : Except StoreError Unit :=
  if executionID = "" ∨ planRevision < 1 ∨ nodeID = "" ∨ Blank owner then
    .error (.invalid "execution, positive plan revision, node and lease owner are required")
  else if leaseDuration ≤ 0 then .error (.invalid "positive lease duration is required")
  else .ok ()

def validateLeaseAttempt (lease : NodeLease) : Except StoreError Unit :=
  if lease.attemptRef = "" ∨ lease.attemptNumber < 1 ∨ lease.fence < 1 then
    .error (.invalid "lease attempt reference, positive attempt number and fence are required")
  else .ok ()

def validateHeldLease (lease : NodeLease) (leaseDuration : Duration) : Except StoreError Unit := do
  validateLeaseIdentity lease.executionRef lease.planRevision lease.nodeRef lease.ownerWorkerID
    leaseDuration
  validateLeaseAttempt lease
  if Blank lease.token ∨ lease.fence < 1 then
    .error (.invalid "lease token and positive fence are required")
  else .ok ()

def validateAttemptBinding (binding : AttemptBinding) : Except StoreError Unit :=
  if binding.targetRef = "" ∨ binding.targetRevision < 1 ∨ Blank binding.targetSnapshot then
    .error (.attemptBindingInvalid "target id, positive revision and snapshot are required")
  else if binding.policyDecisionRef = "" then
    .error (.attemptBindingInvalid "policy decision is required")
  else if Blank binding.budgetReservationRef then
    .error (.attemptBindingInvalid "budget reservation is required")
  else .ok ()

def validateAttemptCompletion (terminal : NodeState) (completion : AttemptCompletion) :
    Except StoreError Unit :=
  if ¬ completion.status.terminal ∨ completion.status = .abandoned then
    .error (.attemptCompletion "")
  else if ¬ ((terminal = .succeeded ∧ completion.status = .succeeded) ∨
      (terminal = .failed ∧ completion.status = .failed) ∨
      (terminal = .cancelled ∧ completion.status = .cancelled)) then
    .error (.attemptCompletion "")
  else if terminal = .failed ∧ completion.errorClass = "" then
    .error (.attemptCompletion "failed attempt requires error class")
  else if completion.usage.inputTokens < 0 ∨ completion.usage.outputTokens < 0 ∨
      completion.usage.cost < 0 ∨ completion.usage.duration < 0 then
    .error (.attemptCompletion "usage cannot be negative")
  else .ok ()

variable (ctx : Context)

/-- The admission of `withScopedTx`; the transaction then sees only this scope. -/
def withScopedTx : StoreTx Principal := lift (match scopedPrincipal ctx with
  | .error e => .error (.identity e)
  | .ok p => .ok p)

def nodeKey (p : Principal) (executionID : String) (planRevision : Int) (nodeID : String) :
    NodeKey := ⟨p.tenantID, p.projectID, executionID, planRevision, nodeID⟩

def leaseKey (p : Principal) (lease : NodeLease) : NodeKey :=
  nodeKey p lease.executionRef lease.planRevision lease.nodeRef

variable (context : String)

def updateNodes (p : NodeRow → Prop) [DecidablePred p] (f : NodeRow → NodeRow) : StoreTx Nat :=
  statement (fun db => (db.nodes.update p f).map (fun r => (r.1, { db with nodes := r.2 })))
    (.database context)

def updateAttempts (p : AttemptRow → Prop) [DecidablePred p]
    (f : AttemptRow → AttemptRow) : StoreTx Nat :=
  statement
    (fun db => (db.attempts.update p f).map (fun r => (r.1, { db with attempts := r.2 })))
    (.database context)

def insertAttempt (row : AttemptRow) : StoreTx Unit :=
  statement (fun db => (db.attempts.insert row).map (fun t => ((), { db with attempts := t })))
    (.database context)

/-- `INSERT ... ON CONFLICT DO NOTHING`, with the number of rows inserted. -/
def insertNodeOrNothing (row : NodeRow) : StoreTx Nat :=
  statement (fun db =>
    if row.Check ∧ (db.node row.key).isSome then some (0, db)
    else (db.nodes.insert row).map (fun t => (1, { db with nodes := t }))) (.database context)

variable (k : NodeKey)

def loadNodeRuntime : StoreTx NodeRow :=
  query (fun db => db.node k) .nodeRuntimeNotFound

def attemptInScope (p : Principal) (attemptID : String) (a : AttemptRow) : Prop :=
  a.key.tenantID = p.tenantID ∧ a.key.projectID = p.projectID ∧ a.attemptID = attemptID

instance (p : Principal) (attemptID : String) : DecidablePred (attemptInScope p attemptID) :=
  fun _ => inferInstanceAs (Decidable (_ ∧ _))

def loadAttemptTx (p : Principal) (attemptID : String) : StoreTx AttemptRow :=
  query (fun db => db.attempts.rows.find? (fun a => attemptInScope p attemptID a)) .attemptNotFound

def leaseOwnsRow (row : NodeRow) (lease : NodeLease) (now : Time) : Prop :=
  row.state = .running ∧ row.leaseOwner = some lease.ownerWorkerID ∧
    row.leaseToken = some lease.token ∧ row.leaseFence = lease.fence ∧
    row.attemptNumber = lease.attemptNumber ∧ later row.leaseExpiresAt (some now)

instance (row : NodeRow) (lease : NodeLease) (now : Time) :
    Decidable (leaseOwnsRow row lease now) := inferInstanceAs (Decidable (_ ∧ _))

variable (lease : NodeLease) (now : Time) (row : NodeRow)

/-- The guard every lease-holding UPDATE of `execution_node_runtime` carries in
its WHERE clause. Unlike `leaseOwnsRow` it does not compare attempt numbers. -/
def leaseGuard : Prop :=
  row.key = k ∧ row.state = .running ∧ row.leaseOwner = some lease.ownerWorkerID ∧
    row.leaseToken = some lease.token ∧ row.leaseFence = lease.fence ∧
    later row.leaseExpiresAt (some now)

instance : DecidablePred (leaseGuard k lease now) :=
  fun _ => inferInstanceAs (Decidable (_ ∧ _))

/-- A guarded UPDATE of the runtime row; losing the guard is losing the lease. -/
def updateHeld (context : String) (k : NodeKey) (lease : NodeLease) (now : Time)
    (extra : NodeRow → Prop) [DecidablePred extra] (f : NodeRow → NodeRow) : StoreTx Unit := do
  let affected ← updateNodes context (fun r => leaseGuard k lease now r ∧ extra r) f
  failIf (affected ≠ 1) .nodeLeaseLost

variable (a : AttemptRow)

/-- The columns that locate a lease's attempt. -/
def attemptGuard : Prop :=
  a.attemptID = lease.attemptRef ∧ a.key = k ∧ a.leaseFence = lease.fence ∧
    a.attemptNumber = lease.attemptNumber

instance : DecidablePred (attemptGuard k lease) :=
  fun _ => inferInstanceAs (Decidable (_ ∧ _))

/-- A guarded UPDATE of exactly one attempt row. -/
def updateOneAttempt (context : String) (p : AttemptRow → Prop) [DecidablePred p]
    (f : AttemptRow → AttemptRow) : StoreTx Unit := do
  let affected ← updateAttempts context p f
  failIf (affected ≠ 1) .attemptStateConflict

/-- Clear the lease columns and set a new state. -/
def NodeRow.unleased (state : NodeState) (now : Time) : NodeRow :=
  { row with
    state := state, leaseOwner := none, leaseToken := none, claimedAt := none
    heartbeatAt := none, leaseExpiresAt := none, updatedAt := now }

def AttemptRow.pending (attemptID : String) (attemptNumber fence : Int)
    (owner idempotencyKey : String) (claimedAt : Time) : AttemptRow where
  key := k
  attemptID := attemptID
  attemptNumber := attemptNumber
  leaseFence := fence
  leaseOwner := owner
  status := .pending
  targetID := none
  targetRevision := none
  targetSnapshotDigest := none
  policyDecisionID := none
  budgetReservationID := none
  idempotencyKey := nullIfEmpty idempotencyKey
  errorClass := none
  inputTokens := 0
  outputTokens := 0
  cost := 0
  durationMS := 0
  claimedAt := claimedAt
  startedAt := none
  effectStartedAt := none
  effectCommittedAt := none
  finishedAt := none
  createdAt := claimedAt
  updatedAt := claimedAt

def AttemptRow.abandon (finishedAt : Time) : AttemptRow :=
  { a with status := .abandoned, finishedAt := some finishedAt, updatedAt := finishedAt }

def AttemptRow.start (binding : AttemptBinding) (now : Time) : AttemptRow :=
  { a with
    status := .running, targetID := some binding.targetRef
    targetRevision := some binding.targetRevision
    targetSnapshotDigest := some binding.targetSnapshot
    policyDecisionID := some binding.policyDecisionRef
    budgetReservationID := some binding.budgetReservationRef
    startedAt := some now, updatedAt := now }

def AttemptRow.complete (completion : AttemptCompletion) (finishedAt : Time) : AttemptRow :=
  { a with
    status := completion.status, errorClass := nullIfEmpty completion.errorClass
    inputTokens := completion.usage.inputTokens, outputTokens := completion.usage.outputTokens
    cost := completion.usage.cost, durationMS := completion.usage.duration / 1000
    finishedAt := some finishedAt, updatedAt := finishedAt }

variable (attemptNumber fence : Int)

def abandonAttemptTx (finishedAt : Time) : StoreTx Unit :=
  updateOneAttempt "abandon execution attempt"
    (fun a => a.key = k ∧ a.attemptNumber = attemptNumber ∧ a.leaseFence = fence ∧ a.status.isOpen)
    (fun a => a.abandon finishedAt)

def updateAttemptEffectStartedTx (at_ : Time) : StoreTx Unit :=
  updateOneAttempt "mark attempt effect started"
    (fun a => attemptGuard k lease a ∧ a.status = .running ∧ a.effectStartedAt = none)
    (fun a => { a with effectStartedAt := some at_, updatedAt := at_ })

def updateAttemptEffectCommittedTx (at_ : Time) : StoreTx Unit :=
  updateOneAttempt "mark attempt effect committed"
    (fun a => attemptGuard k lease a ∧ a.status = .running ∧ a.effectStartedAt ≠ none ∧
      a.effectCommittedAt = none)
    (fun a => { a with effectCommittedAt := some at_, updatedAt := at_ })

def completeAttemptTx (completion : AttemptCompletion) (finishedAt : Time) : StoreTx Unit :=
  updateOneAttempt "complete execution attempt" (fun a => attemptGuard k lease a ∧
      (a.status = .running ∨ (completion.status = .cancelled ∧ a.status = .pending)))
    (fun a => a.complete completion finishedAt)

/-- The row `Register` inserts; the lease and effect columns keep their NULL default. -/
def registeredRow (record : NodeRuntimeRecord) (now : Time) : NodeRow where
  key := k
  state := record.state
  effectClass := record.effectClass
  retrySafe := record.retrySafe
  idempotencyKey := nullIfEmpty record.idempotencyKey
  attemptNumber := record.attemptNumber
  leaseOwner := none
  leaseToken := none
  leaseFence := record.leaseFence
  claimedAt := none
  heartbeatAt := none
  leaseExpiresAt := none
  effectStartedAt := none
  effectCommittedAt := none
  createdAt := now
  updatedAt := now

def recordKey (p : Principal) (record : NodeRuntimeRecord) : NodeKey :=
  nodeKey p record.executionRef record.planRevision record.nodeRef

def register (record : NodeRuntimeRecord) : StoreTx Unit := do
  lift (validateNodeRuntimeRecord record)
  let p ← withScopedTx ctx
  let affected ← insertNodeOrNothing "register execution node runtime"
    (registeredRow (recordKey p record) record now)
  failIf (affected ≠ 1) .nodeRuntimeExists

/-- A random text; `none` is a failing entropy source. -/
def newLeaseToken (rand : Option String) : Except StoreError String :=
  match rand with
  | none => .error (.invalid "generate lease token")
  | some token => .ok token

def newAttemptID (rand : Option String) : Except StoreError String :=
  match newLeaseToken rand with
  | .error e => .error e
  | .ok token => .ok ("att_" ++ token)

/-- May the row be claimed, and if so does the claim take over an expired lease? -/
def claimMode (now : Time) : Except StoreError Bool :=
  if row.state.terminal then .error .nodeNotClaimable
  else match row.state with
    | .ready => if row.leaseToken ≠ none then .error .nodeLeaseHeld else .ok false
    | .running =>
      if later row.leaseExpiresAt (some now) then .error .nodeLeaseHeld
      else if row.retrySafe = false ∨ row.effectCommittedAt ≠ none then
        .error .nodeRecoveryRequired
      else .ok true
    | _ => .error .nodeNotClaimable

def NodeRow.claimed (owner token : String) (now : Time) (leaseDuration : Duration) : NodeRow :=
  { row with
    state := .running, attemptNumber := attemptNumber, leaseOwner := some owner
    leaseToken := some token, leaseFence := fence, claimedAt := some now
    heartbeatAt := some now, leaseExpiresAt := some (now + leaseDuration)
    effectStartedAt := none, effectCommittedAt := none, updatedAt := now }

def claim (tokenRand attemptRand : Option String)
    (executionID : String) (planRevision : Int) (nodeID owner : String)
    (leaseDuration : Duration) : StoreTx NodeLease := do
  lift (validateLeaseIdentity executionID planRevision nodeID owner leaseDuration)
  let p ← withScopedTx ctx
  let k := nodeKey p executionID planRevision nodeID
  let row ← loadNodeRuntime k
  let reclaim ← lift (claimMode row now)
  if reclaim then abandonAttemptTx k row.attemptNumber row.leaseFence now else pure ()
  let token ← lift (newLeaseToken tokenRand)
  let attemptID ← lift (newAttemptID attemptRand)
  let affected ← updateNodes "claim execution node" (fun r => r.key = k)
    (fun r => r.claimed (row.attemptNumber + 1) (row.leaseFence + 1) owner token now leaseDuration)
  failIf (affected ≠ 1) .nodeLeaseLost
  insertAttempt "insert pending execution attempt"
    (AttemptRow.pending k attemptID (row.attemptNumber + 1) (row.leaseFence + 1) owner
      (row.idempotencyKey.getD "") now)
  return {
    executionRef := executionID, planRevision := planRevision, nodeRef := nodeID
    attemptRef := attemptID, ownerWorkerID := owner, token := token
    fence := row.leaseFence + 1, attemptNumber := row.attemptNumber + 1
    claimedAt := now, heartbeatAt := now, expiresAt := now + leaseDuration }

def renew (lease : NodeLease) (leaseDuration : Duration) : StoreTx NodeLease := do
  lift (validateHeldLease lease leaseDuration)
  let p ← withScopedTx ctx
  updateHeld "renew execution node lease" (leaseKey p lease) lease now (fun _ => True)
    (fun r => { r with
      heartbeatAt := some now, leaseExpiresAt := some (now + leaseDuration), updatedAt := now })
  return { lease with expiresAt := now + leaseDuration, heartbeatAt := now }

def startAttempt (lease : NodeLease) (binding : AttemptBinding) : StoreTx AttemptRow := do
  failIf (Blank lease.attemptRef) (.attemptBindingInvalid "lease attempt reference is required")
  lift (validateAttemptBinding binding)
  let p ← withScopedTx ctx
  let row ← loadNodeRuntime (leaseKey p lease)
  failIf (¬ leaseOwnsRow row lease now) .nodeLeaseLost
  updateOneAttempt "start execution attempt"
    (fun a => attemptGuard (leaseKey p lease) lease a ∧ a.status = .pending)
    (fun a => a.start binding now)
  loadAttemptTx p lease.attemptRef

def markEffectStarted (lease : NodeLease) : StoreTx Unit := do
  lift (validateLeaseAttempt lease)
  let p ← withScopedTx ctx
  updateHeld "mark node effect started" (leaseKey p lease) lease now
    (fun r => r.effectStartedAt = none)
    (fun r => { r with effectStartedAt := some now, updatedAt := now })
  updateAttemptEffectStartedTx (leaseKey p lease) lease now

def markEffectCommitted (lease : NodeLease) : StoreTx Unit := do
  lift (validateLeaseAttempt lease)
  let p ← withScopedTx ctx
  updateHeld "mark node effect committed" (leaseKey p lease) lease now
    (fun r => r.effectStartedAt ≠ none ∧ r.effectCommittedAt = none)
    (fun r => { r with effectCommittedAt := some now, updatedAt := now })
  updateAttemptEffectCommittedTx (leaseKey p lease) lease now

def releaseBeforeEffect (lease : NodeLease) : StoreTx Unit := do
  lift (validateLeaseAttempt lease)
  let p ← withScopedTx ctx
  updateHeld "release execution node lease" (leaseKey p lease) lease now
    (fun r => r.effectStartedAt = none) (fun r => r.unleased .ready now)
  abandonAttemptTx (leaseKey p lease) lease.attemptNumber lease.fence now

def complete (lease : NodeLease) (terminal : NodeState)
    (completion : AttemptCompletion) : StoreTx Unit := do
  lift (validateLeaseAttempt lease)
  lift (validateAttemptCompletion terminal completion)
  let p ← withScopedTx ctx
  let row ← loadNodeRuntime (leaseKey p lease)
  failIf (¬ leaseOwnsRow row lease now) .nodeLeaseLost
  failIf (terminal = .succeeded ∧ isMutation row.effectClass ∧ row.effectCommittedAt = none)
    .nodeEffectNotCommitted
  completeAttemptTx (leaseKey p lease) lease completion now
  updateHeld "complete execution node" (leaseKey p lease) lease now (fun _ => True)
    (fun r => r.unleased terminal now)

variable (executionID : String) (planRevision : Int) (nodeID : String)

def requeueFailed : StoreTx Unit := do
  failIf (executionID = "" ∨ planRevision < 1 ∨ nodeID = "")
    (.invalid "execution, positive plan revision and node are required")
  let p ← withScopedTx ctx
  let k := nodeKey p executionID planRevision nodeID
  let row ← loadNodeRuntime k
  failIf (row.state ≠ .failed) .nodeNotClaimable
  failIf (row.retrySafe = false ∨ isMutation row.effectClass) .nodeRecoveryRequired
  let affected ← updateNodes "requeue failed execution node"
    (fun r => r.key = k ∧ r.state = .failed) (fun r => r.unleased .ready now)
  failIf (affected ≠ 1) .nodeNotClaimable

def NodeRow.record : NodeRuntimeRecord where
  executionRef := row.key.executionID
  planRevision := row.key.planRevision
  nodeRef := row.key.nodeID
  state := row.state
  effectClass := row.effectClass
  retrySafe := row.retrySafe
  idempotencyKey := row.idempotencyKey.getD ""
  attemptNumber := row.attemptNumber
  leaseFence := row.leaseFence

def loadCurrentAttemptIDTx : StoreTx String := do
  let attempt ← query (fun db => (db.attemptsOf k).find?
    (fun a => a.attemptNumber = attemptNumber ∧ a.leaseFence = fence)) .attemptNotFound
  return attempt.attemptID

/-- The node's record with its current lease, if one is held. -/
def get : StoreTx (NodeRuntimeRecord × Option NodeLease) := do
  let p ← withScopedTx ctx
  let row ← loadNodeRuntime (nodeKey p executionID planRevision nodeID)
  match row.leaseToken with
  | none => return (row.record, none)
  | some token =>
    let attemptID ← loadCurrentAttemptIDTx row.key row.attemptNumber row.leaseFence
    return (row.record, some {
      executionRef := executionID, planRevision := planRevision, nodeRef := nodeID
      attemptRef := attemptID, ownerWorkerID := row.leaseOwner.getD "", token := token
      fence := row.leaseFence, attemptNumber := row.attemptNumber
      claimedAt := row.claimedAt.getD 0, heartbeatAt := row.heartbeatAt.getD 0
      expiresAt := row.leaseExpiresAt.getD 0 })

/-- The attempts of a node, ordered by their number. -/
def listAttempts : StoreTx (List AttemptRow) := do
  failIf (executionID = "" ∨ planRevision < 1 ∨ nodeID = "")
    (.invalid "execution, positive plan revision and node are required")
  let p ← withScopedTx ctx
  let attempts ← read (fun db => db.attemptsOf (nodeKey p executionID planRevision nodeID))
  return attempts.mergeSort (fun a b => decide (a.attemptNumber ≤ b.attemptNumber))

end AiCloud.NodeLease
