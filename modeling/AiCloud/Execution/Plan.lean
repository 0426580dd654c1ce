

/-!
# Execution kernel types

The durable data of the execution kernel. Open Go string types become inductive types
with a last constructor for every text outside the contract. Instants count
microseconds, the resolution of PostgreSQL's `timestamptz`, from Go's zero time, so the
zero time is 0. Fields that no modelled function reads are left out. The search for a
dependency cycle takes the nodes in map order, which does not show.
-/
namespace AiCloud.Execution

abbrev Time := Int
abbrev Duration := Int

inductive NodeState
  | pending
  | ready
  | running
  | waitingApproval
  | succeeded
  | failed
  | skipped
  | blocked
  | cancelled
  | other (text : String)
  deriving DecidableEq

def NodeState.text : NodeState → String
  | .pending => "PENDING"
  | .ready => "READY"
  | .running => "RUNNING"
  | .waitingApproval => "WAITING_APPROVAL"
  | .succeeded => "SUCCEEDED"
  | .failed => "FAILED"
  | .skipped => "SKIPPED"
  | .blocked => "BLOCKED"
  | .cancelled => "CANCELLED"
  | .other text => text

/-- The states a node may go to. A retry is a new attempt, so a failed node may
become ready again. -/
def nodeTransitions : NodeState → List NodeState
  | .pending => [.ready, .skipped, .blocked, .cancelled]
  | .ready => [.running, .waitingApproval, .blocked, .cancelled]
  | .waitingApproval => [.ready, .blocked, .cancelled]
  | .running => [.succeeded, .failed, .cancelled]
  | .failed => [.ready, .blocked, .cancelled]
  | .blocked => [.ready, .cancelled]
  | _ => []

def canTransitionNode (source target : NodeState) : Prop :=
  source = target ∨ target ∈ nodeTransitions source

instance (source target : NodeState) : Decidable (canTransitionNode source target) :=
  inferInstanceAs (Decidable (_ ∨ _))

inductive EffectClass
  | pure
  | readOnly
  | idempotentMutation
  | nonIdempotentMutation
  | other (text : String)
  deriving DecidableEq

def isMutation (effect : EffectClass) : Prop :=
  effect = .idempotentMutation ∨ effect = .nonIdempotentMutation

instance (effect : EffectClass) : Decidable (isMutation effect) :=
  inferInstanceAs (Decidable (_ ∨ _))

inductive AttemptStatus
  | pending
  | running
  | succeeded
  | failed
  | cancelled
  | abandoned
  | other (text : String)
  deriving DecidableEq

/-- Error classes stay texts: an invoker may report any class, and only the
empty one is treated specially. -/
abbrev ErrorClass := String

def errorTransient : ErrorClass := "TRANSIENT"
def errorTimeout : ErrorClass := "TIMEOUT"
def errorUnknown : ErrorClass := "UNKNOWN"

structure Usage where
  (inputTokens outputTokens : Int)
  cost : Rat
  duration : Duration
  deriving DecidableEq

def Usage.zero : Usage := ⟨0, 0, 0, 0⟩

/-- The authorization one worker holds to execute one node attempt. -/
structure NodeLease where
  executionRef : String
  planRevision : Int
  (nodeRef attemptRef ownerWorkerID token : String)
  (fence attemptNumber : Int)
  (claimedAt heartbeatAt expiresAt : Time)
  deriving DecidableEq

structure NodeRuntimeRecord where
  executionRef : String
  planRevision : Int
  nodeRef : String
  state : NodeState
  effectClass : EffectClass
  retrySafe : Bool
  idempotencyKey : String
  (attemptNumber leaseFence : Int)

/-- `NodeRuntimeRecord.Terminal`. -/
def NodeState.terminal (state : NodeState) : Prop :=
  state = .succeeded ∨ state = .failed ∨ state = .skipped ∨ state = .cancelled

instance (state : NodeState) : Decidable state.terminal := inferInstanceAs (Decidable (_ ∨ _))

structure AttemptBinding where
  targetRef : String
  targetRevision : Int
  (targetSnapshot policyDecisionRef budgetReservationRef : String)

structure AttemptCompletion where
  status : AttemptStatus
  errorClass : ErrorClass
  usage : Usage

variable (status : AttemptStatus)

/-- `AttemptCompletion.Terminal`. -/
def AttemptStatus.terminal : Prop :=
  status = .succeeded ∨ status = .failed ∨ status = .cancelled ∨ status = .abandoned

instance : Decidable status.terminal :=
  inferInstanceAs (Decidable (_ ∨ _))

/-- An attempt that still holds execution authority. -/
def AttemptStatus.isOpen : Prop := status = .pending ∨ status = .running

instance : Decidable status.isOpen := inferInstanceAs (Decidable (_ ∨ _))

structure RetryPolicy where
  maxAttempts : Int
  retryOn : List ErrorClass
  deriving DecidableEq

structure EffectSpec where
  effectClass : EffectClass
  idempotencyKey : String
  retrySafe : Bool
  deriving DecidableEq

inductive NodeType
  | model
  | tool
  | code
  | agent
  | browser
  | retrieval
  | data
  | workflow
  | human
  | verifier
  | other (text : String)
  deriving DecidableEq

structure ExecutionNode where
  id : String
  type : NodeType
  dependsOn : List String
  retryPolicy : RetryPolicy
  effect : EffectSpec
  deriving DecidableEq

inductive TargetType
  | model
  | tool
  | code
  | agent
  | browser
  | retrieval
  | data
  | workflow
  | human
  | other (text : String)
  deriving DecidableEq

structure TargetSnapshot where
  digest : String
  deriving DecidableEq

structure ExecutionTarget where
  id : String
  revision : Int
  type : TargetType
  snapshot : TargetSnapshot
  deriving DecidableEq

inductive PolicyDecision
  | allow
  | deny
  | requireApproval
  | other (text : String)
  deriving DecidableEq

structure PolicyDecisionRecord where
  (id policyVersion executionRef : String)
  planRevision : Int
  nodeRef : String
  decision : PolicyDecision
  deriving DecidableEq

structure BudgetEstimate where
  cost : Rat
  (nodeAttempts frontierCalls toolCalls : Int)
  deriving DecidableEq

/-- A side-effect-free execution candidate; no budget is reserved yet. -/
structure PreparedNode where
  node : ExecutionNode
  target : ExecutionTarget
  policy : PolicyDecisionRecord
  estimate : BudgetEstimate

structure PlanRevisionRef where
  planID : String
  revision : Int
  deriving DecidableEq

structure ExecutionPlan where
  (id goalRef : String)
  (revision parentRevision : Int)
  nodes : List ExecutionNode
  createdAt : Time

structure Goal where
  (id taskRef objective : String)

structure ExecutionIdentity where
  (principal tenant : String)
  deriving DecidableEq

inductive ExecutionPhase
  | created
  | planning
  | ready
  | running
  | verifying
  | replanning
  | succeeded
  | failed
  | cancelled
  | other (text : String)
  deriving DecidableEq

/-- One execution strategy of a task. -/
structure Execution where
  (id taskRef goalRef : String)
  planRef : PlanRevisionRef
  identity : ExecutionIdentity
  phase : ExecutionPhase
  (createdAt updatedAt : Time)
  deriving DecidableEq

def validateEffectSpec (effect : EffectSpec) : Except String Unit :=
  match effect.effectClass with
  | .pure | .readOnly => .ok ()
  | .idempotentMutation =>
    if effect.idempotencyKey = "" then .error "idempotent mutation requires idempotency key"
    else if effect.retrySafe = false then
      .error "idempotent mutation must declare retrySafe=true"
    else .ok ()
  | .nonIdempotentMutation =>
    if effect.retrySafe = true then .error "non-idempotent mutation cannot declare retrySafe=true"
    else .ok ()
  | .other text => .error ("unknown effect class \"" ++ text ++ "\"")

inductive Mark
  | unseen
  | visiting
  | done
  deriving DecidableEq

def setMark (state : String → Mark) (id : String) (mark : Mark) : String → Mark :=
  fun other => if other = id then mark else state other

/-- The dependencies of an id: those of the last node with that id. -/
def dependencies (nodes : List ExecutionNode) (id : String) : List String :=
  match nodes.reverse.find? (fun node => node.id = id) with
  | some node => node.dependsOn
  | none => []

/-- Visit an id: whether a cycle was found, and the marks after the visit. The
ids being visited are distinct nodes, so a depth beyond their number means that
an id being visited was met again. -/
def visit (nodes : List ExecutionNode) : Nat → String → (String → Mark) →
    Bool × (String → Mark)
  | 0, _, state => (true, state)
  | depth + 1, id, state =>
    match state id with
    | .visiting => (true, state)
    | .done => (false, state)
    | .unseen =>
      let visited := (dependencies nodes id).foldl (fun (found : Bool × (String → Mark)) dep =>
          if found.1 then found else visit nodes depth dep found.2)
        (false, setMark state id .visiting)
      if visited.1 then visited else (false, setMark visited.2 id .done)

def hasCycle (nodes : List ExecutionNode) : Bool :=
  (nodes.foldl (fun (found : Bool × (String → Mark)) node =>
    if found.1 then found else visit nodes (nodes.length + 2) node.id found.2)
    (false, fun _ => .unseen)).1

/-- The first loop: ids and effects, against the ids before. -/
def validateNodes : List String → List ExecutionNode → Except String Unit
  | _, [] => .ok ()
  | seen, node :: rest =>
    if node.id = "" then .error "node id is required"
    else if node.id ∈ seen then .error ("duplicate node id: " ++ node.id)
    else match validateEffectSpec node.effect with
      | .error e => .error ("node " ++ node.id ++ ": " ++ e)
      | .ok _ => validateNodes (node.id :: seen) rest

/-- The dependencies of one node, against those seen before. -/
def validateDependencies (ids : List String) (id : String) :
    List String → List String → Except String Unit
  | _, [] => .ok ()
  | seen, dep :: rest =>
    if dep = id then .error ("node " ++ id ++ " depends on itself")
    else if dep ∉ ids then .error ("node " ++ id ++ " references unknown dependency " ++ dep)
    else if dep ∈ seen then .error ("node " ++ id ++ " contains duplicate dependency " ++ dep)
    else validateDependencies ids id (dep :: seen) rest

def validatePlan (plan : ExecutionPlan) : Except String Unit := do
  if plan.id = "" then .error "plan id is required"
  if plan.goalRef = "" then .error "goal ref is required"
  if plan.revision ≤ 0 then .error "plan revision must be positive"
  if plan.nodes = [] then .error "plan must contain at least one node"
  validateNodes [] plan.nodes
  plan.nodes.forM (fun node =>
    validateDependencies (plan.nodes.map ExecutionNode.id) node.id [] node.dependsOn)
  if hasCycle plan.nodes then .error "execution plan contains a cycle"

end AiCloud.Execution
