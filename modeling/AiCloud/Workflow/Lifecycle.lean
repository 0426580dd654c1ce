import AiCloud.Lib.Durable
import AiCloud.Workflow.Activities

/-!
# The task lifecycle workflow

`TaskLifecycleWorkflow` is a loop: load the task, run the stub of its status, move
it on, and look again. One pass of the loop is a turn.
-/
namespace AiCloud.Workflow

open Lib Text Tasks Prog List

def taskLifecycleVersion : String := "lifecycle-v1"

def transitionOperationKey (taskID : String) (target : TaskStatus) : String :=
  trimSpace taskID ++ ":transition:" ++ target.text ++ ":" ++ taskLifecycleVersion

inductive Activity
  | loadTask (input : LoadTaskInput)
  | transitionTask (input : TransitionTaskInput)
  | runStep (stub : Stub) (input : StepInput)
  deriving DecidableEq

abbrev Activity.Answer : Activity → Type
  | .loadTask _ => Except ActivityError TaskSnapshot
  | .transitionTask _ => Except ActivityError TaskSnapshot
  | .runStep .. => Except ActivityError Unit

structure TaskWorkflowResult where
  (taskID traceID : String)
  observedStatus : TaskStatus
  alreadyTerminal : Bool
  steps : List String
  deriving DecidableEq

inductive WorkflowFailure
  | invalidInput (error : InputError)
  | activity (error : ActivityError)
  | waitingApprovalNotImplemented
  | unsupportedTaskStatus (status : TaskStatus)
  deriving DecidableEq

abbrev LifecycleProg := Prog Activity Activity.Answer

abbrev LifecycleTurn := Turn TaskWorkflowResult (TaskWorkflowResult × Option WorkflowFailure)

/-- How a step of the result names a stub. -/
def Stub.label : Stub → String
  | .plan => "plan"
  | .route => "route"
  | .execute => "execute"
  | .validate => "validate"

variable (input : TaskWorkflowInput)

def TaskWorkflowInput.scope : LoadTaskInput :=
  ⟨input.tenantID, input.projectID, input.taskID, input.traceID⟩

variable (result : TaskWorkflowResult)

def TaskWorkflowResult.observe (status : TaskStatus) :
    TaskWorkflowResult := { result with observedStatus := status }

def TaskWorkflowResult.step (name : String) : TaskWorkflowResult :=
  { result with steps := result.steps ++ [name] }

def loadTaskSnapshot : LifecycleProg (Except ActivityError TaskSnapshot) :=
  request (Activity.loadTask input.scope)

def executeStub (stub : Stub) (input : TaskWorkflowInput) :
    LifecycleProg (Except ActivityError Unit) :=
  request (Activity.runStep stub input.scope)

variable (snapshot : TaskSnapshot)

def transitionInput (target : TaskStatus) : TransitionTaskInput :=
  ⟨input.tenantID, input.projectID, input.taskID, input.traceID, snapshot.version, target,
    taskLifecycleVersion, transitionOperationKey input.taskID target⟩

def requestTransition (i : TransitionTaskInput) :
    LifecycleProg (Except ActivityError TaskSnapshot) :=
  request (Activity.transitionTask i)

/-- The task after the call and whether the call went through; after a stale version
the task is only loaded again. -/
def transitionTask (target : TaskStatus) :
    LifecycleProg (Except ActivityError (TaskSnapshot × Bool)) := do
  match ← requestTransition (transitionInput input snapshot target) with
  | .ok next => return .ok (next, true)
  | .error (.staleTaskVersion _ _) =>
    match ← loadTaskSnapshot input with
    | .ok reloaded => return .ok (reloaded, false)
    | .error e => return .error e
  | .error e => return .error e

/-- The end of every case but the last: the target is a step if it was reached. -/
def moveTo (target : TaskStatus) : LifecycleProg LifecycleTurn := do
  match ← transitionTask input snapshot target with
  | .error e => return .returned (result, some (.activity e))
  | .ok (next, applied) =>
    if applied = true ∧ next.status = target then
      return .again ((result.observe next.status).step target.text)
    else return .again (result.observe next.status)

/-- The end of the VALIDATING case, which loads the final snapshot. -/
def complete : LifecycleProg LifecycleTurn := do
  match ← transitionTask input snapshot .completed with
  | .error e => return .returned (result, some (.activity e))
  | .ok (next, applied) =>
    if applied = false ∨ next.status ≠ .completed then return .again (result.observe next.status)
    else
      let result := (result.observe next.status).step TaskStatus.completed.text
      match ← loadTaskSnapshot input with
      | .error e => return .returned (result, some (.activity e))
      | .ok finalSnapshot =>
        return .returned
          ({ result.observe finalSnapshot.status with alreadyTerminal := false }, none)

def afterStub (stub : Stub) (input : TaskWorkflowInput) (result : TaskWorkflowResult)
    (rest : TaskWorkflowResult → LifecycleProg LifecycleTurn) : LifecycleProg LifecycleTurn := do
  match ← executeStub stub input with
  | .error e => return .returned (result, some (.activity e))
  | .ok _ => rest (result.step stub.label)

/-- One pass of the loop. -/
def lifecycleTurn : LifecycleProg LifecycleTurn := do
  match ← loadTaskSnapshot input with
  | .error e => return .returned (result, some (.activity e))
  | .ok snapshot =>
    let result := result.observe snapshot.status
    if snapshot.terminal = true ∨ snapshot.status.isTerminal = true then
      return .returned ({ result with alreadyTerminal := true }, none)
    else match snapshot.status with
      | .created => moveTo input result snapshot .planning
      | .planning =>
        afterStub .plan input result fun result => moveTo input result snapshot .routing
      | .routing =>
        afterStub .route input result fun result => moveTo input result snapshot .executing
      | .executing =>
        afterStub .execute input result fun result => moveTo input result snapshot .validating
      | .validating => afterStub .validate input result fun result => complete input result snapshot
      | .waitingApproval => return .returned (result, some .waitingApprovalNotImplemented)
      | status => return .returned (result, some (.unsupportedTaskStatus status))

def initialResult : TaskWorkflowResult :=
  ⟨input.taskID, input.traceID, .other "", false, []⟩

def taskLifecycleWorkflow : LifecycleProg LifecycleTurn :=
  match input.validate with
  | .error e => return .returned (⟨"", "", .other "", false, []⟩, some (.invalidInput e))
  | .ok _ => lifecycleTurn input (initialResult input)

/-- The status a turn moves a task on to. -/
def nextStatus : TaskStatus → Option TaskStatus
  | .created => some .planning
  | .planning => some .routing
  | .routing => some .executing
  | .executing => some .validating
  | .validating => some .completed
  | _ => none

variable (h : List (Sigma Activity.Answer))

/-- The calls a turn makes: a transition starts from what the turn has loaded. -/
def allowedCall : Activity → Prop
  | .loadTask i => i = input.scope
  | .runStep _ i => i = input.scope
  | .transitionTask i => ∃ snapshot target, nextStatus snapshot.status = some target ∧
      i = transitionInput input snapshot target ∧ ⟨.loadTask input.scope, .ok snapshot⟩ ∈ h

/-- The call went through, or the task had changed. -/
def Settled : Except ActivityError TaskSnapshot → Prop
  | .ok _ => True
  | .error (.staleTaskVersion _ _) => True
  | .error _ => False

/-- Every new step names a stub or a target that was answered as reached. -/
def Shows (old new : TaskWorkflowResult) : Prop :=
  ∀ x ∈ new.steps, x ∈ old.steps ∨ (∃ stub : Stub, x = stub.label) ∨
    ∃ i next, ⟨.transitionTask i, .ok next⟩ ∈ h ∧ next.status = i.target ∧ x = i.target.text

/-- A turn that is not the last one made a call that went through or found a change. -/
def finalTurn : LifecycleTurn → Prop
  | .again new => Shows h result new ∧ ∃ i a, ⟨.transitionTask i, a⟩ ∈ h ∧ Settled a
  | .returned (new, _) => Shows h result new

variable {h : List (Sigma Activity.Answer)} {new : TaskWorkflowResult} {old : TaskWorkflowResult}

theorem shows_same (hs : new.steps = old.steps) : Shows h old new := by
  intro x hx
  rw [hs] at hx
  exact .inl hx

theorem Shows.mono {h h' : List (Sigma Activity.Answer)}
    (hs : Shows h old new) (hsub : h ⊆ h') : Shows h' old new := by
  intro x hx
  rcases hs x hx with hold | hlabel | ⟨i, next, hm, hrest⟩
  · exact .inl hold
  · exact .inr (.inl hlabel)
  · exact .inr (.inr ⟨i, next, hsub hm, hrest⟩)

theorem Shows.stub (hs : Shows h old new) (stub : Stub) : Shows h old (new.step stub.label) := by
  intro x hx
  rcases mem_append.mp hx with hx | hx
  · exact hs x hx
  · exact .inr (.inl ⟨stub, mem_singleton.mp hx⟩)

theorem Shows.target (hs : Shows h old new) {i : TransitionTaskInput}
    {next : TaskSnapshot} (hm : ⟨.transitionTask i, .ok next⟩ ∈ h) (hst : next.status = i.target) :
    Shows h old (new.step i.target.text) := by
  intro x hx
  rcases mem_append.mp hx with hx | hx
  · exact hs x hx
  · exact .inr (.inr ⟨i, next, hm, hst, mem_singleton.mp hx⟩)

section

variable {input : TaskWorkflowInput} {result : TaskWorkflowResult}

/-- The rest of a turn keeps the protocol after the answers so far. -/
abbrev Keeps (input : TaskWorkflowInput) (result : TaskWorkflowResult)
    (h : List (Sigma Activity.Answer)) (p : LifecycleProg LifecycleTurn) : Prop :=
  Conforms (allowedCall input) (finalTurn result) h p

section

variable {snapshot : TaskSnapshot} {target : TaskStatus}
  (hnext : nextStatus snapshot.status = some target)
  (hload : ⟨.loadTask input.scope, .ok snapshot⟩ ∈ h)

include hnext hload

theorem transitionTask_keeps
    {k : Except ActivityError (TaskSnapshot × Bool) → LifecycleProg LifecycleTurn}
    (herror : ∀ h' e, h ⊆ h' → Keeps input result h' (k (.error e)))
    (hok : ∀ h' next applied, h ⊆ h' → (∃ i a, ⟨.transitionTask i, a⟩ ∈ h' ∧ Settled a) →
      (applied = true → ⟨.transitionTask (transitionInput input snapshot target), .ok next⟩ ∈ h') →
        Keeps input result h' (k (.ok (next, applied)))) :
    Keeps input result h (transitionTask input snapshot target >>= k) := by
  refine ⟨⟨snapshot, target, hnext, rfl, hload⟩, fun a => ?_⟩
  have hsub : h ⊆ h ++ [⟨.transitionTask (transitionInput input snapshot target), a⟩] :=
    subset_append_left _ _
  have hmem : ⟨.transitionTask (transitionInput input snapshot target), a⟩ ∈
      h ++ [⟨.transitionTask (transitionInput input snapshot target), a⟩] := by simp
  cases a with
  | ok next => exact hok _ next true hsub ⟨_, _, hmem, trivial⟩ (fun _ => hmem)
  | error e =>
    cases e with
    | staleTaskVersion x y =>
      refine ⟨rfl, fun b => ?_⟩
      have hsub' := Subset.trans hsub (subset_append_left _ [⟨.loadTask input.scope, b⟩])
      cases b with
      | ok reloaded =>
        exact hok _ reloaded false hsub' ⟨_, _, mem_append_left _ hmem, trivial⟩
          (fun hno => nomatch hno)
      | error e => exact herror _ e hsub'
    | operationKeyRequired | taskNotFound | scope | operationKeyConflict | transition | transient
    | timeout => exact herror _ _ hsub

theorem moveTo_keeps (hnew : Shows h result new) :
    Keeps input result h (moveTo input new snapshot target) := by
  refine transitionTask_keeps hnext hload (fun h' e => hnew.mono) ?_
  intro h' next applied hsub hsettled happlied
  have hobs : Shows h' result (new.observe next.status) := hnew.mono hsub
  refine conforms_ite (fun hc => ?_) (fun _ => ⟨hobs, hsettled⟩)
  exact ⟨hobs.target (happlied hc.1) hc.2, hsettled⟩

end

theorem complete_keeps {snapshot : TaskSnapshot}
    (hnext : nextStatus snapshot.status = some .completed)
    (hload : ⟨.loadTask input.scope, .ok snapshot⟩ ∈ h) (hnew : Shows h result new) :
    Keeps input result h (complete input new snapshot) := by
  refine transitionTask_keeps hnext hload (fun h' e => hnew.mono) ?_
  intro h' next applied hsub hsettled happlied
  have hobs : Shows h' result (new.observe next.status) := hnew.mono hsub
  refine conforms_ite (fun _ => ⟨hobs, hsettled⟩) (fun hc => ?_)
  obtain ⟨happ, hst⟩ := not_or.mp hc
  have hstep : Shows h' result ((new.observe next.status).step TaskStatus.completed.text) :=
    hobs.target (happlied (Bool.not_eq_false _ ▸ happ)) (not_not.mp hst)
  refine ⟨rfl, fun a => ?_⟩
  have hlate := hstep.mono (subset_append_left h' [⟨.loadTask input.scope, a⟩])
  cases a with
  | ok finalSnapshot => exact hlate
  | error e => exact hlate

theorem afterStub_keeps (stub : Stub) {rest : TaskWorkflowResult → LifecycleProg LifecycleTurn}
    (hnew : Shows h result new)
    (hrest : ∀ h' r, h ⊆ h' → Shows h' result r → Keeps input result h' (rest r)) :
    Keeps input result h (afterStub stub input new rest) := by
  refine ⟨rfl, fun a => ?_⟩
  have hsub : h ⊆ h ++ [⟨.runStep stub input.scope, a⟩] := subset_append_left _ _
  cases a with
  | ok u => exact hrest _ _ hsub ((hnew.mono hsub).stub stub)
  | error e => exact hnew.mono hsub

theorem lifecycleTurn_keeps (input : TaskWorkflowInput) (result : TaskWorkflowResult) :
    Keeps input result [] (lifecycleTurn input result) := by
  refine ⟨rfl, fun a => ?_⟩
  cases a with
  | error e => exact shows_same rfl
  | ok snapshot =>
    have hobs : ∀ h, Shows h result (result.observe snapshot.status) := fun h => shows_same rfl
    have hload : ∀ {h' : List (Sigma Activity.Answer)},
        [⟨.loadTask input.scope, .ok snapshot⟩] ⊆ h' →
        ⟨.loadTask input.scope, .ok snapshot⟩ ∈ h' := fun hsub => hsub (mem_singleton_self _)
    refine conforms_ite (fun _ => shows_same rfl) (fun _ => ?_)
    have hmove : ∀ {stub : Stub} {target : TaskStatus}, nextStatus snapshot.status = some target →
        Keeps input result [⟨.loadTask input.scope, .ok snapshot⟩]
          (afterStub stub input (result.observe snapshot.status)
            (fun r => moveTo input r snapshot target)) := by
      intro stub target hnext
      refine afterStub_keeps stub (hobs _) (fun h' r hsub hr => ?_)
      exact moveTo_keeps hnext (hload hsub) hr
    split <;> rename_i hst
    · exact moveTo_keeps (by rw [hst]; rfl) (mem_singleton_self _) (hobs _)
    · exact hmove (by rw [hst]; rfl)
    · exact hmove (by rw [hst]; rfl)
    · exact hmove (by rw [hst]; rfl)
    · refine afterStub_keeps .validate (hobs _) (fun h' r hsub hr => ?_)
      exact complete_keeps (by rw [hst]; rfl) (hload hsub) hr
    · exact hobs _
    · exact hobs _

theorem taskLifecycleWorkflow_keeps (input : TaskWorkflowInput) :
    Keeps input (initialResult input) [] (taskLifecycleWorkflow input) := by
  unfold taskLifecycleWorkflow
  split
  · intro x hx
    cases hx
  · exact lifecycleTurn_keeps input _

end

end AiCloud.Workflow
