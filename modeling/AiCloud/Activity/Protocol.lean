import AiCloud.Activity.System
import AiCloud.Tasks.Idempotency

/-!
# The protocol of an activity run

Which request a run makes after which history. A run touches the execution, the
node-runtime record or the worker only after it read its task and the frozen selection
of that task, and with values built from these. It requeues a failed node only after it
listed an attempt below the limit of the plan. What a run was answered about tasks,
completed selections, goals, plans and executions stays true at any later time.
-/
namespace AiCloud.Activity

open Lib Fallible Execution Tasks Lineage NodeLease Prog List Identity

abbrev History := List (Sigma Answer)

variable (encoding : Encoding)

/-- The run was told this task and this frozen binding for it. -/
structure Bound (θ : Job) (h : History) (task : Task) (binding : Binding) : Prop where
  told : (⟨.getTask θ.input.taskID, .ok task⟩ : Sigma Answer) ∈ h
  tenant : task.tenantID = θ.input.tenantID
  project : task.projectID = θ.input.projectID
  selection : ∃ r : RouteSelectionResult, r.binding = binding ∧
    (⟨.resolveRouteSelection (routeSelectionLookup encoding θ.input), .ok (some r)⟩ :
      Sigma Answer) ∈ h
  valid : validExecutionBinding task.id binding

/-- The run was told the plan of the binding, which has this node. -/
structure Planned (θ : Job) (h : History) (task : Task) (binding : Binding)
    (plan : ExecutionPlan) (node : ExecutionNode) : Prop
    extends Bound encoding θ h task binding where
  told_plan : (⟨.getPlan binding.plan.planID binding.plan.revision, .ok plan⟩ : Sigma Answer) ∈ h
  ref : plan.id = binding.plan.planID ∧ plan.revision = binding.plan.revision
  found : nodeByID plan binding.node = .ok node

/-- The run was told this execution, which it read or created. -/
def Obtained (h : History) (item : Execution) : Prop :=
  (∃ id, (⟨.getExecution id, .ok item⟩ : Sigma Answer) ∈ h) ∨
    ∃ asked, (⟨.createExecution asked, .ok item⟩ : Sigma Answer) ∈ h

structure Executing (θ : Job) (h : History) (task : Task) (binding : Binding)
    (plan : ExecutionPlan) (node : ExecutionNode) (item : Execution) : Prop
    extends Planned encoding θ h task binding plan node where
  obtained : Obtained h item
  taskRef : item.taskRef = task.id
  planRef : item.planRef = binding.plan

section

variable {encoding : Encoding} {θ : Job} {h h' : History} {task : Task} {binding : Binding}
  {plan : ExecutionPlan} {node : ExecutionNode} {item : Execution}

theorem Bound.mono (hb : Bound encoding θ h task binding) (hsub : h ⊆ h') :
    Bound encoding θ h' task binding := by
  obtain ⟨r, hr, hm⟩ := hb.selection
  exact ⟨hsub hb.told, hb.tenant, hb.project, ⟨r, hr, hsub hm⟩, hb.valid⟩

theorem Planned.mono (hp : Planned encoding θ h task binding plan node) (hsub : h ⊆ h') :
    Planned encoding θ h' task binding plan node :=
  ⟨hp.toBound.mono hsub, hsub hp.told_plan, hp.ref, hp.found⟩

theorem Obtained.mono (ho : Obtained h item) (hsub : h ⊆ h') : Obtained h' item :=
  ho.imp (fun ⟨id, hm⟩ => ⟨id, hsub hm⟩) (fun ⟨asked, hm⟩ => ⟨asked, hsub hm⟩)

theorem Executing.mono (he : Executing encoding θ h task binding plan node item)
    (hsub : h ⊆ h') : Executing encoding θ h' task binding plan node item :=
  ⟨he.toPlanned.mono hsub, he.obtained.mono hsub, he.taskRef, he.planRef⟩

end

def Job.workerJob (θ : Job) (item : Execution) (candidate : PreparedNode) : Worker.Job :=
  ⟨θ.ctx, θ.worker, item, candidate⟩

/-- The worker was not asked anything yet. -/
def Clean (h : History) : Prop := workerPart h = []

def allowed (θ : Job) (h : History) : Request → Prop
  | .createExecution item => ∃ task binding plan node goal now,
      Planned encoding θ h task binding plan node ∧ item = newExecution task goal plan now
  | .register record => ∃ task binding plan node item,
      Executing encoding θ h task binding plan node item ∧ record = newRuntime item node
  | .requeueFailed executionID planRevision nodeID => Clean h ∧ ∃ task binding plan node item,
      Executing encoding θ h task binding plan node item ∧
      (executionID = item.id ∧ planRevision = item.planRef.revision ∧ nodeID = node.id) ∧
      ∃ attempts latest, attempts.getLast? = some latest ∧ latest.attemptNumber < maxAttempts node ∧
        (⟨.listAttempts executionID planRevision nodeID, .ok attempts⟩ : Sigma Answer) ∈ h
  | .worker q => ∃ task binding plan node item candidate,
      Executing encoding θ h task binding plan node item ∧
      preparedNodeFromFrozenBinding node binding = .ok candidate ∧
      Lawful (Worker.allowed (θ.workerJob item candidate)) (workerPart h) ∧
      Worker.allowed (θ.workerJob item candidate) (workerPart h) q
  | _ => True

section Execute

variable {encoding : Encoding} {θ : Job} {h : History} {task : Task} {binding : Binding}
  {plan : ExecutionPlan} {node : ExecutionNode} {item : Execution}

theorem Clean.snoc (hc : Clean h) {e : Sigma Answer} (he : workerEntry e = none) :
    Clean (h ++ [e]) := by
  unfold Clean
  rw [workerPart_snoc, he, hc]
  rfl

theorem mem_snoc (h : History) (e : Sigma Answer) : e ∈ h ++ [e] := mem_concat_self

theorem subset_snoc (h : History) (e : Sigma Answer) : h ⊆ h ++ [e] :=
  fun _ => mem_append_left _

theorem ensureExecution_follows (hp : Planned encoding θ h task binding plan node) (hc : Clean h)
    (goal : Goal) (now : Time) :
    Follows (allowed encoding θ) (fun h' item => Clean h' ∧ Obtained h' item) h
      (ensureExecution task goal plan now) := by
  unfold ensureExecution
  refine follows_ask trivial fun a => ?_
  have hc1 : Clean (h ++ [⟨.getExecution (executionID task.id plan.id plan.revision), a⟩]) :=
    hc.snoc rfl
  cases a with
  | ok existing => exact follows_pure ⟨hc1, .inl ⟨_, mem_snoc h _⟩⟩
  | error e =>
    cases e with
    | notFound =>
      refine follows_ask ⟨task, binding, plan, node, goal, now,
        hp.mono (subset_snoc _ _), rfl⟩ fun created => ?_
      cases created with
      | ok created => exact follows_pure ⟨hc1.snoc rfl, .inr ⟨_, mem_snoc _ _⟩⟩
      | error createErr =>
        refine follows_ask trivial fun again => ?_
        cases again with
        | ok existing =>
          exact follows_pure ⟨(hc1.snoc rfl).snoc rfl, .inl ⟨_, mem_snoc _ _⟩⟩
        | error _ => exact follows_throw
    | invalid text => exact follows_throw
    | identity e => exact follows_throw
    | database context => exact follows_throw

section

variable (he : Executing encoding θ h task binding plan node item) (hc : Clean h)

include he hc

theorem registerRuntime_follows :
    Follows (allowed encoding θ) (fun h' _ => Clean h') h
      (registerRuntime (newRuntime item node)) := by
  unfold registerRuntime
  refine follows_ask ⟨task, binding, plan, node, item, he, rfl⟩ fun a => ?_
  cases a with
  | ok u => exact follows_pure (hc.snoc rfl)
  | error e =>
    cases e with
    | nodeRuntimeExists => exact follows_pure (hc.snoc rfl)
    | _ => exact follows_throw

theorem ensureRuntime_follows :
    Follows (allowed encoding θ) (fun h' _ => Clean h') h (ensureRuntime item node) := by
  unfold ensureRuntime
  refine follows_ask trivial fun a => ?_
  cases a with
  | ok x => exact follows_pure (hc.snoc rfl)
  | error e =>
    cases e with
    | nodeRuntimeNotFound =>
      refine follows_bind (registerRuntime_follows (he.mono (subset_snoc _ _)) (hc.snoc rfl)) ?_
      intro h' _ _ hc'
      refine follows_ask trivial fun again => ?_
      exact follows_orFail fun x _ => follows_pure (hc'.snoc rfl)
    | _ => exact follows_throw

theorem prepareRetry_follows :
    Follows (allowed encoding θ) (fun h' _ => Clean h') h (prepareRetry item node) := by
  unfold prepareRetry
  refine follows_ask trivial fun a => ?_
  refine follows_orFail fun attempts ha => ?_
  cases hlast : attempts.getLast? with
  | none => exact follows_throw
  | some latest =>
    refine follows_failIf fun hmax => follows_failIf fun _ => follows_failIf fun _ => ?_
    refine follows_ask ⟨hc.snoc rfl, task, binding, plan, node, item, he.mono (subset_snoc _ _),
      ⟨rfl, rfl, rfl⟩, attempts, latest, hlast, by omega, ?_⟩ fun done => ?_
    · rw [← ha]
      exact mem_snoc h _
    · exact follows_orFail_last fun _ _ => (hc.snoc rfl).snoc rfl

theorem readyRuntime_follows (runtime : NodeRuntimeRecord) :
    Follows (allowed encoding θ) (fun h' _ => Clean h') h (readyRuntime item node runtime) := by
  unfold readyRuntime
  by_cases hf : runtime.state = .failed
  · rw [if_pos hf]
    refine follows_bind (prepareRetry_follows he hc) ?_
    intro h' _ _ hc'
    refine follows_ask trivial fun again => ?_
    exact follows_orFail fun x _ => follows_pure (hc'.snoc rfl)
  · rw [if_neg hf]
    exact follows_pure hc

theorem runWorker_follows {candidate : PreparedNode}
    (hprep : preparedNodeFromFrozenBinding node binding = .ok candidate) :
    Follows (allowed encoding θ) (fun _ _ => True) h (runWorker θ.worker item candidate) := by
  -- the worker's own history is the worker part of the activity's
  refine follows_lift (Prog.conforms_embed (R := fun h' wh => workerPart h' = wh ∧ h ⊆ h' ∧
      Lawful (Worker.allowed (θ.workerJob item candidate)) wh) ?_ (fun _ _ _ _ _ => trivial)
    ⟨hc, fun _ hm => hm, lawful_nil _⟩ (Worker.execute_conforms (θ.workerJob item candidate) :))
  rintro h' wh q ⟨rfl, hsub, hlaw⟩ hq
  refine ⟨⟨task, binding, plan, node, item, candidate, he.mono hsub, hprep, hlaw, hq⟩, fun a => ?_⟩
  refine ⟨?_, fun _ hm => mem_append_left _ (hsub hm), hlaw.snoc hq⟩
  rw [workerPart_snoc]
  rfl

theorem executeNode_follows :
    Follows (allowed encoding θ) (fun _ _ => True) h (executeNode θ.worker item node binding) := by
  unfold executeNode
  refine follows_bind (ensureRuntime_follows he hc) ?_
  intro h1 runtime hpre1 hc1
  have he1 := he.mono hpre1.subset
  by_cases hs : runtime.state = .succeeded
  · rw [if_pos hs]
    exact follows_pure trivial
  · rw [if_neg hs]
    refine follows_bind (readyRuntime_follows he1 hc1 runtime) ?_
    intro h2 runtime hpre2 hc2
    have he2 := he1.mono hpre2.subset
    refine follows_failIf fun _ => follows_orFail fun candidate hprep => ?_
    refine follows_bind (runWorker_follows he2 hc2 hprep) ?_
    intro h3 outcome _ _
    refine follows_failIf fun _ => follows_ask trivial fun completed => ?_
    exact follows_orFail fun x _ => follows_failIf_last fun _ => trivial

end

theorem executeBinding_follows (hb : Bound encoding θ h task binding) (hc : Clean h) :
    Follows (allowed encoding θ) (fun _ _ => True) h (executeBinding θ.worker task binding) := by
  unfold executeBinding
  refine follows_ask trivial fun a => follows_orFail fun plan ha => ?_
  refine follows_orFail fun _ _ => follows_failIf fun href => follows_orFail fun node hnode => ?_
  have href : plan.id = binding.plan.planID ∧ plan.revision = binding.plan.revision := by
    simpa [not_or] using href
  have hp : Planned encoding θ
      (h ++ [⟨.getPlan binding.plan.planID binding.plan.revision, a⟩]) task binding plan node :=
    ⟨hb.mono (subset_snoc _ _), ha ▸ mem_snoc h _, href, hnode⟩
  have hc1 := hc.snoc (e := ⟨.getPlan binding.plan.planID binding.plan.revision, a⟩) rfl
  refine follows_ask trivial fun b => follows_orFail fun goal _ => follows_failIf fun _ => ?_
  refine follows_ask trivial fun now => ?_
  refine follows_bind (ensureExecution_follows
    ((hp.mono (subset_snoc _ _)).mono (subset_snoc _ _)) ((hc1.snoc rfl).snoc rfl) goal now) ?_
  rintro h' item hpre ⟨hc', hobtained⟩
  refine follows_failIf fun hmatch => ?_
  have hmatch : item.taskRef = task.id ∧ item.goalRef = goal.id ∧ item.planRef = binding.plan := by
    simpa [not_or] using hmatch
  have hp' := ((hp.mono (subset_snoc _ _)).mono (subset_snoc _ _)).mono hpre.subset
  exact executeNode_follows ⟨hp', hobtained, hmatch.1, hmatch.2.2⟩ hc'

theorem execute_follows (encoding : Encoding) (θ : Job) :
    Follows (allowed encoding θ) (fun _ _ => True) [] (execute encoding θ.worker θ.input) := by
  unfold execute validateStepInput
  refine follows_failIf fun _ => follows_ask trivial fun a => follows_orFail fun task ha => ?_
  refine follows_failIf fun hscope => follows_failIf fun _ => ?_
  refine follows_ask trivial fun b => follows_orFail fun found hb => ?_
  cases found with
  | none => exact follows_throw
  | some r =>
    refine follows_failIf fun hvalid => ?_
    have hscope : task.tenantID = θ.input.tenantID ∧ task.projectID = θ.input.projectID ∧
        task.traceID = θ.input.traceID := by
      simpa [not_or] using hscope
    refine executeBinding_follows ⟨?_, hscope.1, hscope.2.1, ⟨r, rfl, ?_⟩, not_not.mp hvalid⟩ rfl
    · rw [← ha]
      simp
    · rw [← hb]
      simp

end Execute

section Route

variable {encoding : Encoding} {θ : Job} {h : History}

theorem currentPlan_follows (taskID : String) :
    Follows (allowed encoding θ) (fun _ _ => True) h (currentPlan taskID) := by
  unfold currentPlan
  refine follows_ask trivial fun a => follows_orFail fun plans _ => ?_
  cases plans with
  | nil => exact follows_throw
  | cons first rest => exact follows_orFail fun _ _ => follows_pure trivial

theorem selectedDeployment_follows (decision : RouteDecision) :
    Follows (allowed encoding θ) (fun _ _ => True) h (selectedDeployment decision) := by
  unfold selectedDeployment
  by_cases hd : decision.selected.deploymentID ≠ ""
  · rw [if_pos hd]
    exact follows_ask trivial fun a => follows_orFail fun _ _ => follows_pure trivial
  · rw [if_neg hd]
    exact follows_pure trivial

theorem commitSelection_follows (lookup : IdempotencyLookup) (taskID : String)
    (command : RouteSelectionCommit) :
    Follows (allowed encoding θ) (fun _ _ => True) h (commitSelection lookup taskID command) := by
  unfold commitSelection
  refine follows_ask trivial fun a => ?_
  cases a with
  | ok result => exact follows_failIf_last fun _ => trivial
  | error e =>
    refine follows_ask trivial fun b => ?_
    cases b with
    | error _ => exact follows_throw
    | ok found =>
      cases found with
      | none => exact follows_throw
      | some replay => exact follows_failIf_last fun _ => trivial

theorem planSelection_follows (lookup : IdempotencyLookup) (task : Task) :
    Follows (allowed encoding θ) (fun _ _ => True) h (planSelection encoding lookup task) := by
  unfold planSelection
  refine follows_bind (currentPlan_follows task.id) fun h1 plan _ _ => ?_
  refine follows_ask trivial fun a => follows_orFail fun goal _ => follows_failIf fun _ => ?_
  refine follows_orFail fun node _ => follows_ask trivial fun b => follows_orFail fun policy _ => ?_
  refine follows_orFail fun _ _ => follows_ask trivial fun c => follows_orFail fun request _ => ?_
  refine follows_ask trivial fun d => follows_orFail fun decision _ => follows_failIf fun _ => ?_
  refine follows_bind (selectedDeployment_follows decision) fun h2 deployment _ _ => ?_
  refine follows_orFail fun target _ => follows_ask trivial fun now => ?_
  cases encoding.marshalSelectionEvent decision plan node policy target with
  | none => exact follows_throw
  | some payload =>
    exact follows_ask trivial fun eventID => commitSelection_follows lookup task.id _

theorem route_follows (encoding : Encoding) (θ : Job) :
    Follows (allowed encoding θ) (fun _ _ => True) [] (route encoding θ.input) := by
  unfold route validateStepInput
  refine follows_failIf fun _ => follows_ask trivial fun a => follows_orFail fun found _ => ?_
  cases found with
  | some replay => exact follows_failIf_last fun _ => trivial
  | none =>
    refine follows_ask trivial fun b => follows_orFail fun task _ => ?_
    refine follows_failIf fun _ => follows_failIf fun _ => follows_failIf fun _ => ?_
    exact planSelection_follows _ task

end Route

section Reached

variable {codec : Codec} {encoding : Encoding} {s : ActivitySystem}

theorem body_conforms (encoding : Encoding) (θ : Job) :
    Conforms (allowed encoding θ) (fun _ _ => True) [] (body encoding θ) := by
  have hweaken : ∀ {x : ActivityM Unit}, Follows (allowed encoding θ) (fun _ _ => True) [] x →
      Conforms (allowed encoding θ) (fun _ _ => True) [] x.run :=
    fun hx => conforms_mono (fun _ _ _ => trivial) hx.conforms
  unfold body
  cases θ.step with
  | route => exact (hweaken (route_follows encoding θ) :)
  | execute => exact (hweaken (execute_follows encoding θ) :)

theorem reachable_lawful (h : Reachable codec encoding s) {i : Nat} {θ : Job}
    (hj : s.job i = some θ) : Lawful (allowed encoding θ) (s.history i) :=
  (h.protocol (body_conforms encoding)).lawful i θ hj

/-- The worker requests of a run follow the protocol of one worker run. -/
theorem worker_lawful {θ : Job} {h : History} (hl : Lawful (allowed encoding θ) h)
    (hne : workerPart h ≠ []) :
    ∃ task binding plan node item candidate, Executing encoding θ h task binding plan node item ∧
      preparedNodeFromFrozenBinding node binding = .ok candidate ∧
      Lawful (Worker.allowed (θ.workerJob item candidate)) (workerPart h) := by
  induction h using reverseRecOn with
  | nil => exact absurd rfl hne
  | append_singleton h e ih =>
    obtain ⟨hl, he⟩ := hl.init
    rw [workerPart_snoc] at hne ⊢
    cases hw : workerEntry e with
    | none =>
      rw [hw] at hne
      rw [Option.toList_none, append_nil] at hne ⊢
      obtain ⟨task, binding, plan, node, item, candidate, hex, hprep, hlaw⟩ := ih hl hne
      exact ⟨task, binding, plan, node, item, candidate, hex.mono (subset_snoc _ _), hprep, hlaw⟩
    | some we =>
      obtain rfl := workerEntry_some hw
      obtain ⟨task, binding, plan, node, item, candidate, hex, hprep, hlaw, hq⟩ := he
      exact ⟨task, binding, plan, node, item, candidate, hex.mono (subset_snoc _ _), hprep,
        hlaw.snoc hq⟩

end Reached

/-- The completed selection under a key decodes to this binding. -/
def Frozen (codec : Codec) (db : Tasks.Db) (key : IdempotencyKey) (binding : Binding) : Prop :=
  ∃ row, db.record key = some row ∧ row.status = .completed ∧
    codec.unmarshalSelection row.load.responsePayload = some binding

variable {codec : Codec} {db : Tasks.Db}

theorem Frozen.unique {key : IdempotencyKey} {binding binding' : Binding}
    (h : Frozen codec db key binding) (h' : Frozen codec db key binding') : binding = binding' := by
  obtain ⟨row, hrow, _, hdec⟩ := h
  obtain ⟨row', hrow', _, hdec'⟩ := h'
  obtain rfl := Option.some.inj (hrow.symm.trans hrow')
  exact Option.some.inj (hdec.symm.trans hdec')

theorem holds_unique {id tenantID projectID tenantID' projectID' : String}
    (h : Holds db id tenantID projectID) (h' : Holds db id tenantID' projectID') :
    tenantID = tenantID' ∧ projectID = projectID' := by
  obtain ⟨t, ht, hid, rfl, rfl⟩ := h
  obtain ⟨t', ht', hid', rfl, rfl⟩ := h'
  obtain rfl := task_unique ht ht' (hid.trans hid'.symm)
  exact ⟨rfl, rfl⟩

variable {ctx : Context} {db' : Tasks.Db}

theorem getTask_known {id : String} {task : Task} (h : getTask ctx id db = .ok (task, db')) :
    ∃ p, scopedPrincipal ctx = .ok p ∧ task.id = id ∧ InScope p task.tenantID task.projectID ∧
      Holds db id task.tenantID task.projectID := by
  obtain ⟨_, p, hp, htask⟩ := getTask_ok h
  obtain ⟨hm, hid, hscope⟩ := scopedTask_some htask
  exact ⟨p, hp, hid, hscope, task, hm, hid, rfl, rfl⟩

theorem resolveIdempotency_found {lookup : IdempotencyLookup} {record : IdempotencyRecord}
    (h : resolveIdempotency ctx lookup db = .ok ((some record, true), db')) :
    ∃ row, db.record lookup.rowKey = some row ∧ record = row.load := by
  obtain ⟨_, ⟨hr, _⟩ | ⟨row, hrow, _, ⟨hr, _⟩ | ⟨hr, _⟩⟩⟩ := resolveIdempotency_ok h
  · cases hr
  · cases hr
    exact ⟨row, hrow, rfl⟩
  · cases hr

theorem resolveRouteSelection_ok {lookup : IdempotencyLookup} {r : RouteSelectionResult}
    (h : resolveRouteSelection codec ctx lookup db = .ok (some r, db')) :
    Frozen codec db lookup.rowKey r.binding := by
  unfold resolveRouteSelection at h
  simp only [Tx.bind_ok] at h
  obtain ⟨⟨found, final⟩, u, hres, h⟩ := h
  cases found with
  | none => simp at h
  | some record =>
    cases final with
    | false => simp at h
    | true =>
      obtain ⟨row, hrow, rfl⟩ := resolveIdempotency_found hres
      simp only [↓Tx.failIf_bind_ok, ↓Tx.query_bind_ok, Tx.pure_ok] at h
      obtain ⟨hcomplete, payload, hdec, _, _, hr, _⟩ := h
      cases hr
      exact ⟨row, hrow, not_not.mp fun hst => hcomplete (.inl hst), hdec⟩

/-- What an answer says about the stores for good. -/
def Known (codec : Codec) (θ : Job) (w : World) : (q : Request) → Answer q → Prop
  | .getTask id, .ok task => ∃ p, scopedPrincipal θ.ctx = .ok p ∧ task.id = id ∧
      InScope p task.tenantID task.projectID ∧
      Holds (Tasks.after codec w.tasks) id task.tenantID task.projectID
  | .resolveRouteSelection lookup, .ok (some r) =>
    Frozen codec (Tasks.after codec w.tasks) lookup.rowKey r.binding
  | .getPlan _ _, .ok plan => ∃ p taskID, scopedPrincipal θ.ctx = .ok p ∧
      ⟨scopeOf p, taskID, plan⟩ ∈ w.lineage.plans.rows
  | .getExecution _, .ok item => ∃ p, scopedPrincipal θ.ctx = .ok p ∧
      ⟨scopeOf p, item⟩ ∈ w.lineage.executions.rows
  | .createExecution _, .ok item => ∃ p, scopedPrincipal θ.ctx = .ok p ∧
      ⟨scopeOf p, item⟩ ∈ w.lineage.executions.rows
  | _, _ => True

/-- The task store and the lineage tables only grow. -/
def Later (w w' : World) : Prop :=
  (∃ calls, w'.tasks = w.tasks ++ calls) ∧ Grows w.lineage w'.lineage

variable {w w' : World}

theorem later_same (ht : w'.tasks = w.tasks) (hl : w'.lineage = w.lineage) : Later w w' := by
  refine ⟨⟨[], by rw [ht, append_nil]⟩, ?_⟩
  rw [hl]
  exact Grows.refl _

theorem createExecution_grows {item item' : Execution} {db db' : Lineage.Db}
    (h : createExecution ctx item db = .ok (item', db')) : Grows db db' := by
  obtain ⟨p, identity, _, _, hg, hp, he⟩ := createExecution_ok h
  refine ⟨fun r hr => hg ▸ hr, fun r hr => hp ▸ hr, fun r hr => ?_⟩
  rw [he]
  exact mem_append_left _ hr

variable {θ : Job} {q : Request}

theorem answers_later {a : Answer q} (h : answers codec θ w q a w') : Later w w' := by
  cases q with
  | commitRouteSelection command =>
    obtain ⟨tasks, ⟨now, priced, updateClock, ha⟩, rfl⟩ := h
    refine ⟨?_, Grows.refl _⟩
    cases a with
    | ok r => exact ⟨_, ha.2⟩
    | error e =>
      rcases ha with ha | ha
      · exact ⟨[], ha.trans (append_nil _).symm⟩
      · exact ⟨_, ha⟩
  | createExecution item =>
    obtain ⟨lineage, ha, rfl⟩ := h
    refine ⟨⟨[], (append_nil _).symm⟩, ?_⟩
    cases a with
    | ok x => exact createExecution_grows ha
    | error e =>
      rcases ha with ha | ⟨x, ha⟩
      · rw [ha]
        exact Grows.refl _
      · exact createExecution_grows ha
  | worker | register | requeueFailed =>
    obtain ⟨nodes, _, rfl⟩ := h
    exact later_same rfl rfl
  | getTask | resolveRouteSelection | getPlan | listPlansByTask | getGoal | getExecution |
    getNode | listAttempts =>
      obtain ⟨_, rfl⟩ := h
      exact later_same rfl rfl
  | now | newID | evaluate | build | planRoute | getDeployment =>
    obtain rfl := h
    exact later_same rfl rfl

theorem environment_later (h : Environment codec w w') : Later w w' := by
  cases h with
  | task call => exact ⟨⟨[call], rfl⟩, Grows.refl _⟩
  | goal ctx goal goal' lineage hg =>
    exact ⟨⟨[], (append_nil _).symm⟩, (createGoal_ok hg).1⟩
  | plan ctx plan plan' lineage hp =>
    exact ⟨⟨[], (append_nil _).symm⟩, (createPlan_ok hp).1⟩

theorem after_append (codec : Codec) (pre post : List Tasks.Call) :
    Tasks.after codec (pre ++ post) = run (Tasks.exec codec) (Tasks.after codec pre) post := by
  unfold Tasks.after
  rw [run_append]

theorem Frozen.run {key : IdempotencyKey} {binding : Binding} (h : Frozen codec db key binding)
    (calls : List Tasks.Call) : Frozen codec (run (Tasks.exec codec) db calls) key binding := by
  obtain ⟨row, hrow, hst, hdec⟩ := h
  exact ⟨row, run_frozen hrow (.inl hst) calls, hst, hdec⟩

theorem Known.later (hw : Later w w') {a : Answer q} (h : Known codec θ w q a) :
    Known codec θ w' q a := by
  obtain ⟨⟨calls, htasks⟩, hg⟩ := hw
  have hafter : Tasks.after codec w'.tasks =
      run (Tasks.exec codec) (Tasks.after codec w.tasks) calls := by
    rw [htasks, after_append]
  cases q with
  | getTask id =>
    cases a with
    | error e => trivial
    | ok task =>
      obtain ⟨p, hp, hid, hscope, hh⟩ := h
      refine ⟨p, hp, hid, hscope, ?_⟩
      rw [hafter]
      exact run_holds hh calls
  | resolveRouteSelection lookup =>
    cases a with
    | error e => trivial
    | ok found =>
      cases found with
      | none => trivial
      | some r =>
        change Frozen codec (Tasks.after codec w'.tasks) lookup.rowKey r.binding
        rw [hafter]
        exact Frozen.run h calls
  | getPlan id revision =>
    cases a with
    | error e => trivial
    | ok plan =>
      obtain ⟨p, taskID, hp, hm⟩ := h
      exact ⟨p, taskID, hp, hg.plans _ hm⟩
  | getExecution | createExecution =>
    cases a with
    | error e => trivial
    | ok item =>
      obtain ⟨p, hp, hm⟩ := h
      exact ⟨p, hp, hg.executions _ hm⟩
  | _ => trivial

theorem answers_known {a : Answer q} (h : answers codec θ w q a w') : Known codec θ w' q a := by
  cases q with
  | getTask id =>
    cases a with
    | error e => trivial
    | ok task =>
      obtain ⟨hr, rfl⟩ := h
      obtain ⟨db', htx⟩ := hr task rfl
      exact getTask_known htx
  | resolveRouteSelection lookup =>
    cases a with
    | error e => trivial
    | ok found =>
      cases found with
      | none => trivial
      | some r =>
        obtain ⟨hr, rfl⟩ := h
        obtain ⟨db', htx⟩ := hr (some r) rfl
        exact resolveRouteSelection_ok htx
  | getPlan id revision =>
    cases a with
    | error e => trivial
    | ok plan =>
      obtain ⟨hr, rfl⟩ := h
      obtain ⟨db', htx⟩ := hr plan rfl
      obtain ⟨p, taskID, hp, hm, _⟩ := getPlan_ok htx
      exact ⟨p, taskID, hp, hm⟩
  | getExecution id =>
    cases a with
    | error e => trivial
    | ok item =>
      obtain ⟨hr, rfl⟩ := h
      obtain ⟨db', htx⟩ := hr item rfl
      exact getExecution_ok htx
  | createExecution asked =>
    cases a with
    | error e => trivial
    | ok item =>
      obtain ⟨lineage, ha, rfl⟩ := h
      obtain ⟨p, identity, hp, _, _, _, hrows⟩ := createExecution_ok ha
      exact ⟨p, hp, by rw [hrows]; simp⟩
  | _ => trivial

section Reached

variable {codec : Codec} {encoding : Encoding} {s : ActivitySystem}

theorem reachable_known (h : Reachable codec encoding s) {i : Nat} {e : Sigma Answer}
    (hj : s.job i = some θ) (he : e ∈ s.history i) : Known codec θ s.shared e.1 e.2 :=
  System.Reach.known (K := fun θ w e => Known codec θ w e.1 e.2)
    (fun _ _ _ _ _ => answers_known) (fun _ _ _ _ _ _ _ ha hk => hk.later (answers_later ha))
    (fun _ _ _ _ ht hk => hk.later (environment_later ht)) h hj he

end Reached

end AiCloud.Activity
