import AiCloud.Lib.Transaction
import AiCloud.Tasks.Types

/-!
# Goals, plans and executions

The tables of migration 019 and the operations of `ScopedPostgresExecutionLineage`.
Rows are only ever inserted. JSON columns hold the values themselves.
-/
namespace AiCloud.Lineage

open Lib Text Execution Identity Tasks Tx Table List

/-- `length(btrim(text)) > 0`. -/
def NonBlank (text : String) : Prop := ¬ text.toList.all (· = ' ')

instance (text : String) : Decidable (NonBlank text) := inferInstanceAs (Decidable (¬ _))

/-- Tenant and project of a row. -/
structure Scope where
  (tenantID projectID : String)
  deriving DecidableEq

structure GoalRow where
  scope : Scope
  goal : Goal

abbrev GoalRow.Check (r : GoalRow) : Prop := NonBlank r.goal.objective
abbrev GoalRow.Clash (a b : GoalRow) : Prop := a.scope = b.scope ∧ a.goal.id = b.goal.id

structure PlanRow where
  scope : Scope
  taskID : String
  plan : ExecutionPlan

abbrev PlanRow.Check (r : PlanRow) : Prop :=
  (1 ≤ r.plan.revision ∧ r.plan.revision ≤ bigintMax) ∧ 0 ≤ r.plan.parentRevision ∧
    (r.plan.parentRevision = 0 ∨ r.plan.parentRevision < r.plan.revision)

abbrev PlanRow.Clash (a b : PlanRow) : Prop :=
  a.scope = b.scope ∧ a.plan.id = b.plan.id ∧ a.plan.revision = b.plan.revision

structure ExecutionRow where
  scope : Scope
  item : Execution
  deriving DecidableEq

abbrev ExecutionRow.Check (r : ExecutionRow) : Prop :=
  (1 ≤ r.item.planRef.revision ∧ r.item.planRef.revision ≤ bigintMax) ∧
    NonBlank r.item.identity.principal ∧
    r.item.phase ∈ [ExecutionPhase.created, .planning, .ready, .running, .verifying, .replanning,
      .succeeded, .failed, .cancelled] ∧ r.item.createdAt ≤ r.item.updatedAt

abbrev ExecutionRow.Clash (a b : ExecutionRow) : Prop := a.scope = b.scope ∧ a.item.id = b.item.id

structure Db where
  goals : Table GoalRow GoalRow.Check GoalRow.Clash
  plans : Table PlanRow PlanRow.Check PlanRow.Clash
  executions : Table ExecutionRow ExecutionRow.Check ExecutionRow.Clash

def Db.empty : Db := ⟨Table.empty, Table.empty, Table.empty⟩

def Db.goal (db : Db) (scope : Scope) (id : String) : Option GoalRow :=
  db.goals.rows.find? (fun r => r.scope = scope ∧ r.goal.id = id)

def Db.plan (db : Db) (scope : Scope) (id : String) (revision : Int) : Option PlanRow :=
  db.plans.rows.find? (fun r => r.scope = scope ∧ r.plan.id = id ∧ r.plan.revision = revision)

def Db.execution (db : Db) (scope : Scope) (id : String) : Option ExecutionRow :=
  db.executions.rows.find? (fun r => r.scope = scope ∧ r.item.id = id)

inductive LineageError
  | invalid (text : String)
  | identity (e : IdentityError)
  | notFound
  | database (context : String)

abbrev LineageTx := Tx Db LineageError

def scopeOf (p : Principal) : Scope := ⟨p.tenantID, p.projectID⟩

variable (ctx : Context)

/-- The admission of `withProjectTx`; the transaction then sees only this scope. -/
def withProjectTx : LineageTx Principal := lift (match scopedPrincipal ctx with
  | .error e => .error (.identity e)
  | .ok p => .ok p)

def validateGoalLineage (goal : Goal) : Except LineageError Unit :=
  if goal.id = "" ∨ Blank goal.taskRef ∨ Blank goal.objective then
    .error (.invalid "goal id, task ref and objective are required")
  else .ok ()

def validateExecutionLineage (item : Execution) : Except LineageError Unit :=
  if item.id = "" ∨ Blank item.taskRef ∨ item.goalRef = "" ∨ item.planRef.planID = "" ∨
      item.planRef.revision < 1 then
    .error (.invalid "execution id, task ref, goal ref and plan revision are required")
  else if item.phase = .other "" then .error (.invalid "execution phase is required")
  else if item.createdAt = 0 ∨ item.updatedAt = 0 ∨ item.updatedAt < item.createdAt then
    .error (.invalid "valid execution timestamps are required")
  else .ok ()

/-- `CreateGoal`; the task must be visible in the caller's scope. -/
def createGoal (tasks : Tasks.Db) (goal : Goal) : LineageTx Goal := do
  lift (validateGoalLineage goal)
  let p ← withProjectTx ctx
  failIf ((tasks.scopedTask p goal.taskRef).isNone) .notFound
  statement (fun db => (db.goals.insert ⟨scopeOf p, goal⟩).map
    (fun t => ((), { db with goals := t }))) (.database "create execution goal")
  return goal

def getGoal (id : String) : LineageTx Goal := do
  let p ← withProjectTx ctx
  let row ← query (fun db => db.goal (scopeOf p) id) .notFound
  return row.goal

def createPlan (plan : ExecutionPlan) : LineageTx ExecutionPlan := do
  lift (match validatePlan plan with
    | .error e => .error (.invalid e)
    | .ok u => .ok u)
  failIf (plan.createdAt = 0) (.invalid "plan created time is required")
  let p ← withProjectTx ctx
  let goal ← query (fun db => db.goal (scopeOf p) plan.goalRef) .notFound
  statement (fun db => (db.plans.insert ⟨scopeOf p, goal.goal.taskRef, plan⟩).map
    (fun t => ((), { db with plans := t }))) (.database "create execution plan")
  return plan

def getPlan (id : String) (revision : Int) : LineageTx ExecutionPlan := do
  let p ← withProjectTx ctx
  let row ← query (fun db => db.plan (scopeOf p) id revision) .notFound
  return row.plan

/-- The order of `ListPlansByTask`: creation time, then id, then revision. -/
def planBefore (a b : ExecutionPlan) : Bool :=
  decide (a.createdAt < b.createdAt ∨ (a.createdAt = b.createdAt ∧
    (a.id < b.id ∨ (a.id = b.id ∧ a.revision ≤ b.revision))))

def listPlansByTask (taskID : String) : LineageTx (List ExecutionPlan) := do
  let p ← withProjectTx ctx
  let rows ← read (fun db => db.plans.rows.filter
    (fun r => r.scope = scopeOf p ∧ r.taskID = taskID))
  return (rows.map PlanRow.plan).mergeSort planBefore

/-- The identity `CreateExecution` stores: empty parts come from the caller. -/
def ExecutionIdentity.complete (identity : ExecutionIdentity) (p : Principal) :
    ExecutionIdentity where
  principal := if identity.principal = "" then p.subjectID else identity.principal
  tenant := if identity.tenant = "" then p.tenantID else identity.tenant

def createExecution (item : Execution) : LineageTx Execution := do
  lift (validateExecutionLineage item)
  let p ← withProjectTx ctx
  let item := { item with identity := ExecutionIdentity.complete item.identity p }
  failIf (item.identity.tenant ≠ p.tenantID)
    (.invalid "execution tenant must match authenticated tenant")
  let goal ← query (fun db => db.goal (scopeOf p) item.goalRef) .notFound
  failIf (goal.goal.taskRef ≠ item.taskRef)
    (.invalid "execution task does not match goal task")
  let plan ← query (fun db => db.plan (scopeOf p) item.planRef.planID item.planRef.revision)
    .notFound
  failIf (plan.plan.goalRef ≠ item.goalRef ∨ plan.taskID ≠ item.taskRef)
    (.invalid "execution plan lineage does not match task/goal")
  statement (fun db => (db.executions.insert ⟨scopeOf p, item⟩).map
    (fun t => ((), { db with executions := t }))) (.database "create execution")
  return item

def getExecution (id : String) : LineageTx Execution := do
  let p ← withProjectTx ctx
  let row ← query (fun db => db.execution (scopeOf p) id) .notFound
  return row.item

variable {ctx : Context} {db db' : Db}

theorem withProjectTx_bind_ok {α : Type} {f : Principal → LineageTx α} {a : α} :
    (withProjectTx ctx >>= f) db = .ok (a, db') ↔
      ∃ p, scopedPrincipal ctx = .ok p ∧ f p db = .ok (a, db') := by
  unfold withProjectTx
  rw [lift_bind_ok]
  cases scopedPrincipal ctx with
  | error e => simp
  | ok p => simp

/-- Goals, plans and executions are never removed or changed. -/
structure Grows (db db' : Db) : Prop where
  goals : ∀ r ∈ db.goals.rows, r ∈ db'.goals.rows
  plans : ∀ r ∈ db.plans.rows, r ∈ db'.plans.rows
  executions : ∀ r ∈ db.executions.rows, r ∈ db'.executions.rows

theorem Grows.refl (db : Db) : Grows db db := ⟨fun _ h => h, fun _ h => h, fun _ h => h⟩

theorem execution_unique {db : Db} {r r' : ExecutionRow} (hr : r ∈ db.executions.rows)
    (hr' : r' ∈ db.executions.rows) (hs : r.scope = r'.scope) (hid : r.item.id = r'.item.id) :
    r = r' :=
  eq_of_key (fun r : ExecutionRow => (r.scope, r.item.id))
    (fun _ _ h => ⟨congrArg Prod.fst h, congrArg Prod.snd h⟩) hr hr' (Prod.ext hs hid)

theorem plan_unique {db : Db} {r r' : PlanRow} (hr : r ∈ db.plans.rows) (hr' : r' ∈ db.plans.rows)
    (hs : r.scope = r'.scope) (hid : r.plan.id = r'.plan.id)
    (hrev : r.plan.revision = r'.plan.revision) : r = r' :=
  eq_of_key (fun r : PlanRow => (r.scope, r.plan.id, r.plan.revision))
    (fun _ _ h => by simpa using h) hr hr' (by rw [hs, hid, hrev])

theorem getPlan_ok {id : String} {revision : Int} {plan : ExecutionPlan}
    (h : getPlan ctx id revision db = .ok (plan, db')) :
    ∃ p taskID, scopedPrincipal ctx = .ok p ∧ ⟨scopeOf p, taskID, plan⟩ ∈ db.plans.rows ∧
      plan.id = id ∧ plan.revision = revision := by
  unfold getPlan at h
  simp only [withProjectTx_bind_ok, query_bind_ok, pure_ok] at h
  obtain ⟨p, hp, row, hrow, rfl, _⟩ := h
  have hm := mem_of_find?_eq_some hrow
  have hk := find?_some hrow
  simp only [decide_eq_true_eq] at hk
  obtain ⟨hs, hid, hrev⟩ := hk
  exact ⟨p, row.taskID, hp, hs ▸ hm, hid, hrev⟩

theorem getExecution_ok {id : String} {item : Execution}
    (h : getExecution ctx id db = .ok (item, db')) :
    ∃ p, scopedPrincipal ctx = .ok p ∧ ⟨scopeOf p, item⟩ ∈ db.executions.rows := by
  unfold getExecution at h
  simp only [withProjectTx_bind_ok, query_bind_ok, pure_ok] at h
  obtain ⟨p, hp, row, hrow, rfl, _⟩ := h
  have hm := mem_of_find?_eq_some hrow
  have hk := find?_some hrow
  simp only [decide_eq_true_eq] at hk
  exact ⟨p, hp, hk.1 ▸ hm⟩

/-- A created execution is the given one up to its identity, in the caller's scope. -/
theorem createExecution_ok {item item' : Execution}
    (h : createExecution ctx item db = .ok (item', db')) :
    ∃ p identity, scopedPrincipal ctx = .ok p ∧ item' = { item with identity := identity } ∧
      db'.goals = db.goals ∧ db'.plans = db.plans ∧
      db'.executions.rows = db.executions.rows ++ [⟨scopeOf p, item'⟩] := by
  unfold createExecution at h
  simp only [↓lift_bind_ok, ↓withProjectTx_bind_ok, ↓failIf_bind_ok, ↓query_bind_ok,
    bind_ok, statement_ok, Option.map_eq_some_iff, pure_ok, Prod.mk.injEq] at h
  obtain ⟨_, _, p, hp, _, goal, _, _, plan, _, _, _, _, ⟨t, ht, _, rfl⟩, rfl, rfl⟩ := h
  exact ⟨p, _, hp, rfl, rfl, rfl, (insert_some ht).2.2⟩

theorem createGoal_ok {tasks : Tasks.Db} {goal goal' : Goal}
    (h : createGoal ctx tasks goal db = .ok (goal', db')) :
    Grows db db' ∧ db'.executions = db.executions := by
  unfold createGoal at h
  simp only [↓lift_bind_ok, ↓withProjectTx_bind_ok, ↓failIf_bind_ok, bind_ok,
    statement_ok, Option.map_eq_some_iff, pure_ok, Prod.mk.injEq] at h
  obtain ⟨_, _, p, _, _, _, _, ⟨t, ht, _, rfl⟩, rfl, rfl⟩ := h
  refine ⟨⟨?_, fun _ h => h, fun _ h => h⟩, rfl⟩
  intro r hr
  change r ∈ t.rows
  rw [(insert_some ht).2.2]
  exact mem_append_left _ hr

theorem createPlan_ok {plan plan' : ExecutionPlan} (h : createPlan ctx plan db = .ok (plan', db')) :
    Grows db db' ∧ db'.executions = db.executions := by
  unfold createPlan at h
  simp only [↓lift_bind_ok, ↓withProjectTx_bind_ok, ↓failIf_bind_ok, ↓query_bind_ok,
    bind_ok, statement_ok, Option.map_eq_some_iff, pure_ok, Prod.mk.injEq] at h
  obtain ⟨_, _, _, p, _, goal, _, _, _, ⟨t, ht, _, rfl⟩, rfl, rfl⟩ := h
  refine ⟨⟨fun _ h => h, ?_, fun _ h => h⟩, rfl⟩
  intro r hr
  change r ∈ t.rows
  rw [(insert_some ht).2.2]
  exact mem_append_left _ hr

end AiCloud.Lineage
