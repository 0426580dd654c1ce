import AiCloud.ControlPlane.Types
import AiCloud.Lib.Program
import AiCloud.Tasks.Idempotency

/-!
# Routing a task

`DecideRouteIdempotent`: look for an earlier result, read the task, move it to PLANNING
if it is new, plan a route outside of any transaction, and commit the decision together
with the move to ROUTING. Each store call is a transaction of its own; between two of
them other callers may run. Duplicates of a call see the store through the task's row
and the records of the planning step and of the route.
-/
namespace AiCloud.ControlPlane

open Lib Text Identity Execution Tasks Prog

/-- The fields of `router.Request` the command reads; the planner reads the others. -/
structure RouterRequest where
  taskID : String
  (estimatedInputTokens estimatedOutputTokens : Int)
  (serviceTier inferenceEffort : String)

structure RouteCommandResult where
  decision : RouteDecision
  replayed : Bool

abbrev RouteReply := Except ControlError RouteCommandResult

/-- The payloads of the two events, as `json.Marshal` makes them. -/
structure RouteEncoding where
  planningPayload : TaskTransition → Option String
  routedPayload : TaskTransition → RouteDecision → RouterRequest → Option String

def routeCommandOperation (taskID : String) : String :=
  "POST /api/v1/tasks/" ++ trimSpace taskID ++ "/route"

inductive RouteRequest
  | now
  | newID
  | resolveIdempotency (lookup : IdempotencyLookup)
  | getTask (id : String)
  | commitTransition (command : TaskCommandCommit)
  | plan (request : RouterRequest)
  | commitRouteTransition (command : RouteTaskCommandCommit)

def RouteAnswer : RouteRequest → Type
  | .now => Time
  | .newID => String
  | .resolveIdempotency _ => Except CommandError (Option IdempotencyRecord × Bool)
  | .getTask _ => Except CommandError Task
  | .commitTransition _ => Except CommandError TaskCommandCommitResult
  | .plan _ => Except String RouteDecision
  | .commitRouteTransition _ => Except CommandError RouteTaskCommandResult

abbrev RouteProg := Prog RouteRequest RouteAnswer

abbrev readClock : RouteProg Time := request (A := RouteAnswer) .now

abbrev drawID : RouteProg String := request (A := RouteAnswer) .newID

abbrev lookUp (lookup : IdempotencyLookup) :
    RouteProg (Except CommandError (Option IdempotencyRecord × Bool)) :=
  request (A := RouteAnswer) (.resolveIdempotency lookup)

abbrev readTask (id : String) : RouteProg (Except CommandError Task) :=
  request (A := RouteAnswer) (.getTask id)

abbrev commitPlan (command : TaskCommandCommit) :
    RouteProg (Except CommandError TaskCommandCommitResult) :=
  request (A := RouteAnswer) (.commitTransition command)

abbrev planRoute (request : RouterRequest) : RouteProg (Except String RouteDecision) :=
  Prog.request (A := RouteAnswer) (.plan request)

abbrev commitRoute (command : RouteTaskCommandCommit) :
    RouteProg (Except CommandError RouteTaskCommandResult) :=
  request (A := RouteAnswer) (.commitRouteTransition command)

/-- One call; `routing` says whether the service has a router. -/
structure RouteCall where
  ctx : Context
  request : RouterRequest
  metadata : CommandMetadata
  routing : Bool

def RouteCall.lookup (c : RouteCall) (principal : Principal) : IdempotencyLookup where
  tenantID := principal.tenantID
  projectID := principal.projectID
  operation := routeCommandOperation c.request.taskID
  key := trimSpace c.metadata.idempotencyKey
  requestDigest := trimSpace c.metadata.requestDigest

/-- The stored decision, if the command was committed before. -/
def resolveRouteReplay (codec : Codec) (c : RouteCall) (principal : Principal) :
    RouteProg (Except ControlError (Option RouteCommandResult)) := do
  match ← lookUp (c.lookup principal) with
  | .error e => pure (.error (.command e))
  | .ok (some record, true) =>
    if record.status ≠ .completed ∨ record.responsePayload = "" then
      pure (.error (.invalid "route replay does not contain a completed response"))
    else match codec.unmarshalDecision record.responsePayload with
      | none => pure (.error (.invalid "decode route replay response"))
      | some decision => pure (.ok (some ⟨decision, true⟩))
  | .ok _ => pure (.ok none)

def planningRecord (c : RouteCall) (principal : Principal) (task : Task) (now : Time) :
    IdempotencyRecord :=
  { commandRecord principal c.metadata ("task:route:planning:" ++ task.id)
      (trimSpace c.metadata.idempotencyKey ++ ":planning") .completed 200 now with
    resourceID := task.id }

variable (enc : RouteEncoding)

/-- Move a new task to PLANNING, or read it again if that was done before. -/
def commitPlanningForRoute (c : RouteCall) (principal : Principal)
    (task : Task) : RouteProg (Except ControlError Task) := do
  let now ← readClock
  match task.transition ⟨.planning, transitionActor c.ctx, "prepare task plan", now⟩ with
  | .error e => pure (.error (.transition e))
  | .ok (moved, transition) =>
    match encoded "encode planning TaskEvent payload" (enc.planningPayload transition) with
    | .error e => pure (.error e)
    | .ok payload => do
      let random ← drawID
      match ← commitPlan {
          task := moved, transition := transition
          event := commandEvent principal c.metadata "TaskPlanningStarted" payload random now
          outbox := [], idempotency := planningRecord c principal moved now } with
      | .error e => pure (.error (.command e))
      | .ok result =>
        if result.replayed then
          match ← readTask moved.id with
          | .error e => pure (.error (.command e))
          | .ok task => pure (.ok task)
        else pure (.ok (result.task.getD moved)) -- a command that was not replayed has its task

/-- The answer to the caller; a commit and a replay both have a decision. -/
def routeReply (planned : RouteDecision) : Except CommandError RouteTaskCommandResult → RouteReply
  | .error e => .error (.command e)
  | .ok result => .ok ⟨result.decision.getD planned, result.replayed⟩

/-- Plan a route for the prepared task and commit it. -/
def commitPlannedRoute (c : RouteCall) (principal : Principal)
    (task : Task) : RouteProg RouteReply := do
  match ← planRoute c.request with
  | .error text => pure (.error (.service text))
  | .ok decision => do
    let now ← readClock
    match task.transition ⟨.routing, transitionActor c.ctx, "request model route", now⟩ with
    | .error e => pure (.error (.transition e))
    | .ok (moved, transition) =>
      match encoded "encode route TaskEvent payload"
          (enc.routedPayload transition decision c.request) with
      | .error e => pure (.error e)
      | .ok payload => do
        let random ← drawID
        let answer ← commitRoute {
          task := { moved with
            routeDecisionID := decision.id, estimatedCost := decision.selected.estimatedCost }
          transition := transition, decision := decision
          event := commandEvent principal c.metadata "TaskRoutingStarted" payload random now
          outbox := []
          idempotency := commandRecord principal c.metadata
            (routeCommandOperation c.request.taskID) (trimSpace c.metadata.idempotencyKey)
            .completed 201 now }
        pure (routeReply decision answer)

variable (codec : Codec)

/-- The task was read: prepare it, go on with it, or look for a duplicate's result. -/
def routeTask (c : RouteCall) (principal : Principal) (task : Task) : RouteProg RouteReply :=
  match task.status with
  | .created => do
    match ← commitPlanningForRoute enc c principal task with
    | .error e => pure (.error e)
    | .ok task => commitPlannedRoute enc c principal task
  | .planning => commitPlannedRoute enc c principal task
  | .routing => do
    match ← resolveRouteReplay codec c principal with
    | .error e => pure (.error e)
    | .ok (some replay) => pure (.ok replay)
    | .ok none => pure (.error (.command (.invalidTaskTransition
        "routing state has no matching durable command result")))
  | status => pure (.error (.command (.invalidTaskTransition
      ("cannot route task from " ++ status.text))))

def decideRouteIdempotent (c : RouteCall) : RouteProg RouteReply :=
  match c.metadata.validate with
  | .error e => pure (.error e)
  | .ok _ =>
    if c.routing = false then pure (.error (.invalid "routing is not configured"))
    else match principalOf c.ctx with
      | .error e => pure (.error e)
      | .ok principal => do
        match ← resolveRouteReplay codec c principal with
        | .error e => pure (.error e)
        | .ok (some replay) => pure (.ok replay)
        | .ok none =>
          match ← readTask c.request.taskID with
          | .error e => pure (.error (.command e))
          | .ok task => routeTask enc codec c principal task

/-- What duplicates have in common. -/
structure RouteKey where
  (tenantID projectID taskID key requestDigest : String)

variable (k : RouteKey)

def RouteKey.route : IdempotencyKey :=
  ⟨k.tenantID, k.projectID, routeCommandOperation k.taskID, k.key⟩

def RouteKey.planning : IdempotencyKey :=
  ⟨k.tenantID, k.projectID, "task:route:planning:" ++ k.taskID, k.key ++ ":planning"⟩

/-- A well-formed call for the command, by a caller of the project. -/
structure Duplicate (c : RouteCall) : Prop where
  metadata : c.metadata.validate = .ok ()
  routing : c.routing = true
  caller : ∃ p, scopedPrincipal c.ctx = .ok p ∧ p.tenantID = k.tenantID ∧ p.projectID = k.projectID
  task : c.request.taskID = k.taskID
  key : trimSpace c.metadata.idempotencyKey = k.key
  digest : trimSpace c.metadata.requestDigest = k.requestDigest

/-- What `Plan` returns: a decision with an id and a time, for the task of the
request, that JSON carries over the store. -/
structure Planned (taskID : String) (decision : RouteDecision) : Prop where
  id : ¬ Blank decision.id
  taskID : decision.taskID = taskID
  createdAt : decision.createdAt ≠ 0
  encodes : codec.Encodes decision
  decodes : ∀ text, codec.marshalDecision decision = some text → text ≠ "" ∧
    ∀ stored, codec.jsonb text = some stored →
      stored ≠ "" ∧ stored ≠ "null" ∧ codec.unmarshalDecision stored = some decision

def routeAnswers (c : RouteCall) (db : Db) : (q : RouteRequest) → RouteAnswer q → Db → Prop
  | .now, a, db' => 0 < (show Time from a) ∧ db' = db
  | .newID, _, db' => db' = db
  | .resolveIdempotency lookup, a, db' => Stored (resolveIdempotency c.ctx lookup) db a db'
  | .getTask id, a, db' => Stored (getTask c.ctx id) db a db'
  | .commitTransition command, a, db' =>
    ∃ now, Stored (commitTransition codec c.ctx now command) db a db'
  | .plan request, a, db' =>
    (∀ decision, a = .ok decision → Planned codec request.taskID decision) ∧ db' = db
  | .commitRouteTransition command, a, db' =>
    ∃ priced now, Stored (commitRouteTransition codec c.ctx priced now command) db a db'

structure RouteView where
  task : Option Task
  (planning route : Option IdempotencyRow)

def RouteView.status (v : RouteView) : Option TaskStatus := v.task.map Task.status

def RouteKey.task (db : Db) : Option Task :=
  db.tasks.rows.find? (fun t =>
    t.id = k.taskID ∧ t.tenantID = k.tenantID ∧ t.projectID = k.projectID)

def RouteKey.view (db : Db) : RouteView :=
  ⟨k.task db, db.record k.planning, db.record k.route⟩

/-- A record that a command with this digest can reserve. -/
def Free (digest : String) (r : Option IdempotencyRow) : Prop :=
  ∀ row, r = some row → row.status = .failedRetryable ∧ row.requestDigest = digest

def Done (digest : String) (r : Option IdempotencyRow) : Prop :=
  ∃ row, r = some row ∧ row.status = .completed ∧ row.requestDigest = digest

/-- The record holds this decision for the command's task. -/
def Decides (r : Option IdempotencyRow) (d : RouteDecision) : Prop :=
  ∃ row, r = some row ∧ row.status = .completed ∧ row.requestDigest = k.requestDigest ∧
    row.load.responsePayload ≠ "" ∧ codec.unmarshalDecision row.load.responsePayload = some d ∧
    row.resourceID = k.taskID

theorem Decides.not_free {codec : Codec} {k : RouteKey} {r : Option IdempotencyRow}
    {d : RouteDecision} (h : Decides codec k r d) : ¬ Free k.requestDigest r := by
  obtain ⟨row, hrow, hst, _⟩ := h
  intro hfree
  rw [(hfree row hrow).1] at hst
  cases hst

theorem Free.not_final {digest : String} {r : Option IdempotencyRow} (h : Free digest r)
    {row : IdempotencyRow} (hrow : r = some row) : ¬ row.status.Final := by
  rw [(h row hrow).1]
  rintro (hf | hf) <;> cases hf

section

variable (codec : Codec) (k : RouteKey)

/-- A duplicate planned the new task. -/
structure Plans (v v' : RouteView) : Prop where
  created : v.status = some .created
  free : Free k.requestDigest v.planning
  planning : v'.status = some .planning
  done : Done k.requestDigest v'.planning
  route : v'.route = v.route

/-- A duplicate committed its route. -/
structure Routes (v v' : RouteView) (d : RouteDecision) : Prop where
  planning : v.status = some .planning
  free : Free k.requestDigest v.route
  routing : v'.status = some .routing
  decides : Decides codec k v'.route d
  kept : v'.planning = v.planning

/-- What duplicates may have done meanwhile. -/
inductive Later (v : RouteView) : RouteView → Prop
  | same : Later v v
  | planned {v' : RouteView} (plans : Plans k v v') : Later v v'
  | routed {v' : RouteView} {d : RouteDecision} (routes : Routes codec k v v' d) : Later v v'
  | both {u v' : RouteView} {d : RouteDecision} (plans : Plans k v u)
      (routes : Routes codec k u v' d) : Later v v'

end

variable {codec : Codec} {k : RouteKey} {v v' w : RouteView} {d : RouteDecision}

section

variable (h : Later codec k v v')

include h

theorem Later.of_routing (hv : v.status = some .routing) : v' = v := by
  cases h with
  | same => rfl
  | planned plans | both plans => cases hv.symm.trans plans.created
  | routed routes => cases hv.symm.trans routes.planning

theorem Later.of_planning (hv : v.status = some .planning) :
    v' = v ∨ v'.status = some .routing := by
  cases h with
  | same => exact .inl rfl
  | planned plans | both plans => cases hv.symm.trans plans.created
  | routed routes => exact .inr routes.routing

theorem Later.of_created (hv : v.status = some .created) :
    v' = v ∨ (v'.status ≠ some .created ∧ Done k.requestDigest v'.planning) := by
  cases h with
  | same => exact .inl rfl
  | planned plans =>
    refine .inr ⟨?_, plans.done⟩
    rw [plans.planning]
    decide
  | routed routes => cases hv.symm.trans routes.planning
  | both plans routes =>
    refine .inr ⟨?_, routes.kept ▸ plans.done⟩
    rw [routes.routing]
    decide

theorem Later.trans (h' : Later codec k v' w) : Later codec k v w := by
  cases h with
  | same => exact h'
  | planned plans =>
    cases h' with
    | same => exact .planned plans
    | planned plans' | both plans' => cases plans.planning.symm.trans plans'.created
    | routed routes => exact .both plans routes
  | routed routes =>
    rw [h'.of_routing routes.routing]
    exact .routed routes
  | both plans routes =>
    rw [h'.of_routing routes.routing]
    exact .both plans routes

end

theorem Decides.later (h : Decides codec k v.route d) (hl : Later codec k v v') :
    Decides codec k v'.route d := by
  cases hl with
  | same => exact h
  | planned plans => exact plans.route ▸ h
  | routed routes => exact absurd routes.free h.not_free
  | both plans routes => exact absurd (plans.route ▸ routes.free) h.not_free

/-- No result was there when the call looked for it. -/
def Unresolved (k : RouteKey) (v : RouteView) : Prop :=
  Free k.requestDigest v.route ∨ v.status = some .routing

theorem Unresolved.later (h : Unresolved k v) (hl : Later codec k v v') : Unresolved k v' := by
  cases hl with
  | same => exact h
  | planned plans =>
    rcases h with h | h
    · exact .inl (plans.route ▸ h)
    · cases h.symm.trans plans.created
  | routed routes | both plans routes => exact .inr routes.routing

/-- Where the command is, given that it will be decided. -/
inductive RoutePhase (codec : Codec) (k : RouteKey) (d : RouteDecision) (v : RouteView) : Prop
  | created (status : v.status = some .created) (free : Free k.requestDigest v.planning)
      (unrouted : Free k.requestDigest v.route)
  | planning (status : v.status = some .planning) (unrouted : Free k.requestDigest v.route)
  | routing (status : v.status = some .routing) (decides : Decides codec k v.route d)

theorem Later.phase (h : Later codec k v w) (hd : Decides codec k w.route d)
    (hv : Unresolved k v) : RoutePhase codec k d v := by
  cases h with
  | same => exact .routing (hv.resolve_left hd.not_free) hd
  | planned plans =>
    rw [plans.route] at hd
    cases (hv.resolve_left hd.not_free).symm.trans plans.created
  | routed routes => exact .planning routes.planning routes.free
  | both plans routes => exact .created plans.created plans.free (plans.route ▸ routes.free)

theorem Later.route (h : Later codec k v w) (hd : Decides codec k w.route d) :
    Decides codec k v.route d ∨ Free k.requestDigest v.route := by
  cases h with
  | same => exact .inl hd
  | planned plans => exact .inl (plans.route ▸ hd)
  | routed routes => exact .inr routes.free
  | both plans routes => exact .inr (plans.route ▸ routes.free)

variable {c : RouteCall} {db db' : Db} {p : Principal}

theorem route_ne_planning (k : RouteKey) : k.route ≠ k.planning := by
  intro h
  have hop : routeCommandOperation k.taskID = "task:route:planning:" ++ k.taskID :=
    congrArg IdempotencyKey.operation h
  -- the operations differ in their first character
  have hroute : (routeCommandOperation k.taskID).toList.head? = some 'P' :=
    head_append (head_append (by decide))
  have hplanning : ("task:route:planning:" ++ k.taskID).toList.head? = some 't' :=
    head_append (by decide)
  rw [hop, hplanning] at hroute
  exact absurd hroute (by decide)

theorem Duplicate.scope (hc : Duplicate k c) (hp : scopedPrincipal c.ctx = .ok p) :
    p.tenantID = k.tenantID ∧ p.projectID = k.projectID := by
  obtain ⟨p', hp', hscope⟩ := hc.caller
  rw [hp] at hp'
  cases hp'
  exact hscope

theorem Duplicate.scopedTask (hc : Duplicate k c) (hp : scopedPrincipal c.ctx = .ok p) (db : Db) :
    db.scopedTask p k.taskID = k.task db := by
  obtain ⟨htenant, hproject⟩ := hc.scope hp
  unfold Db.scopedTask RouteKey.task
  congr 1
  funext t
  refine decide_eq_decide.mpr ?_
  rw [InScope, htenant, hproject]

theorem Duplicate.task_of_mem (hc : Duplicate k c) (hp : scopedPrincipal c.ctx = .ok p) {t : Task}
    (hm : t ∈ db.tasks.rows) (hid : t.id = k.taskID)
    (hscope : InScope p t.tenantID t.projectID) : k.task db = some t := by
  rw [← hc.scopedTask hp, ← hid]
  exact scopedTask_of_mem hm hscope

theorem moved_sameVersion {current task : Task} {targets : List TaskStatus}
    {appended : List TaskEvent} (h : Moved p current task targets appended db db') :
    SameVersion { current.project task with version := current.version + appended.length }
      { task with version := task.version + appended.length } := by
  have howned := h.owned
  unfold Task.Disowns at howned
  simp only [not_or, not_not] at howned
  obtain ⟨htenant, hproject, hcreator⟩ := howned
  refine ⟨h.named.symm, htenant.symm, hproject.symm, hcreator.symm, ?_, rfl⟩
  change task.version + _ = current.version + _
  rw [h.version]

theorem view_after_move (hc : Duplicate k c) (hp : scopedPrincipal c.ctx = .ok p)
    {record result : IdempotencyRecord} {current task : Task} {targets : List TaskStatus}
    {appended : List TaskEvent} {db₁ db₂ : Db} (hid : task.id = k.taskID)
    (hres : Reserved record db db₁) (hmoved : Moved p current task targets appended db₁ db₂)
    (hdone : Completed codec result db₂ db') (hsame : SameRequest record result) :
    k.task db = some current ∧
      k.task db' = some
        { current.project task with version := current.version + appended.length } ∧
      ∀ key, key ≠ record.rowKey → db'.record key = db.record key := by
  obtain ⟨rows, rfl⟩ := hres.table
  obtain ⟨rows', rfl⟩ := hdone.table
  have hcurrent : current.id = k.taskID := hmoved.named.trans hid
  refine ⟨hc.task_of_mem hp hmoved.write.mem hcurrent hmoved.write.scope, ?_, ?_⟩
  · exact hc.task_of_mem hp hmoved.write.written hcurrent hmoved.write.scope
  · intro key hkey
    rw [hdone.others key (by rw [hsame.1]; exact hkey), record_congr hmoved.write.records,
      hres.others key hkey]

variable {now : Time}

theorem commitTransition_plans (hc : Duplicate k c) {command : TaskCommandCommit}
    {r : TaskCommandCommitResult} (h : commitTransition codec c.ctx now command db = .ok (r, db'))
    (hid : command.task.id = k.taskID) (hkey : command.idempotency.rowKey = k.planning)
    (hdigest : command.idempotency.requestDigest = k.requestDigest)
    (hstatus : command.idempotency.status = .completed)
    (hsource : command.transition.source = .created) (htarget : command.task.status = .planning) :
    (r.replayed = true ∧ db' = db ∧ ∃ row, db.record k.planning = some row ∧ row.status.Final) ∨
      (r.replayed = false ∧ Plans k (k.view db) (k.view db') ∧ ∃ row task, r.task = some task ∧
        task.id = k.taskID ∧ task.status = .planning ∧ (k.view db').task = some row ∧
        row.status = .planning ∧ SameVersion row task) := by
  obtain ⟨p, hadm, ⟨⟨row, hrow, _, _, hfinal⟩, hrep, hdb⟩ | ⟨db₁, hown, hbody⟩⟩ :=
    commitTransition_ran h
  · exact .inl ⟨hrep, hdb, row, hkey ▸ hrow, hfinal⟩
  · obtain ⟨_, _, hscope⟩ := except_bind_ok.mp hadm
    have hp := scopedPrincipal_of_admitScope hscope
    obtain ⟨current, event, db₂, hdone, _, hmoved, hsrc, _, hsame, htask, hrep⟩ :=
      transitionBody_inv hbody
    obtain ⟨hbefore, hafter, hothers⟩ := view_after_move hc hp hid hown hmoved hdone hsame
    obtain ⟨row, payload, _, hdig, _, hnew⟩ := hdone.stored
    rw [hsame.1, hkey] at hnew
    refine .inr ⟨hrep, ⟨?_, ?_, ?_, ?_, ?_⟩, _, _, htask, hid, htarget, hafter, htarget,
      moved_sameVersion hmoved⟩
    · simp [RouteView.status, RouteKey.view, hbefore, ← hsrc, hsource]
    · intro row' hrow'
      rw [← hdigest]
      exact hown.free row' (hkey ▸ hrow')
    · simp [RouteView.status, RouteKey.view, hafter, Task.project, htarget]
    · refine ⟨_, hnew, hsame.2.2.trans hstatus, ?_⟩
      exact hdig.trans (hsame.2.1.trans hdigest)
    · exact hothers k.route (hkey ▸ route_ne_planning k)

theorem Planned.stored {command : RouteTaskCommandCommit} {taskID : String}
    (h : Planned codec taskID command.decision) : command.stored taskID = command.decision := by
  unfold RouteTaskCommandCommit.stored
  rw [if_neg h.createdAt, ← h.taskID]

theorem Planned.decides {taskID context : String} {decision : RouteDecision}
    {result : IdempotencyRecord} {payload : Option String} (h : Planned codec taskID decision)
    (htext : codec.marshalDecision decision = some result.responsePayload)
    (hcolumn : codec.payloadColumn result.responsePayload context = .ok payload)
    (row : IdempotencyRow) : (row.finish result payload).load.responsePayload ≠ "" ∧
    codec.unmarshalDecision (row.finish result payload).load.responsePayload = some decision := by
  obtain ⟨hne, hdecode⟩ := h.decodes _ htext
  simp only [IdempotencyRow.load, IdempotencyRow.finish]
  rcases payloadColumn_ok hcolumn with ⟨he, _⟩ | ⟨_, stored, hj, rfl⟩
  · exact absurd he hne
  obtain ⟨hs, hnull, hd⟩ := hdecode stored hj
  simp only [if_neg hnull]
  exact ⟨hs, hd⟩

theorem commitRouteTransition_routes (hc : Duplicate k c) {priced : Bool}
    {command : RouteTaskCommandCommit} {r : RouteTaskCommandResult}
    (h : commitRouteTransition codec c.ctx priced now command db = .ok (r, db'))
    (hid : command.task.id = k.taskID) (hkey : command.idempotency.rowKey = k.route)
    (hdigest : command.idempotency.requestDigest = k.requestDigest)
    (hstatus : command.idempotency.status = .completed)
    (hplanned : Planned codec k.taskID command.decision) :
    (r.replayed = true ∧ db' = db ∧ ∃ row, db.record k.route = some row ∧ row.status.Final) ∨
      (r.replayed = false ∧ r.decision = some command.decision ∧
        Routes codec k (k.view db) (k.view db') command.decision) := by
  obtain ⟨p, hadm, ⟨⟨row, hrow, _, _, hfinal⟩, hrep, hdb⟩ | ⟨db₁, hown, hbody⟩⟩ :=
    commitRouteTransition_ran h
  · exact .inl ⟨hrep, hdb, row, hkey ▸ hrow, hfinal⟩
  · obtain ⟨_, _, hscope⟩ := except_bind_ok.mp hadm
    have hp := scopedPrincipal_of_admitScope hscope
    obtain ⟨current, event, db₂, hdone, _, hmoved, hplanning, _, hsame, hresource, hdecision,
      htext, hrep⟩ := routeBody_inv hbody
    have hrouted : command.routed.id = k.taskID := hid
    have hcurrent : current.id = k.taskID := hmoved.named.trans hrouted
    rw [hcurrent, hplanned.stored] at hdecision htext
    obtain ⟨hbefore, hafter, hothers⟩ := view_after_move hc hp hrouted hown hmoved hdone hsame
    obtain ⟨row, payload, _, hdig, hcolumn, hnew⟩ := hdone.stored
    rw [hsame.1, hkey] at hnew
    obtain ⟨hpayload, hdecode⟩ := hplanned.decides htext hcolumn row
    refine .inr ⟨hrep, hdecision, ?_, ?_, ?_, ?_, ?_⟩
    · simp [RouteView.status, RouteKey.view, hbefore, hplanning]
    · intro row' hrow'
      rw [← hdigest]
      exact hown.free row' (hkey ▸ hrow')
    · have hlast : command.routed.status = .routing := (Option.some.inj hmoved.last).symm
      simp [RouteView.status, RouteKey.view, hafter, Task.project, hlast]
    · refine ⟨_, hnew, hsame.2.2.trans hstatus, ?_, hpayload, hdecode, ?_⟩
      · exact hdig.trans (hsame.2.1.trans hdigest)
      · exact hresource.trans hcurrent
    · exact hothers k.planning (hkey ▸ (route_ne_planning k).symm)

theorem commandRecord_valid {m : CommandMetadata} {operation key : String}
    {status : IdempotencyStatus} {responseCode : Int} (hp : p.InProject) (hm : m.validate = .ok ())
    (hop : ¬ Blank operation) (hkey : ¬ Blank key) (hstatus : status.Known) (hnow : 0 < now) :
    (commandRecord p m operation key status responseCode now).validate codec = .ok () := by
  have hdigest : ¬ Blank (trimSpace m.requestDigest) := by
    rw [blank_trimSpace]
    unfold CommandMetadata.validate at hm
    split at hm
    · cases hm
    · exact (not_or.mp ‹_›).2
  have hlater : now < now + recordLifetime := by
    have : (0 : Int) < recordLifetime := by decide
    exact Int.lt_add_of_pos_right now this
  have hexpires : now + recordLifetime ≠ 0 := Int.ne_of_gt (Int.lt_trans hnow hlater)
  simp [IdempotencyRecord.validate, commandRecord, hp.tenant, hp.project, hop, hkey, hdigest,
    Int.ne_of_gt hnow, hexpires, hlater, hstatus]

theorem getTask_stops (hp : scopedPrincipal c.ctx = .ok p) {id : String} {t : Task}
    (hfound : db.scopedTask p id = some t) : DatabaseOnly (getTask c.ctx id) db := by
  unfold getTask
  rw [hp]
  refine Tx.stopsOnly_lift rfl ?_
  intro e he
  simp only [Tx.query, hfound] at he
  cases he

end AiCloud.ControlPlane
