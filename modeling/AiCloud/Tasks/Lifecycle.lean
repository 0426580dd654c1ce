import AiCloud.Tasks.Log

/-!
# How commands move a task's status

Every command leaves the statuses alone, creates a CREATED task, or moves one task
through a list of targets and appends the canonical event of each. Only
`CommitTransition` takes its target from the caller without asking `CanTransition`.
Replaying the events of a task gives its status back.
-/
namespace AiCloud.Tasks

open Lib Identity Execution List

/-- The command's own transition is one of the lifecycle. -/
def Op.Guarded : Op → Prop
  | .commitTransition command => command.transition.source.canTransition command.transition.target
  | _ => True

instance : DecidablePred Op.Guarded
  | .commitTransition command =>
    inferInstanceAs (Decidable (command.transition.source.canTransition command.transition.target))
  | .createTask _ | .commitRouteTransition _ _ | .commitRouteSelection _ _ _
  | .beginModelExecution _ | .finalizeModelExecution _ | .markModelExecutionRetryable _ =>
    inferInstanceAs (Decidable True)

def Op.Finalizes : Op → Prop
  | .finalizeModelExecution _ => True
  | _ => False

/-- One allowed transition, or the two a finalization commits at once. -/
def Op.Allows (op : Op) (source : TaskStatus) (targets : List TaskStatus) : Prop :=
  (∃ target, targets = [target] ∧ source.canTransition target) ∨
    (op.Finalizes ∧ source = .executing ∧ targets = [.validating, .completed])

/-- One task was rewritten and got new events. -/
structure Rewrites (current : Task) (f : Task → Task) (appended : List TaskEvent) (db db' : Db) :
    Prop where
  mem : current ∈ db.tasks.rows
  keeps : ∀ t, (f t).id = t.id
  tasks : db'.tasks.rows = db.tasks.rows.map (Table.touch (fun t => t.id = current.id) f)
  events : db'.events.rows = db.events.rows ++ appended
  owns : ∀ e ∈ appended, Owns current e

variable {appended : List TaskEvent} {f : Task → Task} {current : Task} {db : Db} {db' : Db}

theorem TaskWrite.rewrites {p : Principal} (h : TaskWrite p current f appended db db') :
    Rewrites current (fun t => { f t with version := t.version + appended.length })
      appended db db' :=
  ⟨h.mem, fun t => (h.keeps t).1, h.tasks, h.events, h.owns⟩

theorem Rewrites.congr
    {a b a' b' : Db} (h : Rewrites current f appended a b) (ht : a'.tasks.rows = a.tasks.rows)
    (he : a'.events.rows = a.events.rows) (ht' : b'.tasks.rows = b.tasks.rows)
    (he' : b'.events.rows = b.events.rows) : Rewrites current f appended a' b' :=
  ⟨by rw [ht]; exact h.mem, h.keeps, by rw [ht', h.tasks, ht], by rw [he', h.events, he], h.owns⟩

/-- A row after the write is the rewritten task with its new events, or an old
row whose events are the same. -/
theorem Rewrites.row (h : Rewrites current f appended db db') {t' : Task}
    (ht : t' ∈ db'.tasks.rows) :
    (t' = f current ∧ db'.eventsOf t'.id = db.eventsOf current.id ++ appended) ∨
      (t' ∈ db.tasks.rows ∧ t'.id ≠ current.id ∧ db'.eventsOf t'.id = db.eventsOf t'.id) := by
  rw [h.tasks] at ht
  obtain ⟨t, hm, rfl⟩ := mem_map.mp ht
  by_cases hid : t.id = current.id
  · obtain rfl : t = current := task_unique hm h.mem hid
    have htouch : Table.touch (fun x => x.id = t.id) f t = f t := if_pos rfl
    rw [htouch, h.keeps, eventsOf_append h.events, select_owned h.owns]
    exact .inl ⟨rfl, rfl⟩
  · have htouch : Table.touch (fun x => x.id = current.id) f t = t := if_neg hid
    rw [htouch, eventsOf_append h.events, select_foreign h.owns hid, append_nil]
    exact .inr ⟨hm, hid, rfl⟩

/-- What a command did to the statuses and their events. -/
inductive Change (op : Op) (db db' : Db) : Prop
  | same (tasks : db'.tasks.rows = db.tasks.rows) (events : db'.events.rows = db.events.rows)
  | created (task : Task) (event : TaskEvent) (fresh : ∀ t ∈ db.tasks.rows, t.id ≠ task.id)
      (tasks : db'.tasks.rows = db.tasks.rows ++ [task])
      (events : db'.events.rows = db.events.rows ++ [event]) (owns : Owns task event)
      (status : task.status = .created) (type : event.eventType = "TaskCreated")
  | moved (current : Task) (f : Task → Task) (target : TaskStatus) (targets : List TaskStatus)
      (appended : List TaskEvent) (rewrites : Rewrites current f appended db db')
      (status : ∀ t, (f t).status = target) (last : targets.getLast? = some target)
      (types : targets.map canonicalTaskStateEvent = appended.map (fun e => some e.eventType))
      (allowed : op.Guarded → op.Allows current.status targets)
  | selected (current : Task) (f : Task → Task) (event : TaskEvent)
      (rewrites : Rewrites current f [event] db db') (status : ∀ t, (f t).status = t.status)
      (type : event.eventType = "TaskRouteSelected")

/-- Only the task and event rows matter. -/
theorem Change.congr {op : Op} {a b a' b' : Db} (h : Change op a b)
    (ht : a'.tasks.rows = a.tasks.rows) (he : a'.events.rows = a.events.rows)
    (ht' : b'.tasks.rows = b.tasks.rows) (he' : b'.events.rows = b.events.rows) :
    Change op a' b' := by
  cases h with
  | same tasks events => exact .same (by rw [ht', tasks, ht]) (by rw [he', events, he])
  | created task event fresh tasks events owns status type =>
    exact .created task event (by rw [ht]; exact fresh) (by rw [ht', tasks, ht])
      (by rw [he', events, he]) owns status type
  | moved current f target targets appended rewrites status last types allowed =>
    exact .moved current f target targets appended (rewrites.congr ht he ht' he') status last types
      allowed
  | selected current f event rewrites status type =>
    exact .selected current f event (rewrites.congr ht he ht' he') status type

variable {targets : List TaskStatus} {op : Op}

theorem Moved.change {p : Principal} {current task : Task}
    (h : Moved p current task targets appended db db')
    (hallowed : op.Guarded → op.Allows current.status targets) : Change op db db' :=
  .moved current _ task.status targets appended h.write.rewrites (fun _ => rfl) h.last h.types
    hallowed

theorem Change.completed {codec : Codec} {result : IdempotencyRecord} {db₂ : Db}
    (h : Change op db db₂) (hdone : Completed codec result db₂ db') : Change op db db' := by
  obtain ⟨t, rfl⟩ := hdone.table
  exact h.congr rfl rfl rfl rfl

theorem Ran.change {α : Type} {record : IdempotencyRecord} {result : α → IdempotencyRecord}
    {replayed : α → Bool} {body : CommandTx α} {r : α}
    (h : Ran record result replayed body r db db')
    (hbody : ∀ db₁ db', body db₁ = .ok (r, db') → Change op db₁ db') : Change op db db' := by
  rcases h with ⟨_, _, rfl⟩ | ⟨db₁, hown, hr⟩
  · exact .same rfl rfl
  · obtain ⟨t, rfl⟩ := hown.table
    exact (hbody _ _ hr).congr rfl rfl rfl rfl

variable {codec : Codec} {ctx : Context} {now : Time} {db db' : Db}

theorem createTask_change {command : TaskCreateCommit} {r : TaskCommandCommitResult}
    (h : createTask codec ctx now command db = .ok (r, db')) :
    Change (.createTask command) db db' := by
  obtain ⟨p, task, hadm, hran⟩ := createTask_ran h
  obtain ⟨hv, _⟩ := admitCreate_ok hadm
  refine hran.change ?_
  intro db₁ db' hr
  obtain ⟨event, db₂, hcomp, _, hfresh, ht, he, howns, _, htype, _⟩ := createBody_inv hr
  exact Change.completed (.created task event hfresh ht he howns hv.1 htype) hcomp

theorem commitTransition_change {command : TaskCommandCommit} {r : TaskCommandCommitResult}
    (h : commitTransition codec ctx now command db = .ok (r, db')) :
    Change (.commitTransition command) db db' := by
  obtain ⟨p, _, hran⟩ := commitTransition_ran h
  refine hran.change ?_
  intro db₁ db' hr
  obtain ⟨current, event, db₂, hcomp, _, hmoved, hsource, htarget, _⟩ := transitionBody_inv hr
  refine (hmoved.change (fun hg => .inl ⟨_, rfl, ?_⟩)).completed hcomp
  rw [← hsource, ← htarget]
  exact hg

theorem commitRouteTransition_change {priced : Bool}
    {command : RouteTaskCommandCommit} {r : RouteTaskCommandResult}
    (h : commitRouteTransition codec ctx priced now command db = .ok (r, db')) :
    Change (.commitRouteTransition priced command) db db' := by
  obtain ⟨p, _, hran⟩ := commitRouteTransition_ran h
  refine hran.change ?_
  intro db₁ db' hr
  obtain ⟨current, event, db₂, hcomp, _, hmoved, hstatus, _⟩ := routeBody_inv hr
  refine (hmoved.change (fun _ => .inl ⟨_, rfl, ?_⟩)).completed hcomp
  rw [hstatus]
  rfl

theorem commitRouteSelection_change {priced : Bool}
    {updateClock now : Time} {command : RouteSelectionCommit} {r : RouteSelectionResult}
    (h : commitRouteSelection codec ctx priced updateClock now command db = .ok (r, db')) :
    Change (.commitRouteSelection priced updateClock command) db db' := by
  obtain ⟨p, _, hran⟩ := commitRouteSelection_ran h
  refine hran.change ?_
  intro db₁ db' hr
  obtain ⟨current, event, updatedAt, db₂, hcomp, _, hwrite, htype, _⟩ := selectionBody_inv hr
  exact Change.completed (.selected current _ event hwrite.rewrites (fun _ => rfl) htype) hcomp

theorem beginModelExecution_change
    {command : ModelExecutionBeginCommit} {r : ModelExecutionBeginResult}
    (h : beginModelExecution codec ctx now command db = .ok (r, db')) :
    Change (.beginModelExecution command) db db' := by
  obtain ⟨p, _, hran⟩ := beginModelExecution_ran h
  refine hran.change ?_
  intro db₁ db' hr
  obtain ⟨task, _, hstep, _⟩ := beginBody_inv hr
  cases hstep with
  | first current event status moved outbox result =>
    refine moved.change (fun _ => .inl ⟨_, rfl, ?_⟩)
    rw [status]
    rfl
  | again mem named scope status version same =>
    rw [same]
    exact .same rfl rfl

theorem finalizeModelExecution_change
    {command : ModelExecutionFinalizeCommit} {r : ModelExecutionFinalizeResult}
    (h : finalizeModelExecution codec ctx now command db = .ok (r, db')) :
    Change (.finalizeModelExecution command) db db' := by
  obtain ⟨p, _, h⟩ := Tx.lift_bind_ok.mp h
  obtain ⟨current, appended, db₂, hcomp, _, hmoved, hstatus, hpath, _⟩ := finalizeBody_inv h
  refine (hmoved.change (fun _ => ?_)).completed hcomp
  rcases hpath with ⟨htargets, _⟩ | ⟨htargets, _⟩
  · exact .inr ⟨trivial, hstatus, htargets⟩
  · refine .inl ⟨_, htargets, ?_⟩
    rw [hstatus]
    rfl

theorem exec_change {c : Call} {reply : Reply}
    (h : exec codec db c = (.ok reply, db')) : Change c.op db db' := by
  have hran := exec_executed h
  obtain ⟨ctx, now, op⟩ := c
  cases hran with
  | createTask hr => exact createTask_change hr
  | commitTransition hr => exact commitTransition_change hr
  | commitRouteTransition hr => exact commitRouteTransition_change hr
  | commitRouteSelection hr => exact commitRouteSelection_change hr
  | beginModelExecution hr => exact beginModelExecution_change hr
  | finalizeModelExecution hr => exact finalizeModelExecution_change hr
  | markModelExecutionRetryable hr =>
    obtain ⟨t, rfl⟩ := (markModelExecutionRetryable_inv hr).1.table
    exact .same rfl rfl

/-- A row after a guarded command: new, of unchanged status, or moved as the
lifecycle allows. -/
theorem Change.status (h : Change op db db') (hg : op.Guarded) {t t' : Task}
    (ht : t ∈ db.tasks.rows) (ht' : t' ∈ db'.tasks.rows) (hid : t'.id = t.id) :
    t'.status = t.status ∨
      ∃ targets, targets.getLast? = some t'.status ∧ op.Allows t.status targets := by
  cases h with
  | same tasks events =>
    rw [tasks] at ht'
    exact .inl (congrArg Task.status (task_unique ht' ht hid))
  | created task event fresh tasks events owns status type =>
    rw [tasks] at ht'
    rcases mem_append.mp ht' with hold | hnew
    · exact .inl (congrArg Task.status (task_unique hold ht hid))
    · rw [mem_singleton.mp hnew] at hid
      exact absurd hid.symm (fresh t ht)
  | moved current f target targets appended rewrites status last types allowed =>
    rcases rewrites.row ht' with ⟨rfl, _⟩ | ⟨hold, _⟩
    · rw [rewrites.keeps] at hid
      obtain rfl : current = t := task_unique rewrites.mem ht hid
      rw [status]
      exact .inr ⟨targets, last, allowed hg⟩
    · exact .inl (congrArg Task.status (task_unique hold ht hid))
  | selected current f event rewrites status type =>
    rcases rewrites.row ht' with ⟨rfl, _⟩ | ⟨hold, _⟩
    · rw [rewrites.keeps] at hid
      obtain rfl : current = t := task_unique rewrites.mem ht hid
      exact .inl (status current)
    · exact .inl (congrArg Task.status (task_unique hold ht hid))

theorem exec_status {c : Call} (hg : c.op.Guarded) {t t' : Task} (ht : t ∈ db.tasks.rows)
    (ht' : t' ∈ (exec codec db c).2.tasks.rows) (hid : t'.id = t.id) : t'.status = t.status ∨
    ∃ targets, targets.getLast? = some t'.status ∧ c.op.Allows t.status targets := by
  rcases exec_db codec db c with hdb | ⟨_, hc⟩
  · rw [hdb] at ht'
    exact .inl (congrArg Task.status (task_unique ht' ht hid))
  · exact (exec_change hc).status hg ht ht' hid

/-- A committed change of status that the lifecycle allows: one transition, or
EXECUTING to COMPLETED through VALIDATING by a finalization. -/
def Op.Moves (op : Op) (source target : TaskStatus) : Prop :=
  source.canTransition target ∨ (op.Finalizes ∧ source = .executing ∧ target = .completed ∧
    source.canTransition .validating ∧ TaskStatus.validating.canTransition target)

theorem Op.Allows.moves {source target : TaskStatus}
    (h : op.Allows source targets) (hlast : targets.getLast? = some target) :
    op.Moves source target := by
  rcases h with ⟨only, rfl, hcan⟩ | ⟨hop, rfl, rfl⟩
  · cases hlast
    exact .inl hcan
  · cases hlast
    exact .inr ⟨hop, rfl, rfl, rfl, rfl⟩

theorem Op.Moves.not_terminal {source target : TaskStatus} (h : op.Moves source target) :
    source.isTerminal = false := by
  rcases h with hcan | ⟨_, rfl, _⟩
  · cases hs : source.isTerminal with
    | false => rfl
    | true =>
      rw [canTransition_terminal hs] at hcan
      cases hcan
  · rfl

theorem exec_holds (c : Call) {t : Task} (ht : t ∈ db.tasks.rows) :
    ∃ t' ∈ (exec codec db c).2.tasks.rows, t'.id = t.id := by
  obtain ⟨t', hm, hid, _⟩ := (exec_log codec db c).holds ⟨t, ht, rfl, rfl, rfl⟩
  exact ⟨t', hm, hid⟩

/-- Over guarded calls a terminal task keeps its status. -/
theorem terminal_stays {t : Task} (ht : t ∈ db.tasks.rows) (hterminal : t.isTerminal)
    (later : List Call) (hg : ∀ c ∈ later, c.op.Guarded) :
    ∃ t' ∈ (run (exec codec) db later).tasks.rows, t'.id = t.id ∧ t'.status = t.status := by
  induction later using reverseRecOn with
  | nil => exact ⟨t, ht, rfl, rfl⟩
  | append_singleton pre c ih =>
    obtain ⟨u, hu, hid, hstatus⟩ := ih (fun c hc => hg c (mem_append_left _ hc))
    rw [run_append]
    obtain ⟨t', ht', hid'⟩ := exec_holds c hu
    refine ⟨t', ht', hid'.trans hid, ?_⟩
    have hc : c.op.Guarded := hg c mem_concat_self
    rcases exec_status hc hu ht' hid' with hs | ⟨targets, hlast, hallows⟩
    · exact hs.trans hstatus
    have hnot := (hallows.moves hlast).not_terminal
    unfold Task.isTerminal at hterminal
    rw [hstatus, hterminal] at hnot
    cases hnot

/-- In every run, a command whose own transition is one of the lifecycle
changes a status only along the lifecycle, and over such commands a terminal
task never changes status again. -/
theorem status_follows_lifecycle (codec : Codec) (calls : List Call) (t : Task)
    (ht : t ∈ (after codec calls).tasks.rows) :
    (∀ c : Call, c.op.Guarded → ∀ t' ∈ (after codec (calls ++ [c])).tasks.rows, t'.id = t.id →
      t'.status = t.status ∨ c.op.Moves t.status t'.status) ∧
    (t.isTerminal → ∀ later : List Call, (∀ c ∈ later, c.op.Guarded) →
      ∀ t' ∈ (after codec (calls ++ later)).tasks.rows, t'.id = t.id → t'.status = t.status) := by
  refine ⟨?_, ?_⟩
  · intro c hg t' ht' hid
    unfold after at ht' ht
    rw [run_append] at ht'
    rcases exec_status hg ht ht' hid with hs | ⟨targets, hlast, hallows⟩
    · exact .inl hs
    · exact .inr (hallows.moves hlast)
  · intro hterminal later hg t' ht' hid
    unfold after at ht' ht
    rw [run_append] at ht'
    obtain ⟨u, hu, huid, hstatus⟩ := terminal_stays ht hterminal later hg
    obtain rfl : t' = u := task_unique ht' hu (hid.trans huid.symm)
    exact hstatus

/-- A transition committed without asking the lifecycle. -/
def moveCall (source target : TaskStatus) (version : Int) (eventID eventType : String) : Call :=
  ⟨some sampleCaller, 3, .commitTransition ⟨sampleTask target version,
    ⟨source, target, "u", "c", 3⟩, sampleEvent eventID eventType, [],
    sampleRecord "step" eventID "d"⟩⟩

/-- ROUTING to EXECUTING. -/
def beginCall : Call :=
  ⟨some sampleCaller, 5, .beginModelExecution ⟨sampleTask .executing 3,
    some ⟨.routing, .executing, "u", "c", 5⟩, some (sampleEvent "e4" "TaskExecutionStarted"),
    { sampleRecord "model" "k" "d" with status := .inProgress }⟩⟩

def finalizeCall : Call :=
  ⟨some sampleCaller, 6, .finalizeModelExecution ⟨sampleTask .completed 4,
    [⟨.executing, .validating, "u", "c", 6⟩, ⟨.validating, .completed, "u", "c", 6⟩],
    [sampleEvent "e5" "TaskValidationStarted", sampleEvent "e6" "TaskCompleted"],
    sampleRecord "model" "k" "d"⟩⟩

def executingCalls : List Call :=
  [createCall, planCall, moveCall .planning .routing 2 "e3" "TaskRoutingStarted", beginCall]

theorem status_follows_lifecycle_finalized : finalizeCall.op.Moves .executing .completed ∧
    ∀ t' ∈ (after sampleCodec (executingCalls ++ [finalizeCall] ++ [planCall])).tasks.rows,
      t'.id = "task" → t'.status = .completed := by
  have hmove := (status_follows_lifecycle sampleCodec executingCalls (sampleTask .executing 4)
    (by decide +kernel)).1 finalizeCall trivial (sampleTask .completed 6) (by decide +kernel) rfl
  have hstay := (status_follows_lifecycle sampleCodec (executingCalls ++ [finalizeCall])
    (sampleTask .completed 6) (by decide +kernel)).2 rfl [planCall] (by decide)
  exact ⟨hmove.resolve_left (by decide), hstay⟩

/-- Finalizing commits EXECUTING to COMPLETED, which is no single transition of
the lifecycle, and a plain commit reopens a completed task. -/
theorem status_leaves_lifecycle : (∃ t ∈ (after sampleCodec executingCalls).tasks.rows,
      ∃ t' ∈ (after sampleCodec (executingCalls ++ [finalizeCall])).tasks.rows,
        t'.id = t.id ∧ t'.status ≠ t.status ∧ t.canTransition t'.status = false) ∧
    (∃ t ∈ (after sampleCodec (executingCalls ++ [finalizeCall])).tasks.rows,
      ∃ t' ∈ (after sampleCodec (executingCalls ++ [finalizeCall,
          moveCall .completed .created 6 "e7" "TaskCreated"])).tasks.rows,
        t'.id = t.id ∧ t.isTerminal ∧ t'.status = .created) := by
  decide +kernel

/-- The statuses that have a canonical event. -/
def TaskStatus.canonical : List TaskStatus :=
  [.created, .planning, .routing, .executing, .waitingApproval, .validating, .completed, .failed,
    .cancelled, .expired]

/-- The status whose canonical event type this is. -/
def eventStatus (eventType : String) : Option TaskStatus :=
  TaskStatus.canonical.find? (fun s => canonicalTaskStateEvent s = some eventType)

/-- One event on the status reached so far; a type without a status stops the replay. -/
def replayEvent (status : Option TaskStatus) (e : TaskEvent) : Option (Option TaskStatus) :=
  if e.eventType = "TaskRouteSelected" then some status else (eventStatus e.eventType).map some

def replay (events : List TaskEvent) : Option TaskStatus := (events.foldlM replayEvent none).join

/-- `SELECT ... FROM task_events WHERE task_id = $1 ORDER BY sequence`. -/
def Db.history (db : Db) (taskID : String) : List TaskEvent :=
  (db.eventsOf taskID).mergeSort (fun a b => a.sequence ≤ b.sequence)

theorem eventStatus_canonical {s : TaskStatus} {eventType : String}
    (h : canonicalTaskStateEvent s = some eventType) :
    eventType ≠ "TaskRouteSelected" ∧ eventStatus eventType = some s := by
  cases s <;> cases h <;> decide

variable {events : List TaskEvent}

theorem foldlM_canonical
    (h : targets.map canonicalTaskStateEvent = events.map (fun e => some e.eventType))
    (s : Option TaskStatus) : events.foldlM replayEvent s = some (targets.getLast?.or s) := by
  induction events generalizing targets s with
  | nil =>
    have hnil : targets = [] := map_eq_nil_iff.mp h
    rw [hnil]
    rfl
  | cons e rest ih =>
    cases targets with
    | nil => cases h
    | cons target more =>
      obtain ⟨htype, hrest⟩ := cons.inj h
      obtain ⟨hne, hstatus⟩ := eventStatus_canonical htype
      have hstep : replayEvent s e = some (some target) := by
        unfold replayEvent
        rw [if_neg hne, hstatus]
        rfl
      rw [foldlM_cons, hstep]
      change rest.foldlM replayEvent (some target) = _
      rw [ih hrest, getLast?_cons]
      cases more.getLast? <;> rfl

theorem replay_append_canonical {appended : List TaskEvent} {s target : TaskStatus}
    (h : replay events = some s)
    (htypes : targets.map canonicalTaskStateEvent = appended.map (fun e => some e.eventType))
    (hlast : targets.getLast? = some target) : replay (events ++ appended) = some target := by
  unfold replay at h ⊢
  rw [foldlM_append]
  obtain ⟨s', hs⟩ : ∃ s', events.foldlM replayEvent none = some s' := by
    cases hf : events.foldlM replayEvent none with
    | none =>
      rw [hf] at h
      cases h
    | some s' => exact ⟨s', rfl⟩
  rw [hs]
  change (appended.foldlM replayEvent s').join = _
  rw [foldlM_canonical htypes, hlast]
  rfl

theorem replay_append_selected {event : TaskEvent} (h : event.eventType = "TaskRouteSelected") :
    replay (events ++ [event]) = replay events := by
  unfold replay
  rw [foldlM_append]
  cases events.foldlM replayEvent none with
  | none => rfl
  | some s =>
    change ([event].foldlM replayEvent s).join = s
    simp [replayEvent, h]

/-- The log replays to the stored status of every task. -/
def Projected (db : Db) : Prop := ∀ t ∈ db.tasks.rows, replay (db.eventsOf t.id) = some t.status

theorem Projected.step (h : Projected db) (hn : Numbered db) (hc : Change op db db') :
    Projected db' := by
  intro t' ht'
  cases hc with
  | same tasks events =>
    have hev : db'.eventsOf t'.id = db.eventsOf t'.id := by
      unfold Db.eventsOf
      rw [events]
    rw [hev]
    exact h t' (tasks ▸ ht')
  | created task event fresh tasks events owns status type =>
    have hown : ∀ e ∈ [event], Owns task e := fun e hm => by
      rw [mem_singleton.mp hm]
      exact owns
    rw [tasks] at ht'
    rcases mem_append.mp ht' with hold | hnew
    · rw [eventsOf_append events, select_foreign hown (fresh t' hold), append_nil]
      exact h t' hold
    · rw [mem_singleton.mp hnew, eventsOf_append events, hn.eventsOf_fresh fresh,
        select_owned hown, status]
      have hreplay : replay [event] = some .created := by
        unfold replay replayEvent
        simp only [foldlM_cons, foldlM_nil, type]
        decide
      exact hreplay
  | moved current f target targets appended rewrites status last types allowed =>
    rcases rewrites.row ht' with ⟨rfl, hev⟩ | ⟨hold, _, hev⟩
    · rw [hev, status]
      exact replay_append_canonical (h current rewrites.mem) types last
    · rw [hev]
      exact h t' hold
  | selected current f event rewrites status type =>
    rcases rewrites.row ht' with ⟨rfl, hev⟩ | ⟨hold, _, hev⟩
    · rw [hev, status, replay_append_selected type]
      exact h current rewrites.mem
    · rw [hev]
      exact h t' hold

theorem exec_projected {codec : Codec} (h : Projected db) (hn : Numbered db) (c : Call) :
    Projected (exec codec db c).2 := by
  rcases exec_db codec db c with hdb | ⟨_, hc⟩
  · rw [hdb]
    exact h
  · exact h.step hn (exec_change hc)

theorem projected_after (codec : Codec) (calls : List Call) : Projected (after codec calls) :=
  run_invariant (I := fun _ => Projected) (fun _ hm => absurd hm not_mem_nil)
    (fun pre c hp => exec_projected hp (numbered_after codec pre) c) calls

theorem Numbered.history (h : Numbered db) {t : Task} (ht : t ∈ db.tasks.rows) :
    db.history t.id = db.eventsOf t.id := by
  unfold Db.history
  apply mergeSort_of_pairwise
  have hsorted : ((db.eventsOf t.id).map TaskEvent.sequence).Pairwise (· ≤ ·) := by
    rw [h.sequences t ht]
    unfold numbersFrom
    rw [pairwise_map]
    exact pairwise_lt_range.imp (fun hlt => by omega)
  rw [pairwise_map] at hsorted
  exact hsorted.imp decide_eq_true

/-- In every reachable state, replaying a task's events in sequence order ends
in the status its row has. -/
theorem replay_history_eq_status (codec : Codec) (calls : List Call) (t : Task)
    (ht : t ∈ (after codec calls).tasks.rows) :
    replay ((after codec calls).history t.id) = some t.status := by
  rw [(numbered_after codec calls).history ht]
  exact projected_after codec calls t ht

theorem replay_history_eq_status_finalized :
    replay ((after sampleCodec (executingCalls ++ [finalizeCall])).history "task") =
      some .completed :=
  replay_history_eq_status sampleCodec (executingCalls ++ [finalizeCall]) (sampleTask .completed 6)
    (by decide +kernel)

end AiCloud.Tasks
