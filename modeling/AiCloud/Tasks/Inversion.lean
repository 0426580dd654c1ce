import AiCloud.Tasks.Statements

/-!
# What a successful body did

Each command body, inverted once: the row it locked, what it checked of its
arguments, what it wrote to tasks and events, and the record it completed. All
later facts about commands come from here.
-/
namespace AiCloud.Tasks

open Lib Identity Execution Tx Table List

def Owns (t : Task) (e : TaskEvent) : Prop :=
  e.taskID = t.id ∧ e.tenantID = t.tenantID ∧ e.projectID = t.projectID

/-- The update keeps a row's identity. -/
def KeepsIdentity (f : Task → Task) : Prop :=
  ∀ t, (f t).id = t.id ∧ (f t).tenantID = t.tenantID ∧ (f t).projectID = t.projectID ∧
    (f t).createdBy = t.createdBy

theorem task_unique {db : Db} {a b : Task} (ha : a ∈ db.tasks.rows) (hb : b ∈ db.tasks.rows)
    (h : a.id = b.id) : a = b := eq_of_key Task.id (fun _ _ he => he) ha hb h

variable {p : Principal}

theorem scopedTask_of_mem {db : Db} {t : Task} (hm : t ∈ db.tasks.rows)
    (hscope : InScope p t.tenantID t.projectID) : db.scopedTask p t.id = some t := by
  cases hf : db.scopedTask p t.id with
  | none =>
    have hnone := find?_eq_none.mp hf t hm
    simp [hscope] at hnone
  | some t' =>
    obtain ⟨hm', hid, _⟩ := scopedTask_some hf
    rw [task_unique hm' hm hid]

variable {f : Task → Task} {current : Task} {db db' : Db}

theorem updateTask_locked {context : String} {id : String} {version increment v : Int}
    {extra : Task → Prop} [DecidablePred extra]
    (h : updateTask context p id version increment extra f db = .ok (v, db'))
    (hcur : current ∈ db.tasks.rows) (hid : current.id = id) :
    ∃ t, t.rows = db.tasks.rows.map (touch (fun t => t.id = current.id)
      (fun t => { f t with version := t.version + increment })) ∧ db' = { db with tasks := t } := by
  obtain ⟨_, ⟨t₀, hm, hp⟩, t, ht, rfl⟩ := updateTask_ok h
  obtain rfl : t₀ = current := task_unique hm hcur (hp.1.1.trans hid.symm)
  refine ⟨t, ?_, rfl⟩
  rw [ht]
  apply map_congr_left
  intro x hx
  unfold touch
  by_cases hxc : x.id = t₀.id
  · obtain rfl : x = t₀ := task_unique hx hm hxc
    rw [if_pos hp, if_pos rfl]
  · have hn : ¬ Targeted p id version extra x := fun hx' => hxc (hx'.1.1.trans hid.symm)
    rw [if_neg hn, if_neg hxc]

theorem keeps_project (task : Task) : KeepsIdentity (fun t => t.project task) :=
  fun _ => ⟨rfl, rfl, rfl, rfl⟩

theorem keeps_select (decision : RouteDecision) (updatedAt : Time) :
    KeepsIdentity (fun t => t.select decision updatedAt) := fun _ => ⟨rfl, rfl, rfl, rfl⟩

/-- The command's record with its result filled in. -/
def SameRequest (record result : IdempotencyRecord) : Prop :=
  result.rowKey = record.rowKey ∧ result.requestDigest = record.requestDigest ∧
    result.status = record.status

/-- The command's messages were appended to the outbox. -/
def Enqueued (codec : Codec) (task : Task) (now : Time) (messages : List OutboxMessage)
    (db db' : Db) : Prop :=
  ∃ rows, db'.outbox.rows = db.outbox.rows ++ rows ∧ Forall₂ (Queued codec task now) messages rows

/-- A write on the locked task: one update, and events with the next numbers. -/
structure TaskWrite (p : Principal) (current : Task) (f : Task → Task) (appended : List TaskEvent)
    (db db' : Db) : Prop where
  mem : current ∈ db.tasks.rows
  scope : InScope p current.tenantID current.projectID
  keeps : KeepsIdentity f
  traced : ¬ Text.Blank (f current).traceID
  tasks : db'.tasks.rows = db.tasks.rows.map (touch (fun t => t.id = current.id)
    (fun t => { f t with version := t.version + appended.length }))
  events : db'.events.rows = db.events.rows ++ appended
  owns : ∀ e ∈ appended, Owns current e
  sequences : appended.map TaskEvent.sequence =
    numbersFrom (db.maxSequence p current.id) appended.length
  records : db'.idempotency = db.idempotency

/-- A write leaves the other tasks as they are. -/
theorem TaskWrite.row {appended : List TaskEvent}
    (h : TaskWrite p current f appended db db') {t : Task} (ht : t ∈ db'.tasks.rows) :
    (t ∈ db.tasks.rows ∧ t.id ≠ current.id) ∨
      t = { f current with version := current.version + appended.length } := by
  rw [h.tasks] at ht
  obtain ⟨t₀, hm, rfl⟩ := mem_map.mp ht
  unfold touch
  by_cases hid : t₀.id = current.id
  · rw [if_pos hid, task_unique hm h.mem hid]
    exact .inr rfl
  · rw [if_neg hid]
    exact .inl ⟨hm, hid⟩

theorem TaskWrite.written {appended : List TaskEvent} (h : TaskWrite p current f appended db db') :
    { f current with version := current.version + appended.length } ∈ db'.tasks.rows := by
  rw [h.tasks]
  refine mem_map.mpr ⟨current, h.mem, ?_⟩
  rw [touch, if_pos rfl]

theorem taskWrite_one {event : TaskEvent} (hmem : current ∈ db.tasks.rows)
    (hscope : InScope p current.tenantID current.projectID) (hkeeps : KeepsIdentity f)
    (htraced : ¬ Text.Blank (f current).traceID)
    (ht : db'.tasks.rows = db.tasks.rows.map
      (touch (fun t => t.id = current.id) (fun t => { f t with version := t.version + 1 })))
    (he : db'.events.rows = db.events.rows ++ [event]) (howns : Owns current event)
    (hseq : event.sequence = db.maxSequence p current.id + 1)
    (hrec : db'.idempotency = db.idempotency) : TaskWrite p current f [event] db db' := by
  refine ⟨hmem, hscope, hkeeps, htraced, ht, he, ?_, ?_, hrec⟩
  · intro e hm
    rw [mem_singleton.mp hm]
    exact howns
  · simp [numbersFrom, hseq]

/-- A command moved its task through the targets, with the canonical event of each. -/
structure Moved (p : Principal) (current task : Task) (targets : List TaskStatus)
    (appended : List TaskEvent) (db db' : Db) : Prop where
  write : TaskWrite p current (fun t => t.project task) appended db db'
  named : current.id = task.id
  owned : ¬ current.Disowns task
  version : task.version = current.version
  types : targets.map canonicalTaskStateEvent = appended.map (fun e => some e.eventType)
  last : targets.getLast? = some task.status

variable {α : Type}

theorem encode_ok {marshal : α → Option String} {value : α} {context text : String}
    (h : encode marshal value context = .ok text) : marshal value = some text := by
  unfold encode at h
  split at h
  · cases h
  rename_i hm
  cases h
  exact hm

variable {codec : Codec} {now : Time} {db db' : Db} {p : Principal} {r : TaskCommandCommitResult}

theorem createBody_inv {task : Task} {command : TaskCreateCommit}
    (h : createBody codec now task command db = .ok (r, db')) :
    ∃ event db₂, Completed codec r.idempotency db₂ db' ∧
      Enqueued codec task now command.outbox db db₂ ∧ (∀ t ∈ db.tasks.rows, t.id ≠ task.id) ∧
      db₂.tasks.rows = db.tasks.rows ++ [task] ∧ db₂.events.rows = db.events.rows ++ [event] ∧
      Owns task event ∧ event.sequence = 1 ∧ event.eventType = "TaskCreated" ∧
      db₂.idempotency = db.idempotency ∧
      r.idempotency = { command.idempotency with resourceID := task.id } ∧ r.replayed = false := by
  unfold createBody at h
  simp only [↓failIf_bind_ok, bind_ok, pure_ok] at h
  obtain ⟨_, db₁, hins, htype, _, db₂, hev, _, db₃, hout, _, _, hdone, rfl, rfl⟩ := h
  obtain ⟨hfresh, t, ht, rfl⟩ := insertTask_ok hins
  obtain ⟨_, payload, e, he, rfl⟩ := appendEvent_ok hev
  obtain ⟨o, rfl, hqueued⟩ := appendOutbox_ok hout
  exact ⟨_, _, completeIdempotency_ok hdone, hqueued, hfresh, ht, he, ⟨rfl, rfl, rfl⟩, rfl,
    not_not.mp htype, rfl, rfl, rfl⟩

theorem transitionBody_inv {command : TaskCommandCommit}
    (h : transitionBody codec now p command db = .ok (r, db')) :
    ∃ current event db₂, Completed codec r.idempotency db₂ db' ∧
      Enqueued codec current now command.outbox db db₂ ∧
      Moved p current command.task [command.task.status] [event] db db₂ ∧
      command.transition.source = current.status ∧
      command.transition.target = command.task.status ∧
      SameRequest command.idempotency r.idempotency ∧
      r.task = some { command.task with version := command.task.version + 1 } ∧
      r.replayed = false := by
  unfold transitionBody at h
  simp only [↓failIf_bind_ok, ↓nextSequence_bind_ok, bind_ok, pure_ok] at h
  obtain ⟨current, _, hlock, howned, hver, hfrom, _, htype, v, _, hup, _, _, hev, _, _, hout, _, _,
    hdone, rfl, rfl⟩ := h
  obtain ⟨rfl, hmem, hid, hscope⟩ := lockTask_ok hlock
  obtain ⟨rfl, _⟩ := updateTask_ok hup
  obtain ⟨t, ht, rfl⟩ := updateTask_locked hup hmem hid
  obtain ⟨hids, payload, e, he, rfl⟩ := appendEvent_ok hev
  obtain ⟨o, rfl, hqueued⟩ := appendOutbox_ok hout
  obtain ⟨hsource, htarget⟩ := not_or.mp hfrom
  refine ⟨current, _, _, completeIdempotency_ok hdone, hqueued,
    ⟨taskWrite_one hmem hscope (keeps_project _) hids.2 ht he ⟨rfl, rfl, rfl⟩ rfl rfl, hid, howned,
      not_not.mp hver, ?_, rfl⟩, not_not.mp hsource, not_not.mp htarget, ?_, rfl, rfl⟩
  · exact congrArg (fun type => [type]) (not_not.mp htype)
  · split <;> exact ⟨rfl, rfl, rfl⟩

/-- The decision a route command stores: it names the task and has a time. -/
def RouteTaskCommandCommit.stored (command : RouteTaskCommandCommit) (taskID : String) :
    RouteDecision :=
  { command.decision with
    taskID := taskID
    createdAt := if command.decision.createdAt = 0 then command.transition.at_
      else command.decision.createdAt }

/-- The task a route command writes. -/
def RouteTaskCommandCommit.routed (command : RouteTaskCommandCommit) : Task :=
  { command.task with
    routeDecisionID := command.decision.id
    estimatedCost := command.decision.selected.estimatedCost }

variable {priced : Bool} {task : Task}

theorem routeBody_inv {command : RouteTaskCommandCommit} {r : RouteTaskCommandResult}
    (h : routeBody codec priced now p command db = .ok (r, db')) :
    ∃ current event db₂, Completed codec r.idempotency db₂ db' ∧
      Enqueued codec command.routed now command.outbox db db₂ ∧
      Moved p current command.routed [.routing] [event] db db₂ ∧ current.status = .planning ∧
      current.id ≠ "" ∧ SameRequest command.idempotency r.idempotency ∧
      r.idempotency.resourceID = current.id ∧ r.decision = some (command.stored current.id) ∧
      codec.marshalDecision (command.stored current.id) = some r.idempotency.responsePayload ∧
      r.replayed = false := by
  unfold routeBody at h
  simp only [↓failIf_bind_ok, ↓nextSequence_bind_ok, ↓lift_bind_ok, bind_ok, pure_ok] at h
  obtain ⟨current, _, hlock, howned, hver, hmove, _, _, _, _, _, hdec, _, _, hup, htype, _, _,
    hev, _, _, hout, text, henc, _, _, hdone, rfl, rfl⟩ := h
  obtain ⟨rfl, hmem, hid, hscope⟩ := lockTask_ok hlock
  obtain ⟨d, rfl⟩ := insertRouteDecisionTx_ok hdec
  obtain ⟨t, ht, rfl⟩ := updateTask_locked hup hmem hid
  obtain ⟨hids, payload, e, he, rfl⟩ := appendEvent_ok hev
  obtain ⟨o, rfl, hqueued⟩ := appendOutbox_ok hout
  simp only [not_or, not_not] at hmove
  obtain ⟨hplanning, _, _, hrouting⟩ := hmove
  have htype := not_not.mp htype
  refine ⟨current, _, _, completeIdempotency_ok hdone, hqueued,
    ⟨taskWrite_one hmem hscope (keeps_project _) hids.2 ht he ⟨rfl, rfl, rfl⟩ rfl rfl, hid, howned,
      not_not.mp hver, ?_, ?_⟩, hplanning, hids.1, ⟨rfl, rfl, rfl⟩, rfl, rfl, encode_ok henc, rfl⟩
  · exact congrArg (fun type => [some type]) htype.symm
  · exact congrArg some hrouting.symm

theorem selectionBody_inv {updateClock now : Time}
    {command : RouteSelectionCommit} {r : RouteSelectionResult}
    (h : selectionBody codec priced updateClock now p command db = .ok (r, db')) :
    ∃ current event updatedAt db₂, Completed codec r.idempotency db₂ db' ∧
      db₂.outbox = db.outbox ∧ TaskWrite p current (fun t => t.select command.decision updatedAt)
        [event] db db₂ ∧
      event.eventType = "TaskRouteSelected" ∧ current.id ≠ "" ∧
      SameRequest command.idempotency r.idempotency ∧ r.idempotency.resourceID = current.id ∧
        r.binding = command.payload ∧
      codec.marshalSelection command.payload = some r.idempotency.responsePayload ∧
      command.decision.taskID = current.id ∧ r.replayed = false := by
  unfold selectionBody at h
  simp only [↓failIf_bind_ok, ↓nextSequence_bind_ok, ↓lift_bind_ok, bind_ok, pure_ok] at h
  obtain ⟨current, _, hlock, _, _, _, htask, _, _, _, hdec, _, _, hup, htype, _, _, hev, text,
    henc, _, _, hdone, rfl, rfl⟩ := h
  obtain ⟨rfl, hmem, _, hscope⟩ := lockTask_ok hlock
  obtain ⟨d, rfl⟩ := insertRouteDecisionTx_ok hdec
  obtain ⟨t, ht, rfl⟩ := updateTask_locked hup hmem rfl
  obtain ⟨hids, payload, e, he, rfl⟩ := appendEvent_ok hev
  exact ⟨current, _, _, _, completeIdempotency_ok hdone, rfl,
    taskWrite_one hmem hscope (keeps_select _ _) hids.2 ht he ⟨rfl, rfl, rfl⟩ rfl rfl,
    not_not.mp htype, hids.1, ⟨rfl, rfl, rfl⟩, rfl, rfl, encode_ok henc, not_not.mp htask, rfl⟩

theorem startExecution_inv {task : Task} {transition : TaskTransition} {event : TaskEvent}
    {r : Task × TaskEvent}
    (h : startExecution codec now p current task transition event db = .ok (r, db'))
    (hmem : current ∈ db.tasks.rows) (hid : current.id = task.id)
    (hscope : InScope p current.tenantID current.projectID) (howned : ¬ current.Disowns task)
    (hver : task.version = current.version) :
    ∃ event, Moved p current task [.executing] [event] db db' ∧ db'.outbox = db.outbox ∧
      r.1 = { task with version := task.version + 1 } := by
  unfold startExecution at h
  simp only [↓failIf_bind_ok, ↓nextSequence_bind_ok, bind_ok, pure_ok] at h
  obtain ⟨hmove, _, htype, v, _, hup, _, _, hev, rfl, rfl⟩ := h
  obtain ⟨rfl, _⟩ := updateTask_ok hup
  obtain ⟨t, ht, rfl⟩ := updateTask_locked hup hmem hid
  obtain ⟨hids, payload, e, he, rfl⟩ := appendEvent_ok hev
  simp only [not_or, not_not] at hmove
  refine ⟨_, ⟨taskWrite_one hmem hscope (keeps_project _) hids.2 ht he ⟨rfl, rfl, rfl⟩ rfl rfl,
    hid, howned, hver, ?_, ?_⟩, rfl, rfl⟩
  · exact congrArg (fun type => [some type]) (not_not.mp htype).symm
  · exact congrArg some hmove.2.2.symm

/-- How a begin found and left its task. -/
inductive BeginStep (p : Principal) (command : ModelExecutionBeginCommit) (task : Task)
    (db db' : Db) : Prop
  | first (current : Task) (event : TaskEvent) (status : current.status = .routing)
      (moved : Moved p current command.task [.executing] [event] db db')
      (outbox : db'.outbox = db.outbox)
      (result : task = { command.task with version := command.task.version + 1 })
  | again (mem : task ∈ db.tasks.rows) (named : task.id = command.task.id)
      (scope : InScope p task.tenantID task.projectID) (status : task.status = .executing)
      (version : command.task.version = task.version) (same : db' = db)

variable {command : ModelExecutionBeginCommit}

theorem BeginStep.records (h : BeginStep p command task db db') :
    db'.idempotency = db.idempotency := by
  cases h with
  | first current event status moved outbox result => exact moved.write.records
  | again mem named scope status version same => rw [same]

theorem BeginStep.executing (h : BeginStep p command task db db') {t : Task}
    (ht : t ∈ db'.tasks.rows) (hid : t.id = command.task.id) : t.status = .executing := by
  cases h with
  | first current event status moved outbox result =>
    have hstatus : command.task.status = .executing := (Option.some.inj moved.last).symm
    rcases moved.write.row ht with ⟨_, hne⟩ | rfl
    · exact absurd (hid.trans moved.named.symm) hne
    · exact hstatus
  | again mem named scope status version same =>
    rw [same] at ht
    rw [task_unique ht mem (hid.trans named.symm)]
    exact status

theorem beginBody_inv {r : ModelExecutionBeginResult}
    (h : beginBody codec now p command db = .ok (r, db')) :
    ∃ task, r.task = some task ∧ BeginStep p command task db db' ∧
      r.idempotency = command.idempotency ∧ r.replayed = false := by
  unfold beginBody at h
  simp only [↓failIf_bind_ok, bind_ok] at h
  obtain ⟨current, _, hlock, howned, hver, h⟩ := h
  obtain ⟨rfl, hmem, hid, hscope⟩ := lockTask_ok hlock
  have hver := not_not.mp hver
  cases hst : current.status with
  | routing =>
    cases ht : command.transition with
    | none => simp [hst, ht] at h
    | some transition =>
      cases he : command.event with
      | none => simp [hst, ht, he] at h
      | some event =>
        simp only [hst, ht, he, bind_ok, pure_ok] at h
        obtain ⟨started, _, hstart, rfl, rfl⟩ := h
        obtain ⟨event', hmoved, hout, hres⟩ :=
          startExecution_inv hstart hmem hid hscope howned hver
        exact ⟨_, rfl, .first current event' hst hmoved hout hres, rfl, rfl⟩
  | executing =>
    simp only [hst, ↓failIf_bind_ok, pure_ok] at h
    obtain ⟨_, rfl, rfl⟩ := h
    exact ⟨current, rfl, .again hmem hid hscope hst hver rfl, rfl, rfl⟩
  | _ => simp [hst] at h

theorem checkChain_types {expected final : TaskStatus} {steps : List (TaskTransition × TaskEvent)}
    (h : checkChain expected steps = .ok final) :
    steps.map (fun s => canonicalTaskStateEvent s.1.target) =
      steps.map (fun s => some s.2.eventType) := by
  induction steps generalizing expected with
  | nil => rfl
  | cons step rest ih =>
    obtain ⟨transition, event⟩ := step
    simp only [checkChain] at h
    split at h
    · cases h
    split at h
    · cases h
    split at h
    · cases h
    rename_i htype
    simp only [map_cons, ih h, not_not.mp htype]

/-- The two ways a model execution ends. -/
def FinalPath (targets : List TaskStatus) (status : TaskStatus) (result : IdempotencyStatus) :
    Prop :=
  (targets = [.validating, .completed] ∧ status = .completed ∧ result = .completed) ∨
    (targets = [.failed] ∧ status = .failed ∧ result = .failedFinal)

theorem checkFinal_ok {status : TaskStatus} {targets : List TaskStatus}
    {result : IdempotencyStatus} {u : Unit} (h : checkFinal status targets result = .ok u) :
    FinalPath targets status result := by
  unfold checkFinal at h
  split at h
  · split at h
    · cases h
    rename_i hc
    simp only [not_or, not_not] at hc
    exact .inl ⟨hc.1, rfl, hc.2⟩
  · split at h
    · cases h
    rename_i hc
    simp only [not_or, not_not] at hc
    exact .inr ⟨hc.1, rfl, hc.2⟩
  · cases h

theorem finalPath_last {targets : List TaskStatus} {status : TaskStatus}
    {result : IdempotencyStatus} (h : FinalPath targets status result) :
    targets.getLast? = some status := by
  rcases h with ⟨rfl, rfl, _⟩ | ⟨rfl, rfl, _⟩ <;> rfl

theorem finalizeBody_inv {command : ModelExecutionFinalizeCommit} {r : ModelExecutionFinalizeResult}
    (h : finalizeBody codec now p command db = .ok (r, db')) :
    ∃ current appended db₂, Completed codec r.idempotency db₂ db' ∧ db₂.outbox = db.outbox ∧
      Moved p current command.task (command.transitions.map TaskTransition.target) appended db db₂ ∧
      current.status = .executing ∧
      FinalPath (command.transitions.map TaskTransition.target) command.task.status
        command.idempotency.status ∧
      (∃ row, db.record command.idempotency.rowKey = some row ∧ row.status = .inProgress) ∧
      SameRequest command.idempotency r.idempotency := by
  unfold finalizeBody loadIdempotencyForUpdate at h
  simp only [↓query_bind_ok, ↓failIf_bind_ok, ↓nextSequence_bind_ok,
    ↓lift_bind_ok, bind_ok, pure_ok, Option.map_eq_some_iff] at h
  obtain ⟨_, ⟨row, hrow, rfl⟩, _, hst, current, _, hlock, hexec, howned, hver, hlen, _,
    hchain, _, _, hfinal, _, _, hup, _, _, hev, _, _, hdone, rfl, rfl⟩ := h
  obtain ⟨rfl, hmem, hid, hscope⟩ := lockTask_ok hlock
  obtain ⟨t, ht, rfl⟩ := updateTask_locked hup hmem hid
  obtain ⟨rows, e, he, rfl, hseq, htypes, hown, htraced⟩ := appendEvents_ok hev
  have hne : command.transitions.zip command.events ≠ [] := by
    intro hnil
    have hzip := congrArg length hnil
    rw [length_zip, length_nil] at hzip
    omega
  have hlen : command.transitions.length = command.events.length := by omega
  have hcount : rows.length = command.transitions.length := by
    have hlens := congrArg length hseq
    simp only [length_map, numbersFrom, length_range, length_zip] at hlens
    omega
  have hpath := checkFinal_ok hfinal
  refine ⟨current, rows, _, completeIdempotency_ok hdone, rfl,
    ⟨⟨hmem, hscope, keeps_project _, htraced hne, ?_, he, hown, ?_, rfl⟩, hid, howned,
      not_not.mp hver, ?_,
      finalPath_last hpath⟩, not_not.mp hexec, hpath, ⟨row, hrow, not_not.mp hst⟩, ?_⟩
  · rw [hcount]
    exact ht
  · have hs : ∀ m : Int, m + 1 - 1 = m := fun m => by omega
    have hmin : min command.transitions.length command.events.length =
        command.transitions.length := by omega
    rw [hseq, hs, length_zip, hcount, hmin]
  · have htargets : (command.transitions.zip command.events).map (fun s => s.1.target) =
        command.transitions.map TaskTransition.target := by
      have hfst : (command.transitions.zip command.events).map Prod.fst = command.transitions :=
        map_fst_zip (by omega)
      have hmap := congrArg (map TaskTransition.target) hfst
      simpa [map_map, Function.comp_def] using hmap
    have htypes : rows.map (fun e => some e.eventType) =
        (command.transitions.zip command.events).map (fun s => some s.2.eventType) := by
      have hmap := congrArg (map some) htypes
      simpa [map_map, Function.comp_def] using hmap
    rw [htypes, ← checkChain_types hchain, ← htargets, map_map]
    rfl
  · split <;> exact ⟨rfl, rfl, rfl⟩

variable {ctx : Context} {record : IdempotencyRecord}

theorem markModelExecutionRetryable_inv {u : Unit}
    (h : markModelExecutionRetryable codec ctx record db = .ok (u, db')) :
    Completed codec record db db' ∧
      ∃ row, db.record record.rowKey = some row ∧ row.status = .inProgress := by
  unfold markModelExecutionRetryable loadIdempotencyForUpdate at h
  simp only [↓lift_bind_ok, ↓query_bind_ok, ↓failIf_bind_ok, Option.map_eq_some_iff] at h
  obtain ⟨_, _, _, ⟨row, hrow, rfl⟩, _, hst, hdone⟩ := h
  exact ⟨completeIdempotency_ok hdone, row, hrow, not_not.mp hst⟩

theorem once_ok {replay : IdempotencyRecord → CommandTx α} {body : CommandTx α} {r : α}
    (h : once record replay body db = .ok (r, db')) :
    (∃ existing, Replays record db existing ∧ replay existing db = .ok (r, db')) ∨
      ∃ db₁, Reserved record db db₁ ∧ body db₁ = .ok (r, db') := by
  simp only [once, bind_ok] at h
  obtain ⟨x, db₁, hres, h⟩ := h
  rcases reserveIdempotency_ok hres with ⟨existing, rfl, rfl, hrep⟩ | ⟨rfl, hown⟩
  · exact .inl ⟨existing, hrep, h⟩
  · exact .inr ⟨db₁, hown, h⟩

/-- The command was answered from an earlier result, or ran its body with the
key reserved. -/
def Ran {α : Type} (record : IdempotencyRecord) (result : α → IdempotencyRecord)
    (replayed : α → Bool) (body : CommandTx α) (r : α) (db db' : Db) : Prop :=
  (Replays record db (result r) ∧ replayed r = true ∧ db' = db) ∨
    ∃ db₁, Reserved record db db₁ ∧ body db₁ = .ok (r, db')

theorem ran_of_once {replay : IdempotencyRecord → CommandTx α} {body : CommandTx α} {r : α}
    (h : once record replay body db = .ok (r, db')) {result : α → IdempotencyRecord}
    {replayed : α → Bool}
    (hreplay : ∀ existing r db', replay existing db = .ok (r, db') → result r = existing ∧
      replayed r = true ∧ db' = db) :
    Ran record result replayed body r db db' := by
  rcases once_ok h with ⟨existing, hrep, hr⟩ | ⟨db₁, hown, hr⟩
  · obtain ⟨he, hflag, hdb⟩ := hreplay existing r db' hr
    exact .inl ⟨he ▸ hrep, hflag, hdb⟩
  · exact .inr ⟨db₁, hown, hr⟩

theorem once_ran {admitted : Except CommandError Principal}
    {replay : Principal → IdempotencyRecord → CommandTx α} {body : Principal → CommandTx α} {r : α}
    (h : (lift admitted >>= fun p => once record (replay p) (body p)) db = .ok (r, db'))
    {result : α → IdempotencyRecord} {replayed : α → Bool}
    (hreplay : ∀ p existing r db', replay p existing db = .ok (r, db') → result r = existing ∧
      replayed r = true ∧ db' = db) :
    ∃ p, admitted = .ok p ∧ Ran record result replayed (body p) r db db' := by
  obtain ⟨p, hadm, h⟩ := lift_bind_ok.mp h
  exact ⟨p, hadm, ran_of_once h (hreplay p)⟩

theorem createTask_ran {command : TaskCreateCommit}
    (h : createTask codec ctx now command db = .ok (r, db')) :
    ∃ p task, admitCreate codec ctx command = .ok (p, task) ∧
      Ran command.idempotency TaskCommandCommitResult.idempotency TaskCommandCommitResult.replayed
        (createBody codec now task command) r db db' := by
  obtain ⟨⟨p, task⟩, hadm, h⟩ := lift_bind_ok.mp h
  refine ⟨p, task, hadm, ran_of_once h fun existing r db' hr => ?_⟩
  simp only [replayCreate, ↓failIf_bind_ok, ↓query_bind_ok, pure_ok] at hr
  obtain ⟨_, _, _, rfl, rfl⟩ := hr
  exact ⟨rfl, rfl, rfl⟩

theorem commitTransition_ran {command : TaskCommandCommit}
    (h : commitTransition codec ctx now command db = .ok (r, db')) :
    ∃ p, admitTransition codec ctx command = .ok p ∧
      Ran command.idempotency TaskCommandCommitResult.idempotency TaskCommandCommitResult.replayed
        (transitionBody codec now p command) r db db' :=
  once_ran h (by rintro _ _ _ _ ⟨⟩; exact ⟨rfl, rfl, rfl⟩)

theorem commitRouteTransition_ran {command : RouteTaskCommandCommit} {r : RouteTaskCommandResult}
    (h : commitRouteTransition codec ctx priced now command db = .ok (r, db')) :
    ∃ p, admitRoute codec ctx command = .ok p ∧
      Ran command.idempotency RouteTaskCommandResult.idempotency RouteTaskCommandResult.replayed
        (routeBody codec priced now p command) r db db' := by
  refine once_ran h fun _ existing r db' hr => ?_
  simp only [replayRouteCommand, ↓failIf_bind_ok, ↓query_bind_ok, pure_ok] at hr
  obtain ⟨_, _, _, _, _, _, rfl, rfl⟩ := hr
  exact ⟨rfl, rfl, rfl⟩

theorem commitRouteSelection_ran {updateClock now : Time} {command : RouteSelectionCommit}
    {r : RouteSelectionResult}
    (h : commitRouteSelection codec ctx priced updateClock now command db = .ok (r, db')) :
    ∃ p, admitSelection codec ctx command = .ok p ∧
      Ran command.idempotency RouteSelectionResult.idempotency RouteSelectionResult.replayed
        (selectionBody codec priced updateClock now p command) r db db' := by
  refine once_ran h fun _ existing r db' hr => ?_
  simp only [replayRouteSelection, ↓failIf_bind_ok, ↓query_bind_ok, pure_ok] at hr
  obtain ⟨_, _, _, _, _, _, rfl, rfl⟩ := hr
  exact ⟨rfl, rfl, rfl⟩

theorem beginModelExecution_ran {r : ModelExecutionBeginResult}
    (h : beginModelExecution codec ctx now command db = .ok (r, db')) :
    ∃ p, admitBegin codec ctx command = .ok p ∧
      Ran command.idempotency ModelExecutionBeginResult.idempotency
        ModelExecutionBeginResult.replayed (beginBody codec now p command) r db db' :=
  once_ran h (by rintro _ _ _ _ ⟨⟩; exact ⟨rfl, rfl, rfl⟩)

theorem getTask_ok {id : String} (h : getTask ctx id db = .ok (task, db')) :
    db' = db ∧ ∃ p, scopedPrincipal ctx = .ok p ∧ db.scopedTask p id = some task := by
  unfold getTask at h
  simp only [lift_bind_ok, query_ok] at h
  obtain ⟨p, hp, htask, rfl⟩ := h
  refine ⟨rfl, p, ?_, htask⟩
  split at hp
  · cases hp
  rename_i hs
  rwa [Except.ok.inj hp] at hs

/-- What a lookup found: nothing, a final result, or a command that may be retried. -/
theorem resolveIdempotency_ok {lookup : IdempotencyLookup}
    {r : Option IdempotencyRecord × Bool} (h : resolveIdempotency ctx lookup db = .ok (r, db')) :
    db' = db ∧ ((r = (none, false) ∧ db.record lookup.rowKey = none) ∨
      ∃ row, db.record lookup.rowKey = some row ∧ row.requestDigest = lookup.requestDigest ∧
        ((r = (some row.load, true) ∧ row.status.Final) ∨
          (r = (some row.load, false) ∧ row.status = .failedRetryable))) := by
  unfold resolveIdempotency at h
  simp only [↓lift_bind_ok, ↓read_bind_ok] at h
  obtain ⟨p, _, h⟩ := h
  cases hrow : db.record lookup.rowKey with
  | none =>
    simp only [hrow, pure_ok] at h
    exact ⟨h.2.symm, .inl ⟨h.1.symm, rfl⟩⟩
  | some row =>
    simp only [hrow, ↓failIf_bind_ok] at h
    obtain ⟨hdig, h⟩ := h
    cases hst : row.load.status with
    | completed =>
      simp only [hst, pure_ok] at h
      exact ⟨h.2.symm, .inr ⟨row, rfl, not_not.mp hdig, .inl ⟨h.1.symm, .inl hst⟩⟩⟩
    | failedFinal =>
      simp only [hst, pure_ok] at h
      exact ⟨h.2.symm, .inr ⟨row, rfl, not_not.mp hdig, .inl ⟨h.1.symm, .inr hst⟩⟩⟩
    | failedRetryable =>
      simp only [hst, pure_ok] at h
      exact ⟨h.2.symm, .inr ⟨row, rfl, not_not.mp hdig, .inr ⟨h.1.symm, hst⟩⟩⟩
    | inProgress => simp [hst] at h
    | other text => simp [hst] at h

end AiCloud.Tasks
