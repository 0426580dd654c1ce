import AiCloud.Tasks.Inversion

/-!
# What a successful command did

Every command is one of four things: a replay that changes nothing, a command that
reserved its key, changed one task and completed its key, the begin of a model execution
that leaves its key in progress, or the completion of a key that was in progress.
Messages are only ever appended to the outbox.
-/
namespace AiCloud.Tasks

open Lib Identity Execution List

/-- What a command may do to the task and event tables. -/
inductive LogStep (db db' : Db) : Prop
  | same (tasks : db'.tasks.rows = db.tasks.rows) (events : db'.events.rows = db.events.rows)
  | create (task : Task) (event : TaskEvent) (fresh : ∀ t ∈ db.tasks.rows, t.id ≠ task.id)
      (tasks : db'.tasks.rows = db.tasks.rows ++ [task])
      (events : db'.events.rows = db.events.rows ++ [event]) (owns : Owns task event)
      (version : task.version = 1) (sequence : event.sequence = 1)
      (named : ¬ Text.Blank task.id ∧ ¬ Text.Blank task.traceID)
  | append (p : Principal) (current : Task) (f : Task → Task) (appended : List TaskEvent)
      (mem : current ∈ db.tasks.rows) (scope : InScope p current.tenantID current.projectID)
      (keeps : KeepsIdentity f)
      (tasks : db'.tasks.rows = db.tasks.rows.map (Table.touch (fun t => t.id = current.id)
        (fun t => { f t with version := t.version + appended.length })))
      (events : db'.events.rows = db.events.rows ++ appended)
      (owns : ∀ e ∈ appended, Owns current e)
      (sequences : appended.map TaskEvent.sequence =
        numbersFrom (db.maxSequence p current.id) appended.length)
      (traced : ¬ Text.Blank (f current).traceID)

variable {db' : Db} {db : Db}

theorem TaskWrite.log {p : Principal} {current : Task} {f : Task → Task} {appended : List TaskEvent}
    (h : TaskWrite p current f appended db db') : LogStep db db' :=
  .append p current f appended h.mem h.scope h.keeps h.tasks h.events h.owns h.sequences h.traced

theorem maxSequence_congr (h : db'.events.rows = db.events.rows) (p : Principal) (id : String) :
    db'.maxSequence p id = db.maxSequence p id := by
  unfold Db.maxSequence
  rw [h]

theorem LogStep.congr {a b a' b' : Db} (h : LogStep a b) (ht : a'.tasks.rows = a.tasks.rows)
    (he : a'.events.rows = a.events.rows) (ht' : b'.tasks.rows = b.tasks.rows)
    (he' : b'.events.rows = b.events.rows) : LogStep a' b' := by
  cases h with
  | same tasks events => exact .same (by rw [ht', tasks, ht]) (by rw [he', events, he])
  | create task event fresh tasks events owns version sequence named =>
    exact .create task event (by rw [ht]; exact fresh) (by rw [ht', tasks, ht])
      (by rw [he', events, he]) owns version sequence named
  | append p current f appended mem scope keeps tasks events owns sequences traced =>
    exact .append p current f appended (by rw [ht]; exact mem) scope keeps
      (by rw [ht', tasks, ht]) (by rw [he', events, he]) owns
      (by rw [maxSequence_congr he]; exact sequences) traced

def Holds (db : Db) (id tenantID projectID : String) : Prop :=
  ∃ t ∈ db.tasks.rows, t.id = id ∧ t.tenantID = tenantID ∧ t.projectID = projectID

/-- The row of a task, whatever has become of it. -/
def Identified (db : Db) (task : Task) : Prop :=
  ∃ t ∈ db.tasks.rows, t.id = task.id ∧ t.tenantID = task.tenantID ∧
    t.projectID = task.projectID ∧ t.createdBy = task.createdBy

theorem LogStep.identified (h : LogStep db db') {task : Task} (hrow : Identified db task) :
    Identified db' task := by
  obtain ⟨t, hm, hid, htn, hpr, hcr⟩ := hrow
  cases h with
  | same tasks events => exact ⟨t, tasks ▸ hm, hid, htn, hpr, hcr⟩
  | create task event fresh tasks =>
    exact ⟨t, by rw [tasks]; exact mem_append_left _ hm, hid, htn, hpr, hcr⟩
  | append p current f appended mem scope keeps tasks =>
    refine ⟨_, by rw [tasks]; exact mem_map_of_mem hm, ?_⟩
    obtain ⟨kid, ktn, kpr, kcr⟩ := keeps t
    unfold Table.touch
    split
    · exact ⟨kid.trans hid, ktn.trans htn, kpr.trans hpr, kcr.trans hcr⟩
    · exact ⟨hid, htn, hpr, hcr⟩

theorem LogStep.holds (h : LogStep db db') {id tenantID projectID : String}
    (hh : Holds db id tenantID projectID) : Holds db' id tenantID projectID := by
  obtain ⟨t, hm, rfl, rfl, rfl⟩ := hh
  obtain ⟨t', hm', hid, htn, hpr, _⟩ := h.identified ⟨t, hm, rfl, rfl, rfl, rfl⟩
  exact ⟨t', hm', hid, htn, hpr⟩

/-- Every stored task has an id and a trace. -/
def Traced (db : Db) : Prop :=
  ∀ t ∈ db.tasks.rows, ¬ Text.Blank t.id ∧ ¬ Text.Blank t.traceID

theorem LogStep.traced (h : LogStep db db') (ht : Traced db) : Traced db' := by
  intro t hm
  cases h with
  | same tasks events => exact ht t (tasks ▸ hm)
  | create task event fresh tasks events owns version sequence named =>
    rw [tasks] at hm
    rcases mem_append.mp hm with hm | hm
    · exact ht t hm
    · rw [mem_singleton.mp hm]
      exact named
  | append p current f appended mem scope keeps tasks events owns sequences traced =>
    rw [tasks] at hm
    obtain ⟨t₀, hm₀, rfl⟩ := mem_map.mp hm
    unfold Table.touch
    split
    · rename_i hid
      obtain rfl := task_unique hm₀ mem hid
      refine ⟨?_, traced⟩
      rw [show (f t₀).id = t₀.id from (keeps t₀).1]
      exact (ht t₀ hm₀).1
    · exact ht t₀ hm₀

/-- The body changed tasks by one step and completed the key. -/
def Wrote (codec : Codec) (record result : IdempotencyRecord) (db db' : Db) : Prop :=
  ∃ db₂, Completed codec result db₂ db' ∧ LogStep db db₂ ∧ db₂.idempotency = db.idempotency ∧
    SameRequest record result

/-- The resource a result names is a task of the record's scope. -/
def Resource (result : IdempotencyRecord) (db : Db) : Prop :=
  result.resourceID ≠ "" ∧ Holds db result.resourceID result.tenantID result.projectID

variable {result : IdempotencyRecord} {record : IdempotencyRecord}

theorem Wrote.log {codec : Codec} (h : Wrote codec record result db db') : LogStep db db' := by
  obtain ⟨db₂, hdone, hlog, _⟩ := h
  obtain ⟨t, rfl⟩ := hdone.table
  exact hlog.congr rfl rfl rfl rfl

variable {ctx : Context} {record : IdempotencyRecord} {p : Principal} {codec : Codec} {db db' : Db}

theorem admitScope_ok
    (h : admitScope ctx record = .ok p) : InScope p record.tenantID record.projectID := by
  unfold admitScope at h
  split at h
  · cases h
  split at h
  · cases h
  rename_i hs
  cases h
  exact ⟨not_not.mp (fun hne => hs (.inl hne)), not_not.mp (fun hne => hs (.inr hne))⟩

theorem scopedPrincipal_of_admitScope
    (h : admitScope ctx record = .ok p) : scopedPrincipal ctx = .ok p := by
  unfold admitScope at h
  split at h
  · cases h
  split at h
  · cases h
  rename_i q hq _
  cases h
  exact hq

variable {task : Task} {u : Unit}

theorem validateTaskCreation_ok (h : validateTaskCreation task = .ok u) :
    task.status = .created ∧ task.version = 1 ∧
      ¬ Text.Blank task.id ∧ ¬ Text.Blank task.traceID := by
  unfold validateTaskCreation at h
  split at h
  · cases h
  rename_i hb
  split at h
  · cases h
  split at h
  · cases h
  rename_i hv
  exact ⟨not_not.mp (fun hne => hv (.inl hne)), not_not.mp (fun hne => hv (.inr hne)),
    fun hbl => hb (.inl hbl), fun hbl => hb (.inr (.inr hbl))⟩

theorem adoptTask_ok {task task' : Task} (h : adoptTask p task = .ok task') :
    InScope p task'.tenantID task'.projectID := by
  unfold adoptTask at h
  split at h
  · cases h
  split at h
  · cases h
  split at h
  · cases h
  cases h
  exact ⟨rfl, rfl⟩

theorem admitCreate_ok {command : TaskCreateCommit}
    (h : admitCreate codec ctx command = .ok (p, task)) :
    (task.status = .created ∧ task.version = 1 ∧ ¬ Text.Blank task.id ∧ ¬ Text.Blank task.traceID) ∧
      InScope p command.idempotency.tenantID command.idempotency.projectID ∧
      InScope p task.tenantID task.projectID := by
  unfold admitCreate at h
  simp only [except_bind_ok] at h
  obtain ⟨_, _, _, hp, _, ha, _, hv, heq⟩ := h
  cases heq
  exact ⟨validateTaskCreation_ok hv, admitScope_ok hp, adoptTask_ok ha⟩

variable {r : TaskCommandCommitResult} {now : Time}

theorem createBody_ok {command : TaskCreateCommit}
    (h : createBody codec now task command db = .ok (r, db'))
    (hv : task.status = .created ∧ task.version = 1 ∧ ¬ Text.Blank task.id ∧
      ¬ Text.Blank task.traceID)
    (hrec : InScope p command.idempotency.tenantID command.idempotency.projectID)
    (htask : InScope p task.tenantID task.projectID) :
    r.replayed = false ∧ Wrote codec command.idempotency r.idempotency db db' ∧
      Resource r.idempotency db' := by
  obtain ⟨event, db₂, hcomp, _, hfresh, htasks, hevents, howns, hseq, _, hrec', hres, hflag⟩ :=
    createBody_inv h
  have hkey : SameRequest command.idempotency r.idempotency := by
    rw [hres]
    exact ⟨rfl, rfl, rfl⟩
  refine ⟨hflag, ⟨db₂, hcomp, .create task event hfresh htasks hevents howns hv.2.1 hseq hv.2.2,
    hrec', hkey⟩, ?_⟩
  have hmem : task ∈ db'.tasks.rows := by
    obtain ⟨_, rfl⟩ := hcomp.table
    change task ∈ db₂.tasks.rows
    rw [htasks]
    exact mem_concat_self
  rw [hres]
  exact ⟨Text.ne_empty hv.2.2.1, task, hmem, rfl, htask.1.trans hrec.1.symm,
    htask.2.trans hrec.2.symm⟩

theorem transitionBody_ok {command : TaskCommandCommit}
    (h : transitionBody codec now p command db = .ok (r, db')) :
    r.replayed = false ∧ Wrote codec command.idempotency r.idempotency db db' := by
  obtain ⟨current, event, db₂, hcomp, _, hmoved, _, _, hkey, _, hflag⟩ := transitionBody_inv h
  exact ⟨hflag, db₂, hcomp, hmoved.write.log, hmoved.write.records, hkey⟩

theorem SameRequest.scope (h : SameRequest record result) {p : Principal}
    (hs : InScope p record.tenantID record.projectID) :
    InScope p result.tenantID result.projectID := by
  have htenant : result.tenantID = record.tenantID := congrArg IdempotencyKey.tenantID h.1
  have hproject : result.projectID = record.projectID := congrArg IdempotencyKey.projectID h.1
  rw [htenant, hproject]
  exact hs

theorem resource_locked {current : Task} (hw : Wrote codec record result db db')
    (hmem : current ∈ db.tasks.rows) (hscope : InScope p current.tenantID current.projectID)
    (hrec : InScope p result.tenantID result.projectID) (hid : result.resourceID = current.id)
    (hne : current.id ≠ "") : Resource result db' := by
  refine ⟨hid ▸ hne, hw.log.holds ⟨current, hmem, hid.symm, ?_, ?_⟩⟩
  · exact hscope.1.trans hrec.1.symm
  · exact hscope.2.trans hrec.2.symm

variable {now : Time} {priced : Bool}

theorem routeBody_ok {command : RouteTaskCommandCommit} {r : RouteTaskCommandResult}
    (h : routeBody codec priced now p command db = .ok (r, db'))
    (hrec : InScope p command.idempotency.tenantID command.idempotency.projectID) :
    r.replayed = false ∧ Wrote codec command.idempotency r.idempotency db db' ∧
      Resource r.idempotency db' ∧
      ∃ decision, codec.marshalDecision decision = some r.idempotency.responsePayload := by
  obtain ⟨current, event, db₂, hcomp, _, hmoved, _, hne, hkey, hid, _, hmarshal, hflag⟩ :=
    routeBody_inv h
  have hw : Wrote codec command.idempotency r.idempotency db db' :=
    ⟨db₂, hcomp, hmoved.write.log, hmoved.write.records, hkey⟩
  exact ⟨hflag, hw, resource_locked hw hmoved.write.mem hmoved.write.scope
    (hkey.scope hrec) hid hne, _, hmarshal⟩

theorem selectionBody_ok {updateClock : Time} {command : RouteSelectionCommit}
    {r : RouteSelectionResult}
    (h : selectionBody codec priced updateClock now p command db = .ok (r, db'))
    (hrec : InScope p command.idempotency.tenantID command.idempotency.projectID) :
    r.replayed = false ∧ Wrote codec command.idempotency r.idempotency db db' ∧
      Resource r.idempotency db' ∧ r.binding = command.payload ∧
      codec.marshalSelection command.payload = some r.idempotency.responsePayload ∧
      command.decision.taskID = r.idempotency.resourceID := by
  obtain ⟨current, event, updatedAt, db₂, hcomp, _, hwrite, _, hne, hkey, hid, hbind,
    hmarshal, htask, hflag⟩ := selectionBody_inv h
  have hw : Wrote codec command.idempotency r.idempotency db db' :=
    ⟨db₂, hcomp, hwrite.log, hwrite.records, hkey⟩
  exact ⟨hflag, hw, resource_locked hw hwrite.mem hwrite.scope (hkey.scope hrec) hid hne, hbind,
    hmarshal, htask.trans hid.symm⟩

variable {command : ModelExecutionBeginCommit}

theorem BeginStep.log (h : BeginStep p command task db db') : LogStep db db' := by
  cases h with
  | first current event status moved outbox result => exact moved.write.log
  | again mem named scope status version same =>
    rw [same]
    exact .same rfl rfl

theorem beginBody_ok {r : ModelExecutionBeginResult}
    (h : beginBody codec now p command db = .ok (r, db')) :
    LogStep db db' ∧ db'.idempotency = db.idempotency := by
  obtain ⟨task, _, hstep, _, _⟩ := beginBody_inv h
  exact ⟨hstep.log, hstep.records⟩

/-- The completion of a key that was in progress. -/
structure Finished (codec : Codec) (result : IdempotencyRecord) (db db' : Db) : Prop where
  pending : ∀ row, db.record result.rowKey = some row → row.status = .inProgress
  wrote : Wrote codec result result db db'

theorem finalizeBody_ok {command : ModelExecutionFinalizeCommit} {r : ModelExecutionFinalizeResult}
    (h : finalizeBody codec now p command db = .ok (r, db')) :
    Finished codec r.idempotency db db' := by
  obtain ⟨current, appended, db₂, hcomp, _, hmoved, _, _, ⟨row, hrow, hst⟩, hkey⟩ :=
    finalizeBody_inv h
  refine ⟨?_, db₂, hcomp, hmoved.write.log, hmoved.write.records, rfl, rfl, rfl⟩
  intro row' hrow'
  rw [hkey.1, hrow] at hrow'
  cases hrow'
  exact hst

theorem markModelExecutionRetryable_ok
    (h : markModelExecutionRetryable codec ctx record db = .ok (u, db')) :
    Finished codec record db db' := by
  obtain ⟨hdone, row, hrow, hst⟩ := markModelExecutionRetryable_inv h
  refine ⟨?_, db, hdone, .same rfl rfl, rfl, rfl, rfl, rfl⟩
  intro row' hrow'
  rw [hrow] at hrow'
  cases hrow'
  exact hst

/-- The command reserved its key, changed tasks by one step and completed the key. -/
def Applied (codec : Codec) (record result : IdempotencyRecord) (db db' : Db) : Prop :=
  ∃ db₁, Reserved record db db₁ ∧ Wrote codec record result db₁ db'

/-- A command with a final result: the replay of an earlier one, or its own,
which then satisfies `Q`. -/
def Outcome (codec : Codec) (record result : IdempotencyRecord) (replayed : Bool) (Q : Db → Prop)
    (db db' : Db) : Prop :=
  (replayed = true ∧ db' = db ∧ Replays record db result) ∨
    (replayed = false ∧ Applied codec record result db db' ∧ Q db')

theorem Ran.outcome {α : Type}
    {result : α → IdempotencyRecord} {replayed : α → Bool} {body : CommandTx α} {r : α}
    (h : Ran record result replayed body r db db') {Q : α → Db → Prop}
    (hbody : ∀ db₁ r db', body db₁ = .ok (r, db') →
      replayed r = false ∧ Wrote codec record (result r) db₁ db' ∧ Q r db') :
    Outcome codec record (result r) (replayed r) (Q r) db db' := by
  rcases h with ⟨hrep, hflag, hdb⟩ | ⟨db₁, hown, hr⟩
  · exact .inl ⟨hflag, hdb, hrep⟩
  · obtain ⟨hflag, hw, hq⟩ := hbody db₁ r db' hr
    exact .inr ⟨hflag, ⟨db₁, hown, hw⟩, hq⟩

theorem createTask_ok {command : TaskCreateCommit}
    (h : createTask codec ctx now command db = .ok (r, db')) :
    Outcome codec command.idempotency r.idempotency r.replayed (Resource r.idempotency) db db' := by
  obtain ⟨p, task, hadm, hran⟩ := createTask_ran h
  obtain ⟨hv, hrec, htask⟩ := admitCreate_ok hadm
  exact hran.outcome (Q := fun r => Resource r.idempotency)
    (fun _ _ _ hr => createBody_ok hr hv hrec htask)

theorem commitTransition_ok {command : TaskCommandCommit}
    (h : commitTransition codec ctx now command db = .ok (r, db')) :
    Outcome codec command.idempotency r.idempotency r.replayed (fun _ => True) db db' := by
  obtain ⟨p, _, hran⟩ := commitTransition_ran h
  refine hran.outcome (Q := fun _ _ => True) ?_
  intro db₁ r db' hr
  obtain ⟨hflag, hw⟩ := transitionBody_ok hr
  exact ⟨hflag, hw, trivial⟩

theorem admitRoute_ok {command : RouteTaskCommandCommit}
    (h : admitRoute codec ctx command = .ok p) :
    InScope p command.idempotency.tenantID command.idempotency.projectID := by
  obtain ⟨_, _, hp⟩ := except_bind_ok.mp h
  exact admitScope_ok hp

theorem commitRouteTransition_ok {command : RouteTaskCommandCommit} {r : RouteTaskCommandResult}
    (h : commitRouteTransition codec ctx priced now command db = .ok (r, db')) :
    Outcome codec command.idempotency r.idempotency r.replayed
      (fun db' => Resource r.idempotency db' ∧
        ∃ decision, codec.marshalDecision decision =
          some r.idempotency.responsePayload) db db' := by
  obtain ⟨p, hadm, hran⟩ := commitRouteTransition_ran h
  exact hran.outcome (Q := fun r db' => Resource r.idempotency db' ∧
      ∃ decision, codec.marshalDecision decision = some r.idempotency.responsePayload)
    (fun _ _ _ hr => routeBody_ok hr (admitRoute_ok hadm))

theorem admitSelection_ok {command : RouteSelectionCommit}
    (h : admitSelection codec ctx command = .ok p) :
    InScope p command.idempotency.tenantID command.idempotency.projectID := by
  obtain ⟨_, _, h⟩ := except_bind_ok.mp h
  split at h
  · cases h
  split at h
  · cases h
  · exact admitScope_ok h

/-- What a selection that applied has stored. -/
def Selected (codec : Codec) (command : RouteSelectionCommit) (r : RouteSelectionResult) (db : Db) :
    Prop :=
  Resource r.idempotency db ∧ r.binding = command.payload ∧
    codec.marshalSelection command.payload = some r.idempotency.responsePayload ∧
    command.decision.taskID = r.idempotency.resourceID

theorem commitRouteSelection_ok {updateClock : Time} {command : RouteSelectionCommit}
    {r : RouteSelectionResult}
    (h : commitRouteSelection codec ctx priced updateClock now command db = .ok (r, db')) :
    Outcome codec command.idempotency r.idempotency r.replayed
      (Selected codec command r) db db' := by
  obtain ⟨p, hadm, hran⟩ := commitRouteSelection_ran h
  exact hran.outcome (Q := Selected codec command)
    (fun _ _ _ hr => selectionBody_ok hr (admitSelection_ok hadm))

/-- The effect of a successful command. -/
inductive Effect (codec : Codec) (db db' : Db) : Prop
  | replay (same : db' = db)
  | applied (record result : IdempotencyRecord) (h : Applied codec record result db db')
  | begun (record : IdempotencyRecord) (db₁ : Db) (reserved : Reserved record db db₁)
      (log : LogStep db₁ db') (records : db'.idempotency = db₁.idempotency)
  | finished (result : IdempotencyRecord) (h : Finished codec result db db')

theorem Outcome.effect {replayed : Bool} {Q : Db → Prop}
    (h : Outcome codec record result replayed Q db db') : Effect codec db db' := by
  rcases h with ⟨_, hdb, _⟩ | ⟨_, ha, _⟩
  · exact .replay hdb
  · exact .applied record result ha

theorem beginModelExecution_effect {r : ModelExecutionBeginResult}
    (h : beginModelExecution codec ctx now command db = .ok (r, db')) : Effect codec db db' := by
  obtain ⟨p, _, hran⟩ := beginModelExecution_ran h
  rcases hran with ⟨_, _, hdb⟩ | ⟨db₁, hown, hr⟩
  · exact .replay hdb
  · obtain ⟨hlog, hrec⟩ := beginBody_ok hr
    exact .begun command.idempotency db₁ hown hlog hrec

theorem exec_effect {c : Call} {reply : Reply}
    (h : exec codec db c = (.ok reply, db')) : Effect codec db db' := by
  have hran := exec_executed h
  obtain ⟨ctx, now, op⟩ := c
  cases hran with
  | createTask hr => exact (createTask_ok hr).effect
  | commitTransition hr => exact (commitTransition_ok hr).effect
  | commitRouteTransition hr => exact (commitRouteTransition_ok hr).effect
  | commitRouteSelection hr => exact (commitRouteSelection_ok hr).effect
  | beginModelExecution hr => exact beginModelExecution_effect hr
  | finalizeModelExecution hr =>
    simp only [finalizeModelExecution, Tx.bind_ok, Tx.lift_ok] at hr
    obtain ⟨_, _, ⟨_, rfl⟩, hr⟩ := hr
    exact .finished _ (finalizeBody_ok hr)
  | markModelExecutionRetryable hr => exact .finished _ (markModelExecutionRetryable_ok hr)

def Op.outbox : Op → List OutboxMessage
  | .createTask command => command.outbox
  | .commitTransition command => command.outbox
  | .commitRouteTransition _ command => command.outbox
  | _ => []

/-- The messages of a command were appended, or nothing was. -/
def Posted (codec : Codec) (messages : List OutboxMessage) (db db' : Db) : Prop :=
  db'.outbox = db.outbox ∨ ∃ task now, Enqueued codec task now messages db db'

variable {messages : List OutboxMessage}

theorem Posted.completed {db₂ : Db} (h : Posted codec messages db db₂)
    (hdone : Completed codec result db₂ db') : Posted codec messages db db' := by
  obtain ⟨t, rfl⟩ := hdone.table
  exact h

theorem Ran.posted {α : Type} {result : α → IdempotencyRecord} {replayed : α → Bool}
    {body : CommandTx α} {r : α} (h : Ran record result replayed body r db db')
    (hbody : ∀ db₁ db', body db₁ = .ok (r, db') → Posted codec messages db₁ db') :
    Posted codec messages db db' := by
  rcases h with ⟨_, _, rfl⟩ | ⟨db₁, hown, hr⟩
  · exact .inl rfl
  · obtain ⟨t, rfl⟩ := hown.table
    have hposted := hbody _ _ hr
    exact hposted

theorem exec_posted {c : Call} {reply : Reply} (h : exec codec db c = (.ok reply, db')) :
    Posted codec c.op.outbox db db' := by
  have hran := exec_executed h
  obtain ⟨ctx, now, op⟩ := c
  cases hran with
  | createTask hr =>
    obtain ⟨p, task, _, hran⟩ := createTask_ran hr
    refine hran.posted ?_
    intro db₁ db' hr
    obtain ⟨event, db₂, hcomp, henq, _⟩ := createBody_inv hr
    exact Posted.completed (.inr ⟨_, _, henq⟩) hcomp
  | commitTransition hr =>
    obtain ⟨p, _, hran⟩ := commitTransition_ran hr
    refine hran.posted ?_
    intro db₁ db' hr
    obtain ⟨current, event, db₂, hcomp, henq, _⟩ := transitionBody_inv hr
    exact Posted.completed (.inr ⟨_, _, henq⟩) hcomp
  | commitRouteTransition hr =>
    obtain ⟨p, _, hran⟩ := commitRouteTransition_ran hr
    refine hran.posted ?_
    intro db₁ db' hr
    obtain ⟨current, event, db₂, hcomp, henq, _⟩ := routeBody_inv hr
    exact Posted.completed (.inr ⟨_, _, henq⟩) hcomp
  | commitRouteSelection hr =>
    obtain ⟨p, _, hran⟩ := commitRouteSelection_ran hr
    refine hran.posted ?_
    intro db₁ db' hr
    obtain ⟨current, event, updatedAt, db₂, hcomp, hout, _⟩ := selectionBody_inv hr
    exact Posted.completed (.inl hout) hcomp
  | beginModelExecution hr =>
    obtain ⟨p, _, hran⟩ := beginModelExecution_ran hr
    refine hran.posted ?_
    intro db₁ db' hr
    obtain ⟨task, _, hstep, _⟩ := beginBody_inv hr
    cases hstep with
    | first current event status moved outbox result => exact .inl outbox
    | again mem named scope status version same => exact .inl (congrArg Db.outbox same)
  | finalizeModelExecution hr =>
    simp only [finalizeModelExecution, Tx.bind_ok, Tx.lift_ok] at hr
    obtain ⟨_, _, ⟨_, rfl⟩, hr⟩ := hr
    obtain ⟨current, appended, db₂, hcomp, hout, _⟩ := finalizeBody_inv hr
    exact Posted.completed (.inl hout) hcomp
  | markModelExecutionRetryable hr =>
    obtain ⟨t, rfl⟩ := (markModelExecutionRetryable_inv hr).1.table
    exact .inl rfl

theorem validate_named {m : OutboxMessage}
    (h : m.validate codec = .ok u) : ¬ Text.Blank m.outboxID ∧ 0 ≤ m.attempts := by
  unfold OutboxMessage.validate at h
  split at h
  · cases h
  rename_i hb
  split at h
  · cases h
  rename_i hn
  exact ⟨fun hblank => hb (.inl hblank), Int.not_lt.mp (fun hneg => hn (.inl hneg))⟩

/-- A row a command may insert: named, and not leased. -/
def Fresh (r : OutboxRow) : Prop :=
  ∃ m, r = OutboxRow.unleased m ∧ ¬ Text.Blank m.outboxID ∧ 0 ≤ m.attempts

theorem Queued.fresh {m : OutboxMessage} {r : OutboxRow} (h : Queued codec task now m r) :
    Fresh r := by
  obtain ⟨hvalid, payload, _, hrow⟩ := h
  refine ⟨_, hrow, ?_⟩
  have hname := validate_named hvalid
  exact hname

theorem queued_fresh {rows : List OutboxRow}
    (h : Forall₂ (Queued codec task now) messages rows) : ∀ r ∈ rows, Fresh r := by
  induction h with
  | nil => exact forall_mem_nil _
  | cons hq _ ih =>
    intro r hr
    rcases mem_cons.mp hr with rfl | hr
    · exact hq.fresh
    · exact ih r hr

/-- Every old message is still there as it was, and no new one is leased. -/
theorem exec_outbox (codec : Codec) (db : Db) (c : Call) :
    ∃ rows, (exec codec db c).2.outbox.rows = db.outbox.rows ++ rows ∧ ∀ r ∈ rows, Fresh r := by
  have hnone : ∀ {db' : Db}, db'.outbox = db.outbox → ∃ rows,
      db'.outbox.rows = db.outbox.rows ++ rows ∧ ∀ r ∈ rows, Fresh r := by
    intro db' hout
    exact ⟨[], by rw [hout, append_nil], forall_mem_nil _⟩
  rcases exec_db codec db c with hdb | ⟨_, hc⟩
  · rw [hdb]
    exact hnone rfl
  · rcases exec_posted hc with hout | ⟨task, now, rows, hrows, hqueued⟩
    · exact hnone hout
    · exact ⟨rows, hrows, queued_fresh hqueued⟩

end AiCloud.Tasks
