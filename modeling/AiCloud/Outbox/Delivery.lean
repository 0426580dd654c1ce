import AiCloud.Outbox.Leases

/-!
# From a created task to its workflow

Task creations post the message that starts the task's workflow, and any number
of dispatchers deliver it. Delivery happens at least once; the workflow id makes
its effect single.
-/
namespace AiCloud.Outbox

open Lib Text Identity Execution Tasks Workflow ControlPlane List

/-- A task creation by anyone. -/
inductive Creations (codec : Codec) (taskCreatedPayload : Task → Option String) :
    World → World → Prop
  | create (w : World) (ctx : Context) (now : Time) (input : CreationInput)
      (commit : TaskCreateCommit) (h : createTaskCommit taskCreatedPayload ctx input = .ok commit) :
      Creations codec taskCreatedPayload w
        { w with db := (Tasks.exec codec w.db ⟨ctx, now, .createTask commit⟩).2 }

variable {codec : Codec} {taskCreatedPayload : Task → Option String}
  {unmarshalPayload : String → Option StartPayload} {s : DispatchSystem}

abbrev CreationReach (codec : Codec) (taskCreatedPayload : Task → Option String)
    (unmarshalPayload : String → Option StartPayload) (s : DispatchSystem) : Prop :=
  System.Reach (body unmarshalPayload) (answers codec) (Creations codec taskCreatedPayload)
    World.empty s

theorem Creations.command {w w' : World} (h : Creations codec taskCreatedPayload w w') :
    Commands codec w w' := by
  cases h with
  | create ctx now input commit h => exact .command w _

theorem CreationReach.reachable (h : CreationReach codec taskCreatedPayload unmarshalPayload s) :
    Reachable codec unmarshalPayload s :=
  h.mono (fun _ _ _ _ _ ha => ha) (fun _ _ hc => hc.command)

/-- The message that starts a task's workflow, as a creation posts it. -/
structure StartMessage (id : String) (r : OutboxRow) : Prop where
  destination : r.message.destination = destinationWorkflowStart
  status : r.message.status = .pending
  taskID : r.message.taskID = id
  trimmed : trimSpace id = id

variable {w w' : World} {task : Task}

theorem newTask_trimmed {params : NewTaskParams} (h : newTask params = .ok task) :
    trimSpace task.id = task.id := by
  unfold newTask at h
  split at h
  · cases h
  split at h
  · cases h
  split at h
  · cases h
  cases h
  exact trimSpace_trimSpace _

theorem createTaskCommit_ok {ctx : Context} {input : CreationInput} {commit : TaskCreateCommit}
    (h : createTaskCommit taskCreatedPayload ctx input = .ok commit) :
    trimSpace commit.task.id = commit.task.id ∧ ∃ tenantID payload, commit.outbox =
        [workflowStartMessage input tenantID commit.task.id payload] := by
  unfold createTaskCommit at h
  simp only [except_bind_ok] at h
  obtain ⟨_, _, p, _, task, htask, payload, _, hcommit⟩ := h
  cases hcommit
  exact ⟨newTask_trimmed (except_mapError_ok.mp htask), _, payload, rfl⟩

theorem adoptTask_id {p : Principal} {task task' : Task} (h : adoptTask p task = .ok task') :
    task'.id = task.id := by
  unfold adoptTask at h
  split at h
  · cases h
  split at h
  · cases h
  split at h
  · cases h
  cases h
  rfl

theorem admitCreate_id {ctx : Context} {command : TaskCreateCommit} {p : Principal}
    (h : admitCreate codec ctx command = .ok (p, task)) : task.id = command.task.id := by
  unfold admitCreate at h
  simp only [except_bind_ok] at h
  obtain ⟨_, _, _, _, _, ha, _, _, heq⟩ := h
  cases heq
  exact adoptTask_id ha

variable {r : OutboxRow}

theorem queued_startMessage {now : Time} {input : CreationInput} {tenantID payload : String}
    (htrim : trimSpace task.id = task.id)
    (h : Queued codec task now (workflowStartMessage input tenantID task.id payload) r) :
    StartMessage task.id r := by
  obtain ⟨_, stored, _, rfl⟩ := h
  refine ⟨rfl, rfl, ?_, htrim⟩
  change (if _ ∧ _ ∧ _ then task.id else _) = task.id
  exact if_pos ⟨rfl, rfl, rfl⟩

/-- A creation adds one task with its start message, or nothing. -/
theorem Creations.posts (h : Creations codec taskCreatedPayload w w') :
    (w'.db.tasks.rows = w.db.tasks.rows ∧ w'.rows = w.rows) ∨
      ∃ task r, w'.db.tasks.rows = w.db.tasks.rows ++ [task] ∧ w'.rows = w.rows ++ [r] ∧
        StartMessage task.id r := by
  cases h with
  | create ctx now input commit hcommit =>
    obtain ⟨htrim, tenantID, payload, houtbox⟩ := createTaskCommit_ok hcommit
    rcases Tx.commit_cases (Call.tx codec ⟨ctx, now, .createTask commit⟩) w.db with
      ⟨e, hc⟩ | ⟨reply, db', hc, hr⟩
    · refine .inl ?_
      have hdb : (Tasks.exec codec w.db ⟨ctx, now, .createTask commit⟩).2 = w.db := by
        rw [Tasks.exec, hc]
      exact ⟨by rw [hdb], by rw [World.rows, hdb]; rfl⟩
    · have hdb : (Tasks.exec codec w.db ⟨ctx, now, .createTask commit⟩).2 = db' := by
        rw [Tasks.exec, hc]
      simp only [Call.tx, Tx.bind_ok, Tx.pure_ok] at hr
      obtain ⟨result, _, hr, _, rfl⟩ := hr
      obtain ⟨p, task, hadmit, hran⟩ := createTask_ran hr
      rcases hran with ⟨_, _, rfl⟩ | ⟨db₁, hown, hbody⟩
      · refine .inl ⟨by rw [hdb], by rw [World.rows, hdb]; rfl⟩
      obtain ⟨t, rfl⟩ := hown.table
      obtain ⟨event, db₂, hdone, ⟨rows, hrows, hqueued⟩, _, htasks, _⟩ := createBody_inv hbody
      obtain ⟨t', rfl⟩ := hdone.table
      have hid := admitCreate_id hadmit
      rw [houtbox, ← hid] at hqueued
      rw [← hid] at htrim
      cases hqueued with
      | cons hq hnil =>
        cases hnil
        refine .inr ⟨task, _, ?_, ?_, queued_startMessage htrim hq⟩
        · rw [hdb]
          exact htasks
        · rw [World.rows, hdb]
          exact hrows

theorem Creations.rows (h : Creations codec taskCreatedPayload w w') :
    ∃ rows, w'.rows = w.rows ++ rows ∧ ∀ r ∈ rows, ∃ id, StartMessage id r := by
  rcases h.posts with ⟨_, hsame⟩ | ⟨task, r, _, hrows, hstart⟩
  · exact ⟨[], by rw [hsame, append_nil], forall_mem_nil _⟩
  refine ⟨[r], hrows, ?_⟩
  intro r' hr'
  rw [mem_singleton.mp hr']
  exact ⟨task.id, hstart⟩

section

variable (h : CreationReach codec taskCreatedPayload unmarshalPayload s)

include h

theorem reach_trimmed : ∀ r ∈ s.shared.rows, trimSpace r.message.taskID = r.message.taskID := by
  refine reach_messages (C := fun _ => True)
    (P := fun _ r _ => trimSpace r.message.taskID = r.message.taskID)
    (fun _ _ hc => hc.command) (fun _ _ hc => hc.rows) ?_ (fun _ _ _ _ _ hp => hp) ?_ h
    (fun _ _ _ => trivial)
  · rintro _ r ⟨id, hstart⟩
    rw [hstart.taskID]
    exact hstart.trimmed
  · intro s i θ q k a w r r' ts _ _ _ _ _ hstep hold
    rw [(fixedColumns_delivery hstep.later.message).2]
    exact hold

omit h in
theorem Requests.ids {m : OutboxMessage} {sent : TemporalStartRequest}
    (h : Requests unmarshalPayload m sent) :
    sent.workflowID = "task/" ++ trimSpace m.taskID ∧ sent.input.taskID = m.taskID := by
  obtain ⟨engine, request, hrequest, hsent⟩ := h
  have htask : request.taskID = m.taskID := by
    unfold startDelivery at hrequest
    repeat' split at hrequest
    all_goals cases hrequest
    rfl
  unfold TemporalEngine.sends at hsent
  simp only [except_bind_ok] at hsent
  obtain ⟨_, _, id, hid, hsent⟩ := hsent
  cases hsent
  refine ⟨?_, htask⟩
  unfold workflowID at hid
  split at hid
  · cases hid
  cases hid
  rw [htask]

theorem leased_trimmed {i : Nat} {θ : Run} {item : LeasedOutboxMessage} (hj : s.job i = some θ)
    (hl : Leased (s.history i) item) : trimSpace item.message.taskID = item.message.taskID := by
  obtain ⟨_, _, r, hr, hfixed, _⟩ := reachable_leased h.reachable hj hl
  rw [← (fixedColumns_delivery hfixed).2]
  exact reach_trimmed h r hr

/-- Every workflow has the id of its task, and no id is started twice. -/
theorem reach_workflows : (∀ x ∈ s.shared.workflows, x.id = "task/" ++ x.input.taskID) ∧
    (s.shared.workflows.map StartedWorkflow.id).Nodup := by
  induction h with
  | start => exact ⟨forall_mem_nil _, nodup_nil⟩
  | @next s s' hr hs ih =>
    cases hs with
    | spawn θ => exact ih
    | env w henv =>
      cases henv with
      | create ctx now input commit hcommit => exact ih
    | run i θ q k a w hi ha =>
      rcases answers_workflows ha with hsame | ⟨sent, rfl, hfresh, rfl⟩
      · change (∀ x ∈ w.workflows, _) ∧ (w.workflows.map _).Nodup
        rw [hsame]
        exact ih
      · obtain ⟨hj, item, hl, hrequest⟩ := reachable_allowed (CreationReach.reachable hr) hi
        obtain ⟨hid, htask⟩ := hrequest.ids
        rw [leased_trimmed hr hj hl, ← htask] at hid
        change (∀ x ∈ s.shared.workflows ++ [_], _) ∧
          ((s.shared.workflows ++ [_]).map StartedWorkflow.id).Nodup
        constructor
        · intro x hx
          rcases mem_append.mp hx with hx | hx
          · exact ih.1 x hx
          · rw [mem_singleton.mp hx]
            exact hid
        · rw [map_append, map_singleton]
          refine Nodup.append ih.2 (nodup_singleton _) ?_
          intro id hmem hnew
          obtain ⟨x, hx, rfl⟩ := mem_map.mp hmem
          exact hfresh x hx (mem_singleton.mp hnew)

/-- A start message is delivered only if the workflow of its task was started. -/
theorem reach_delivered :
    ∀ r ∈ s.shared.rows, r.message.destination = destinationWorkflowStart →
      r.message.status = .delivered →
      ∃ x ∈ s.shared.workflows, x.input.taskID = r.message.taskID := by
  refine reach_messages (C := fun _ => True)
    (P := fun w r _ => r.message.destination = destinationWorkflowStart →
      r.message.status = .delivered → ∃ x ∈ w.workflows, x.input.taskID = r.message.taskID)
    (fun _ _ hc => hc.command) (fun _ _ hc => hc.rows) ?_ ?_ ?_ h (fun _ _ _ => trivial)
  · rintro _ r ⟨id, hstart⟩ _ hst
    rw [hstart.status] at hst
    cases hst
  · intro w w' r ts hc hold
    cases hc with
    | command call => exact hold
  · intro s i θ q k a w r r' ts hr hi ha _ hmem hstep hold
    cases hstep with
    | kept q =>
      intro hdest hst
      obtain ⟨x, hx, htask⟩ := hold hdest hst
      exact ⟨x, answers_workflows_kept ha hx, htask⟩
    | leased owner limit now leaseDuration status =>
      intro _ hst
      cases hst
    | failed owner now nextAvailableAt maxAttempts reason availableAt status held =>
      intro _ hst
      change (if maxAttempts ≤ r.message.attempts then OutboxStatus.deadLetter else .pending) =
        .delivered at hst
      split at hst <;> cases hst
    | delivered owner deliveredAt status held =>
      intro hdest _
      obtain ⟨hj, _, _, item, hl, hid, hconfirmed⟩ :=
        reachable_allowed (CreationReach.reachable hr) hi
      -- the leased message is this one, so the confirmed start was its own
      obtain ⟨_, _, r₀, hr₀, hfixed, _⟩ := reachable_leased (CreationReach.reachable hr) hj hl
      obtain rfl : r₀ = r := row_unique hr₀ hmem ((fixedColumns_outboxID hfixed).trans hid)
      obtain ⟨hsame, htask⟩ := fixedColumns_delivery hfixed
      obtain ⟨sent, result, hrequest, hstarted⟩ := hconfirmed (hsame.symm.trans hdest)
      obtain ⟨x, hx, hxid⟩ := reachable_known (CreationReach.reachable hr) hj hstarted result rfl
      refine ⟨x, answers_workflows_kept ha hx, ?_⟩
      have hown := (reach_workflows hr).1 x hx
      rw [hxid, hrequest.ids.1, leased_trimmed hr hj hl] at hown
      have heq := String.append_right_inj "task/" |>.mp hown
      exact heq.symm.trans htask.symm

end

theorem answers_tasks {θ : Run} {q : Request} {a : Answer q}
    (h : answers codec θ w q a w') : w'.db.tasks = w.db.tasks := by
  cases answers_effect h with
  | same q db taken => rw [db]
  | leased owner limit now leaseDuration p picked mem nodup tasks rows taken => exact tasks
  | delivered outboxID owner deliveredAt p held tasks rows taken => exact tasks
  | failed outboxID owner now nextAvailableAt maxAttempts reason p row status availableAt mem held
      limit tasks rows taken => exact tasks

def HasStart (w : World) (taskID : String) : Prop :=
  ∃ r ∈ w.rows, r.message.destination = destinationWorkflowStart ∧ r.message.taskID = taskID

theorem HasStart.later {taskID : String} (h : HasStart w taskID)
    (hlater : ∀ r ∈ w.rows, ∃ r' ∈ w'.rows, Later r r') : HasStart w' taskID := by
  obtain ⟨r, hr, hdest, htask⟩ := h
  obtain ⟨r', hr', hl⟩ := hlater r hr
  obtain ⟨hdest', htask'⟩ := fixedColumns_delivery hl.message
  exact ⟨r', hr', hdest'.trans hdest, htask'.trans htask⟩

theorem reach_posted (h : CreationReach codec taskCreatedPayload unmarshalPayload s) :
    ∀ t ∈ s.shared.db.tasks.rows, HasStart s.shared t.id := by
  induction h with
  | start => exact forall_mem_nil _
  | @next s s' hr hs ih =>
    cases hs with
    | spawn θ => exact ih
    | run i θ q k a w hi ha =>
      intro t ht
      change t ∈ w.db.tasks.rows at ht
      rw [answers_tasks ha] at ht
      exact (ih t ht).later (fun r => answers_later ha)
    | env w henv =>
      have hkept : ∀ t ∈ s.shared.db.tasks.rows, HasStart w t.id := fun t ht =>
        (ih t ht).later (fun r hr => ⟨r, commands_later henv.command hr, Later.refl r⟩)
      intro t ht
      change t ∈ w.db.tasks.rows at ht
      rcases henv.posts with ⟨htasks, _⟩ | ⟨task, r, htasks, hrows, hstart⟩
      · exact hkept t (htasks ▸ ht)
      rw [htasks] at ht
      rcases mem_append.mp ht with ht | ht
      · exact hkept t ht
      rw [mem_singleton.mp ht]
      refine ⟨r, ?_, hstart.destination, hstart.taskID⟩
      rw [hrows]
      exact mem_append_right _ (mem_singleton_self r)

theorem delivering_iff_leased {w : World} (hr : r ∈ w.rows) :
    r.message.status = .delivering ↔ r.leaseOwner ≠ none ∧ r.leaseExpiresAt ≠ none := by
  rcases (w.db.outbox.checked r hr).2 with ⟨hst, howner, _, hexpires⟩ | ⟨hst, howner, _⟩
  · exact ⟨fun _ => ⟨howner, hexpires⟩, fun _ => hst⟩
  · exact ⟨fun h => absurd h hst, fun h => absurd howner h.1⟩

/-- Later states have every message, and settled messages as they were. -/
theorem steps_later {s' : DispatchSystem}
    (h : Relation.ReflTransGen (System.Step (body unmarshalPayload) (answers codec)
      (Creations codec taskCreatedPayload)) s s')
    (hr : r ∈ s.shared.rows) : ∃ r' ∈ s'.shared.rows, Later r r' := by
  induction h with
  | refl => exact ⟨r, hr, Later.refl r⟩
  | tail _ hs ih =>
    obtain ⟨r₁, hr₁, hl⟩ := ih
    cases hs with
    | spawn θ => exact ⟨r₁, hr₁, hl⟩
    | run i θ q k a w hi ha =>
      obtain ⟨r₂, hr₂, hl₂⟩ := answers_later ha hr₁
      exact ⟨r₂, hr₂, hl.trans hl₂⟩
    | env w henv => exact ⟨r₁, commands_later henv.command hr₁, hl⟩

/-- What holds of tasks, messages and workflows in every state. -/
structure Consistent (w : World) : Prop where
  single : (w.workflows.map (fun x => x.input.taskID)).Nodup
  started : ∀ r ∈ w.rows, r.message.destination = destinationWorkflowStart →
    r.message.status = .delivered → ∃ x ∈ w.workflows, x.input.taskID = r.message.taskID
  posted : ∀ t ∈ w.db.tasks.rows, HasStart w t.id
  leased : ∀ r ∈ w.rows,
    r.message.status = .delivering ↔ r.leaseOwner ≠ none ∧ r.leaseExpiresAt ≠ none

/-- In every run of creations and dispatchers: one workflow per task, started before
its message is delivered; no message is removed, no settled one changes its
status, and the leased messages are those being delivered. -/
theorem creation_starts_one_workflow (codec : Codec) (taskCreatedPayload : Task → Option String)
    (unmarshalPayload : String → Option StartPayload) (s s' : DispatchSystem)
    (h : CreationReach codec taskCreatedPayload unmarshalPayload s)
    (hs : Relation.ReflTransGen (System.Step (body unmarshalPayload) (answers codec)
      (Creations codec taskCreatedPayload)) s s') :
    Consistent s.shared ∧ ∀ r ∈ s.shared.rows, ∃ r' ∈ s'.shared.rows,
      fixedColumns r'.message = fixedColumns r.message ∧
        (Settled r.message.status → r'.message.status = r.message.status) := by
  constructor
  · obtain ⟨hids, hnodup⟩ := reach_workflows h
    refine ⟨?_, reach_delivered h, reach_posted h, fun r => delivering_iff_leased⟩
    -- task ids are as distinct as the workflow ids made of them
    have hmap : s.shared.workflows.map StartedWorkflow.id =
        (s.shared.workflows.map (fun x => x.input.taskID)).map (fun id => "task/" ++ id) := by
      rw [map_map]
      exact map_congr_left hids
    rw [hmap] at hnodup
    exact Nodup.of_map _ hnodup
  · intro r hr
    obtain ⟨r', hr', hl⟩ := steps_later hs hr
    exact ⟨r', hr', hl.message, hl.settled⟩

def create (codec : Codec) (taskCreatedPayload : Task → Option String)
    (x : Context × Time × CreationInput) (w : World) : Option World :=
  match createTaskCommit taskCreatedPayload x.1 x.2.2 with
  | .error _ => none
  | .ok commit => some { w with db := (Tasks.exec codec w.db ⟨x.1, x.2.1, .createTask commit⟩).2 }

theorem create_creations (x : Context × Time × CreationInput) (w w' : World)
    (h : create codec taskCreatedPayload x w = some w') :
    Creations codec taskCreatedPayload w w' := by
  unfold create at h
  split at h
  · cases h
  rename_i commit hcommit
  cases h
  exact .create w x.1 x.2.1 x.2.2 commit hcommit

def creationScheduled (codec : Codec) (taskCreatedPayload : Task → Option String)
    (unmarshalPayload : String → Option StartPayload)
    (moves : List (Move Run Choice (Context × Time × CreationInput))) : Option DispatchSystem :=
  System.schedule (body unmarshalPayload) (reply codec) (create codec taskCreatedPayload)
    World.empty moves

def deliveredMoves : List (Move Run Choice (Context × Time × CreationInput)) :=
  [.env (some sampleCaller, 3, sampleCreation), .spawn sampleRun, .run 0 (sampleChoice 5),
    .run 0 (sampleChoice 5), .run 0 (sampleChoice 6), .run 0 (sampleChoice 7),
    .run 0 (sampleChoice 7)]

theorem creation_starts_one_workflow_delivered :
    ∃ s, CreationReach sampleCodec sampleCreated samplePayload s ∧
      statuses s.shared = [.delivered] ∧
      s.shared.workflows.map (fun x => x.input.taskID) = ["task-7"] ∧ Consistent s.shared := by
  have hview : (creationScheduled sampleCodec sampleCreated samplePayload
      deliveredMoves).any (fun s => statuses s.shared = [.delivered] ∧
        s.shared.workflows.map (fun x => x.input.taskID) = ["task-7"]) = true := by
    decide +kernel
  obtain ⟨s, hreach, hstatus, hworkflows⟩ :=
    System.exists_schedule reply_answers create_creations hview
  exact ⟨s, hreach, hstatus, hworkflows, (creation_starts_one_workflow _ _ _ s s hreach .refl).1⟩

end AiCloud.Outbox
