import AiCloud.Activity.Protocol

/-!
# One selection, one execution, one node

Every run of a task that gets as far as an execution was told the same frozen
selection. The ids it derives from it are the same as everybody else's, so the
primary keys leave room for one execution and one node-runtime record, and every
started attempt carries the target and the policy decision of that selection.
-/
namespace AiCloud.Activity

open Lib Execution Identity Tasks Lineage NodeLease Worker List Except

theorem nodeByID_ok {plan : ExecutionPlan} {id : String} {node : ExecutionNode}
    (h : nodeByID plan id = .ok node) : node.id = id := by
  unfold nodeByID at h
  cases hf : plan.nodes.find? (fun node => node.id = id) with
  | none => simp [hf] at h
  | some found =>
    have hk := find?_some hf
    simp only [hf, ok.injEq] at h
    rw [← h]
    simpa using hk

/-- The candidate handed to the worker has the node, target and policy of the binding. -/
theorem prepared_ok {node : ExecutionNode} {binding : Binding} {candidate : PreparedNode}
    (h : preparedNodeFromFrozenBinding node binding = .ok candidate) :
    candidate.node = node ∧ candidate.target = binding.target ∧
      candidate.policy = binding.policy := by
  unfold preparedNodeFromFrozenBinding at h
  split at h
  · cases h
  split at h
  · cases h
  cases h
  exact ⟨rfl, rfl, rfl⟩

/-- The node belongs to an execution of the task. -/
def OfTask (w : World) (taskID : String) (k : NodeKey) : Prop :=
  ∃ x ∈ w.lineage.executions.rows, x.item.taskRef = taskID ∧
    x.scope = ⟨k.tenantID, k.projectID⟩ ∧ x.item.id = k.executionID

instance (w : World) (taskID : String) (k : NodeKey) : Decidable (OfTask w taskID k) :=
  inferInstanceAs (Decidable (∃ x ∈ w.lineage.executions.rows, _))

section Reached

variable {codec : Codec} {encoding : Encoding} {s : ActivitySystem} {i : Nat} {θ : Job}
  {task : Task} {binding : Binding} {plan : ExecutionPlan} {node : ExecutionNode}
  {item : Execution} {p : Principal}

section

variable (h : Reachable codec encoding s) (hj : s.job i = some θ)

include h hj

/-- A run that was told a binding reads it in the scope of its task. -/
theorem bound_scope (hb : Bound encoding θ (s.history i) task binding) :
    Holds (Tasks.after codec s.shared.tasks) task.id task.tenantID task.projectID ∧
      ∀ p, scopedPrincipal θ.ctx = .ok p → scopeOf p = ⟨task.tenantID, task.projectID⟩ := by
  obtain ⟨p, hp, hid, hscope, hh⟩ := reachable_known h hj hb.told
  refine ⟨hid ▸ hh, fun p' hp' => ?_⟩
  obtain rfl : p = p' := ok.inj (hp.symm.trans hp')
  unfold scopeOf
  rw [hscope.1, hscope.2]

theorem bound_frozen (hb : Bound encoding θ (s.history i) task binding) :
    Frozen codec (Tasks.after codec s.shared.tasks)
      (selectionKey task.tenantID task.projectID task.id) binding := by
  obtain ⟨_, _, hid, _, _⟩ := reachable_known h hj hb.told
  obtain ⟨r, rfl, hm⟩ := hb.selection
  have hf := reachable_known h hj hm
  change Frozen codec _ (routeSelectionLookup encoding θ.input).rowKey r.binding at hf
  rw [routeSelectionLookup_key] at hf
  rw [hb.tenant, hb.project, hid]
  exact hf

/-- Two runs of one task have the same scope and the same binding. -/
theorem bound_agree {j : Nat} {θ' : Job} {task' : Task} {binding' : Binding}
    (hj' : s.job j = some θ') (hb : Bound encoding θ (s.history i) task binding)
    (hb' : Bound encoding θ' (s.history j) task' binding') (hid : task.id = task'.id) :
    (task.tenantID = task'.tenantID ∧ task.projectID = task'.projectID) ∧ binding = binding' := by
  have hh := (bound_scope h hj hb).1
  rw [hid] at hh
  have hsame := holds_unique hh (bound_scope h hj' hb').1
  have hf := bound_frozen h hj hb
  rw [hsame.1, hsame.2, hid] at hf
  exact ⟨hsame, hf.unique (bound_frozen h hj' hb')⟩

theorem executing_stored (he : Executing encoding θ (s.history i) task binding plan node item)
    (hp : scopedPrincipal θ.ctx = .ok p) :
    ⟨scopeOf p, item⟩ ∈ s.shared.lineage.executions.rows := by
  rcases he.obtained with ⟨id, hm⟩ | ⟨asked, hm⟩
  · obtain ⟨p', hp', hrow⟩ := reachable_known h hj hm
    obtain rfl : p = p' := ok.inj (hp.symm.trans hp')
    exact hrow
  · obtain ⟨p', hp', hrow⟩ := reachable_known h hj hm
    obtain rfl : p = p' := ok.inj (hp.symm.trans hp')
    exact hrow

end

def Creates (θ : Job) (q : Request) (x : ExecutionRow) : Prop :=
  ∃ asked p, q = .createExecution asked ∧ scopedPrincipal θ.ctx = .ok p ∧ x.scope = scopeOf p ∧
    x.item.taskRef = asked.taskRef ∧ x.item.id = asked.id

def Registers (θ : Job) (q : Request) (k : NodeKey) (record : NodeRuntimeRecord) : Prop :=
  q = .register record ∧ ∃ p, scopedPrincipal θ.ctx = .ok p ∧ recordKey p record = k

theorem answers_executions {w w' : World} {q : Request} {a : Answer q}
    (h : answers codec θ w q a w') {x : ExecutionRow} (hx : x ∈ w'.lineage.executions.rows) :
    x ∈ w.lineage.executions.rows ∨ Creates θ q x := by
  have hcreated : ∀ {asked created : Execution} {lineage : Lineage.Db},
      createExecution θ.ctx asked w.lineage = .ok (created, lineage) →
      x ∈ lineage.executions.rows → x ∈ w.lineage.executions.rows ∨
        Creates θ (.createExecution asked) x := by
    intro asked created lineage hc hx
    obtain ⟨p, identity, hp, rfl, _, _, hrows⟩ := createExecution_ok hc
    rw [hrows] at hx
    rcases mem_append.mp hx with hold | hnew
    · exact .inl hold
    · rw [mem_singleton.mp hnew]
      exact .inr ⟨asked, p, rfl, hp, rfl, rfl, rfl⟩
  cases q with
  | createExecution asked =>
    obtain ⟨lineage, ha, rfl⟩ := h
    cases a with
    | ok created => exact hcreated ha hx
    | error e =>
      rcases ha with hsame | ⟨created, ha⟩
      · exact .inl (hsame ▸ hx)
      · exact hcreated ha hx
  | commitRouteSelection | worker | register | requeueFailed =>
    obtain ⟨_, _, rfl⟩ := h
    exact .inl hx
  | getTask | resolveRouteSelection | getPlan | listPlansByTask | getGoal | getExecution |
    getNode | listAttempts =>
      obtain ⟨_, rfl⟩ := h
      exact .inl hx
  | now | newID | evaluate | build | planRoute | getDeployment =>
    obtain rfl := h
    exact .inl hx

theorem environment_executions {w w' : World} (h : Environment codec w w') :
    w'.lineage.executions = w.lineage.executions := by
  cases h with
  | task call => rfl
  | goal ctx goal goal' lineage hg => exact (createGoal_ok hg).2
  | plan ctx plan plan' lineage hp => exact (createPlan_ok hp).2

variable {record : NodeRuntimeRecord} {k : NodeKey}

theorem answers_registered {w w' : World} {q : Request} {a : Answer q}
    (h : answers codec θ w q a w') (hr : Registered w'.nodes k record) :
    Registered w.nodes k record ∨ Registers θ q k record := by
  rcases answers_call h with hsame | ⟨c, hc, hctx, hop⟩
  · exact .inl (hsame ▸ hr)
  rw [hc] at hr
  rcases registered_snoc.mp hr with hold | ⟨hreg, p, hp, hk, _⟩
  · exact .inl hold
  refine .inr ⟨?_, p, hctx ▸ hp, ?_⟩
  · rw [hreg] at hop
    cases q with
    | register asked => rw [Op.register.inj hop]
    | requeueFailed => cases hop
    | worker q =>
      cases q with
      | coordinate r =>
        obtain ⟨tokenRand, attemptRand, hop⟩ := hop
        cases r <;> cases hop
      | _ => exact absurd hop id
    | _ => exact absurd hop id
  · unfold Call.key at hk
    rw [hreg] at hk
    exact hk

section

variable (h : Reachable codec encoding s)

include h

/-- A stored execution is the one some run of its task built from the frozen plan. -/
theorem execution_origin {x : ExecutionRow}
    (hx : x ∈ s.shared.lineage.executions.rows) : ∃ i θ task binding plan node, s.job i = some θ ∧
    Planned encoding θ (s.history i) task binding plan node ∧ x.item.taskRef = task.id ∧
    x.scope = ⟨task.tenantID, task.projectID⟩ ∧
    x.item.id = executionID task.id plan.id plan.revision := by
  obtain ⟨i, θ, ⟨q, a⟩, hj, he, asked, p, rfl, hp, hscope, htask, hid⟩ := System.Reach.caused
    (P := fun (w : World) (x : ExecutionRow) => x ∈ w.lineage.executions.rows)
    (C := fun θ e => Creates θ e.1) (forall_mem_nil _)
    (fun _ _ _ _ _ _ ha => answers_executions ha)
    (fun _ _ _ hw hx => environment_executions hw ▸ hx) h hx
  obtain ⟨pre, post, hsplit, task, binding, plan, node, goal, now, hplan, rfl⟩ :=
    (reachable_lawful h hj).mem he
  have hplan : Planned encoding θ (s.history i) task binding plan node :=
    hplan.mono (by rw [hsplit]; exact fun _ => mem_append_left _)
  exact ⟨i, θ, task, binding, plan, node, hj, hplan, htask,
    hscope.trans ((bound_scope h hj hplan.toBound).2 p hp), hid⟩

/-- A registered node is the frozen node of the execution some run works on. -/
theorem node_origin (hr : Registered s.shared.nodes k record) :
    ∃ i θ task binding plan node item, s.job i = some θ ∧
      Executing encoding θ (s.history i) task binding plan node item ∧
      record = newRuntime item node ∧ ∃ p, scopedPrincipal θ.ctx = .ok p ∧
        k = nodeKey p item.id binding.plan.revision binding.node := by
  obtain ⟨i, θ, ⟨q, a⟩, hj, he, rfl, p, hp, hk⟩ := System.Reach.caused
    (P := fun (w : World) (x : NodeKey × NodeRuntimeRecord) => Registered w.nodes x.1 x.2)
    (C := fun θ e x => Registers θ e.1 x.1 x.2) (x := (k, record))
    (fun x hx => by obtain ⟨pre, c, post, heq, _⟩ := hx; simp [World.empty] at heq)
    (fun _ _ _ _ _ _ ha => answers_registered ha)
    (fun _ _ _ hw hx => environment_nodes hw ▸ hx) h hr
  obtain ⟨pre, post, hsplit, task, binding, plan, node, item, hex, hrecord⟩ :=
    (reachable_lawful h hj).mem he
  have hex : Executing encoding θ (s.history i) task binding plan node item :=
    hex.mono (by rw [hsplit]; exact fun _ => mem_append_left _)
  have hk : recordKey p record = k := hk
  have hrecord : record = newRuntime item node := hrecord
  refine ⟨i, θ, task, binding, plan, node, item, hj, hex, hrecord, p, hp, ?_⟩
  rw [← hk, ← nodeByID_ok hex.found, ← hex.planRef, hrecord]
  rfl

/-- All executions of a task have one id in one scope. -/
theorem execution_agree {x x' : ExecutionRow}
    (hx : x ∈ s.shared.lineage.executions.rows) (hx' : x' ∈ s.shared.lineage.executions.rows)
    (ht : x.item.taskRef = x'.item.taskRef) : x.scope = x'.scope ∧ x.item.id = x'.item.id := by
  obtain ⟨i, θ, task, binding, plan, node, hj, hp, href, hscope, hid⟩ := execution_origin h hx
  obtain ⟨i', θ', task', binding', plan', node', hj', hp', href', hscope', hid'⟩ :=
    execution_origin h hx'
  have htask : task.id = task'.id := href.symm.trans (ht.trans href')
  obtain ⟨hs, rfl⟩ := bound_agree h hj hj' hp.toBound hp'.toBound htask
  constructor
  · rw [hscope, hscope', hs.1, hs.2]
  · rw [hid, hid', htask, hp.ref.1, hp.ref.2, hp'.ref.1, hp'.ref.2]

end

variable {taskID : String}

section

variable (h : Reachable codec encoding s)

include h

/-- Whoever works on an execution of the task works with the task's frozen binding. -/
theorem executing_frozen (hj : s.job i = some θ)
    (he : Executing encoding θ (s.history i) task binding plan node item)
    (hp : scopedPrincipal θ.ctx = .ok p) {revision : Int} {nodeID : String}
    (ht : OfTask s.shared taskID (nodeKey p item.id revision nodeID)) :
    Frozen codec (Tasks.after codec s.shared.tasks) (selectionKey p.tenantID p.projectID taskID)
      binding := by
  obtain ⟨x, hx, htask, hscope, hid⟩ := ht
  have hrow := executing_stored h hj he hp
  obtain rfl := execution_unique hx hrow hscope hid
  have hs := (bound_scope h hj he.toBound).2 p hp
  have hf := bound_frozen h hj he.toBound
  rw [← he.taskRef, show item.taskRef = taskID from htask,
    ← show p.tenantID = task.tenantID from congrArg Scope.tenantID hs,
    ← show p.projectID = task.projectID from congrArg Scope.projectID hs] at hf
  exact hf

/-- A registered node of the task is the node of the task's frozen binding. -/
theorem node_frozen (hr : Registered s.shared.nodes k record)
    (ht : OfTask s.shared taskID k) : ∃ binding, Frozen codec (Tasks.after codec s.shared.tasks)
      (selectionKey k.tenantID k.projectID taskID) binding ∧
    k.planRevision = binding.plan.revision ∧ k.nodeID = binding.node := by
  obtain ⟨i, θ, task, binding, plan, node, item, hj, he, _, p, hp, rfl⟩ := node_origin h hr
  exact ⟨binding, executing_frozen h hj he hp ht, rfl, rfl⟩

/-- All node-runtime records of a task have one key. -/
theorem node_agree {k' : NodeKey} {record' : NodeRuntimeRecord}
    (hr : Registered s.shared.nodes k record) (hr' : Registered s.shared.nodes k' record')
    (ht : OfTask s.shared taskID k) (ht' : OfTask s.shared taskID k') : k = k' := by
  obtain ⟨binding, hf, hrev, hnode⟩ := node_frozen h hr ht
  obtain ⟨binding', hf', hrev', hnode'⟩ := node_frozen h hr' ht'
  obtain ⟨x, hx, htask, hscope, hid⟩ := ht
  obtain ⟨x', hx', htask', hscope', hid'⟩ := ht'
  obtain ⟨hs, hi⟩ := execution_agree h hx hx' (htask.trans htask'.symm)
  rw [hscope, hscope'] at hs
  obtain ⟨tenantID, projectID, executionID, planRevision, nodeID⟩ := k
  obtain ⟨tenantID', projectID', executionID', planRevision', nodeID'⟩ := k'
  obtain ⟨rfl, rfl⟩ := Scope.mk.inj hs
  obtain rfl := hf.unique hf'
  rw [show executionID = executionID' from hid.symm.trans (hi.trans hid'),
    show planRevision = planRevision' from hrev.trans hrev'.symm,
    show nodeID = nodeID' from hnode.trans hnode'.symm]

/-- An event that needed a lease was asked by the worker of a run on that node. -/
theorem held_origin {e : Event} {held : Time × NodeLease}
    (he : e ∈ eventsOf s.shared.nodes k) (hh : e.held = some held) :
    ∃ i θ task binding plan node item candidate now p, ∃ r a, s.job i = some θ ∧
      Executing encoding θ (s.history i) task binding plan node item ∧
      preparedNodeFromFrozenBinding node binding = .ok candidate ∧
      Prog.Lawful (Worker.allowed (θ.workerJob item candidate)) (workerHistories s i) ∧
      scopedPrincipal θ.ctx = .ok p ∧ Coordinate.key p r = k ∧
      (⟨.coordinate r, a⟩ : Sigma Worker.Answer) ∈ workerHistories s i ∧
      ∀ x, r.event now x = e := by
  obtain ⟨i, ctx, p, now, r, a, hctx, hp, hkey, hm, hevent⟩ :=
    (reachable_ledger h).origin k e held he hh
  obtain ⟨θ, hj, rfl⟩ := Option.map_eq_some_iff.mp hctx
  obtain ⟨task, binding, plan, node, item, candidate, hex, hprep, hlaw⟩ :=
    worker_lawful (reachable_lawful h hj) (ne_nil_of_mem hm)
  exact ⟨i, θ, task, binding, plan, node, item, candidate, now, p, r, a, hj, hex, hprep, hlaw, hp,
    hkey, hm, hevent⟩

/-- The run holds this lease of the node, by the protocol of a worker. -/
structure Holder (s : ActivitySystem) (k : NodeKey) (i : Nat) (θ : Job) (item : Execution)
    (candidate : PreparedNode) (lease : NodeLease) : Prop where
  job : s.job i = some θ
  node : (θ.workerJob item candidate).node = some k
  claimed : Claimed (θ.workerJob item candidate) (workerHistories s i) lease
  lawful : Prog.Lawful (Worker.allowed (θ.workerJob item candidate)) (workerHistories s i)

theorem holder_of_claim {candidate : PreparedNode} {lease : NodeLease} (hj : s.job i = some θ)
    (hlaw : Prog.Lawful (Worker.allowed (θ.workerJob item candidate)) (workerHistories s i))
    (hp : scopedPrincipal θ.ctx = .ok p) (hk : leaseKey p lease = k)
    (hc : Claimed (θ.workerJob item candidate) (workerHistories s i) lease) :
    Holder s k i θ item candidate lease := by
  obtain ⟨p', k', hp', hk', hkey⟩ := (reachable_ledger h).claimed_node (context_of hj) hc
  obtain rfl : p = p' := ok.inj (hp.symm.trans hp')
  obtain rfl : k' = k := hkey.symm.trans hk
  exact ⟨hj, hk', hc, hlaw⟩

/-- A started attempt was started by a run of the execution it belongs to, with the
target and the policy decision of that run's binding. -/
theorem attempt_origin {a : AttemptRow}
    (ha : a ∈ (after s.shared.nodes).attempts.rows) (hst : a.startedAt ≠ none) :
    ∃ i θ task binding plan node item, s.job i = some θ ∧
      Executing encoding θ (s.history i) task binding plan node item ∧
      (∃ p, scopedPrincipal θ.ctx = .ok p ∧
        a.key = nodeKey p item.id binding.plan.revision binding.node) ∧
      a.targetSnapshotDigest = some binding.target.snapshot.digest ∧
      a.policyDecisionID = some binding.policy.id := by
  have hof : a ∈ (after s.shared.nodes).attemptsOf a.key := Table.mem_select.mpr ⟨ha, rfl⟩
  obtain ⟨record, c, hpres⟩ := present_of_attempt hof
  rw [(cellOf_some hpres.cell).2] at hof
  obtain ⟨now, lease, given, hev, hdigest, hpolicy⟩ := hpres.startsShown a hof hst
  obtain ⟨i, θ, task, binding, plan, node, item, candidate, now', p, r, x, hj, he, hprep, hlaw, hp,
    hkey, hm, hevent⟩ := held_origin h hev rfl
  have hcand := prepared_ok hprep
  cases r with
  | startAttempt lease' given' =>
    injection hevent a with _ hlease hgiven
    subst hlease hgiven
    obtain ⟨pre, post, hsplit, hclaim, reservationID, rfl⟩ := hlaw.mem hm
    have hclaim : Claimed (θ.workerJob item candidate) (workerHistories s i) lease' := by
      rw [hsplit]
      exact mem_append_left _ hclaim
    obtain ⟨p', hp', hk⟩ := node_some (holder_of_claim h hj hlaw hp hkey hclaim).node
    obtain rfl : p = p' := ok.inj (hp.symm.trans hp')
    refine ⟨i, θ, task, binding, plan, node, item, hj, he, ⟨p, hp, ?_⟩, ?_, ?_⟩
    · rw [← hk, ← nodeByID_ok he.found, ← he.planRef]
      change nodeKey p item.id item.planRef.revision candidate.node.id = _
      rw [hcand.1]
    · rw [hdigest, ← hcand.2.1]
      rfl
    · rw [hpolicy, ← hcand.2.2]
      rfl
  | claim => cases hevent lease
  | markEffectStarted => cases hevent ()
  | markEffectCommitted => cases hevent ()
  | releaseBeforeEffect => cases hevent ()
  | complete => cases hevent ()

end

/-- What a task's stored selection fixes. -/
structure SelectionBinds (codec : Codec) (w : World) (taskID : String) : Prop where
  oneExecution : w.lineage.executions.rows.countP (fun x => decide (x.item.taskRef = taskID)) ≤ 1
  oneNode : (NodeLease.after w.nodes).nodes.rows.countP
    (fun row => decide (OfTask w taskID row.key)) ≤ 1
  frozenNode : ∀ row ∈ (NodeLease.after w.nodes).nodes.rows, OfTask w taskID row.key →
    ∃ binding, Frozen codec (Tasks.after codec w.tasks)
        (selectionKey row.key.tenantID row.key.projectID taskID) binding ∧
      row.key.planRevision = binding.plan.revision ∧ row.key.nodeID = binding.node
  /-- Once completed, the record of the selection is the same after any further calls. -/
  unchanged : ∀ tenantID projectID pre post record, w.tasks = pre ++ post →
    (Tasks.after codec pre).record (selectionKey tenantID projectID taskID) = some record →
    record.status = .completed →
    (Tasks.after codec w.tasks).record (selectionKey tenantID projectID taskID) = some record
  attempts : ∀ a ∈ (NodeLease.after w.nodes).attempts.rows, OfTask w taskID a.key →
    a.startedAt ≠ none → ∃ binding, Frozen codec (Tasks.after codec w.tasks)
        (selectionKey a.key.tenantID a.key.projectID taskID) binding ∧
      a.targetSnapshotDigest = some binding.target.snapshot.digest ∧
      a.policyDecisionID = some binding.policy.id

/-- However routing and execution runs of a task interleave, retry and crash, they
leave one execution and one node-runtime record for the node of the one stored
selection, and every attempt they start carries its target and policy decision. -/
theorem selection_binds_task (codec : Codec) (encoding : Encoding) (s : ActivitySystem)
    (h : Reachable codec encoding s) (taskID : String) : SelectionBinds codec s.shared taskID := by
  refine ⟨?_, ?_, ?_, ?_, ?_⟩
  · apply Table.countP_le_one
    intro x hx x' hx' ht ht'
    exact execution_agree h hx hx' (ht.trans ht'.symm)
  · apply Table.countP_le_one
    intro row hrow row' hrow' ht ht'
    obtain ⟨record, hr⟩ := registered_of_row hrow
    obtain ⟨record', hr'⟩ := registered_of_row hrow'
    exact node_agree h hr hr' ht ht'
  · intro row hrow ht
    obtain ⟨record, hr⟩ := registered_of_row hrow
    exact node_frozen h hr ht
  · intro tenantID projectID pre post record htasks hrecord hst
    rw [htasks, after_append]
    exact run_frozen hrecord (.inl hst) post
  · intro a ha ht hst
    obtain ⟨i, θ, task, binding, plan, node, item, hj, he, ⟨p, hp, hk⟩, hdigest, hpolicy⟩ :=
      attempt_origin h ha hst
    rw [hk] at ht
    refine ⟨binding, ?_, hdigest, hpolicy⟩
    rw [hk]
    exact executing_frozen h hj he hp ht

end Reached

/-- Executions, node records and started attempts of the sample task. -/
def sampleCounts (w : World) : Nat × Nat × Nat :=
  (w.lineage.executions.rows.countP (fun x => decide (x.item.taskRef = "task")),
    (NodeLease.after w.nodes).nodes.rows.countP (fun row => decide (OfTask w "task" row.key)),
    (NodeLease.after w.nodes).attempts.rows.countP
      (fun a => decide (OfTask w "task" a.key ∧ a.startedAt ≠ none)))

theorem selection_binds_taken_over :
    ∃ s, scheduled frozenCodec sampleEncoding takenOverMoves = some s ∧
      sampleCounts s.shared = (1, 1, 2) ∧ SelectionBinds frozenCodec s.shared "task" := by
  have hrun : (scheduled frozenCodec sampleEncoding takenOverMoves).map
      (fun s => sampleCounts s.shared) = some (1, 1, 2) := by decide +kernel
  obtain ⟨s, hs, hcounts⟩ := Option.map_eq_some_iff.mp hrun
  exact ⟨s, hs, hcounts,
    selection_binds_task frozenCodec sampleEncoding s (scheduled_reachable hs) "task"⟩

end AiCloud.Activity
