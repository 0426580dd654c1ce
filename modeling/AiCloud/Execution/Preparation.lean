import AiCloud.Execution.Acceptance
import Mathlib.Data.String.Basic
import AiCloud.Lib.Sorted

/-!
# Scheduling

`PrepareRunnable` picks the nodes of a plan that may run next. A plan without a cycle
always has one while a node is open and none has failed, been skipped, blocked or is in
progress: among the nodes not yet succeeded one has no open dependency. Every runnable
node has one entry, as a prepared node or as a condition, in the order of ids.
-/
namespace AiCloud.Execution

open Lib List

/-- The stored state of each node; a node that was never stored has none. -/
structure Runtimes where
  entries : List (String × NodeState)
  distinct : (entries.map Prod.fst).Nodup

variable (runtimes : Runtimes)

def Runtimes.lookup (id : String) : Option NodeState :=
  runtimes.entries.lookup id

/-- Reading the Go map: the empty text where there is no entry. -/
def Runtimes.get (id : String) : NodeState :=
  (runtimes.lookup id).getD (.other "")

inductive ConditionType
  | approvalRequired
  | targetDegraded
  | partiallyBlocked
  | budgetPressure
  deriving DecidableEq

structure ExecutionCondition where
  type : ConditionType
  status : Bool
  (nodeRef reason : String)
  deriving DecidableEq

inductive SupervisorError
  | executionNotRunnable
  | planNotReady
  | policyEvaluate (node error : String)
  | unknownDecision (node : String) (decision : PolicyDecision)
  | estimate (node error : String)
  deriving DecidableEq

/-- The collaborators of the supervisor; each may fail with an error text. -/
structure Supervisor where
  evaluate : Execution → ExecutionNode → Except String PolicyDecisionRecord
  resolve : Execution → ExecutionNode → Except String ExecutionTarget
  estimate : Execution → ExecutionNode → ExecutionTarget → Except String BudgetEstimate

structure Preparation where
  prepared : List PreparedNode
  conditions : List ExecutionCondition
  error : Option SupervisorError

def dependenciesSucceeded (node : ExecutionNode) (runtimes : Runtimes) : Bool :=
  node.dependsOn.all (fun dep => runtimes.get dep = .succeeded)

def hasActiveOrWaitingNodes : Bool :=
  runtimes.entries.any (fun entry => entry.2 ∈ [.running, .waitingApproval, .blocked])

/-- What the loop does with one node. -/
inductive Outcome
  | skipped
  | prepared (node : PreparedNode)
  | condition (condition : ExecutionCondition)
  | failed (error : SupervisorError)

variable (s : Supervisor) (execution : Execution)

/-- What a node that is not passed over becomes. -/
def judgeNode (node : ExecutionNode) : Outcome :=
  match s.evaluate execution node with
  | .error e => .failed (.policyEvaluate node.id e)
  | .ok policy =>
    match policy.decision with
    | .deny => .condition ⟨.partiallyBlocked, true, node.id, "policy denied action"⟩
    | .requireApproval =>
      .condition ⟨.approvalRequired, true, node.id, "policy requires approval"⟩
    | .other text => .failed (.unknownDecision node.id (.other text))
    | .allow =>
      match s.resolve execution node with
      | .error e => .condition ⟨.targetDegraded, true, node.id, e⟩
      | .ok target =>
        match s.estimate execution node target with
        | .error e => .failed (.estimate node.id e)
        | .ok estimate => .prepared ⟨node, target, policy, estimate⟩

def prepareNode (runtimes : Runtimes) (node : ExecutionNode) : Outcome :=
  let stored := runtimes.get node.id
  let state := if stored = .other "" then .pending else stored
  if state ≠ .pending ∧ state ≠ .ready then .skipped
  else if dependenciesSucceeded node runtimes = false then .skipped
  else judgeNode s execution node

def prepareNodes (s : Supervisor) (execution : Execution) (runtimes : Runtimes) :
    List ExecutionNode → List PreparedNode → List ExecutionCondition → Preparation
  | [], prepared, conditions =>
    if prepared = [] ∧ conditions = [] then
      if hasActiveOrWaitingNodes runtimes then ⟨[], [], none⟩ else ⟨[], [], some .planNotReady⟩
    else ⟨prepared, conditions, none⟩
  | node :: rest, prepared, conditions =>
    match prepareNode s execution runtimes node with
    | .skipped => prepareNodes s execution runtimes rest prepared conditions
    | .prepared candidate =>
      prepareNodes s execution runtimes rest (prepared ++ [candidate]) conditions
    | .condition condition =>
      prepareNodes s execution runtimes rest prepared (conditions ++ [condition])
    | .failed error => ⟨[], conditions, some error⟩

def prepareRunnable (plan : ExecutionPlan) (runtimes : Runtimes) : Preparation :=
  if execution.phase ≠ .running ∧ execution.phase ≠ .ready then ⟨[], [], some .executionNotRunnable⟩
  else
    let nodes := plan.nodes.mergeSort (fun a b => decide (a.id ≤ b.id))
    prepareNodes s execution runtimes nodes [] []

/-- The node is open and all its dependencies have succeeded. -/
def Eligible (node : ExecutionNode) : Prop :=
  runtimes.lookup node.id ∈ [none, some .pending, some .ready] ∧
    ∀ dep ∈ node.dependsOn, runtimes.lookup dep = some .succeeded

variable {runtimes : Runtimes}

theorem get_of_lookup {id : String} {state : NodeState} (h : runtimes.lookup id = some state) :
    runtimes.get id = state := by
  rw [Runtimes.get, h]
  rfl

variable {execution : Execution} {s : Supervisor}

theorem judgeNode_skipped {node : ExecutionNode} : judgeNode s execution node ≠ .skipped := by
  unfold judgeNode
  split
  · simp
  split
  · simp
  · simp
  · simp
  split
  · simp
  split <;> simp

theorem prepareNode_eligible {node : ExecutionNode} (h : Eligible runtimes node) :
    prepareNode s execution runtimes node ≠ .skipped := by
  obtain ⟨hstate, hdeps⟩ := h
  have hsucceeded : dependenciesSucceeded node runtimes = true := by
    refine all_eq_true.mpr fun dep hdep => ?_
    exact decide_eq_true (get_of_lookup (hdeps dep hdep))
  have hopen : ¬ ((if runtimes.get node.id = .other "" then NodeState.pending
      else runtimes.get node.id) ≠ .pending ∧
      (if runtimes.get node.id = .other "" then NodeState.pending
      else runtimes.get node.id) ≠ .ready) := by
    simp only [mem_cons, not_mem_nil, or_false] at hstate
    rcases hstate with hl | hl | hl <;> simp [Runtimes.get, hl]
  unfold prepareNode
  simp only [if_neg hopen, hsucceeded, Bool.true_eq_false, if_false]
  exact judgeNode_skipped

theorem prepareNode_failed (s : Supervisor) (execution : Execution) (runtimes : Runtimes)
    (node : ExecutionNode) : prepareNode s execution runtimes node ≠ .failed .planNotReady := by
  unfold prepareNode judgeNode
  simp only
  repeat' split
  all_goals simp

variable {conditions : List ExecutionCondition} {nodes : List ExecutionNode}
  {prepared : List PreparedNode}

theorem prepareNodes_notReady
    (h : (prepareNodes s execution runtimes nodes prepared conditions).error = some .planNotReady) :
    prepared = [] ∧ conditions = [] ∧
      ∀ node ∈ nodes, prepareNode s execution runtimes node = .skipped := by
  induction nodes generalizing prepared conditions with
  | nil =>
    unfold prepareNodes at h
    split at h
    · rename_i hempty
      exact ⟨hempty.1, hempty.2, forall_mem_nil _⟩
    · cases h
  | cons node rest ih =>
    unfold prepareNodes at h
    split at h
    · rename_i hskip
      obtain ⟨hp, hc, hrest⟩ := ih h
      exact ⟨hp, hc, forall_mem_cons.mpr ⟨hskip, hrest⟩⟩
    · exact absurd (ih h).1 (append_ne_nil_of_right_ne_nil _ (cons_ne_nil _ _))
    · exact absurd (ih h).2.1 (append_ne_nil_of_right_ne_nil _ (cons_ne_nil _ _))
    · rename_i error hfailed
      cases h
      exact absurd hfailed (prepareNode_failed s execution runtimes node)

/-- Below every open node there is one whose dependencies have all succeeded. -/
theorem WellFormed.eligible (h : WellFormed nodes)
    (hstates : ∀ node ∈ nodes, runtimes.lookup node.id ∈
      [none, some .pending, some .ready, some .succeeded])
    {id : String} (hacc : Acc (DependencyOf nodes) id) (hid : id ∈ nodes.map ExecutionNode.id)
    (hopen : runtimes.lookup id ≠ some .succeeded) : ∃ node ∈ nodes, Eligible runtimes node := by
  induction hacc with
  | intro id _ ih =>
    obtain ⟨node, hnode, rfl⟩ := mem_map.mp hid
    by_cases hdeps : ∀ dep ∈ node.dependsOn, runtimes.lookup dep = some .succeeded
    · refine ⟨node, hnode, ?_, hdeps⟩
      have hstate := hstates node hnode
      simp only [mem_cons, not_mem_nil, or_false] at hstate ⊢
      tauto
    · obtain ⟨dep, hall⟩ := not_forall.mp hdeps
      obtain ⟨hdep, hne⟩ := Classical.not_imp.mp hall
      refine ih dep ?_ (h.known node hnode dep hdep) hne
      rw [DependencyOf, dependencies_eq h.distinct hnode]
      exact hdep

/-- While a node of an accepted plan is open and none is stuck or in progress,
some node is eligible, so the scheduler has something to say. -/
theorem plan_progresses (plan : ExecutionPlan) (h : validatePlan plan = .ok ())
    (runtimes : Runtimes) (hstates : ∀ node ∈ plan.nodes,
      runtimes.lookup node.id ∈ [none, some .pending, some .ready, some .succeeded])
    (hopen : ∃ node ∈ plan.nodes, runtimes.lookup node.id ≠ some .succeeded) :
    (∃ node ∈ plan.nodes, Eligible runtimes node) ∧ ∀ (s : Supervisor) (execution : Execution),
        execution.phase = .ready ∨ execution.phase = .running →
          (prepareRunnable s execution plan runtimes).error ≠ some .planNotReady := by
  have hwf := wellFormed_of_validatePlan h
  obtain ⟨start, hstart, hne⟩ := hopen
  have helig := hwf.eligible hstates (hwf.founded start hstart) (mem_map_of_mem hstart) hne
  refine ⟨helig, ?_⟩
  intro s execution hphase herr
  obtain ⟨node, hnode, hel⟩ := helig
  have hrunnable : ¬ (execution.phase ≠ .running ∧ execution.phase ≠ .ready) := by tauto
  unfold prepareRunnable at herr
  rw [if_neg hrunnable] at herr
  have hskip := (prepareNodes_notReady herr).2.2 node (mem_mergeSort.mpr hnode)
  exact prepareNode_eligible hel hskip

def chainNode (id : String) (dependsOn : List String) : ExecutionNode :=
  ⟨id, .tool, dependsOn, ⟨1, []⟩, ⟨.readOnly, "", true⟩⟩

def chainPlan : ExecutionPlan :=
  ⟨"plan", "goal", 1, 0, [chainNode "b" ["a"], chainNode "a" []], 0⟩

def chainRuntimes : Runtimes := ⟨[("a", .succeeded)], by decide⟩

theorem plan_progresses_chain : (∃ node ∈ chainPlan.nodes, Eligible chainRuntimes node) ∧
    ∀ (s : Supervisor) (execution : Execution),
      execution.phase = .ready ∨ execution.phase = .running →
        (prepareRunnable s execution chainPlan chainRuntimes).error ≠ some .planNotReady :=
  plan_progresses chainPlan (by decide) chainRuntimes (by decide) (by decide)

/-- The node is pending, ready or without a state, and all its dependencies have
succeeded. A missing entry of the map reads as the empty state. -/
def Runnable (runtimes : Runtimes) (node : ExecutionNode) : Prop :=
  runtimes.get node.id ∈ [.other "", .pending, .ready] ∧
    ∀ dep ∈ node.dependsOn, runtimes.get dep = .succeeded

instance (runtimes : Runtimes) (node : ExecutionNode) : Decidable (Runnable runtimes node) :=
  inferInstanceAs (Decidable (_ ∧ _))

/-- Policy, target and estimate of a prepared node are what the collaborators answered. -/
structure Admitted (s : Supervisor) (execution : Execution) (candidate : PreparedNode) : Prop where
  policy : s.evaluate execution candidate.node = .ok candidate.policy
  allowed : candidate.policy.decision = .allow
  target : s.resolve execution candidate.node = .ok candidate.target
  estimate : s.estimate execution candidate.node candidate.target = .ok candidate.estimate

section

variable {s : Supervisor} {execution : Execution} {runtimes : Runtimes} {node : ExecutionNode}

theorem prepareNode_eq : prepareNode s execution runtimes node =
    if Runnable runtimes node then judgeNode s execution node else .skipped := by
  have hclosed : ((if runtimes.get node.id = .other "" then NodeState.pending
        else runtimes.get node.id) ≠ .pending ∧
      (if runtimes.get node.id = .other "" then NodeState.pending
        else runtimes.get node.id) ≠ .ready) ↔
      runtimes.get node.id ∉ [.other "", .pending, .ready] := by
    by_cases habsent : runtimes.get node.id = .other ""
    · simp [habsent]
    · simp [habsent]
  have hdeps : dependenciesSucceeded node runtimes = true ↔
      ∀ dep ∈ node.dependsOn, runtimes.get dep = .succeeded := by
    simp [dependenciesSucceeded]
  by_cases hstate : runtimes.get node.id ∈ [.other "", .pending, .ready]
  · by_cases hdone : ∀ dep ∈ node.dependsOn, runtimes.get dep = .succeeded
    · have hrun : Runnable runtimes node := ⟨hstate, hdone⟩
      unfold prepareNode
      simp only [hclosed, hstate, not_true, if_false, hdeps.mpr hdone, if_pos hrun]
      rfl
    · have hrun : ¬ Runnable runtimes node := fun h => hdone h.2
      have hwaiting : dependenciesSucceeded node runtimes = false :=
        eq_false_of_ne_true (fun h => hdone (hdeps.mp h))
      unfold prepareNode
      simp only [hclosed, hstate, not_true, if_false, hwaiting, if_true, if_neg hrun]
  · have hrun : ¬ Runnable runtimes node := fun h => hstate h.1
    unfold prepareNode
    simp only [hclosed, hstate, not_false_iff, if_true, if_neg hrun]

theorem judgeNode_prepared {candidate : PreparedNode}
    (h : judgeNode s execution node = .prepared candidate) :
    candidate.node = node ∧ Admitted s execution candidate := by
  unfold judgeNode at h
  split at h
  · cases h
  rename_i policy hpolicy
  split at h
  · cases h
  · cases h
  · cases h
  rename_i hallow
  split at h
  · cases h
  rename_i target htarget
  split at h
  · cases h
  rename_i estimate hestimate
  cases h
  exact ⟨rfl, hpolicy, hallow, htarget, hestimate⟩

theorem judgeNode_condition {condition : ExecutionCondition}
    (h : judgeNode s execution node = .condition condition) : condition.nodeRef = node.id := by
  unfold judgeNode at h
  split at h
  · cases h
  split at h
  · cases h
    rfl
  · cases h
    rfl
  · cases h
  split at h
  · cases h
    rfl
  split at h
  · cases h
  · cases h

end

/-- The ids with an entry: those of the prepared nodes, then those of the conditions. -/
def Preparation.entries (r : Preparation) : List String :=
  r.prepared.map (fun candidate => candidate.node.id) ++ r.conditions.map ExecutionCondition.nodeRef

/-- What a run of the loop without an error adds to the lists it started with. -/
structure Prepares (s : Supervisor) (execution : Execution) (runtimes : Runtimes)
    (nodes : List ExecutionNode) (prepared : List PreparedNode)
    (conditions : List ExecutionCondition) : Prop where
  entries : (prepared.map (fun candidate => candidate.node.id) ++
    conditions.map ExecutionCondition.nodeRef).Perm
      ((nodes.filter (Runnable runtimes)).map ExecutionNode.id)
  admitted : ∀ candidate ∈ prepared, Admitted s execution candidate
  sublist : (prepared.map PreparedNode.node).Sublist nodes

theorem prepareNodes_ok
    (h : (prepareNodes s execution runtimes nodes prepared conditions).error = none) :
    ∃ prepared' conditions', Prepares s execution runtimes nodes prepared' conditions' ∧
      prepareNodes s execution runtimes nodes prepared conditions =
        ⟨prepared ++ prepared', conditions ++ conditions', none⟩ := by
  induction nodes generalizing prepared conditions with
  | nil =>
    refine ⟨[], [], ⟨by simp, by simp, by simp⟩, ?_⟩
    unfold prepareNodes at h ⊢
    split at h
    · rename_i hempty
      rw [if_pos hempty]
      split at h
      · rename_i hactive
        rw [if_pos hactive, hempty.1, hempty.2]
        rfl
      · cases h
    · rename_i hsome
      rw [if_neg hsome]
      simp
  | cons node rest ih =>
    unfold prepareNodes at h ⊢
    rw [prepareNode_eq] at h ⊢
    by_cases hrun : Runnable runtimes node
    · simp only [if_pos hrun] at h ⊢
      cases hjudge : judgeNode s execution node with
      | skipped => exact absurd hjudge judgeNode_skipped
      | failed error =>
        rw [hjudge] at h
        cases h
      | prepared candidate =>
        rw [hjudge] at h
        obtain ⟨prepared', conditions', hp, heq⟩ := ih h
        obtain ⟨hnode, hadmitted⟩ := judgeNode_prepared hjudge
        refine ⟨candidate :: prepared', conditions', ⟨?_, ?_, ?_⟩, ?_⟩
        · simpa [hrun, hnode] using hp.entries
        · exact forall_mem_cons.mpr ⟨hadmitted, hp.admitted⟩
        · rw [map_cons, hnode]
          exact hp.sublist.cons_cons node
        · simp only [heq]
          simp
      | condition condition =>
        rw [hjudge] at h
        obtain ⟨prepared', conditions', hp, heq⟩ := ih h
        have href := judgeNode_condition hjudge
        refine ⟨prepared', condition :: conditions', ⟨?_, hp.admitted, ?_⟩, ?_⟩
        · rw [map_cons, href, filter_cons_of_pos (by simpa using hrun), map_cons]
          exact perm_middle.trans (hp.entries.cons node.id)
        · exact hp.sublist.cons node
        · simp only [heq]
          simp
    · simp only [if_neg hrun] at h ⊢
      obtain ⟨prepared', conditions', hp, heq⟩ := ih h
      refine ⟨prepared', conditions', ⟨?_, hp.admitted, hp.sublist.cons node⟩, heq⟩
      simpa [hrun] using hp.entries

theorem prepareNodes_error {e : SupervisorError}
    (h : (prepareNodes s execution runtimes nodes prepared conditions).error = some e) :
    (prepareNodes s execution runtimes nodes prepared conditions).prepared = [] := by
  induction nodes generalizing prepared conditions with
  | nil =>
    unfold prepareNodes at h ⊢
    split at h
    · rename_i hempty
      rw [if_pos hempty]
      split <;> rfl
    · cases h
  | cons node rest ih =>
    unfold prepareNodes at h ⊢
    split at h
    · exact ih h
    · exact ih h
    · exact ih h
    · rfl

variable {plan : ExecutionPlan}

theorem prepared_of_error {e : SupervisorError}
    (h : (prepareRunnable s execution plan runtimes).error = some e) :
    (prepareRunnable s execution plan runtimes).prepared = [] := by
  unfold prepareRunnable at h ⊢
  split at h
  · rename_i hphase
    rw [if_pos hphase]
  · rename_i hphase
    rw [if_neg hphase]
    exact prepareNodes_error h

theorem prepareRunnable_ok
    (h : (prepareRunnable s execution plan runtimes).error = none) : ∃ prepared conditions,
    Prepares s execution runtimes (plan.nodes.mergeSort (fun a b => decide (a.id ≤ b.id)))
      prepared conditions ∧
    prepareRunnable s execution plan runtimes = ⟨prepared, conditions, none⟩ := by
  unfold prepareRunnable at h ⊢
  split at h
  · cases h
  rename_i hphase
  obtain ⟨prepared, conditions, hp, heq⟩ := prepareNodes_ok h
  refine ⟨prepared, conditions, hp, ?_⟩
  rw [if_neg hphase]
  exact heq

theorem prepared_ascending (hdistinct : (plan.nodes.map ExecutionNode.id).Nodup)
    (h : (prepareRunnable s execution plan runtimes).error = none) :
    (prepareRunnable s execution plan runtimes).prepared.Pairwise
      (fun a b => a.node.id < b.node.id) := by
  obtain ⟨prepared, conditions, hp, heq⟩ := prepareRunnable_ok h
  have hstrict := (mergeSort_key_strict hdistinct).sublist hp.sublist
  rw [heq]
  rwa [pairwise_map] at hstrict

/-- Without an error there is one entry for each runnable node and none for another; the
prepared nodes are admitted and ascend by id, and the order of the plan does not matter. -/
theorem prepared_exactly_runnable (s : Supervisor) (execution : Execution) (plan : ExecutionPlan)
    (runtimes : Runtimes) (hdistinct : (plan.nodes.map ExecutionNode.id).Nodup)
    (herror : (prepareRunnable s execution plan runtimes).error = none) :
    (prepareRunnable s execution plan runtimes).entries.Perm
        ((plan.nodes.filter (Runnable runtimes)).map ExecutionNode.id) ∧
      (∀ candidate ∈ (prepareRunnable s execution plan runtimes).prepared,
        candidate.node ∈ plan.nodes ∧ Admitted s execution candidate) ∧
      (prepareRunnable s execution plan runtimes).prepared.Pairwise
        (fun a b => a.node.id < b.node.id) ∧
      ∀ nodes : List ExecutionNode, nodes.Perm plan.nodes →
        prepareRunnable s execution { plan with nodes := nodes } runtimes =
          prepareRunnable s execution plan runtimes := by
  obtain ⟨prepared, conditions, hp, heq⟩ := prepareRunnable_ok herror
  have hsort := mergeSort_perm plan.nodes (fun a b => decide (a.id ≤ b.id))
  have hsame : ∀ nodes : List ExecutionNode, nodes.Perm plan.nodes →
      prepareRunnable s execution { plan with nodes := nodes } runtimes =
        prepareRunnable s execution plan runtimes := by
    intro nodes hperm
    unfold prepareRunnable
    simp only [mergeSort_key_perm hperm hdistinct]
  refine ⟨?_, ?_, prepared_ascending hdistinct herror, hsame⟩
  · rw [heq]
    exact hp.entries.trans ((hsort.filter _).map _)
  · rw [heq]
    intro candidate hc
    have hnode := hp.sublist.subset (mem_map_of_mem hc)
    exact ⟨hsort.mem_iff.mp hnode, hp.admitted candidate hc⟩

/-- Collaborators that let every node run. -/
def openSupervisor : Supervisor where
  evaluate := fun execution node =>
    .ok ⟨"policy", "v1", execution.id, execution.planRef.revision, node.id, .allow⟩
  resolve := fun _ node => .ok ⟨node.id, 1, .tool, ⟨"digest"⟩⟩
  estimate := fun _ _ _ => .ok ⟨1, 1, 0, 1⟩

def runningExecution : Execution :=
  ⟨"execution", "task", "goal", ⟨"plan", 1⟩, ⟨"user", "tenant"⟩, .running, 0, 0⟩

def sortedChainPlan : ExecutionPlan :=
  { chainPlan with nodes := [chainNode "a" [], chainNode "b" ["a"]] }

theorem sortedChain_prepared :
    (prepareRunnable openSupervisor runningExecution sortedChainPlan chainRuntimes).entries.Perm
        ((sortedChainPlan.nodes.filter (Runnable chainRuntimes)).map ExecutionNode.id) ∧
      (sortedChainPlan.nodes.filter (Runnable chainRuntimes)).map ExecutionNode.id = ["b"] := by
  have hsort : sortedChainPlan.nodes.mergeSort (fun a b => decide (a.id ≤ b.id)) =
      sortedChainPlan.nodes := mergeSort_of_pairwise (by decide)
  have herror : (prepareRunnable openSupervisor runningExecution sortedChainPlan
      chainRuntimes).error = none := by
    unfold prepareRunnable
    rw [hsort]
    decide
  exact ⟨(prepared_exactly_runnable openSupervisor runningExecution sortedChainPlan chainRuntimes
    (by decide) herror).1, by decide⟩

end AiCloud.Execution
