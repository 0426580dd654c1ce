import Mathlib.Algebra.Order.BigOperators.Group.List
import Mathlib.Algebra.Order.Group.Nat
import AiCloud.Workflow.Lifecycle

/-!
# The lifecycle among other writers

One workflow run over the memory backend, with activities retried and duplicated at will
and other writers moving the task in between. Beside the backend the state keeps the
committed transitions of the task, each with the operation key it was committed under; a
transition of another writer has none. A status the workflow lists was committed by its
own call, unless another writer completed the task.
-/
namespace AiCloud.Workflow

open Lib Text Tasks Execution List

structure Commit where
  key : Option String
  target : TaskStatus
  deriving DecidableEq

structure LifecycleState where
  backend : MemoryLifecycleActivities
  commits : List Commit

/-- What became of the stored task: a change of it is a committed transition. -/
def observeCommit (taskID : String) (key : Option String)
    (before after : MemoryLifecycleActivities) : List Commit :=
  match before.tasks taskID, after.tasks taskID with
  | some task, some moved => if task = moved then [] else [⟨key, moved.status⟩]
  | _, _ => []

def LifecycleState.after (s : LifecycleState) (taskID : String) (key : Option String)
    (b : MemoryLifecycleActivities) : LifecycleState :=
  ⟨b, s.commits ++ observeCommit taskID key s.backend b⟩

variable (input : TaskWorkflowInput)

def performActivity (now : Time) (s : LifecycleState) : (q : Activity) → q.Answer × LifecycleState
  | .loadTask i => (s.backend.loadTask i, s)
  | .transitionTask i =>
    ((s.backend.transitionTask now i).1,
      s.after input.taskID (some i.operationKey) (s.backend.transitionTask now i).2)
  | .runStep stub i =>
    ((s.backend.runStep now stub i).1, s.after input.taskID none (s.backend.runStep now stub i).2)

def lostCall : (q : Activity) → q.Answer
  | .loadTask _ => .error .timeout
  | .transitionTask _ => .error .timeout
  | .runStep .. => .error .timeout

variable (permit : TaskStatus → Prop)

/-- Another writer makes a transition of the task that the aggregate allows. -/
def OtherWrite (s s' : LifecycleState) : Prop :=
  ∃ task moved command, s.backend.tasks input.taskID = some task ∧ permit command.target ∧
    MemoryLifecycleActivities.moveTask task command = .ok moved ∧
    s' = s.after input.taskID none (s.backend.put moved)

/-- The backend with other writers that move the task to permitted statuses only. -/
def lifecycleHost : Host LifecycleState Time Activity Activity.Answer :=
  ⟨performActivity input, lostCall, OtherWrite input permit⟩

abbrev LifecycleRun := Durable LifecycleState Activity Activity.Answer TaskWorkflowResult
  (TaskWorkflowResult × Option WorkflowFailure)

def startLifecycle (backend : MemoryLifecycleActivities) : LifecycleRun :=
  Durable.start ⟨backend, []⟩ (initialResult input) (taskLifecycleWorkflow input)

/-- The runs that any schedule of attempts, answers and other writers reaches. -/
def LifecycleReach (backend : MemoryLifecycleActivities) (d : LifecycleRun) : Prop :=
  ∃ labels, Trace (Durable.Step (lifecycleHost input permit) (lifecycleTurn input))
    (startLifecycle input backend) labels d

def lifecycleTargets : List TaskStatus :=
  [.planning, .routing, .executing, .validating, .completed]

def stubs : List Stub := [.plan, .route, .execute, .validate]

theorem mem_stubs (stub : Stub) : stub ∈ stubs := by cases stub <;> decide

variable {target : TaskStatus} {status : TaskStatus}

theorem nextStatus_mem (h : nextStatus status = some target) :
    target ∈ lifecycleTargets ∧ rank status < rank target := by
  cases status <;> cases h <;> decide

/-- The operation keys without a record, the planted stale versions and the planted
transitions: each of them can make a difference once. -/
def remaining (taskID : String) (b : MemoryLifecycleActivities) : Nat :=
  (lifecycleTargets.map (fun target =>
    (b.operations (transitionOperationKey taskID target)).isNone.toNat +
      (b.staleOnceForKey (transitionOperationKey taskID target)).toNat)).sum +
    (stubs.map (fun stub => (b.terminalOnStep stub).isSome.toNat)).sum

/-- Nothing was planted and no record was lost. -/
structure Below (b' b : MemoryLifecycleActivities) : Prop where
  operations : ∀ key, (b'.operations key).isNone = true → (b.operations key).isNone = true
  stale : ∀ key, b'.staleOnceForKey key = true → b.staleOnceForKey key = true
  terminal : ∀ stub, (b'.terminalOnStep stub).isSome = true → (b.terminalOnStep stub).isSome = true

theorem toNat_le {x y : Bool} (h : x = true → y = true) : x.toNat ≤ y.toNat := by
  cases x <;> cases y <;> simp_all

theorem toNat_lt {x y : Bool} (hx : x = false) (hy : y = true) : x.toNat < y.toNat := by
  rw [hx, hy]
  decide

variable {b : MemoryLifecycleActivities} {b' : MemoryLifecycleActivities}

theorem Below.remaining_le (h : Below b' b) (taskID : String) :
    remaining taskID b' ≤ remaining taskID b := by
  refine Nat.add_le_add (sum_le_sum fun target _ => ?_) (sum_le_sum fun stub _ => ?_)
  · exact Nat.add_le_add (toNat_le (h.operations _)) (toNat_le (h.stale _))
  · exact toNat_le (h.terminal stub)

theorem Below.target_lt (h : Below b' b) (taskID : String) (ht : target ∈ lifecycleTargets)
    (hlt : (b'.operations (transitionOperationKey taskID target)).isNone.toNat +
      (b'.staleOnceForKey (transitionOperationKey taskID target)).toNat <
        (b.operations (transitionOperationKey taskID target)).isNone.toNat +
          (b.staleOnceForKey (transitionOperationKey taskID target)).toNat) :
    remaining taskID b' < remaining taskID b := by
  refine Nat.add_lt_add_of_lt_of_le (sum_lt_sum _ _ (fun t _ => ?_) ⟨target, ht, hlt⟩)
    (sum_le_sum fun stub _ => toNat_le (h.terminal stub))
  exact Nat.add_le_add (toNat_le (h.operations _)) (toNat_le (h.stale _))

theorem Below.stub_lt (h : Below b' b) (taskID : String) {stub : Stub}
    (hlt : (b'.terminalOnStep stub).isSome.toNat < (b.terminalOnStep stub).isSome.toNat) :
    remaining taskID b' < remaining taskID b := by
  refine Nat.add_lt_add_of_le_of_lt (sum_le_sum fun target _ => ?_)
    (sum_lt_sum _ _ (fun t _ => toNat_le (h.terminal t)) ⟨stub, mem_stubs stub, hlt⟩)
  exact Nat.add_le_add (toNat_le (h.operations _)) (toNat_le (h.stale _))

variable {taskID : String} {key : Option String}

theorem observe_same {a : MemoryLifecycleActivities} (h : b.tasks taskID = a.tasks taskID) :
    observeCommit taskID key a b = [] := by
  unfold observeCommit
  rw [h]
  split
  · rename_i task moved ht hm
    rw [ht] at hm
    cases hm
    exact if_pos rfl
  · rfl

variable {s : LifecycleState}

theorem after_same (h : b.tasks taskID = s.backend.tasks taskID) :
    s.after taskID key b = ⟨b, s.commits⟩ := by
  rw [LifecycleState.after, observe_same h, append_nil]

variable {task : Task}

theorem observe_moved {a : MemoryLifecycleActivities} {moved : Task}
    (ha : a.tasks taskID = some task) (hb : b.tasks taskID = some moved)
    (hm : Moves task moved target) : observeCommit taskID key a b = [⟨key, target⟩] := by
  have hne : task ≠ moved := by
    intro he
    have hv := hm.version
    rw [he] at hv
    omega
  unfold observeCommit
  rw [ha, hb]
  simp only [if_neg hne, hm.status]

theorem after_moved {moved : Task} (ha : s.backend.tasks taskID = some task)
    (hb : b.tasks taskID = some moved) (hm : Moves task moved target) :
    s.after taskID key b = ⟨b, s.commits ++ [⟨key, target⟩]⟩ := by
  rw [LifecycleState.after, observe_moved ha hb hm]

/-- The calls of the workflow, of whatever turn. -/
def properCall : Activity → Prop
  | .loadTask _ => True
  | .runStep _ i => i.taskID = input.taskID
  | .transitionTask i => i.taskID = input.taskID ∧ i.target ∈ lifecycleTargets ∧
      i.operationKey = transitionOperationKey input.taskID i.target

/-- A stored task that was replaced by a moved one, and nothing new planted. -/
structure Replaced (target : TaskStatus)
    (a b : MemoryLifecycleActivities) (task moved : Task) : Prop where
  before : a.tasks input.taskID = some task
  after : b.tasks input.taskID = some moved
  moves : Moves task moved target
  below : Below b a
  planted : ∀ stub status, b.terminalOnStep stub = some status → a.terminalOnStep stub = some status

variable {a : MemoryLifecycleActivities}

theorem put_self {moved : Task} (h : a.tasks taskID = some task) (hm : Moves task moved target) :
    (a.put moved).tasks taskID = some moved := if_pos (by rw [hm.id, a.named taskID task h])

/-- What an attempt of an activity does to the state. -/
inductive Performed (input : TaskWorkflowInput) (s : LifecycleState) : LifecycleState → Prop
  | kept {b : MemoryLifecycleActivities} :
      b.tasks input.taskID = s.backend.tasks input.taskID → b.operations = s.backend.operations →
      Below b s.backend → (∀ stub status, b.terminalOnStep stub = some status →
        s.backend.terminalOnStep stub = some status) → Performed input s ⟨b, s.commits⟩
  | own {b : MemoryLifecycleActivities} {task moved : Task} {target : TaskStatus} :
      Replaced input target s.backend b task moved → target ∈ lifecycleTargets →
      s.backend.operations (transitionOperationKey input.taskID target) = none →
      b.operations = (fun k => if k = transitionOperationKey input.taskID target then
        some ⟨target, snapshotFromTask moved⟩ else s.backend.operations k) →
      Performed input s
        ⟨b, s.commits ++ [⟨some (transitionOperationKey input.taskID target), target⟩]⟩
  | planted {b : MemoryLifecycleActivities} {task moved : Task} {status : TaskStatus}
    {stub : Stub} :
      Replaced input status s.backend b task moved → b.operations = s.backend.operations →
      s.backend.terminalOnStep stub = some status → b.terminalOnStep stub = none →
      Performed input s ⟨b, s.commits ++ [⟨none, status⟩]⟩

theorem below_refl (a : MemoryLifecycleActivities) : Below a a :=
  ⟨fun _ h => h, fun _ h => h, fun _ h => h⟩

theorem below_clearStale (a : MemoryLifecycleActivities) (key : String) :
    Below (a.clearStale key) a := by
  refine ⟨fun _ h => h, fun k h => ?_, fun _ h => h⟩
  unfold MemoryLifecycleActivities.clearStale at h
  simp only at h
  split at h
  · cases h
  · exact h

theorem clearStale_lt {key : String} (h : a.staleOnceForKey key = true) :
    ((a.clearStale key).operations key).isNone.toNat +
        ((a.clearStale key).staleOnceForKey key).toNat <
      (a.operations key).isNone.toNat + (a.staleOnceForKey key).toNat :=
  Nat.add_lt_add_left (toNat_lt (if_pos rfl) h) _

theorem clearTerminal_some {stub k : Stub}
    (h : (a.clearTerminal stub).terminalOnStep k = some status) :
    a.terminalOnStep k = some status := by
  unfold MemoryLifecycleActivities.clearTerminal at h
  simp only at h
  split at h
  · cases h
  · exact h

theorem below_clearTerminal (a : MemoryLifecycleActivities) (stub : Stub) :
    Below (a.clearTerminal stub) a := by
  refine ⟨fun _ h => h, fun _ h => h, fun k h => ?_⟩
  obtain ⟨status, hstatus⟩ := Option.isSome_iff_exists.mp h
  rw [clearTerminal_some hstatus]
  rfl

theorem below_record {key : String} {record : TransitionRecord}
    (moved : Task) : Below ((a.put moved).recordOperation key record) a := by
  refine ⟨fun k h => ?_, fun _ h => h, fun _ h => h⟩
  unfold MemoryLifecycleActivities.recordOperation at h
  simp only at h
  split at h
  · cases h
  · exact h

variable {input : TaskWorkflowInput} {i : TransitionTaskInput}

theorem transition_performed {now : Time} (s : LifecycleState)
    (hi : properCall input (.transitionTask i)) :
    Performed input s (performActivity input now s (.transitionTask i)).2 := by
  obtain ⟨hid, htarget, hkey⟩ := hi
  unfold performActivity
  simp only
  have hcases := MemoryLifecycleActivities.transitionTask_cases s.backend now i
  generalize s.backend.transitionTask now i = r at hcases ⊢
  cases hcases with
  | failed | replayed | ended | stale =>
    rw [after_same (b := s.backend) rfl]
    exact .kept rfl rfl (below_refl _) (fun _ _ h => h)
  | faulted =>
    rw [after_same (b := s.backend.clearStale i.operationKey) rfl]
    exact .kept rfl rfl (below_clearStale _ _) (fun _ _ h => h)
  | @committed task moved htask hnone hm =>
    rw [hid] at htask
    have hput : ((s.backend.put moved).recordOperation i.operationKey
        ⟨i.target, snapshotFromTask moved⟩).tasks input.taskID = some moved := put_self htask hm
    rw [after_moved htask hput hm]
    rw [hkey] at hnone ⊢
    exact .own ⟨htask, hkey ▸ hput, hm, below_record moved, fun _ _ h => h⟩ htarget hnone rfl

theorem step_performed {now : Time} (s : LifecycleState) (stub : Stub) {i : StepInput}
    (hi : i.taskID = input.taskID) :
    Performed input s (performActivity input now s (.runStep stub i)).2 := by
  unfold performActivity
  simp only
  have hcases := MemoryLifecycleActivities.runStep_cases s.backend now stub i
  generalize (s.backend.runStep now stub i).2 = b at hcases ⊢
  cases hcases with
  | same htasks hops hterm hstale =>
    rw [after_same (by rw [htasks])]
    refine .kept (by rw [htasks]) hops ⟨?_, ?_, ?_⟩ ?_
    · rw [hops]
      exact fun _ h => h
    · rw [hstale]
      exact fun _ h => h
    · rw [hterm]
      exact fun _ h => h
    · rw [hterm]
      exact fun _ _ h => h
  | dropped hne =>
    rw [after_same (b := s.backend.clearTerminal stub) rfl]
    exact .kept rfl rfl (below_clearTerminal _ _) (fun _ _ => clearTerminal_some)
  | @moved status task moved hsome htask hm =>
    rw [hi] at htask
    have hput : ((s.backend.clearTerminal stub).put moved).tasks input.taskID = some moved :=
      put_self (a := s.backend.clearTerminal stub) htask hm
    rw [after_moved htask hput hm]
    have hbelow := below_clearTerminal s.backend stub
    exact .planted ⟨htask, hput, hm, ⟨hbelow.operations, hbelow.stale, hbelow.terminal⟩,
      fun _ _ => clearTerminal_some⟩ rfl hsome (if_pos rfl)

theorem activity_performed (now : Time) (s : LifecycleState) {q : Activity}
    (hq : properCall input q) : Performed input s (performActivity input now s q).2 := by
  cases q with
  | loadTask i => exact .kept rfl rfl (below_refl _) (fun _ _ h => h)
  | transitionTask i => exact transition_performed s hq
  | runStep stub i => exact step_performed s stub hq

/-- The stored task, the operation records and the commits tell one story. -/
structure Consistent (input : TaskWorkflowInput) (permit : TaskStatus → Prop) (initial : Int)
    (s : LifecycleState) : Prop where
  task : ∃ task, s.backend.tasks input.taskID = some task ∧
    task.version = initial + s.commits.length ∧
    ∀ c, s.commits.getLast? = some c → task.status = c.target
  records : ∀ key record, s.backend.operations key = some record →
    record.snapshot.status = record.target ∧ ⟨some key, record.target⟩ ∈ s.commits
  ranks : ∀ key target task, ⟨some key, target⟩ ∈ s.commits →
    s.backend.tasks input.taskID = some task → rank target ≤ rank task.status
  keys : (s.commits.filterMap Commit.key).Nodup
  recorded : ∀ key target, ⟨some key, target⟩ ∈ s.commits →
    key = transitionOperationKey input.taskID target ∧ s.backend.operations key ≠ none
  foreign : ∀ target, ⟨none, target⟩ ∈ s.commits → permit target
  planted : ∀ stub status, s.backend.terminalOnStep stub = some status → permit status

variable {s' : LifecycleState}

section

variable {input : TaskWorkflowInput} {permit : TaskStatus → Prop} {initial : Int}
  {s : LifecycleState} {b : MemoryLifecycleActivities}

section

variable (h : Consistent input permit initial s)

include h

theorem Consistent.kept (htask : b.tasks input.taskID = s.backend.tasks input.taskID)
    (hops : b.operations = s.backend.operations)
    (hterm : ∀ stub status, b.terminalOnStep stub = some status →
      s.backend.terminalOnStep stub = some status) :
    Consistent input permit initial ⟨b, s.commits⟩ := by
  refine ⟨?_, ?_, ?_, h.keys, ?_, h.foreign, fun stub status hst => h.planted stub status
    (hterm stub status hst)⟩
  · rw [htask]
    exact h.task
  · rw [hops]
    exact h.records
  · rw [htask]
    exact h.ranks
  · rw [hops]
    exact h.recorded

/-- The parts that do not depend on who moved the task. -/
theorem Consistent.replaced {moved : Task}
    (hr : Replaced input target s.backend b task moved) (key : Option String) :
    (∃ t, b.tasks input.taskID = some t ∧
      t.version = initial + (s.commits ++ [(⟨key, target⟩ : Commit)]).length ∧
      ∀ c, (s.commits ++ [(⟨key, target⟩ : Commit)]).getLast? = some c → t.status = c.target) ∧
    (∀ k old t, ⟨some k, old⟩ ∈ s.commits ++ [(⟨key, target⟩ : Commit)] →
      b.tasks input.taskID = some t → rank old ≤ rank t.status) ∧
    (∀ stub status, b.terminalOnStep stub = some status → permit status) := by
  obtain ⟨t, ht, hversion, _⟩ := h.task
  rw [hr.before] at ht
  cases ht
  refine ⟨⟨moved, hr.after, ?_, ?_⟩, ?_, fun stub status hst => h.planted stub status
    (hr.planted stub status hst)⟩
  · rw [hr.moves.version, hversion, length_append, length_singleton]
    omega
  · intro c hc
    rw [getLast?_concat] at hc
    cases hc
    exact hr.moves.status
  · intro k old t hmem ht
    rw [hr.after] at ht
    cases ht
    rw [hr.moves.status]
    rcases mem_append.mp hmem with hold | hnew
    · exact Nat.le_trans (h.ranks k old task hold hr.before) (rank_le hr.moves.allowed)
    · cases mem_singleton.mp hnew
      exact Nat.le_refl _

theorem Consistent.moved {moved : Task}
    (hr : Replaced input target s.backend b task moved) (hp : permit target)
    (hops : b.operations = s.backend.operations) :
    Consistent input permit initial ⟨b, s.commits ++ [⟨none, target⟩]⟩ := by
  obtain ⟨htask, hranks, hplanted⟩ := h.replaced hr none
  have hold : ∀ {k : String} {old : TaskStatus},
      ⟨some k, old⟩ ∈ s.commits ++ [(⟨none, target⟩ : Commit)] → ⟨some k, old⟩ ∈ s.commits := by
    intro k old hmem
    rcases mem_append.mp hmem with hm | hm
    · exact hm
    · cases mem_singleton.mp hm
  refine ⟨htask, ?_, hranks, ?_, ?_, ?_, hplanted⟩
  · intro key record hrec
    rw [hops] at hrec
    obtain ⟨hst, hmem⟩ := h.records key record hrec
    exact ⟨hst, mem_append_left _ hmem⟩
  · rw [filterMap_append]
    simpa using h.keys
  · rw [hops]
    exact fun key old hmem => h.recorded key old (hold hmem)
  · intro old hmem
    rcases mem_append.mp hmem with hm | hm
    · exact h.foreign old hm
    · cases mem_singleton.mp hm
      exact hp

theorem Consistent.own {moved : Task}
    (hr : Replaced input target s.backend b task moved) {key : String}
    (hkey : key = transitionOperationKey input.taskID target)
    (hnone : s.backend.operations key = none)
    (hops : b.operations = (fun k => if k = key then
      some ⟨target, snapshotFromTask moved⟩ else s.backend.operations k)) :
    Consistent input permit initial ⟨b, s.commits ++ [⟨some key, target⟩]⟩ := by
  obtain ⟨htask, hranks, hplanted⟩ := h.replaced hr (some key)
  refine ⟨htask, ?_, hranks, ?_, ?_, ?_, hplanted⟩
  · intro k record hrec
    rw [hops] at hrec
    simp only at hrec
    split at hrec
    · rename_i hk
      cases hrec
      exact ⟨hr.moves.status, by simp [hk]⟩
    · obtain ⟨hst, hmem⟩ := h.records k record hrec
      exact ⟨hst, mem_append_left _ hmem⟩
  · -- The key had no record, and every committed key has one.
    rw [filterMap_append]
    refine nodup_append.mpr ⟨h.keys, by simp, ?_⟩
    intro k hk k' hk' he
    obtain ⟨⟨_, old⟩, hmem, rfl⟩ := mem_filterMap.mp hk
    have hlast : k' = key := by simpa using hk'
    exact (h.recorded k old hmem).2 (by rw [he, hlast, hnone])
  · intro k old hmem
    rw [hops]
    simp only
    rcases mem_append.mp hmem with hm | hm
    · obtain ⟨hk, hne⟩ := h.recorded k old hm
      refine ⟨hk, ?_⟩
      split
      · exact Option.some_ne_none _
      · exact hne
    · cases mem_singleton.mp hm
      exact ⟨hkey, by rw [if_pos rfl]; exact Option.some_ne_none _⟩
  · intro old hmem
    rcases mem_append.mp hmem with hm | hm
    · exact h.foreign old hm
    · cases mem_singleton.mp hm

theorem Consistent.performed (hp : Performed input s s') : Consistent input permit initial s' := by
  cases hp with
  | kept htask hops _ hterm => exact h.kept htask hops hterm
  | own hr _ hnone hops => exact h.own hr rfl hnone hops
  | planted hr hops hsome _ => exact h.moved hr (h.planted _ _ hsome) hops

end

theorem OtherWrite.replaced (h : OtherWrite input permit s s') :
    ∃ task moved target, permit target ∧
      Replaced input target s.backend (s.backend.put moved) task moved ∧
      s' = ⟨s.backend.put moved, s.commits ++ [⟨none, target⟩]⟩ := by
  obtain ⟨task, moved, command, htask, hp, hmove, rfl⟩ := h
  have hm := moveTask_ok hmove
  refine ⟨task, moved, command.target, hp, ⟨htask, put_self htask hm, hm, ?_, fun _ _ h => h⟩, ?_⟩
  · exact ⟨fun _ h => h, fun _ h => h, fun _ h => h⟩
  · exact after_moved htask (put_self htask hm) hm

end

structure Later (taskID : String) (s s' : LifecycleState) : Prop where
  commits : s.commits <+: s'.commits
  task : s'.commits.length = s.commits.length → s'.backend.tasks taskID = s.backend.tasks taskID
  remaining : remaining taskID s'.backend ≤ remaining taskID s.backend

theorem Later.refl (taskID : String) (s : LifecycleState) : Later taskID s s :=
  ⟨prefix_refl _, fun _ => rfl, Nat.le_refl _⟩

variable {taskID : String}

theorem Later.trans {t u : LifecycleState} (h : Later taskID s t) (h' : Later taskID t u) :
    Later taskID s u := by
  have hst := h.commits.length_le
  have htu := h'.commits.length_le
  refine ⟨h.commits.trans h'.commits, fun hlen => ?_, Nat.le_trans h'.remaining h.remaining⟩
  exact (h'.task (by omega)).trans (h.task (by omega))

theorem later_commit (hb : Below b s.backend) (c : Commit) : Later taskID s ⟨b, s.commits ++ [c]⟩ :=
  ⟨prefix_append _ _, fun hlen => absurd hlen (by simp), hb.remaining_le taskID⟩

theorem Performed.later (h : Performed input s s') : Later input.taskID s s' := by
  cases h with
  | kept htask _ hbelow _ => exact ⟨prefix_refl _, fun _ => htask, hbelow.remaining_le _⟩
  | own hr => exact later_commit hr.below _
  | planted hr => exact later_commit hr.below _

/-- Something has happened to the task or to what can still happen to it. -/
def Changed (taskID : String) (since s : LifecycleState) : Prop :=
  ¬ (s.commits.length = since.commits.length ∧
    remaining taskID s.backend = remaining taskID since.backend)

theorem Changed.later {since s' : LifecycleState} (h : Changed taskID since s)
    (hs : Later taskID since s) (hn : Later taskID s s') : Changed taskID since s' := by
  rintro ⟨hlen, hrem⟩
  have hst := hs.commits.length_le
  have htu := hn.commits.length_le
  have hrem₁ := hs.remaining
  have hrem₂ := hn.remaining
  exact h ⟨by omega, by omega⟩

/-- The target was reached by a call of the workflow, or by another writer's
completion of the task. -/
def Reached (input : TaskWorkflowInput) (s : LifecycleState) (target : TaskStatus) : Prop :=
  ⟨some (transitionOperationKey input.taskID target), target⟩ ∈ s.commits ∨
    (target = .completed ∧ ⟨none, .completed⟩ ∈ s.commits)

theorem Reached.later (h : Reached input s target)
    (hn : Later input.taskID s s') : Reached input s' target :=
  h.imp (fun hm => hn.commits.subset hm) (fun hm => ⟨hm.1, hn.commits.subset hm.2⟩)

/-- What an answer of the running turn tells. -/
def tellsOf (input : TaskWorkflowInput) (since s : LifecycleState) : Sigma Activity.Answer → Prop
  | ⟨.loadTask _, .ok snapshot⟩ => s.commits.length = since.commits.length →
      ∃ task, s.backend.tasks input.taskID = some task ∧ snapshot = snapshotFromTask task
  | ⟨.transitionTask i, .ok next⟩ => Changed input.taskID since s ∧ i.target ∈ lifecycleTargets ∧
      (next.status = i.target → Reached input s i.target)
  | ⟨.transitionTask _, .error (.staleTaskVersion _ _)⟩ => Changed input.taskID since s
  | _ => True

theorem tellsOf_ok {since : LifecycleState} {next : TaskSnapshot}
    (hc : Changed input.taskID since s) (ht : i.target ∈ lifecycleTargets)
    (hr : next.status = i.target → Reached input s i.target) :
    tellsOf input since s ⟨.transitionTask i, .ok next⟩ := ⟨hc, ht, hr⟩

theorem nextStatus_live (h : nextStatus status = some target) : status.isTerminal = false := by
  cases status <;> cases h <;> rfl

theorem terminal_target (h : target ∈ lifecycleTargets) (hterm : target.isTerminal = true) :
    target = .completed := by
  simp only [lifecycleTargets, mem_cons, not_mem_nil, or_false] at h
  rcases h with rfl | rfl | rfl | rfl | rfl
  · cases hterm
  · cases hterm
  · cases hterm
  · cases hterm
  · rfl

section

variable {input : TaskWorkflowInput} {permit : TaskStatus → Prop} {initial : Int}
  {since s : LifecycleState} {snapshot : TaskSnapshot} {target : TaskStatus}

/-- The snapshot a turn started from is current as long as nothing is committed. -/
abbrev Current (input : TaskWorkflowInput) (since s : LifecycleState) (snapshot : TaskSnapshot) :
    Prop :=
  s.commits.length = since.commits.length →
    ∃ task, s.backend.tasks input.taskID = some task ∧ snapshot = snapshotFromTask task

theorem changed_commits (hn : Later input.taskID since s)
    (h : s.commits.length ≠ since.commits.length) : Changed input.taskID since s ∧
    s.commits ≠ [] := by
  refine ⟨fun hsame => h hsame.1, fun hnil => h ?_⟩
  have hle := hn.commits.length_le
  rw [hnil] at hle ⊢
  exact (Nat.le_zero.mp hle).symm

/-- A recorded target lies behind, so the task moved after the snapshot. -/
theorem changed_of_record (hinv : Consistent input permit initial s)
    (hcur : Current input since s snapshot) (hnext : nextStatus snapshot.status = some target)
    {key : String} (hmem : ⟨some key, target⟩ ∈ s.commits) : Changed input.taskID since s := by
  rintro ⟨hlen, _⟩
  obtain ⟨task, htask, rfl⟩ := hcur hlen
  have hrank := hinv.ranks key target task hmem htask
  have hlt := (nextStatus_mem hnext).2
  exact absurd hlt (Nat.not_lt.mpr hrank)

/-- A task that ended after the snapshot and shows the target was completed by another. -/
theorem reached_of_ended (hinv : Consistent input permit initial s)
    (hn : Later input.taskID since s) (hcur : Current input since s snapshot)
    (hnext : nextStatus snapshot.status = some target)
    (htask : s.backend.tasks input.taskID = some task) (hterm : task.isTerminal = true)
    (hnone : s.backend.operations (transitionOperationKey input.taskID target) = none) :
    Changed input.taskID since s ∧ (task.status = target → Reached input s target) := by
  have hlen : s.commits.length ≠ since.commits.length := by
    intro hlen
    obtain ⟨t, ht, rfl⟩ := hcur hlen
    rw [htask] at ht
    cases ht
    have hlive : task.status.isTerminal = false := nextStatus_live hnext
    rw [Task.isTerminal, hlive] at hterm
    cases hterm
  obtain ⟨hchanged, hne⟩ := changed_commits hn hlen
  refine ⟨hchanged, fun hst => ?_⟩
  obtain ⟨t, ht, _, hlast⟩ := hinv.task
  rw [htask] at ht
  cases ht
  have hc := hlast _ (getLast?_eq_some_getLast hne)
  have hmem := getLast_mem hne
  generalize s.commits.getLast hne = c at hc hmem
  obtain ⟨key, reached⟩ := c
  have hreached : reached = target := hc.symm.trans hst
  subst hreached
  cases key with
  | some k =>
    obtain ⟨hk, hrec⟩ := hinv.recorded k reached hmem
    exact absurd (hk ▸ hnone) hrec
  | none =>
    rw [Task.isTerminal, hst] at hterm
    obtain rfl := terminal_target (nextStatus_mem hnext).1 hterm
    exact .inr ⟨rfl, hmem⟩

theorem transition_tells (now : Time) (hinv : Consistent input permit initial s)
    (hn : Later input.taskID since s) (hcur : Current input since s snapshot)
    (hi : properCall input (.transitionTask i)) (hnext : nextStatus snapshot.status = some i.target)
    (hexpected : i.expectedVersion = snapshot.version) :
    tellsOf input since (performActivity input now s (.transitionTask i)).2
      ⟨.transitionTask i, (performActivity input now s (.transitionTask i)).1⟩ := by
  obtain ⟨hid, htarget, hkey⟩ := hi
  unfold performActivity
  simp only
  have hcases := MemoryLifecycleActivities.transitionTask_cases s.backend now i
  generalize s.backend.transitionTask now i = r at hcases ⊢
  cases hcases with
  | @failed e hne =>
    cases e with
    | staleTaskVersion x y => exact absurd rfl (hne x y)
    | operationKeyRequired | taskNotFound | scope | operationKeyConflict | transition | transient
    | timeout => trivial
  | @replayed record hrec hto =>
    obtain ⟨_, hmem⟩ := hinv.records _ _ hrec
    rw [hto] at hmem
    rw [after_same (b := s.backend) rfl]
    exact tellsOf_ok (changed_of_record hinv hcur hnext hmem) htarget (fun _ => .inl (hkey ▸ hmem))
  | @ended task htask hnone hterm =>
    rw [after_same (b := s.backend) rfl]
    obtain ⟨hchanged, hreached⟩ :=
      reached_of_ended hinv hn hcur hnext (hid ▸ htask) hterm (hkey ▸ hnone)
    exact tellsOf_ok hchanged htarget hreached
  | @faulted x y hstale =>
    rw [after_same (b := s.backend.clearStale i.operationKey) rfl]
    rw [hkey] at hstale ⊢
    have hlt := (below_clearStale s.backend _).target_lt input.taskID htarget (clearStale_lt hstale)
    rintro ⟨_, hrem⟩
    exact absurd hrem (Nat.ne_of_lt (Nat.lt_of_lt_of_le hlt hn.remaining))
  | @stale task x y htask hversion =>
    rw [after_same (b := s.backend) rfl]
    rintro ⟨hlen, _⟩
    obtain ⟨t, ht, hsnap⟩ := hcur hlen
    rw [hid, ht] at htask
    cases htask
    exact hversion (by rw [hexpected, hsnap]; rfl)
  | @committed task moved htask hnone hm =>
    rw [hid] at htask
    have hput : ((s.backend.put moved).recordOperation i.operationKey
        ⟨i.target, snapshotFromTask moved⟩).tasks input.taskID = some moved := put_self htask hm
    rw [after_moved htask hput hm]
    have hle := hn.commits.length_le
    refine tellsOf_ok ?_ htarget (fun _ => .inl ?_)
    · rintro ⟨hlen, _⟩
      rw [length_append, length_singleton] at hlen
      omega
    · rw [hkey]
      exact mem_concat_self

end

end AiCloud.Workflow
