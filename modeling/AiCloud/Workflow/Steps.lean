import AiCloud.Workflow.Commits

/-!
# The steps a lifecycle result lists

What the lifecycle keeps to in every run over the memory backend, and that a status it
lists as a step was committed by its own call as long as nobody else completes the task.
A run in which the others move the task finitely often and every call is answered
returns.
-/
namespace AiCloud.Workflow

open Lib Text Tasks Execution List

variable (input : TaskWorkflowInput)

/-- Every step names a stub or a target that was reached. -/
def StepsReached (result : TaskWorkflowResult) (s : LifecycleState) : Prop :=
  ∀ x ∈ result.steps, (∃ stub : Stub, x = stub.label) ∨
    ∃ target ∈ lifecycleTargets, x = target.text ∧ Reached input s target

def lifecycleContract (permit : TaskStatus → Prop) (initial : Int) :
    Durable.Contract LifecycleState Activity Activity.Answer TaskWorkflowResult
      (TaskWorkflowResult × Option WorkflowFailure) where
  proper := properCall input
  allowed := fun _ => allowedCall input
  final := finalTurn
  inv := Consistent input permit initial
  next := Later input.taskID
  tells := tellsOf input
  arg := StepsReached input

variable {d : LifecycleRun}

section

variable {input : TaskWorkflowInput} {permit : TaskStatus → Prop} {initial : Int}
  {since s s' : LifecycleState} {h : List (Sigma Activity.Answer)}

theorem allowed_proper {q : Activity} (hq : allowedCall input h q) : properCall input q := by
  cases q with
  | loadTask i => trivial
  | runStep stub i =>
    obtain rfl := hq
    rfl
  | transitionTask i =>
    obtain ⟨snapshot, target, hnext, rfl, _⟩ := hq
    exact ⟨rfl, (nextStatus_mem hnext).1, rfl⟩

theorem load_tells (now : Time) :
    tellsOf input since (performActivity input now s (.loadTask input.scope)).2
      ⟨.loadTask input.scope, (performActivity input now s (.loadTask input.scope)).1⟩ := by
  change tellsOf input since s ⟨.loadTask input.scope, s.backend.loadTask input.scope⟩
  unfold MemoryLifecycleActivities.loadTask
  cases hscope : s.backend.taskForScope input.scope.tenantID input.scope.projectID
      input.scope.taskID input.scope.traceID with
  | error e => trivial
  | ok task => exact fun _ => ⟨task, MemoryLifecycleActivities.taskForScope_ok hscope, rfl⟩

theorem activity_tells (now : Time) {q : Activity} (hq : allowedCall input h q)
    (hinv : Consistent input permit initial s) (hn : Later input.taskID since s)
    (htold : ∀ e ∈ h, tellsOf input since s e) :
    tellsOf input since (performActivity input now s q).2
      ⟨q, (performActivity input now s q).1⟩ := by
  have hproper := allowed_proper hq
  cases q with
  | loadTask i =>
    obtain rfl := hq
    exact load_tells now
  | runStep stub i => trivial
  | transitionTask i =>
    obtain ⟨snapshot, target, hnext, hi, hload⟩ := hq
    have htarget : nextStatus snapshot.status = some i.target := by
      rw [hi]
      exact hnext
    have hversion : i.expectedVersion = snapshot.version := by
      rw [hi]
      rfl
    exact transition_tells now hinv hn (htold _ hload) hproper htarget hversion

theorem tellsOf_later {e : Sigma Activity.Answer} (he : tellsOf input since s e)
    (hs : Later input.taskID since s) (hn : Later input.taskID s s') :
    tellsOf input since s' e := by
  obtain ⟨q, a⟩ := e
  cases q with
  | runStep stub i => trivial
  | loadTask i =>
    cases a with
    | error e => trivial
    | ok snapshot =>
      -- No commit since then means no commit in either part.
      intro hlen
      have hst := hs.commits.length_le
      have htu := hn.commits.length_le
      rw [hn.task (by omega)]
      exact he (by omega)
  | transitionTask i =>
    cases a with
    | ok next => exact ⟨he.1.later hs hn, he.2.1, fun hst => (he.2.2 hst).later hn⟩
    | error e =>
      cases e with
      | staleTaskVersion x y => exact Changed.later he hs hn
      | operationKeyRequired | taskNotFound | scope | operationKeyConflict | transition
      | transient | timeout => trivial

theorem shows_reached {old new : TaskWorkflowResult} (hold : StepsReached input old s)
    (htold : ∀ e ∈ h, tellsOf input since s e) (hs : Shows h old new) :
    StepsReached input new s := by
  intro x hx
  rcases hs x hx with hin | hlabel | ⟨i, next, hmem, hst, rfl⟩
  · exact hold x hin
  · exact .inl hlabel
  · obtain ⟨_, htarget, hreached⟩ := htold _ hmem
    exact .inr ⟨i.target, htarget, rfl, hreached hst⟩

theorem lifecycle_sound : (lifecycleContract input permit initial).Sound
    (lifecycleHost input permit) (lifecycleTurn input) where
  refl := Later.refl input.taskID
  trans := Later.trans
  conforms := lifecycleTurn_keeps input
  proper := allowed_proper
  perform := fun now hq hinv =>
    have hp := activity_performed now _ hq
    ⟨hinv.performed hp, hp.later⟩
  other := by
    intro s t hother hinv
    obtain ⟨task, moved, target, hp, hr, rfl⟩ := OtherWrite.replaced hother
    exact ⟨hinv.moved hr hp rfl, later_commit hr.below _⟩
  answer := fun now hq hinv hn => activity_tells now hq hinv hn
  lost := by
    intro since s q
    cases q <;> trivial
  stable := tellsOf_later
  arg_next := fun harg hn x hx => (harg x hx).imp id
    (fun ⟨target, ht, htext, hr⟩ => ⟨target, ht, htext, hr.later hn⟩)
  arg_again := fun harg htold hfinal => shows_reached harg htold hfinal.1

section

variable {backend : MemoryLifecycleActivities} {task : Task}
  (htask : backend.tasks input.taskID = some task) (hops : ∀ key, backend.operations key = none)
  (hplanted : ∀ stub status, backend.terminalOnStep stub = some status → permit status)

include htask hops hplanted

theorem consistent_fresh : Consistent input permit task.version ⟨backend, []⟩ where
  task := ⟨task, htask, by simp, by simp⟩
  records := fun key record hrec => absurd hrec (by rw [hops]; simp)
  ranks := fun _ _ _ hmem => absurd hmem not_mem_nil
  keys := nodup_nil
  recorded := fun _ _ hmem => absurd hmem not_mem_nil
  foreign := fun _ hmem => absurd hmem not_mem_nil
  planted := hplanted

theorem lifecycle_holds (hr : LifecycleReach input permit backend d) :
    Durable.Holds (lifecycleContract input permit task.version) d := by
  obtain ⟨labels, htrace⟩ := hr
  exact lifecycle_sound.holds (consistent_fresh htask hops hplanted)
    (fun x hx => absurd hx not_mem_nil) (taskLifecycleWorkflow_keeps input) htrace

end

/-- A status is told from the others and from the stubs by its text. -/
theorem text_target {status target : TaskStatus} (hs : ∀ text, status ≠ .other text)
    (ht : target ∈ lifecycleTargets) (h : status.text = target.text) : status = target := by
  simp only [lifecycleTargets, mem_cons, not_mem_nil, or_false] at ht
  cases status with
  | other text => exact absurd rfl (hs text)
  | created | planning | routing | executing | waitingApproval | validating | completed | failed
  | cancelled | expired =>
    rcases ht with rfl | rfl | rfl | rfl | rfl <;> first | rfl | exact absurd h (by decide)

theorem text_stub {status : TaskStatus} (hs : ∀ text, status ≠ .other text) (stub : Stub) :
    status.text ≠ stub.label := by
  cases status with
  | other text => exact absurd rfl (hs text)
  | created | planning | routing | executing | waitingApproval | validating | completed | failed
  | cancelled | expired => cases stub <;> decide

theorem StepsReached.status {result : TaskWorkflowResult} (h : StepsReached input result s)
    {status : TaskStatus} (hs : ∀ text, status ≠ .other text) (hmem : status.text ∈ result.steps) :
    Reached input s status := by
  rcases h _ hmem with ⟨stub, hstub⟩ | ⟨target, htarget, htext, hreached⟩
  · exact absurd hstub (text_stub hs stub)
  obtain rfl := text_target hs htarget htext
  exact hreached

end

/-- Where no other writer completes the task, a status among the steps of the
result was committed by the workflow's own call. -/
theorem listed_status_committed {input : TaskWorkflowInput} {backend : MemoryLifecycleActivities}
    {task : Task} (htask : backend.tasks input.taskID = some task)
    (hops : ∀ key, backend.operations key = none)
    (hplanted : ∀ stub, backend.terminalOnStep stub ≠ some .completed) {d : LifecycleRun}
    (hr : LifecycleReach input (fun target => target ≠ .completed) backend d)
    {result : TaskWorkflowResult} {failure : Option WorkflowFailure}
    (hret : d.current = .ret (.returned (result, failure))) {status : TaskStatus}
    (hs : ∀ text, status ≠ .other text) (hmem : status.text ∈ result.steps) :
    ⟨some (transitionOperationKey input.taskID status), status⟩ ∈ d.shared.commits := by
  have hplant : ∀ stub status, backend.terminalOnStep stub = some status → status ≠ .completed := by
    rintro stub status hst rfl
    exact hplanted stub hst
  have hd := lifecycle_holds htask hops hplant hr
  have hshows : Shows d.told d.arg result := by
    have hconf := hd.conforms
    rw [hret] at hconf
    exact hconf
  rcases (shows_reached hd.arg hd.told hshows).status hs hmem with hown | ⟨_, hforeign⟩
  · exact hown
  · exact absurd rfl (hd.inv.foreign _ hforeign)

/-- A transition of another writer, as a move of a script. -/
def writeTask (permit : TaskStatus → Bool)
    (command : TaskTransitionCommand) (s : LifecycleState) : Option LifecycleState :=
  match s.backend.tasks input.taskID with
  | none => none
  | some task =>
    match MemoryLifecycleActivities.moveTask task command with
    | .error _ => none
    | .ok moved =>
      if permit command.target then some (s.after input.taskID none (s.backend.put moved)) else none

variable {input : TaskWorkflowInput}

theorem writeTask_other {permit : TaskStatus → Bool} {command : TaskTransitionCommand}
    {s t : LifecycleState} (h : writeTask input permit command s = some t) :
    OtherWrite input (fun target => permit target = true) s t := by
  unfold writeTask at h
  split at h
  · cases h
  rename_i task htask
  split at h
  · cases h
  rename_i moved hmove
  split at h
  · rename_i hp
    cases h
    exact ⟨task, moved, command, htask, hp, hmove, rfl⟩
  · cases h

def playLifecycle (input : TaskWorkflowInput) (permit : TaskStatus → Bool)
    (backend : MemoryLifecycleActivities)
    (moves : List (Durable.Move Time TaskTransitionCommand)) : Option LifecycleRun :=
  (startLifecycle input backend).play (lifecycleHost input (fun target => permit target = true))
    (lifecycleTurn input) (writeTask input permit) moves

theorem playLifecycle_trace {permit : TaskStatus → Bool} {backend : MemoryLifecycleActivities}
    {moves : List (Durable.Move Time TaskTransitionCommand)}
    (h : playLifecycle input permit backend moves = some d) :
    Trace (Durable.Step (lifecycleHost input (fun target => permit target = true))
      (lifecycleTurn input)) (startLifecycle input backend) (moves.map Durable.Move.label) d := by
  simpa using Durable.play_trace (fun _ _ _ => writeTask_other) .nil h

def outcome (d : LifecycleRun) : Option (TaskWorkflowResult × Option WorkflowFailure) :=
  match d.current with
  | .ret (.returned w) => some w
  | _ => none

theorem outcome_some {w : TaskWorkflowResult × Option WorkflowFailure}
    (h : outcome d = some w) : d.current = .ret (.returned w) := by
  unfold outcome at h
  split at h
  · rename_i hc
    cases h
    exact hc
  · cases h

def runInput : TaskWorkflowInput := ⟨1, "tenant", "project", "task", "trace"⟩

def runTask (status : TaskStatus) : Task :=
  ⟨"task", "tenant", "project", "user", "", "", status, 5, "", 0, 0, 0, "", "", "trace", 1, 1, none⟩

def runBackend (status : TaskStatus) : MemoryLifecycleActivities where
  tasks := fun id => if id = "task" then some (runTask status) else none
  operations := fun _ => none
  stepFailures := fun _ => 0
  terminalOnStep := fun _ => none
  staleOnceForKey := fun _ => false
  named := by
    intro id task h
    split at h
    · rename_i hid
      cases h
      exact hid.symm
    · cases h

/-- Every activity of an undisturbed run, attempted twice. -/
def repeatedAttempts : List (Durable.Move Time TaskTransitionCommand) :=
  (replicate 15 [.attempt 2, .attempt 3, .answer]).flatten

theorem listed_completion_committed :
    ∃ d result, LifecycleReach runInput (fun target => target ≠ .completed)
      (runBackend .created) d ∧
      d.current = .ret (.returned (result, none)) ∧ TaskStatus.completed.text ∈ result.steps ∧
      ⟨some (transitionOperationKey "task" .completed), .completed⟩ ∈ d.shared.commits := by
  have hplay : (playLifecycle runInput (fun target => target ≠ .completed) (runBackend .created)
      repeatedAttempts).map outcome = some (some (⟨"task", "trace", .completed, false,
        ["PLANNING", "plan", "ROUTING", "route", "EXECUTING", "execute", "VALIDATING", "validate",
          "COMPLETED"]⟩, none)) := by decide
  obtain ⟨d, hd, hret⟩ := Option.map_eq_some_iff.mp hplay
  have htrace := playLifecycle_trace hd
  simp only [decide_eq_true_eq] at htrace
  have htask : (runBackend .created).tasks runInput.taskID = some (runTask .created) := rfl
  have hplanted : ∀ stub, (runBackend .created).terminalOnStep stub ≠ some .completed := by
    intro stub h
    cases h
  refine ⟨d, _, ⟨_, htrace⟩, outcome_some hret, by decide, ?_⟩
  exact listed_status_committed htask (fun _ => rfl) hplanted ⟨_, htrace⟩ (outcome_some hret)
    (fun _ h => nomatch h) (by decide)

/-- Another writer completes the task between the validation and the call. -/
def completedElsewhere : List (Durable.Move Time TaskTransitionCommand) :=
  [.attempt 2, .answer, .attempt 3, .answer, .write ⟨.completed, "operator", "done", 4⟩,
    .attempt 5, .answer, .attempt 6, .answer]

/-- The workflow claims the completion as its own and commits nothing. -/
theorem unowned_completion :
    ∃ d result, LifecycleReach runInput (fun _ => True) (runBackend .validating) d ∧
      d.current = .ret (.returned (result, none)) ∧
      TaskStatus.completed.text ∈ result.steps ∧ result.alreadyTerminal = false ∧
      d.shared.commits = [⟨none, .completed⟩] := by
  have hplay : (playLifecycle runInput (fun _ => true) (runBackend .validating)
      completedElsewhere).map (fun d => (outcome d, d.shared.commits)) =
      some (some (⟨"task", "trace", .completed, false, ["validate", "COMPLETED"]⟩, none),
        [⟨none, .completed⟩]) := by decide
  obtain ⟨d, hd, hout⟩ := Option.map_eq_some_iff.mp hplay
  obtain ⟨hret, hcommits⟩ := Prod.mk.inj hout
  have htrace := playLifecycle_trace hd
  simp only at htrace
  exact ⟨d, _, ⟨_, htrace⟩, outcome_some hret, by decide, rfl, hcommits⟩

/-- What the activities alone can do: a commit uses up something that remained. -/
structure Calm (taskID : String) (s s' : LifecycleState) : Prop where
  later : Later taskID s s'
  used : s'.commits.length + remaining taskID s'.backend ≤
    s.commits.length + remaining taskID s.backend

theorem Calm.refl (taskID : String) (s : LifecycleState) : Calm taskID s s :=
  ⟨Later.refl taskID s, Nat.le_refl _⟩

variable {taskID : String}

theorem Calm.trans {s t u : LifecycleState} (h : Calm taskID s t) (h' : Calm taskID t u) :
    Calm taskID s u :=
  ⟨h.later.trans h'.later, Nat.le_trans h'.used h.used⟩

theorem calm_commit {s : LifecycleState} {b : MemoryLifecycleActivities} (hb : Below b s.backend)
    (hlt : remaining taskID b < remaining taskID s.backend) (c : Commit) :
    Calm taskID s ⟨b, s.commits ++ [c]⟩ := by
  refine ⟨later_commit hb c, ?_⟩
  change (s.commits ++ [c]).length + remaining taskID b ≤ _
  rw [length_append, length_singleton]
  omega

theorem recorded_lt {a b : MemoryLifecycleActivities} (hb : Below b a) {key : String}
    {record : TransitionRecord} (hnone : a.operations key = none)
    (hops : b.operations = (fun k => if k = key then some record else a.operations k)) :
    (b.operations key).isNone.toNat + (b.staleOnceForKey key).toNat <
      (a.operations key).isNone.toNat + (a.staleOnceForKey key).toNat := by
  have hkey : b.operations key = some record := by
    rw [hops]
    exact if_pos rfl
  rw [hkey, hnone]
  exact Nat.add_lt_add_of_lt_of_le Nat.zero_lt_one (toNat_le (hb.stale key))

theorem Performed.calm {s s' : LifecycleState} (h : Performed input s s') :
    Calm input.taskID s s' := by
  have hlater := h.later
  cases h with
  | kept _ _ hbelow _ => exact ⟨hlater, Nat.add_le_add_left (hbelow.remaining_le _) _⟩
  | own hr htarget hnone hops =>
    exact calm_commit hr.below (hr.below.target_lt _ htarget (recorded_lt hr.below hnone hops)) _
  | @planted b task moved status stub hr hops hsome hgone =>
    have hlt : (b.terminalOnStep stub).isSome.toNat <
        (s.backend.terminalOnStep stub).isSome.toNat := by
      rw [hsome, hgone]
      exact Nat.zero_lt_one
    exact calm_commit hr.below (hr.below.stub_lt _ hlt) _

/-- A turn that is followed by another one has found or made a change. -/
theorem turn_changed {since s : LifecycleState} {h : List (Sigma Activity.Answer)}
    {old new : TaskWorkflowResult} (htold : ∀ e ∈ h, tellsOf input since s e)
    (hfinal : finalTurn old h (.again new)) : Changed input.taskID since s := by
  obtain ⟨_, i, a, hmem, hsettled⟩ := hfinal
  have htell := htold _ hmem
  cases a with
  | ok next => exact htell.1
  | error e =>
    cases e with
    | staleTaskVersion x y => exact htell
    | operationKeyRequired | taskNotFound | scope | operationKeyConflict | transition | transient
    | timeout => exact hsettled.elim

/-- Without other writers a change is one of what remains. -/
theorem Changed.remaining_lt {since s : LifecycleState} (h : Changed taskID since s)
    (hc : Calm taskID since s) : remaining taskID s.backend < remaining taskID since.backend := by
  have hlen := hc.later.commits.length_le
  have hrem := hc.later.remaining
  have hused := hc.used
  by_contra hge
  exact h ⟨by omega, by omega⟩

theorem lifecycle_asks (input : TaskWorkflowInput) (result : TaskWorkflowResult) :
    ∃ q k, lifecycleTurn input result = .ask q k := ⟨.loadTask input.scope, _, rfl⟩

theorem startLifecycle_shape (input : TaskWorkflowInput) (backend : MemoryLifecycleActivities) :
    (startLifecycle input backend).Pending ∨ (startLifecycle input backend).Returned := by
  unfold startLifecycle Durable.start Durable.Pending Durable.Returned taskLifecycleWorkflow
  split
  · exact .inr ⟨_, rfl⟩
  · exact .inl (lifecycle_asks input _)

section

variable {input : TaskWorkflowInput} {permit : TaskStatus → Prop}
  {backend : MemoryLifecycleActivities}
  (run : Durable.Forever (lifecycleHost input permit) (lifecycleTurn input)
    (startLifecycle input backend))

theorem run_shape (n : Nat) : (run.states n).Pending ∨ (run.states n).Returned := by
  induction n with
  | zero =>
    rw [run.first]
    exact startLifecycle_shape input backend
  | succ n ih => exact (run.step n).shape (lifecycle_asks input) ih

theorem run_returned {task : Task} (htask : backend.tasks input.taskID = some task)
    (hops : ∀ key, backend.operations key = none)
    (hplanted : ∀ stub status, backend.terminalOnStep stub = some status → permit status)
    {begun : Nat} (halone : ∀ n, begun ≤ n → run.labels n ≠ .other) (hanswered : run.Answered) :
    ∃ n, (run.states n).Returned := by
  have hquiet : Durable.Quiet (lifecycleContract input permit task.version) run begun
      (Calm input.taskID) (fun s => remaining input.taskID s.backend) :=
    { sound := lifecycle_sound
      holds := fun n => lifecycle_holds htask hops hplanted (run.trace n)
      shape := run_shape run
      answered := hanswered
      alone := halone
      refl := Calm.refl input.taskID
      trans := Calm.trans
      perform := fun now hq _ => (activity_performed now _ hq).calm
      lowers := fun hcalm _ htold hfinal => (turn_changed htold hfinal).remaining_lt hcalm }
  exact hquiet.returned

end

/-- Whatever is retried, duplicated or done by others: no operation key commits two
transitions, the version counts all of them, and the loop ends once the others stop
and every call is answered. -/
theorem lifecycle_run {input : TaskWorkflowInput} {backend : MemoryLifecycleActivities}
    {task : Task} (htask : backend.tasks input.taskID = some task)
    (hops : ∀ key, backend.operations key = none)
    (run : Durable.Forever (lifecycleHost input (fun _ => True)) (lifecycleTurn input)
      (startLifecycle input backend)) :
    (∀ n, ((run.states n).shared.commits.filterMap Commit.key).Nodup ∧
      ∃ stored, (run.states n).shared.backend.tasks input.taskID = some stored ∧
        stored.version = task.version + (run.states n).shared.commits.length) ∧
    ((∃ begun, ∀ n, begun ≤ n → run.labels n ≠ .other) → run.Answered →
      ∃ n, (run.states n).Returned) := by
  have hplanted : ∀ stub status, backend.terminalOnStep stub = some status → True :=
    fun _ _ _ => trivial
  refine ⟨fun n => ?_, ?_⟩
  · have hd := lifecycle_holds htask hops hplanted (run.trace n)
    obtain ⟨stored, hstored, hversion, _⟩ := hd.inv.task
    exact ⟨hd.inv.keys, stored, hstored, hversion⟩
  · rintro ⟨begun, halone⟩ hanswered
    exact run_returned run htask hops hplanted halone hanswered

theorem lifecycle_run_interrupted :
    ∃ run : Durable.Forever (lifecycleHost runInput (fun _ => True)) (lifecycleTurn runInput)
      (startLifecycle runInput (runBackend .validating)), run.Answered ∧
      (∃ begun, ∀ n, begun ≤ n → run.labels n ≠ .other) ∧ (∃ n, (run.states n).Returned) ∧
      ∀ n, ((run.states n).shared.commits.filterMap Commit.key).Nodup := by
  have hplay : (playLifecycle runInput (fun _ => true) (runBackend .validating)
      completedElsewhere).map (fun d => (outcome d).isSome) = some true := by decide
  obtain ⟨d, hd, hout⟩ := Option.map_eq_some_iff.mp hplay
  obtain ⟨w, hw⟩ := Option.isSome_iff_exists.mp hout
  have htrace := playLifecycle_trace hd
  simp only at htrace
  obtain ⟨run, hanswered, halone⟩ := Durable.exists_answered
    [.attempt, .reply, .attempt, .reply, .other, .attempt, .reply, .attempt] htrace
    ⟨w, outcome_some hw⟩
  have htask : (runBackend .validating).tasks runInput.taskID = some (runTask .validating) := rfl
  obtain ⟨hsafe, hends⟩ := lifecycle_run htask (fun _ => rfl) run
  exact ⟨run, hanswered, ⟨9, halone⟩, hends ⟨9, halone⟩ hanswered, fun n => (hsafe n).1⟩

end AiCloud.Workflow
