import AiCloud.ControlPlane.ModelProtocol

/-!
# One model command at a time

A model command of a task is admitted by the task's status and by the record of
its own key. On a task that is already EXECUTING the status admits any key, also
one that was never used. If a begin on such a task retries a key the store
knows, at most one command of the task is in progress at any time.
-/
namespace AiCloud.ControlPlane

open Lib Identity Execution Tasks ModelRuntime System List

/-- The call began its command, which is neither finalized nor released. -/
def inProgress (h : ModelHistory) : Bool := (begun h).isSome && !h.any closedBy

/-- A begin that finds its task EXECUTING comes under a key the store has a record of. -/
def Retries (_ : ModelCall) (db : Db) : (q : ModelRequest) → ModelAnswer q → Prop
  | .beginModelExecution command, _ =>
    (∃ t ∈ db.tasks.rows, t.id = command.task.id ∧ t.status = .executing) →
      (db.record command.idempotency.rowKey).isSome = true
  | _, _ => True

instance (θ : ModelCall) (db : Db) (q : ModelRequest) (a : ModelAnswer q) :
    Decidable (Retries θ db q a) :=
  match q with
  | .beginModelExecution _ => inferInstanceAs (Decidable (_ → _))
  | .now | .newID | .resolveIdempotency _ | .getTask _ | .getRoute _ | .runtime _
  | .aggregateTask _ | .markModelExecutionRetryable _ | .finalizeModelExecution _ =>
    inferInstanceAs (Decidable True)

/-- All model commands of the task have one key, and after the first of them the
task is past ROUTING. -/
structure OneKey (taskID : String) (db : Db) : Prop where
  sole : ∀ k k' : IdempotencyKey, k.operation = modelCommandOperation taskID →
    k'.operation = modelCommandOperation taskID → (db.record k).isSome → (db.record k').isSome →
      k = k'
  started : ∀ k : IdempotencyKey, k.operation = modelCommandOperation taskID →
    (db.record k).isSome → ∀ t ∈ db.tasks.rows, t.id = taskID → t.status ≠ .routing

variable {codec : Codec} {taskID : String} {db db' : Db} {command : ModelExecutionBeginCommit}
  {p : Principal} {task : Task} {db₁ : Db} {θ : ModelCall}

theorem begin_sole {a : ModelAnswer (.beginModelExecution command)} (h : OneKey taskID db)
    (hid : command.task.id = taskID)
    (hop : command.idempotency.operation = modelCommandOperation taskID)
    (hretry : Retries θ db (.beginModelExecution command) a)
    (hres : Reserved command.idempotency db db₁) (hstep : BeginStep p command task db₁ db')
    {k : IdempotencyKey} (hk : k.operation = modelCommandOperation taskID)
    (hsome : (db.record k).isSome) : k = command.idempotency.rowKey := by
  obtain ⟨t, rfl⟩ := hres.table
  cases hstep with
  | first current event status moved outbox result =>
    exact absurd status (h.started k hk hsome current moved.write.mem (moved.named.trans hid))
  | again mem named scope status version same =>
    exact h.sole k _ hk hop hsome (hretry ⟨task, mem, named, status⟩)

theorem begin_oneKey (hid : command.task.id = taskID)
    (honly : ∀ k : IdempotencyKey, k.operation = modelCommandOperation taskID →
      (db.record k).isSome → k = command.idempotency.rowKey)
    (hres : Reserved command.idempotency db db₁) (hstep : BeginStep p command task db₁ db') :
    OneKey taskID db' := by
  have hall : ∀ k : IdempotencyKey, k.operation = modelCommandOperation taskID →
      (db'.record k).isSome → k = command.idempotency.rowKey := by
    intro k hk hsome
    rw [record_congr hstep.records, hres.isSome] at hsome
    rcases hsome with rfl | hsome
    · rfl
    · exact honly k hk hsome
  refine ⟨?_, ?_⟩
  · intro k k' hk hk' hsome hsome'
    rw [hall k hk hsome, hall k' hk' hsome']
  · intro k _ _ t ht htid hrouting
    have hexec := hstep.executing ht (htid.trans hid.symm)
    rw [hrouting] at hexec
    cases hexec

theorem OneKey.keep (h : OneKey taskID db)
    (hrec : ∀ k, (db'.record k).isSome → (db.record k).isSome)
    (htasks : ∀ t ∈ db'.tasks.rows, t ∈ db.tasks.rows ∨ t.status ≠ .routing) :
    OneKey taskID db' := by
  refine ⟨fun k k' hk hk' hs hs' => h.sole k k' hk hk' (hrec k hs) (hrec k' hs'), ?_⟩
  intro k hk hsome t ht hid
  rcases htasks t ht with hold | hne
  · exact h.started k hk (hrec k hsome) t hold hid
  · exact hne

theorem begun_idle {h : ModelHistory} {e : Sigma ModelAnswer} (he : begunBy e = none) :
    begun (h ++ [e]) = begun h := by
  rw [begun_snoc, he, Option.or_none]

theorem closed_snoc (h : ModelHistory) (e : Sigma ModelAnswer) :
    (h ++ [e]).any closedBy = (h.any closedBy || closedBy e) := by
  rw [any_append, any_cons, any_nil, Bool.or_false]

theorem inProgress_iff {h : ModelHistory} : inProgress h = true ↔
    (∃ command task, begun h = some (command, task)) ∧ h.any closedBy = false := by
  unfold inProgress
  simp only [Bool.and_eq_true, Option.isSome_iff_exists, Prod.exists, Bool.not_eq_true']

theorem Open.unclosed {h : ModelHistory} (ho : Open h) : h.any closedBy = false := by
  rw [any_eq_false]
  rintro ⟨q, a⟩ hm hc
  have hq := ho _ hm
  cases q <;> first | exact absurd hc Bool.false_ne_true | cases hq

/-- The invariant: a command in progress holds its record, and there is one at most. -/
structure Sole (taskID : String) (s : ModelSystem) : Prop where
  keys : OneKey taskID s.shared
  held : ∀ i command task, begun (s.history i) = some (command, task) →
    (s.history i).any closedBy = false →
      command.idempotency.operation = modelCommandOperation taskID ∧
      ∃ row, s.shared.record command.idempotency.rowKey = some row ∧ row.status = .inProgress
  unique : ∀ i j, inProgress (s.history i) = true → inProgress (s.history j) = true → i = j

variable {s : ModelSystem}

section

variable {i : Nat} {θ : ModelCall} {k : ModelProg ModelReply} (h : Sole taskID s)

include h

theorem Sole.idle {q : ModelRequest} {a : ModelAnswer q} (hidle : begunBy ⟨q, a⟩ = none)
    (hclosed : closedBy ⟨q, a⟩ = false) : Sole taskID (s.advance i θ q a k s.shared) := by
  have hbegun : ∀ j, begun ((s.advance i θ q a k s.shared).history j) = begun (s.history j) := by
    intro j
    rw [history_advance]
    split
    · exact begun_idle hidle
    · rw [append_nil]
  have hany : ∀ j, ((s.advance i θ q a k s.shared).history j).any closedBy =
      (s.history j).any closedBy := by
    intro j
    rw [history_advance]
    split
    · rw [closed_snoc, hclosed, Bool.or_false]
    · rw [append_nil]
  refine ⟨h.keys, ?_, ?_⟩
  · intro j command task hb hc
    rw [hbegun] at hb
    rw [hany] at hc
    exact h.held j command task hb hc
  · intro j j' hj hj'
    simp only [inProgress, hbegun, hany] at hj hj'
    exact h.unique j j' hj hj'

theorem Sole.ended {q : ModelRequest} {a : ModelAnswer q} {t : Db}
    (hi : inProgress (s.history i) = true) (hclosed : closedBy ⟨q, a⟩ = true)
    (hkeys : OneKey taskID t) : Sole taskID (s.advance i θ q a k t) := by
  have hnone : ∀ j, ¬ inProgress ((s.advance i θ q a k t).history j) = true := by
    intro j hj
    rw [history_advance] at hj
    by_cases hij : i = j
    · rw [if_pos hij, inProgress_iff, closed_snoc, hclosed, Bool.or_true] at hj
      cases hj.2
    · rw [if_neg hij, append_nil] at hj
      exact hij (h.unique i j hi hj)
  refine ⟨hkeys, ?_, fun j _ hj => absurd hj (hnone j)⟩
  intro j command task hb hc
  exact absurd (inProgress_iff.mpr ⟨⟨command, task, hb⟩, hc⟩) (hnone j)

theorem Sole.began {a : ModelAnswer (.beginModelExecution command)}
    (hnone : begun (s.history i) = none)
    (hbegan : begunBy ⟨.beginModelExecution command, a⟩ = some (command, task))
    (hid : command.task.id = taskID)
    (hop : command.idempotency.operation = modelCommandOperation taskID)
    (hretry : Retries θ s.shared (.beginModelExecution command) a)
    (hres : Reserved command.idempotency s.shared db₁) (hstep : BeginStep p command task db₁ db') :
    Sole taskID (s.advance i θ (.beginModelExecution command) a k db') := by
  have honly : ∀ k : IdempotencyKey, k.operation = modelCommandOperation taskID →
      (s.shared.record k).isSome → k = command.idempotency.rowKey :=
    fun k hk => begin_sole h.keys hid hop hretry hres hstep hk
  -- a command in progress holds its record, but the reserved key was free
  have hfree : ∀ j, ¬ inProgress (s.history j) = true := by
    intro j hj
    obtain ⟨⟨c, t, hb⟩, hc⟩ := inProgress_iff.mp hj
    obtain ⟨hopj, row, hrow, hst⟩ := h.held j c t hb hc
    have hkey := honly c.idempotency.rowKey hopj (by rw [hrow]; rfl)
    have hretryable := (hres.free row (hkey ▸ hrow)).1
    rw [hst] at hretryable
    cases hretryable
  have hothers : ∀ j, i ≠ j → ¬ inProgress ((s.advance i θ (.beginModelExecution command) a
      k db').history j) = true := by
    intro j hij hj
    rw [history_advance_ne s hij] at hj
    exact hfree j hj
  refine ⟨begin_oneKey hid honly hres hstep, ?_, ?_⟩
  · intro j c t hb hc
    by_cases hij : i = j
    · subst hij
      rw [history_advance_self, begun_snoc, hnone, Option.none_or, hbegan] at hb
      cases hb
      obtain ⟨row, hrow, hst, _⟩ := hres.held
      exact ⟨hop, row, (record_congr hstep.records _).trans hrow, hst⟩
    · exact absurd (inProgress_iff.mpr ⟨⟨c, t, hb⟩, hc⟩) (hothers j hij)
  · intro j j' hj hj'
    have hi : ∀ j, inProgress ((s.advance i θ (.beginModelExecution command) a k
        db').history j) = true → i = j := fun j hj => by
      by_contra hij
      exact hothers j hij hj
    exact (hi j hj).symm.trans (hi j' hj')

end

variable {enc : ModelEncoding}

theorem read_id {env : Db → Db → Prop} {init : Db}
    (hr : Reach (executeModelIdempotent enc) (modelAnswers codec) env init s) {i : Nat}
    (hj : s.job i = some θ) {id : String} {task : Task}
    (he : (⟨.getTask id, .ok task⟩ : Sigma ModelAnswer) ∈ s.history i) : task.id = id := by
  refine hr.known (K := fun _ _ e => ∀ id task,
    e = (⟨.getTask id, .ok task⟩ : Sigma ModelAnswer) → task.id = id) ?_
    (fun _ _ _ _ _ _ _ _ hk => hk) (fun _ _ _ _ _ hk => hk) hj he id task rfl
  intro θ db q a db' ha id task he
  cases he
  obtain ⟨_, p, _, hfound⟩ := getTask_ok (Stored.ok ha)
  exact (scopedTask_some hfound).2.1

/-- The systems that calls reach if every begin on an EXECUTING task retries a known key. -/
abbrev RetryReach (enc : ModelEncoding) (codec : Codec) (init : Db) (s : ModelSystem) : Prop :=
  Reach (executeModelIdempotent enc) (When Retries (modelAnswers codec)) (fun _ _ => False) init s

theorem retryReach_sole {init : Db}
    (hinit : ∀ k : IdempotencyKey, k.operation = modelCommandOperation taskID →
      init.record k = none)
    (hr : RetryReach enc codec init s) (hjobs : ∀ i θ, s.job i = some θ → θ.taskID = taskID) :
    Sole taskID s := by
  induction hr with
  | start =>
    refine ⟨⟨?_, ?_⟩, ?_, ?_⟩
    · intro k _ hk _ hsome
      rw [hinit k hk] at hsome
      cases hsome
    · intro k hk hsome
      rw [hinit k hk] at hsome
      cases hsome
    · intro i command task hb
      cases hb
    · intro i j hi
      cases hi
  | @next s s' hr hs ih =>
    have ih := ih (fun i θ hj => hjobs i θ (hs.job hj))
    cases hs with
    | spawn θ => exact ⟨ih.keys, ih.held, ih.unique⟩
    | env t ht => exact ht.elim
    | run i θ q k a t hi ha =>
      have hj := job_of_thread hi
      have htask : θ.taskID = taskID := hjobs i θ (by rw [job_advance s q a (k a) t hi, hj])
      have hallowed := ((hr.protocol (executeModelIdempotent_conforms enc codec)).conforms i θ _
        hi).1
      cases modelAnswers_step ha.2 with
      | same q a unchanged idle unclosed =>
        rw [unchanged]
        exact ih.idle idle unclosed
      | begun command r p db₁ task began admitted reserved step =>
        obtain ⟨_, hnone, _, p', now, read, _, hrec, hread, hid⟩ := hallowed
        have hid : command.task.id = taskID :=
          (hid.trans (read_id hr.of_when hj hread)).trans htask
        refine ih.began hnone began hid ?_ ha.1 reserved step
        rw [hrec, ← htask]
        rfl
      | marked record completed pending =>
        obtain ⟨hopen, command, task, hb, _⟩ := hallowed
        refine ih.ended (inProgress_iff.mpr ⟨⟨command, task, hb⟩, hopen.unclosed⟩) rfl ?_
        obtain ⟨rows, rfl⟩ := completed.table
        exact ih.keys.keep (fun _ => completed.isSome.mp) (fun t => Or.inl)
      | finalized command r p current appended db₂ completed moved path request pending =>
        obtain ⟨hopen, begin, task, hb, _⟩ := hallowed
        refine ih.ended (inProgress_iff.mpr ⟨⟨begin, task, hb⟩, hopen.unclosed⟩) rfl ?_
        have hfinal : command.task.status ≠ .routing := by
          rcases path with ⟨_, hst, _⟩ | ⟨_, hst, _⟩ <;> rw [hst] <;> decide
        have hkeep : OneKey taskID db₂ := ih.keys.keep
          (fun k hs => by rwa [record_congr moved.write.records] at hs) (fun t ht =>
            (moved.write.row ht).imp And.left (fun he => by rw [he]; exact hfinal))
        obtain ⟨rows, rfl⟩ := completed.table
        exact hkeep.keep (fun _ => completed.isSome.mp) (fun t => Or.inl)

/--
In every run of calls on one task in which a begin on the EXECUTING task only
retries a key the store knows, at most one command is in progress at any time.
The run starts before the first model command of the task.
-/
theorem one_model_command {enc : ModelEncoding} {init : Db} {s : ModelSystem}
    (hinit : ∀ k : IdempotencyKey, k.operation = modelCommandOperation taskID →
      init.record k = none)
    (hr : RetryReach enc codec init s) (hjobs : ∀ i θ, s.job i = some θ → θ.taskID = taskID)
    {i j : Nat} (hi : inProgress (s.history i) = true) (hj : inProgress (s.history j) = true) :
    i = j :=
  (retryReach_sole hinit hr hjobs).unique i j hi hj

def routedDb : Db := after sampleCodec [createCall, planCall, routeCall "route"]

theorem routedDb_fresh (k : IdempotencyKey) (hk : k.operation = modelCommandOperation "task") :
    routedDb.record k = none := by
  have hrows : ∀ row ∈ routedDb.idempotency.rows,
      row.key.operation ≠ modelCommandOperation "task" := by decide +kernel
  refine Table.lookup_none.mpr ?_
  intro row hrow heq
  exact hrows row hrow (heq ▸ hk)

def callsOn (taskID : String) (s : ModelSystem) : Bool :=
  s.threads.all (fun x => x.1.taskID = taskID)

theorem callsOn_jobs (h : callsOn taskID s = true) {i : Nat} (hj : s.job i = some θ) :
    θ.taskID = taskID := by
  obtain ⟨x, hx, rfl⟩ := Option.map_eq_some_iff.mp hj
  exact of_decide_eq_true (all_eq_true.mp h x (mem_of_getElem? hx))

/-- Calls alone, as the given replies allow them. -/
def callsScheduled (reply : ModelCall → ModelChoice → Db → (q : ModelRequest) →
    Option (ModelAnswer q × Db)) (moves : List (Move ModelCall ModelChoice Unit)) :
    Option ModelSystem :=
  schedule (executeModelIdempotent sampleModelEncoding) reply (fun _ _ => none) routedDb moves

/-- A command is released and begun again under the same key. -/
def retriedMoves : List (Move ModelCall ModelChoice Unit) :=
  [.spawn (sampleModelCall "k")]
    ++ replicate 10 (.run 0 (sampleModelChoice (.ok ()) "a"))
    ++ replicate 4 (.run 0 (busyModelChoice "b"))
    ++ [.spawn (sampleModelCall "k")]
    ++ replicate 5 (.run 1 (sampleModelChoice (.ok ()) "c"))

theorem one_model_command_retried :
    ∃ s : ModelSystem, RetryReach sampleModelEncoding sampleCodec routedDb s ∧
      inProgress (s.history 1) = true ∧ ∀ i, inProgress (s.history i) = true → i = 1 := by
  have hrun : (callsScheduled (guarded Retries (modelReply sampleCodec)) retriedMoves).any
      (fun s => callsOn "task" s = true ∧ inProgress (s.history 1) = true) = true := by
    decide +kernel
  obtain ⟨s, hr, hjobs, hone⟩ :=
    exists_schedule (guarded_when (modelReply_answers sampleCodec)) (by rintro _ _ _ ⟨⟩) hrun
  exact ⟨s, hr, hone, fun i hi => one_model_command routedDb_fresh hr
    (fun _ _ => callsOn_jobs hjobs) hi hone⟩

/-- A second key comes while the first command runs. -/
def twoKeysMoves : List (Move ModelCall ModelChoice Unit) :=
  [.spawn (sampleModelCall "k")] ++ replicate 6 (.run 0 (sampleModelChoice (.ok ()) "a"))
    ++ [.spawn (sampleModelCall "other")] ++ replicate 5 (.run 1 (sampleModelChoice (.ok ()) "b"))

/-- Two commands of one task are in progress at once, under different keys. -/
theorem two_model_commands :
    (∀ k : IdempotencyKey, k.operation = modelCommandOperation "task" → routedDb.record k = none) ∧
      ∃ s : ModelSystem,
        Reach (executeModelIdempotent sampleModelEncoding) (modelAnswers sampleCodec)
          (fun _ _ => False) routedDb s ∧ (∀ i θ, s.job i = some θ → θ.taskID = "task") ∧
        inProgress (s.history 0) = true ∧ inProgress (s.history 1) = true := by
  refine ⟨routedDb_fresh, ?_⟩
  have hrun : (callsScheduled (modelReply sampleCodec) twoKeysMoves).any (fun s =>
      callsOn "task" s = true ∧ inProgress (s.history 0) = true ∧
        inProgress (s.history 1) = true) = true := by
    decide +kernel
  obtain ⟨s, hr, hjobs, hboth⟩ :=
    exists_schedule (modelReply_answers sampleCodec) (by rintro _ _ _ ⟨⟩) hrun
  exact ⟨s, hr, fun _ _ => callsOn_jobs hjobs, hboth⟩

end AiCloud.ControlPlane
