import AiCloud.Activity.Route
import AiCloud.Worker.Protocol
import AiCloud.Lib.Schedule
import AiCloud.Tasks.Log

/-!
# Activities over their stores

Any number of routing and execution runs, of one task or of many, interleave over the
three stores. Each store call is one atomic step. Anyone may issue task commands and
create goals and plans at any time; executions and node-runtime records come from the
activities alone. A schedule computes one reachable system: a choice fixes clock
readings, random ids and the services' answers.
-/
namespace AiCloud.Activity

open Lib Execution Identity Tasks Lineage NodeLease Worker System List Option Json

/-- The stores: the calls made on the node-lease and the task store, and the lineage tables. -/
structure World where
  nodes : List NodeLease.Call
  tasks : List Tasks.Call
  lineage : Lineage.Db

def World.empty : World := ⟨[], [], Lineage.Db.empty⟩

inductive Step
  | route
  | execute

structure Job where
  step : Step
  input : StepInput
  worker : PersistentWorker

def Job.ctx (θ : Job) : Context := executionWorkflowProjectContext θ.input

abbrev ActivitySystem := System World Job Request Answer (Except ActivityError Unit)

def body (encoding : Encoding) (θ : Job) : Prog Request Answer (Except ActivityError Unit) :=
  match θ.step with
  | .route => (route encoding θ.input).run
  | .execute => (execute encoding θ.worker θ.input).run

variable {σ ε α : Type} (tx : Tx σ ε α)

/-- A read answers from the state or fails. -/
def Reads (db : σ) (a : Except ε α) : Prop :=
  ∀ x, a = .ok x → ∃ db', tx db = .ok (x, db')

/-- A call of the node-lease store without a lease; an error says nothing about
whether the transaction happened. -/
def NodeCalled (ctx : Context) (calls : List NodeLease.Call) (op : NodeLease.Op)
    (a : Except StoreError Unit) (calls' : List NodeLease.Call) : Prop :=
  ∃ now, match a with
    | .ok _ => (NodeLease.exec (NodeLease.after calls) ⟨ctx, now, op⟩).1 = .ok .done ∧
        calls' = calls ++ [⟨ctx, now, op⟩]
    | .error _ => calls' = calls ∨ calls' = calls ++ [⟨ctx, now, op⟩]

def SelectionCommitted (codec : Codec) (ctx : Context) (calls : List Tasks.Call)
    (command : RouteSelectionCommit) (a : Except CommandError RouteSelectionResult)
    (calls' : List Tasks.Call) : Prop :=
  ∃ now priced updateClock, match a with
    | .ok r => (Tasks.exec codec (Tasks.after codec calls)
          ⟨ctx, now, .commitRouteSelection priced updateClock command⟩).1 = .ok (.selected r) ∧
        calls' = calls ++ [⟨ctx, now, .commitRouteSelection priced updateClock command⟩]
    | .error _ => calls' = calls ∨
        calls' = calls ++ [⟨ctx, now, .commitRouteSelection priced updateClock command⟩]

def ExecutionCreated (ctx : Context) (db : Lineage.Db) (item : Execution)
    (a : Except LineageError Execution) (db' : Lineage.Db) : Prop :=
  match a with
  | .ok x => createExecution ctx item db = .ok (x, db')
  | .error _ => db' = db ∨ ∃ x, createExecution ctx item db = .ok (x, db')

section

variable (codec : Codec)

/-- The stores answer from their state; services, clocks and random ids answer anything. -/
def answers (θ : Job) (w : World) : (q : Request) → Answer q → World → Prop
  | .getTask id, a, w' => Reads (Tasks.getTask θ.ctx id) (Tasks.after codec w.tasks) a ∧ w' = w
  | .resolveRouteSelection lookup, a, w' =>
    Reads (Tasks.resolveRouteSelection codec θ.ctx lookup) (Tasks.after codec w.tasks) a ∧ w' = w
  | .commitRouteSelection command, a, w' =>
    ∃ tasks, SelectionCommitted codec θ.ctx w.tasks command a tasks ∧ w' = { w with tasks := tasks }
  | .getPlan id revision, a, w' => Reads (Lineage.getPlan θ.ctx id revision) w.lineage a ∧ w' = w
  | .listPlansByTask taskID, a, w' =>
    Reads (Lineage.listPlansByTask θ.ctx taskID) w.lineage a ∧ w' = w
  | .getGoal id, a, w' => Reads (Lineage.getGoal θ.ctx id) w.lineage a ∧ w' = w
  | .getExecution id, a, w' => Reads (Lineage.getExecution θ.ctx id) w.lineage a ∧ w' = w
  | .createExecution item, a, w' =>
    ∃ lineage, ExecutionCreated θ.ctx w.lineage item a lineage ∧ w' = { w with lineage := lineage }
  | .getNode executionID planRevision nodeID, a, w' =>
    Reads (NodeLease.get θ.ctx executionID planRevision nodeID) (NodeLease.after w.nodes) a ∧ w' = w
  | .listAttempts executionID planRevision nodeID, a, w' =>
    Reads (NodeLease.listAttempts θ.ctx executionID planRevision nodeID)
      (NodeLease.after w.nodes) a ∧ w' = w
  | .register record, a, w' =>
    ∃ nodes, NodeCalled θ.ctx w.nodes (.register record) a nodes ∧ w' = { w with nodes := nodes }
  | .requeueFailed executionID planRevision nodeID, a, w' =>
    ∃ nodes, NodeCalled θ.ctx w.nodes (.requeueFailed executionID planRevision nodeID) a nodes ∧
      w' = { w with nodes := nodes }
  | .worker q, a, w' => ∃ nodes, Worker.answers θ.ctx w.nodes q a nodes ∧
      w' = { w with nodes := nodes }
  | .now, _, w' => w' = w
  | .newID, _, w' => w' = w
  | .evaluate .., _, w' => w' = w
  | .build .., _, w' => w' = w
  | .planRoute _, _, w' => w' = w
  | .getDeployment _, _, w' => w' = w

/-- Task commands, goals and plans by anyone. -/
inductive Environment : World → World → Prop
  | task (w : World) (call : Tasks.Call) :
      Environment w { w with tasks := w.tasks ++ [call] }
  | goal (w : World) (ctx : Context) (goal goal' : Goal) (lineage : Lineage.Db) :
      createGoal ctx (Tasks.after codec w.tasks) goal w.lineage = .ok (goal', lineage) →
      Environment w { w with lineage := lineage }
  | plan (w : World) (ctx : Context) (plan plan' : ExecutionPlan) (lineage : Lineage.Db) :
      createPlan ctx plan w.lineage = .ok (plan', lineage) →
      Environment w { w with lineage := lineage }

abbrev Reachable (encoding : Encoding) (s : ActivitySystem) : Prop :=
  Reach (body encoding) (answers codec) (Environment codec) World.empty s

end

def workerEntry : Sigma Answer → Option (Sigma Worker.Answer)
  | ⟨.worker q, a⟩ => some ⟨q, a⟩
  | _ => none

def workerPart (h : List (Sigma Answer)) : Worker.History := h.filterMap workerEntry

theorem workerPart_snoc (h : List (Sigma Answer)) (e : Sigma Answer) :
    workerPart (h ++ [e]) = workerPart h ++ (workerEntry e).toList := by
  unfold workerPart
  rw [filterMap_append]
  cases he : workerEntry e <;> simp [he]

theorem workerEntry_some {e : Sigma Answer} {we : Sigma Worker.Answer}
    (h : workerEntry e = some we) : e = ⟨.worker we.1, we.2⟩ := by
  obtain ⟨q, a⟩ := e
  cases q <;> cases h
  rfl

theorem mem_workerPart {h : List (Sigma Answer)} {q : Worker.Request} {a : Worker.Answer q} :
    (⟨q, a⟩ : Sigma Worker.Answer) ∈ workerPart h ↔ (⟨.worker q, a⟩ : Sigma Answer) ∈ h := by
  unfold workerPart
  rw [mem_filterMap]
  constructor
  · rintro ⟨e, hm, he⟩
    exact workerEntry_some he ▸ hm
  · intro hm
    exact ⟨_, hm, rfl⟩

/-- The store operation a request is. -/
def Asks : Request → NodeLease.Op → Prop
  | .register record, op => op = .register record
  | .requeueFailed executionID planRevision nodeID, op =>
    op = .requeueFailed executionID planRevision nodeID
  | .worker (.coordinate r), op => ∃ tokenRand attemptRand, op = r.op tokenRand attemptRand
  | _, _ => False

variable {w w' : World} {q : Request} {θ : Job} {codec : Codec} {a : Answer q}

theorem answers_call (h : answers codec θ w q a w') : w'.nodes = w.nodes ∨
    ∃ c : NodeLease.Call, w'.nodes = w.nodes ++ [c] ∧ c.ctx = θ.ctx ∧ Asks q c.op := by
  have hcalled : ∀ {op : NodeLease.Op} {a : Except StoreError Unit} {nodes : List NodeLease.Call},
      NodeCalled θ.ctx w.nodes op a nodes → nodes = w.nodes ∨
        ∃ c : NodeLease.Call, nodes = w.nodes ++ [c] ∧ c.ctx = θ.ctx ∧ c.op = op := by
    rintro op a nodes ⟨now, ha⟩
    cases a with
    | ok u => exact .inr ⟨_, ha.2, rfl, rfl⟩
    | error e => exact ha.imp id (fun hc => ⟨_, hc, rfl, rfl⟩)
  cases q with
  | worker q =>
    obtain ⟨nodes, ha, rfl⟩ := h
    cases q with
    | coordinate r =>
      obtain ⟨now, tokenRand, attemptRand, ha⟩ := ha
      cases a with
      | ok x => exact .inr ⟨_, ha.2, rfl, tokenRand, attemptRand, rfl⟩
      | error e => exact ha.imp id (fun hc => ⟨_, hc, rfl, tokenRand, attemptRand, rfl⟩)
    | reserve | settle | release | invoke => exact .inl ha
  | register record =>
    obtain ⟨nodes, ha, rfl⟩ := h
    exact hcalled ha
  | requeueFailed =>
    obtain ⟨nodes, ha, rfl⟩ := h
    exact hcalled ha
  | commitRouteSelection command =>
    obtain ⟨tasks, _, rfl⟩ := h
    exact .inl rfl
  | createExecution item =>
    obtain ⟨lineage, _, rfl⟩ := h
    exact .inl rfl
  | getTask | resolveRouteSelection | getPlan | listPlansByTask | getGoal | getExecution |
    getNode | listAttempts =>
      obtain ⟨_, rfl⟩ := h
      exact .inl rfl
  | now | newID | evaluate | build | planRoute | getDeployment =>
    obtain rfl := h
    exact .inl rfl

theorem Asks.unheld {op : NodeLease.Op} (h : Asks q op) (hw : workerEntry ⟨q, a⟩ = none) :
    op.held = none := by
  cases q with
  | register record => rw [show op = _ from h]; rfl
  | requeueFailed => rw [show op = _ from h]; rfl
  | worker q => cases hw
  | _ => exact absurd h id

theorem answers_nodes (h : answers codec θ w q a w') :
    (∃ q' a', (⟨q, a⟩ : Sigma Answer) = ⟨.worker q', a'⟩ ∧
        Worker.answers θ.ctx w.nodes q' a' w'.nodes) ∨
      (workerEntry ⟨q, a⟩ = none ∧ (w'.nodes = w.nodes ∨
        ∃ c : NodeLease.Call, c.op.held = none ∧ w'.nodes = w.nodes ++ [c])) := by
  cases hw : workerEntry ⟨q, a⟩ with
  | some we =>
    cases q <;> cases hw
    obtain ⟨nodes, ha, rfl⟩ := h
    exact .inl ⟨_, a, rfl, ha⟩
  | none =>
    refine .inr ⟨rfl, ?_⟩
    rcases answers_call h with hsame | ⟨c, hc, _, hop⟩
    · exact .inl hsame
    · exact .inr ⟨c, hop.unheld hw, hc⟩

theorem environment_nodes (h : Environment codec w w') : w'.nodes = w.nodes := by
  cases h <;> rfl

section Reached

variable {codec : Codec} {encoding : Encoding} {s : ActivitySystem}

def contexts (s : ActivitySystem) (i : Nat) : Option Context := (s.job i).map Job.ctx

theorem context_of {i : Nat} (hj : s.job i = some θ) : contexts s i = some θ.ctx := by
  rw [contexts, hj]
  rfl

def workerHistories (s : ActivitySystem) : Worker.Histories := fun i => workerPart (s.history i)

theorem workerHistories_advance (s : ActivitySystem) (i : Nat) (θ : Job) (q : Request)
    (a : Answer q) (p : Prog Request Answer (Except ActivityError Unit)) (t : World) (j : Nat) :
    workerHistories (s.advance i θ q a p t) j =
      workerHistories s j ++ if i = j then (workerEntry ⟨q, a⟩).toList else [] := by
  unfold workerHistories
  rw [history_advance]
  by_cases hij : i = j
  · rw [if_pos hij, if_pos hij, workerPart_snoc]
  · rw [if_neg hij, if_neg hij, append_nil, append_nil]

/-- The node-lease store agrees with what the workers were answered. -/
theorem reachable_ledger (h : Reachable codec encoding s) :
    Ledger s.shared.nodes (contexts s) (workerHistories s) := by
  induction h with
  | start => exact ledger_start
  | @next s s' hr hs ih =>
    cases hs with
    | spawn θ =>
      refine ih.spawned ?_
      intro i hne
      have hlt := hr.lt_of_history fun hnil => hne (by rw [workerHistories, hnil]; rfl)
      unfold contexts
      rw [job_spawn_of_lt s θ _ hlt]
    | run i θ q k a t hi ha =>
      have hjob := job_of_thread hi
      have hctx : contexts (s.advance i θ q a (k a) t) = contexts s :=
        funext fun j => congrArg (Option.map Job.ctx) (job_advance s q a (k a) t hi j)
      rw [hctx]
      rcases answers_nodes ha with ⟨q', a', he, hw⟩ | ⟨hnone, hnodes⟩
      · have hext : workerHistories (s.advance i θ q a (k a) t) =
            extend (workerHistories s) i ⟨q', a'⟩ := by
          funext j
          rw [workerHistories_advance, he]
          rfl
        rw [hext]
        exact ih.answered (context_of hjob) hw
      · have hsame : workerHistories (s.advance i θ q a (k a) t) = workerHistories s := by
          funext j
          rw [workerHistories_advance, hnone]
          simp
        rw [hsame]
        change Ledger t.nodes (contexts s) (workerHistories s)
        rcases hnodes with hnodes | ⟨c, hc, hnodes⟩
        · rw [hnodes]
          exact ih
        · rw [hnodes]
          exact ih.outside hc
    | env t ht =>
      change Ledger t.nodes (contexts s) (workerHistories s)
      rw [environment_nodes ht]
      exact ih

end Reached

structure Choice where
  now : Time
  (tokenRand attemptRand : Option String)
  priced : Bool
  updateClock : Time
  newID : String
  policy : Except ServiceError PolicyDecisionRecord
  request : Except ServiceError RouteRequest
  decision : Except ServiceError RouteDecision
  deployment : Except ServiceError Deployment
  reservation : Except BudgetError BudgetReservation
  settled : Except BudgetError Unit
  invocation : InvocationResult × Option InvokeError

inductive Change
  | task (call : Tasks.Call)
  | goal (ctx : Context) (goal : Goal)
  | plan (ctx : Context) (plan : ExecutionPlan)

def fetch (db : σ) : Except ε α := (tx db).map Prod.fst

theorem reads_fetch (db : σ) : Reads tx db (fetch tx db) := by
  intro x hx
  unfold fetch at hx
  cases h : tx db with
  | error e => rw [h] at hx; cases hx
  | ok r =>
    rw [h] at hx
    cases hx
    exact ⟨r.2, rfl⟩

def callNode (ctx : Context) (now : Time) (calls : List NodeLease.Call) (op : NodeLease.Op) :
    Option (Except StoreError Unit × List NodeLease.Call) :=
  match (NodeLease.exec (NodeLease.after calls) ⟨ctx, now, op⟩).1 with
  | .ok .done => some (.ok (), calls ++ [⟨ctx, now, op⟩])
  | .ok _ => none
  | .error e => some (.error e, calls)

variable {ctx : Context}

theorem callNode_called {now : Time} {calls calls' : List NodeLease.Call} {op : NodeLease.Op}
    {a : Except StoreError Unit} (h : callNode ctx now calls op = some (a, calls')) :
    NodeCalled ctx calls op a calls' := by
  unfold callNode at h
  split at h
  · rename_i he
    cases h
    exact ⟨now, he, rfl⟩
  · cases h
  · cases h
    exact ⟨now, .inl rfl⟩

/-- The result a reply carries for a coordinator request. -/
def Coordinate.result : (r : Coordinate) → NodeLease.Reply → Option r.Result
  | .claim .., .lease lease => some lease
  | .startAttempt .., .attempt attempt => some attempt
  | .markEffectStarted _, .done => some ()
  | .markEffectCommitted _, .done => some ()
  | .releaseBeforeEffect _, .done => some ()
  | .complete .., .done => some ()
  | _, _ => none

theorem result_reply {r : Coordinate} {reply : NodeLease.Reply} {x : r.Result}
    (h : Coordinate.result r reply = some x) : reply = r.reply x := by
  cases r <;> cases reply <;> cases h <;> rfl

def coordinate (ctx : Context) (choice : Choice) (calls : List NodeLease.Call) (r : Coordinate) :
    Option (Except StoreError r.Result × List NodeLease.Call) :=
  let c := r.call ctx choice.now choice.tokenRand choice.attemptRand
  match (NodeLease.exec (NodeLease.after calls) c).1 with
  | .ok reply => (Coordinate.result r reply).map (fun x => (.ok x, calls ++ [c]))
  | .error e => some (.error e, calls)

variable {choice : Choice}

theorem coordinate_coordinated {calls calls' : List NodeLease.Call} {r : Coordinate}
    {a : Except StoreError r.Result} (h : coordinate ctx choice calls r = some (a, calls')) :
    Coordinated ctx calls r a calls' := by
  unfold coordinate at h
  dsimp only at h
  split at h
  · rename_i reply he
    obtain ⟨x, hx, hres⟩ := map_eq_some_iff.mp h
    cases hres
    exact ⟨_, _, _, by rw [he, result_reply hx], rfl⟩
  · cases h
    exact ⟨choice.now, choice.tokenRand, choice.attemptRand, .inl rfl⟩

section

variable (codec : Codec)

def commitSelectionCall (ctx : Context) (choice : Choice) (calls : List Tasks.Call)
    (command : RouteSelectionCommit) :
    Option (Except CommandError RouteSelectionResult × List Tasks.Call) :=
  let c : Tasks.Call :=
    ⟨ctx, choice.now, .commitRouteSelection choice.priced choice.updateClock command⟩
  match (Tasks.exec codec (Tasks.after codec calls) c).1 with
  | .ok (.selected r) => some (.ok r, calls ++ [c])
  | .ok _ => none
  | .error e => some (.error e, calls)

def createExecutionCall (ctx : Context) (db : Lineage.Db) (item : Execution) :
    Except LineageError Execution × Lineage.Db :=
  match createExecution ctx item db with
  | .ok (x, db') => (.ok x, db')
  | .error e => (.error e, db)

def reply (θ : Job) (choice : Choice) (w : World) : (q : Request) → Option (Answer q × World)
  | .getTask id => some (fetch (Tasks.getTask θ.ctx id) (Tasks.after codec w.tasks), w)
  | .resolveRouteSelection lookup =>
    some (fetch (Tasks.resolveRouteSelection codec θ.ctx lookup) (Tasks.after codec w.tasks), w)
  | .commitRouteSelection command => (commitSelectionCall codec θ.ctx choice w.tasks command).map
      (fun r => (r.1, { w with tasks := r.2 }))
  | .getPlan id revision => some (fetch (Lineage.getPlan θ.ctx id revision) w.lineage, w)
  | .listPlansByTask taskID => some (fetch (Lineage.listPlansByTask θ.ctx taskID) w.lineage, w)
  | .getGoal id => some (fetch (Lineage.getGoal θ.ctx id) w.lineage, w)
  | .getExecution id => some (fetch (Lineage.getExecution θ.ctx id) w.lineage, w)
  | .createExecution item =>
    let r := createExecutionCall θ.ctx w.lineage item
    some (r.1, { w with lineage := r.2 })
  | .getNode executionID planRevision nodeID =>
    some (fetch (NodeLease.get θ.ctx executionID planRevision nodeID) (NodeLease.after w.nodes), w)
  | .listAttempts executionID planRevision nodeID =>
    some (fetch (NodeLease.listAttempts θ.ctx executionID planRevision nodeID)
      (NodeLease.after w.nodes), w)
  | .register record => (callNode θ.ctx choice.now w.nodes (.register record)).map
      (fun r => (r.1, { w with nodes := r.2 }))
  | .requeueFailed executionID planRevision nodeID =>
    (callNode θ.ctx choice.now w.nodes (.requeueFailed executionID planRevision nodeID)).map
      (fun r => (r.1, { w with nodes := r.2 }))
  | .now => some (choice.now, w)
  | .newID => some (choice.newID, w)
  | .evaluate .. => some (choice.policy, w)
  | .build .. => some (choice.request, w)
  | .planRoute _ => some (choice.decision, w)
  | .getDeployment _ => some (choice.deployment, w)
  | .worker (.coordinate r) => (coordinate θ.ctx choice w.nodes r).map
      (fun r => (r.1, { w with nodes := r.2 }))
  | .worker (.reserve ..) => some (choice.reservation, w)
  | .worker (.settle ..) => some (choice.settled, w)
  | .worker (.release _) => some (choice.settled, w)
  | .worker (.invoke ..) => some (choice.invocation, w)

def change : Change → World → Option World
  | .task call, w => some { w with tasks := w.tasks ++ [call] }
  | .goal ctx goal, w => match createGoal ctx (Tasks.after codec w.tasks) goal w.lineage with
    | .ok (_, lineage) => some { w with lineage := lineage }
    | .error _ => none
  | .plan ctx plan, w => match createPlan ctx plan w.lineage with
    | .ok (_, lineage) => some { w with lineage := lineage }
    | .error _ => none

end

section

variable {codec : Codec}

theorem change_environment {event : Change} (h : change codec event w = some w') :
    Environment codec w w' := by
  cases event with
  | task call =>
    cases h
    exact .task w call
  | goal ctx goal =>
    simp only [change] at h
    split at h
    · rename_i goal' lineage hg
      cases h
      exact .goal w ctx goal goal' lineage hg
    · cases h
  | plan ctx plan =>
    simp only [change] at h
    split at h
    · rename_i plan' lineage hp
      cases h
      exact .plan w ctx plan plan' lineage hp
    · cases h

theorem commitSelectionCall_committed {calls calls' : List Tasks.Call}
    {command : RouteSelectionCommit} {a : Except CommandError RouteSelectionResult}
    (h : commitSelectionCall codec ctx choice calls command = some (a, calls')) :
    SelectionCommitted codec ctx calls command a calls' := by
  unfold commitSelectionCall at h
  dsimp only at h
  split at h
  · rename_i r he
    cases h
    exact ⟨_, _, _, he, rfl⟩
  · cases h
  · cases h
    exact ⟨choice.now, choice.priced, choice.updateClock, .inl rfl⟩

theorem createExecutionCall_created (ctx : Context) (db : Lineage.Db) (item : Execution) :
    ExecutionCreated ctx db item (createExecutionCall ctx db item).1
      (createExecutionCall ctx db item).2 := by
  unfold createExecutionCall
  split
  · assumption
  · exact .inl rfl

theorem reply_answers (h : reply codec θ choice w q = some (a, w')) : answers codec θ w q a w' := by
  cases q with
  | worker q =>
    cases q with
    | coordinate r =>
      obtain ⟨⟨b, nodes⟩, hr, hres⟩ := map_eq_some_iff.mp h
      cases hres
      exact ⟨nodes, coordinate_coordinated hr, rfl⟩
    | reserve | settle | release | invoke =>
      cases h
      exact ⟨_, rfl, rfl⟩
  | commitRouteSelection command =>
    obtain ⟨⟨b, tasks⟩, hr, hres⟩ := map_eq_some_iff.mp h
    cases hres
    exact ⟨tasks, commitSelectionCall_committed hr, rfl⟩
  | createExecution item =>
    cases h
    exact ⟨_, createExecutionCall_created _ _ _, rfl⟩
  | register | requeueFailed =>
    obtain ⟨⟨b, nodes⟩, hr, hres⟩ := map_eq_some_iff.mp h
    cases hres
    exact ⟨nodes, callNode_called hr, rfl⟩
  | getTask | resolveRouteSelection | getPlan | listPlansByTask | getGoal | getExecution |
    getNode | listAttempts =>
      obtain ⟨ha, hw⟩ := Prod.mk.inj (some.inj h)
      refine ⟨?_, hw.symm⟩
      rw [← ha]
      exact reads_fetch _ _
  | now | newID | evaluate | build | planRoute | getDeployment =>
    exact (Prod.mk.inj (some.inj h)).2.symm

end

def scheduled (codec : Codec) (encoding : Encoding) (moves : List (Move Job Choice Change)) :
    Option ActivitySystem :=
  schedule (body encoding) (reply codec) (change codec) World.empty moves

theorem scheduled_reachable {encoding : Encoding} {moves : List (Move Job Choice Change)}
    {s : ActivitySystem} (h : scheduled codec encoding moves = some s) :
    Reachable codec encoding s := by
  have hreply : ∀ θ choice w q a w', reply codec θ choice w q = some (a, w') →
      answers codec θ w q a w' := fun _ _ _ _ _ _ => reply_answers
  have hchange : ∀ event w w', change codec event w = some w' → Environment codec w w' :=
    fun _ _ _ => change_environment
  exact reach_schedule hreply hchange h

def sampleInput : StepInput := ⟨"t", "p", "task", "trace"⟩

def sampleGoal : Goal := ⟨"goal", "task", "objective"⟩

/-- A read-only model node with one attempt. -/
def sampleNode : ExecutionNode := ⟨"n", .model, [], ⟨1, []⟩, ⟨.readOnly, "", true⟩⟩

def samplePlan : ExecutionPlan := ⟨"plan", "goal", 1, 0, [sampleNode], 3⟩

def samplePolicy : PolicyDecisionRecord := ⟨"policy", "v", "", 1, "n", .allow⟩

/-- The selection the routing run freezes. -/
def frozenBinding : Binding :=
  ⟨⟨"plan", 1⟩, "n", sampleDecision, samplePolicy, ⟨"deployment/dep", 1, .model, ⟨"digest"⟩⟩⟩

section

def policyText : String :=
  object [("ID", quote "policy"), ("PolicyVersion", quote "v"), ("ExecutionRef", quote ""),
    ("PlanRevision", "1"), ("NodeRef", quote "n"), ("Decision", quote "ALLOW")]

def targetText : String :=
  object [("ID", quote "deployment/dep"), ("Revision", "1"), ("Type", quote "model"),
    ("Snapshot", object [("Digest", quote "digest")])]

def frozenText : String :=
  object [("plan", object [("PlanID", quote "plan"), ("Revision", "1")]), ("node", quote "n"),
    ("decision", decisionText), ("policy", policyText), ("target", targetText)]

def frozenCodec : Codec :=
  { sampleCodec with
    marshalSelection := fun b => if b = frozenBinding then some frozenText else none
    unmarshalSelection := fun text => if text = frozenText then some frozenBinding else none }

def sampleEncoding : Encoding where
  sha256Hex := id
  routeTargetDigest := fun _ _ => some "digest"
  marshalSelectionEvent := fun decision plan node policy target =>
    if policy = samplePolicy ∧ target = frozenBinding.target then
      some (object [("nodeId", quote node.id), ("planId", quote plan.id),
        ("planRevision", toString plan.revision), ("policyDecision", policyText),
        ("routeDecisionId", quote decision.id), ("target", targetText)])
    else none

end

def stepCall (now : Time) (source target : TaskStatus) (version : Int)
    (eventID eventType : String) : Tasks.Call :=
  ⟨some sampleCaller, now, .commitTransition ⟨sampleTask target version,
    ⟨source, target, "u", "c", now⟩, sampleEvent eventID eventType, [],
    sampleRecord "step" eventID "d"⟩⟩

/-- All services agree; ids are drawn from `random`. -/
def sampleChoice (random : String) (now : Time) : Choice where
  now := now
  tokenRand := some ("token " ++ random)
  attemptRand := some random
  priced := true
  updateClock := now
  newID := "selected"
  policy := .ok samplePolicy
  request := .ok ⟨"", ""⟩
  decision := .ok sampleDecision
  deployment := .ok ⟨"dep", "model", "1", ""⟩
  reservation := .ok ⟨"budget"⟩
  settled := .ok ()
  invocation := (⟨Usage.zero, [], .notApplicable⟩, none)

def sampleJob (step : Step) : Job := ⟨step, sampleInput, ⟨"w", 10, true⟩⟩

def steps (i n : Nat) (random : String) (now : Time) : List (Move Job Choice Change) :=
  (range n).map (fun j => .run i (sampleChoice random (now + j)))

/-- A task is planned and routed and starts executing. -/
def routedMoves : List (Move Job Choice Change) :=
  [.env (.task createCall), .env (.task planCall),
    .env (.task (stepCall 4 .planning .routing 2 "e3" "TaskRoutingStarted")),
    .env (.goal (some sampleCaller) sampleGoal), .env (.plan (some sampleCaller) samplePlan),
    .spawn (sampleJob .route)] ++ steps 0 11 "" 5 ++
  [.env (.task (stepCall 20 .routing .executing 4 "e5" "TaskExecutionStarted"))]

/-- The first execution run crashes after it invoked the target. Its lease expires,
and a second run takes the node over and invokes the target as well. -/
def takenOverMoves : List (Move Job Choice Change) :=
  routedMoves ++ [.spawn (sampleJob .execute)] ++ steps 1 14 "first" 21 ++
    [.spawn (sampleJob .execute)] ++ steps 2 11 "second" 61

end AiCloud.Activity
