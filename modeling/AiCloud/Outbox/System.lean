import AiCloud.Outbox.Store
import AiCloud.Lib.Schedule
import AiCloud.ControlPlane.Types
import AiCloud.Tasks.Log

/-!
# Dispatchers over one outbox

Any number of dispatcher runs, of equal or of different dispatchers, interleave over one
database while task commands post messages. A store call is one atomic step; a run that
crashed is never scheduled again; an answer may be lost after the step it belongs to.
The world also keeps which leases were taken and which workflows Temporal started. A
schedule fixes the clock, the locked rows and what Temporal and the other consumers
answer.
-/
namespace AiCloud.Outbox

open Lib Text Identity Execution Tasks Workflow Option ControlPlane

/-- One message taken by one lease; `reclaimed` from a lease that was over. -/
structure Taken where
  (outboxID owner : String)
  reclaimed : Bool

structure StartedWorkflow where
  (id workflowType : String)
  input : StartRequest

structure World where
  db : Db
  taken : List Taken
  workflows : List StartedWorkflow

namespace World

def empty : World := ⟨Db.empty, [], []⟩

def rows (w : World) : List OutboxRow := w.db.outbox.rows

def start (w : World) (sent : TemporalStartRequest) : World :=
  { w with workflows := w.workflows ++ [⟨sent.workflowID, sent.workflowType, sent.input⟩] }

def isDelivering (w : World) (outboxID : String) : Bool :=
  w.rows.any (fun r => r.message.outboxID = outboxID ∧ r.message.status = .delivering)

end World

structure Run where
  dispatcher : Dispatcher
  ctx : Context
  limit : Int

abbrev DispatchSystem := System World Run Request Answer (Except OutboxError Progress)

def body (unmarshalPayload : String → Option StartPayload) (θ : Run) :
    DispatchProg (Except OutboxError Progress) :=
  dispatchOnce unmarshalPayload θ.dispatcher.adapters θ.dispatcher θ.limit

variable (codec : Codec)

def takeLease (ctx : Context) (locked : List String) (owner : String) (limit : Int)
    (now leaseDuration : Time) (w : World) :
    Except OutboxError (List LeasedOutboxMessage) × World :=
  match lease codec ctx locked owner limit now leaseDuration w.db with
  | .error e => (.error e, w)
  | .ok (items, db) => (.ok items, { w with
      db := db
      taken := w.taken ++ items.map (fun item =>
        ⟨item.message.outboxID, item.leaseOwner, w.isDelivering item.message.outboxID⟩) })

def report {α : Type} (tx : OutboxTx α) (w : World) : Except OutboxError α × World :=
  match tx w.db with
  | .error e => (.error e, w)
  | .ok (a, db) => (.ok a, { w with db := db })

/-- The store's own answer, or a database failure before or after the step. -/
def Answered {α : Type} (outcome : Except OutboxError α × World) (w : World)
    (a : Except OutboxError α) (w' : World) : Prop :=
  (a = outcome.1 ∧ w' = outcome.2) ∨
    ((∃ text, a = .error (.database text)) ∧ (w' = w ∨ w' = outcome.2))

/-- Temporal starts at most one workflow per id and reports a duplicate start
as already started. A start may fail, and its answer may be lost. -/
inductive Starts (sent : TemporalStartRequest) (w : World) :
    Except String TemporalStartResult → World → Prop
  | started (runID : String) (fresh : ∀ x ∈ w.workflows, x.id ≠ sent.workflowID) :
      Starts sent w (.ok ⟨runID, false⟩) (w.start sent)
  | duplicate (runID : String) (known : ∃ x ∈ w.workflows, x.id = sent.workflowID) :
      Starts sent w (.ok ⟨runID, true⟩) w
  | failed (text : String) : Starts sent w (.error text) w
  | lost (text : String) (fresh : ∀ x ∈ w.workflows, x.id ≠ sent.workflowID) :
      Starts sent w (.error text) (w.start sent)

def answers (θ : Run) (w : World) : (q : Request) → Answer q → World → Prop
  | .now, a, w' => 0 < (show Time from a) ∧ w' = w
  | .lease owner limit now leaseDuration, a, w' =>
    ∃ locked, Answered (takeLease codec θ.ctx locked owner limit now leaseDuration w) w a w'
  | .start sent, a, w' => Starts sent w a w'
  | .deliver _, _, w' => w' = w
  | .markDelivered outboxID owner deliveredAt, a, w' =>
    Answered (report (markDelivered θ.ctx outboxID owner deliveredAt) w) w a w'
  | .failDelivery outboxID owner now nextAvailableAt maxAttempts reason, a, w' =>
    Answered (report (failDelivery θ.ctx outboxID owner now nextAvailableAt maxAttempts reason) w)
      w a w'

/-- Any task command by anyone. -/
inductive Commands (codec : Codec) : World → World → Prop
  | command (w : World) (call : Tasks.Call) :
      Commands codec w { w with db := (Tasks.exec codec w.db call).2 }

abbrev Reachable (unmarshalPayload : String → Option StartPayload) (s : DispatchSystem) : Prop :=
  System.Reach (body unmarshalPayload) (answers codec) (Commands codec) World.empty s

/-- The effect of a request on the outbox. -/
inductive Effect (w w' : World) : Request → Prop
  | same (q : Request) (db : w'.db = w.db) (taken : w'.taken = w.taken) : Effect w w' q
  | leased (owner : String) (limit : Int) (now leaseDuration : Time) (p : Principal)
      (picked : List OutboxRow) (mem : ∀ r ∈ picked, r ∈ w.rows ∧ Leasable p now r)
      (nodup : (picked.map (fun r => r.message.outboxID)).Nodup) (tasks : w'.db.tasks = w.db.tasks)
      (rows : w'.rows = w.rows.map (Table.touch
        (fun r => r.message.outboxID ∈ picked.map (fun r => r.message.outboxID))
        (leaseRow (trimSpace owner) (now + leaseDuration))))
      (taken : w'.taken = w.taken ++ picked.map (fun r =>
        ⟨r.message.outboxID, trimSpace owner, w.isDelivering r.message.outboxID⟩)) :
      Effect w w' (.lease owner limit now leaseDuration)
  | delivered (outboxID owner : String) (deliveredAt : Time) (p : Principal)
      (held : ∃ r ∈ w.rows, Held p outboxID owner r) (tasks : w'.db.tasks = w.db.tasks)
      (rows : w'.rows = w.rows.map (Table.touch (Held p outboxID owner) (deliverRow deliveredAt)))
      (taken : w'.taken = w.taken) : Effect w w' (.markDelivered outboxID owner deliveredAt)
  | failed (outboxID owner : String) (now nextAvailableAt : Time) (maxAttempts : Int)
      (reason : String) (p : Principal) (row : OutboxRow) (status : OutboxStatus)
      (availableAt : Time) (mem : row ∈ w.rows) (held : Held p outboxID owner row) (limit : status =
        (if maxAttempts ≤ row.message.attempts then OutboxStatus.deadLetter else .pending))
      (tasks : w'.db.tasks = w.db.tasks) (rows : w'.rows = w.rows.map
        (Table.touch (Held p outboxID owner) (releaseRow status availableAt reason)))
      (taken : w'.taken = w.taken) :
      Effect w w' (.failDelivery outboxID owner now nextAvailableAt maxAttempts reason)

variable {w w' : World} {q : Request} {α : Type}

theorem Answered.effect {outcome : Except OutboxError α × World}
    {a : Except OutboxError α} (h : Answered outcome w a w')
    (ho : Effect w outcome.2 q) : Effect w w' q := by
  rcases h with ⟨_, rfl⟩ | ⟨_, rfl | rfl⟩
  · exact ho
  · exact .same q rfl rfl
  · exact ho

theorem takeLease_effect (ctx : Context) (locked : List String) (owner : String)
    (limit : Int) (now leaseDuration : Time) (w : World) :
    Effect w (takeLease codec ctx locked owner limit now leaseDuration w).2
      (.lease owner limit now leaseDuration) := by
  unfold takeLease
  split
  · exact .same _ rfl rfl
  rename_i items db hl
  obtain ⟨p, picked, t, rfl, hmem, hnodup, rfl, ht⟩ := lease_ok hl
  refine .leased owner limit now leaseDuration p picked hmem hnodup rfl ht ?_
  simp only [List.map_map]
  rfl

theorem report_effect {tx : OutboxTx α} {w : World}
    (h : ∀ a db, tx w.db = .ok (a, db) → Effect w { w with db := db } q) :
    Effect w (report tx w).2 q := by
  unfold report
  split
  · exact .same q rfl rfl
  · rename_i a db ha
    exact h a db ha

variable {codec : Codec} {a : Answer q}

theorem answers_effect {θ : Run} (h : answers codec θ w q a w') : Effect w w' q := by
  cases q with
  | now =>
    obtain ⟨_, rfl⟩ := h
    exact .same _ rfl rfl
  | deliver m =>
    obtain rfl := h
    exact .same _ rfl rfl
  | start sent => cases h <;> exact .same _ rfl rfl
  | lease owner limit now leaseDuration =>
    obtain ⟨locked, h⟩ := h
    exact h.effect (takeLease_effect codec θ.ctx locked owner limit now leaseDuration w)
  | markDelivered outboxID owner deliveredAt =>
    refine Answered.effect h (report_effect ?_)
    intro u db hu
    obtain ⟨p, t, rfl, hheld, ht⟩ := markDelivered_ok hu
    exact .delivered outboxID owner deliveredAt p hheld rfl ht rfl
  | failDelivery outboxID owner now nextAvailableAt maxAttempts reason =>
    refine Answered.effect h (report_effect ?_)
    intro status db hs
    obtain ⟨p, row, availableAt, t, rfl, hmem, hheld, hstatus, ht⟩ := failDelivery_ok hs
    exact .failed outboxID owner now nextAvailableAt maxAttempts reason p row status availableAt
      hmem hheld hstatus rfl ht rfl

theorem answers_workflows {θ : Run} (h : answers codec θ w q a w') :
    w'.workflows = w.workflows ∨ ∃ sent, q = .start sent ∧
      (∀ x ∈ w.workflows, x.id ≠ sent.workflowID) ∧ w' = w.start sent := by
  have hanswered : ∀ {α : Type} {outcome : Except OutboxError α × World} {a : Except OutboxError α},
      outcome.2.workflows = w.workflows → Answered outcome w a w' → w'.workflows = w.workflows := by
    rintro α outcome a ho (⟨_, rfl⟩ | ⟨_, rfl | rfl⟩)
    · exact ho
    · rfl
    · exact ho
  have hreport : ∀ {α : Type} {tx : OutboxTx α}, (report tx w).2.workflows = w.workflows := by
    intro α tx
    unfold report
    split <;> rfl
  cases q with
  | now =>
    obtain ⟨_, rfl⟩ := h
    exact .inl rfl
  | deliver m =>
    obtain rfl := h
    exact .inl rfl
  | start sent =>
    cases h with
    | started runID fresh => exact .inr ⟨sent, rfl, fresh, rfl⟩
    | duplicate runID known => exact .inl rfl
    | failed text => exact .inl rfl
    | lost text fresh => exact .inr ⟨sent, rfl, fresh, rfl⟩
  | lease owner limit now leaseDuration =>
    obtain ⟨locked, h⟩ := h
    refine .inl (hanswered ?_ h)
    unfold takeLease
    split <;> rfl
  | markDelivered outboxID owner deliveredAt => exact .inl (hanswered hreport h)
  | failDelivery outboxID owner now nextAvailableAt maxAttempts reason =>
    exact .inl (hanswered hreport h)

structure Choice where
  now : Time
  locked : List String
  started : Except String String
  delivered : Except String Unit

section

variable (codec : Codec)

def reply (θ : Run) (choice : Choice) (w : World) : (q : Request) → Option (Answer q × World)
  | .now => if 0 < choice.now then some (choice.now, w) else none
  | .lease owner limit now leaseDuration =>
    some (takeLease codec θ.ctx choice.locked owner limit now leaseDuration w)
  | .start sent =>
    match choice.started with
    | .error text => some (Except.error text, w)
    | .ok runID =>
      if ∃ x ∈ w.workflows, x.id = sent.workflowID then some (Except.ok ⟨runID, true⟩, w)
      else some (Except.ok ⟨runID, false⟩, w.start sent)
  | .deliver _ => some (choice.delivered, w)
  | .markDelivered outboxID owner deliveredAt =>
    some (report (markDelivered θ.ctx outboxID owner deliveredAt) w)
  | .failDelivery outboxID owner now nextAvailableAt maxAttempts reason =>
    some (report (failDelivery θ.ctx outboxID owner now nextAvailableAt maxAttempts reason) w)

def change (call : Tasks.Call) (w : World) : Option World :=
  some { w with db := (Tasks.exec codec w.db call).2 }

end

theorem answered_of_eq {outcome : Except OutboxError α × World}
    {a : Except OutboxError α} (h : outcome = (a, w')) : Answered outcome w a w' :=
  .inl ⟨(congrArg Prod.fst h).symm, (congrArg Prod.snd h).symm⟩

theorem reply_answers (θ : Run) (choice : Choice) (w : World) (q : Request) (a : Answer q)
    (w' : World) (h : reply codec θ choice w q = some (a, w')) : answers codec θ w q a w' := by
  cases q with
  | now =>
    simp only [reply] at h
    split at h
    · rename_i hpos
      cases h
      exact ⟨hpos, rfl⟩
    · cases h
  | lease owner limit now leaseDuration =>
    exact ⟨choice.locked, answered_of_eq (some.inj h)⟩
  | start sent =>
    simp only [reply] at h
    split at h
    · obtain ⟨rfl, rfl⟩ := Prod.mk.inj (some.inj h)
      exact .failed _
    · split at h
      · rename_i hknown
        obtain ⟨rfl, rfl⟩ := Prod.mk.inj (some.inj h)
        exact .duplicate _ hknown
      · rename_i hfresh
        obtain ⟨rfl, rfl⟩ := Prod.mk.inj (some.inj h)
        exact .started _ (fun x hx hid => hfresh ⟨x, hx, hid⟩)
  | deliver m => exact (Prod.mk.inj (some.inj h)).2.symm
  | markDelivered | failDelivery => exact answered_of_eq (some.inj h)

def scheduled (codec : Codec) (unmarshalPayload : String → Option StartPayload)
    (moves : List (Move Run Choice Tasks.Call)) : Option DispatchSystem :=
  System.schedule (body unmarshalPayload) (reply codec) (change codec) World.empty moves

theorem change_commands (call : Tasks.Call) (w w' : World) (h : change codec call w = some w') :
    Commands codec w w' := by
  cases h
  exact .command w call

def sampleCreation : CreationInput := ⟨"input", "agent", ⟨"k", "d", "r"⟩, 2, 7, "e", "o"⟩

/-- JSON of texts with nothing to escape. -/
def createdText (agentID status taskID traceID : String) : String :=
  Json.object [("agentId", Json.quote agentID), ("status", Json.quote status),
    ("taskId", Json.quote taskID), ("traceId", Json.quote traceID)]

def samplePayload (text : String) : Option StartPayload :=
  if text = createdText "agent" "CREATED" "task-7" "trace-7" then
    some ⟨"task-7", "trace-7"⟩ else none

def sampleCreated (task : Task) : Option String :=
  some (createdText task.agentID task.status.text task.id task.traceID)

def sampleCommit : Except ControlError TaskCreateCommit :=
  createTaskCommit sampleCreated (some sampleCaller) sampleCreation

/-- The creation of a task, with the message that starts its workflow. -/
def creationMoves : List (Move Run Choice Tasks.Call) :=
  match sampleCommit with
  | .error _ => []
  | .ok commit => [.env ⟨some sampleCaller, 3, .createTask commit⟩]

/-- One attempt, leases of ten microseconds. -/
def sampleDispatcher : Dispatcher where
  owner := "w"
  leaseDuration := 10
  maxAttempts := 1
  baseBackoff := 1
  adapters := fun destination =>
    if destination = destinationWorkflowStart then some (.workflowStart sampleEngine) else none
  trimmed := by decide
  named := by decide
  positive := by decide
  starts := by decide

def sampleRun : Run := ⟨sampleDispatcher, some sampleCaller, 5⟩

def sampleChoice (now : Time) : Choice := ⟨now, [], .ok "run", .ok ()⟩

/-- A run leases the message and starts the workflow, but is slow to report. Its
lease is over when a second run of the same owner leases the message again. -/
def slowMoves : List (Move Run Choice Tasks.Call) :=
  creationMoves ++ [.spawn sampleRun, .run 0 (sampleChoice 5), .run 0 (sampleChoice 5),
    .run 0 (sampleChoice 6), .run 0 (sampleChoice 21), .spawn sampleRun, .run 1 (sampleChoice 20),
    .run 1 (sampleChoice 20)]

def statuses (w : World) : List OutboxStatus := w.rows.map (fun r => r.message.status)

/-- The runs that leased a message, in order. -/
def lessees (s : DispatchSystem) (outboxID : String) : List Nat :=
  s.log.filterMap (fun x => match x with
    | (i, ⟨.lease .., .ok items⟩) =>
      if outboxID ∈ items.map (fun item => item.message.outboxID) then some i else none
    | _ => none)

end AiCloud.Outbox
