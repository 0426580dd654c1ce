import AiCloud.Lib.Json
import AiCloud.Tasks.Steps

/-!
# Task versions count task events

Six commands append events and bump versions in different code. They all make
one `LogStep`, and a step keeps the versions equal to the event counts and the
sequence numbers gapless.
-/
namespace AiCloud.Tasks

open Lib Identity Execution Table Json List

structure Numbered (db : Db) : Prop where
  owned : ∀ e ∈ db.events.rows, ∃ t ∈ db.tasks.rows, Owns t e
  sequences : ∀ t ∈ db.tasks.rows,
    (db.eventsOf t.id).map TaskEvent.sequence = numbersFrom 0 (db.eventsOf t.id).length
  versions : ∀ t ∈ db.tasks.rows, t.version = (db.eventsOf t.id).length

theorem numbered_empty : Numbered Db.empty :=
  ⟨forall_mem_nil _, forall_mem_nil _,
    forall_mem_nil _⟩

/-- Row-level security hides no event of a visible task. -/
theorem Numbered.maxSequence {db : Db} (h : Numbered db) {p : Principal} {t : Task}
    (ht : t ∈ db.tasks.rows) (hscope : InScope p t.tenantID t.projectID) :
    db.maxSequence p t.id = (db.eventsOf t.id).length := by
  have hvisible : db.events.rows.filter
      (fun e => e.taskID = t.id ∧ InScope p e.tenantID e.projectID) = db.eventsOf t.id := by
    unfold Db.eventsOf select
    apply filter_congr
    intro e he
    rw [decide_eq_decide]
    refine ⟨fun hv => hv.1, fun hid => ⟨hid, ?_⟩⟩
    obtain ⟨t', ht', hown⟩ := h.owned e he
    obtain rfl : t' = t := task_unique ht' ht (hown.1.symm.trans hid)
    rw [hown.2.1, hown.2.2]
    exact hscope
  unfold Db.maxSequence
  rw [hvisible, h.sequences t ht]
  exact foldl_max_numbersFrom _

variable {rows : List TaskEvent} {db db' : Db}

theorem eventsOf_append (h : db'.events.rows = db.events.rows ++ rows) (id : String) :
    db'.eventsOf id = db.eventsOf id ++ select TaskEvent.taskID id rows := by
  unfold Db.eventsOf select
  rw [h, filter_append]

theorem select_owned {t : Task} (h : ∀ e ∈ rows, Owns t e) :
    select TaskEvent.taskID t.id rows = rows := by
  unfold select
  rw [filter_eq_self]
  intro e he
  simpa using (h e he).1

theorem select_foreign {t : Task} (h : ∀ e ∈ rows, Owns t e) {id : String}
    (hid : id ≠ t.id) : select TaskEvent.taskID id rows = [] := by
  unfold select
  rw [filter_eq_nil_iff]
  intro e he
  have hown := (h e he).1
  simpa [hown] using fun hc => hid hc.symm

theorem Numbered.eventsOf_fresh {db : Db} (h : Numbered db) {id : String}
    (hfresh : ∀ t ∈ db.tasks.rows, t.id ≠ id) : db.eventsOf id = [] := by
  unfold Db.eventsOf select
  rw [filter_eq_nil_iff]
  intro e hm hid
  obtain ⟨t, htm, ho⟩ := h.owned e hm
  exact hfresh t htm (ho.1.symm.trans (of_decide_eq_true hid))

theorem Numbered.create (h : Numbered db) {task : Task} {event : TaskEvent}
    (hfresh : ∀ t ∈ db.tasks.rows, t.id ≠ task.id) (ht : db'.tasks.rows = db.tasks.rows ++ [task])
    (he : db'.events.rows = db.events.rows ++ [event]) (howns : Owns task event)
    (hv : task.version = 1) (hs : event.sequence = 1) : Numbered db' := by
  have hown : ∀ e ∈ [event], Owns task e := fun e hm => by rw [mem_singleton.mp hm]; exact howns
  have hold : ∀ t ∈ db.tasks.rows, db'.eventsOf t.id = db.eventsOf t.id := by
    intro t hm
    rw [eventsOf_append he, select_foreign hown (hfresh t hm), append_nil]
  have hnew : db'.eventsOf task.id = [event] := by
    rw [eventsOf_append he, h.eventsOf_fresh hfresh, select_owned hown, nil_append]
  refine ⟨?_, ?_, ?_⟩
  · intro e hm
    rw [he] at hm
    rw [ht]
    rcases mem_append.mp hm with hm | hm
    · obtain ⟨t, htm, ho⟩ := h.owned e hm
      exact ⟨t, mem_append_left _ htm, ho⟩
    · exact ⟨task, mem_concat_self, hown e hm⟩
  · intro t hm
    rw [ht] at hm
    rcases mem_append.mp hm with hm | hm
    · rw [hold t hm]
      exact h.sequences t hm
    · rw [mem_singleton.mp hm, hnew]
      simp [numbersFrom, hs]
  · intro t hm
    rw [ht] at hm
    rcases mem_append.mp hm with hm | hm
    · rw [hold t hm]
      exact h.versions t hm
    · rw [mem_singleton.mp hm, hnew]
      exact hv

theorem Numbered.append (h : Numbered db) {p : Principal} {current : Task}
    {f : Task → Task} {appended : List TaskEvent} (hmem : current ∈ db.tasks.rows)
    (hscope : InScope p current.tenantID current.projectID) (hkeeps : KeepsIdentity f)
    (ht : db'.tasks.rows = db.tasks.rows.map (touch (fun t => t.id = current.id)
      (fun t => { f t with version := t.version + appended.length })))
    (he : db'.events.rows = db.events.rows ++ appended) (howns : ∀ e ∈ appended, Owns current e)
    (hs : appended.map TaskEvent.sequence =
      numbersFrom (db.maxSequence p current.id) appended.length) : Numbered db' := by
  rw [h.maxSequence hmem hscope] at hs
  have htouch : ∀ t, ∃ t', t' = touch (fun t => t.id = current.id)
      (fun t => { f t with version := t.version + appended.length }) t ∧
      t'.id = t.id ∧ t'.tenantID = t.tenantID ∧ t'.projectID = t.projectID := by
    intro t
    obtain ⟨hid, htn, hpr, _⟩ := hkeeps t
    refine ⟨_, rfl, ?_⟩
    unfold touch
    split
    · exact ⟨hid, htn, hpr⟩
    · exact ⟨rfl, rfl, rfl⟩
  -- every new row is an old one, touched; only the current task gets new events
  have hrow : ∀ t' ∈ db'.tasks.rows, ∃ t ∈ db.tasks.rows, t'.id = t.id ∧
      ((t = current ∧ t'.version = t.version + appended.length) ∨
        (t.id ≠ current.id ∧ t'.version = t.version)) := by
    intro t' hm
    rw [ht] at hm
    obtain ⟨t, htm, rfl⟩ := mem_map.mp hm
    obtain ⟨t', heq, hid, _, _⟩ := htouch t
    rw [← heq]
    refine ⟨t, htm, hid, ?_⟩
    rw [heq]
    unfold touch
    by_cases hc : t.id = current.id
    · rw [if_pos hc]
      exact Or.inl ⟨task_unique htm hmem hc, rfl⟩
    · rw [if_neg hc]
      exact Or.inr ⟨hc, rfl⟩
  have hcur : db'.eventsOf current.id = db.eventsOf current.id ++ appended := by
    rw [eventsOf_append he, select_owned howns]
  have hother : ∀ id, id ≠ current.id → db'.eventsOf id = db.eventsOf id := by
    intro id hid
    rw [eventsOf_append he, select_foreign howns hid, append_nil]
  refine ⟨?_, ?_, ?_⟩
  · intro e hm
    have hold : ∃ t ∈ db.tasks.rows, Owns t e := by
      rw [he] at hm
      rcases mem_append.mp hm with hm | hm
      · exact h.owned e hm
      · exact ⟨current, hmem, howns e hm⟩
    obtain ⟨t, htm, ho⟩ := hold
    obtain ⟨t', heq, hid, htn, hpr⟩ := htouch t
    refine ⟨t', ?_, ho.1.trans hid.symm, ho.2.1.trans htn.symm, ho.2.2.trans hpr.symm⟩
    rw [ht, heq]
    exact mem_map_of_mem htm
  · intro t' hm
    obtain ⟨t, htm, hid, hcase⟩ := hrow t' hm
    rw [hid]
    rcases hcase with ⟨rfl, _⟩ | ⟨hne, _⟩
    · rw [hcur, map_append, length_append, hs, h.sequences t htm, numbersFrom_add]
      simp
    · rw [hother t.id hne]
      exact h.sequences t htm
  · intro t' hm
    obtain ⟨t, htm, hid, hcase⟩ := hrow t' hm
    rw [hid]
    rcases hcase with ⟨rfl, hv⟩ | ⟨hne, hv⟩
    · rw [hcur, length_append, hv, h.versions t htm]
      simp
    · rw [hother t.id hne, hv]
      exact h.versions t htm

theorem Numbered.step (h : Numbered db) (hs : LogStep db db') : Numbered db' := by
  cases hs with
  | same tasks events =>
    have hev : ∀ id, db'.eventsOf id = db.eventsOf id := fun id => by
      unfold Db.eventsOf
      rw [events]
    refine ⟨?_, ?_, ?_⟩
    · rw [events, tasks]
      exact h.owned
    · intro t hm
      rw [hev]
      exact h.sequences t (tasks ▸ hm)
    · intro t hm
      rw [hev]
      exact h.versions t (tasks ▸ hm)
  | create task event fresh tasks events owns version sequence =>
    exact h.create fresh tasks events owns version sequence
  | append p current f appended mem scope keeps tasks events owns sequences traced =>
    exact h.append mem scope keeps tasks events owns sequences

/-- Whatever a command did, it made one step on tasks and events. -/
theorem Effect.log {codec : Codec} (h : Effect codec db db') : LogStep db db' := by
  cases h with
  | replay same =>
    rw [same]
    exact .same rfl rfl
  | applied record result ha =>
    obtain ⟨db₁, hown, hw⟩ := ha
    obtain ⟨t, rfl⟩ := hown.table
    exact hw.log.congr rfl rfl rfl rfl
  | begun record db₁ reserved log records =>
    obtain ⟨t, rfl⟩ := reserved.table
    exact log.congr rfl rfl rfl rfl
  | finished result hf => exact hf.wrote.log

theorem exec_log (codec : Codec) (db : Db) (c : Call) : LogStep db (exec codec db c).2 := by
  rcases exec_db codec db c with hdb | ⟨_, hc⟩
  · rw [hdb]
    exact .same rfl rfl
  · exact (exec_effect hc).log

theorem numbered_after (codec : Codec) (calls : List Call) : Numbered (after codec calls) :=
  run_invariant (I := fun _ => Numbered) numbered_empty
    (fun _ c hp => hp.step (exec_log codec _ c)) calls

/-- In every reachable state the events of a task are numbered 1 to n without
gaps, in the order they were appended, and the task's version is n. -/
theorem task_events_numbered (codec : Codec) (calls : List Call) (t : Task)
    (ht : t ∈ (after codec calls).tasks.rows) :
    ((after codec calls).eventsOf t.id).map TaskEvent.sequence =
        numbersFrom 0 ((after codec calls).eventsOf t.id).length ∧
      t.version = ((after codec calls).eventsOf t.id).length :=
  ⟨(numbered_after codec calls).sequences t ht, (numbered_after codec calls).versions t ht⟩

def sampleCaller : Principal := ⟨.user, "u", "t", "p", [], [], "m", "", "", ""⟩

def sampleCandidate : RouteCandidate := ⟨"model", "1", "dep", "efficient", "", "", 0, 0, []⟩

def sampleDecision : RouteDecision := ⟨"dec", "task", sampleCandidate, [], "r", [], "", "", 5⟩

def candidateText : String :=
  object [("modelId", quote "model"), ("modelVersion", quote "1"), ("deploymentId", quote "dep"),
    ("routeClass", quote "efficient")]

def decisionText : String :=
  object [("id", quote "dec"), ("taskId", quote "task"), ("selected", candidateText),
    ("candidates", array []), ("reason", quote "r"),
    ("createdAt", quote "0001-01-01T00:00:00.000005Z")]

/-- JSON as far as the samples go; `jsonb` up to white space and the order of keys. -/
def sampleCodec : Codec where
  valid := fun _ => true
  jsonb := some
  marshalCandidate := fun c => if c = sampleCandidate then some candidateText else none
  marshalCandidates := fun cs => if cs = [] then some (array []) else none
  marshalDecision := fun d => if d = sampleDecision then some decisionText else none
  unmarshalDecision := fun text => if text = decisionText then some sampleDecision else none
  marshalSelection := fun _ => none
  unmarshalSelection := fun _ => none

def sampleTask (status : TaskStatus) (version : Int) : Task :=
  ⟨"task", "t", "p", "u", "", "input", status, version, "", 0, 0, 0, "USD", "", "trace", 1, 1, none⟩

def sampleEvent (eventID eventType : String) : TaskEvent :=
  ⟨eventID, "", "", "", 0, eventType, ⟨"user", "u"⟩, "1", "", "", 0, 0, 0⟩

def sampleRecord (operation key digest : String) : IdempotencyRecord :=
  ⟨"t", "p", operation, key, digest, .completed, "", 0, "", "", 1, 100⟩

def createCall : Call :=
  ⟨some sampleCaller, 2, .createTask ⟨sampleTask .created 1, sampleEvent "e1" "", [],
    sampleRecord "create" "k" "d"⟩⟩

/-- CREATED to PLANNING. -/
def planCall : Call :=
  ⟨some sampleCaller, 3, .commitTransition ⟨sampleTask .planning 1,
    ⟨.created, .planning, "u", "c", 3⟩, sampleEvent "e2" "TaskPlanningStarted", [],
    sampleRecord "step" "k" "d"⟩⟩

theorem task_events_numbered_planned :
    ((after sampleCodec [createCall, planCall]).eventsOf "task").map TaskEvent.sequence =
        numbersFrom 0 ((after sampleCodec [createCall, planCall]).eventsOf "task").length ∧
      (2 : Int) = ((after sampleCodec [createCall, planCall]).eventsOf "task").length :=
  task_events_numbered sampleCodec [createCall, planCall] (sampleTask .planning 2)
    (by decide)

/-- Later commands only append events, and keep every task with its scope and creator. -/
theorem log_append_only (codec : Codec) (calls later : List Call) :
    (after codec calls).events.rows <+: (after codec (calls ++ later)).events.rows ∧
      ∀ t ∈ (after codec calls).tasks.rows, Identified (after codec (calls ++ later)) t := by
  unfold after
  rw [run_append]
  generalize run (exec codec) Db.empty calls = db₀
  refine run_stable (I := fun db => db₀.events.rows <+: db.events.rows ∧
    ∀ t ∈ db₀.tasks.rows, Identified db t) ?_
    ⟨prefix_refl _, fun t ht => ⟨t, ht, rfl, rfl, rfl, rfl⟩⟩ later
  rintro db c ⟨hevents, htasks⟩
  have hlog := exec_log codec db c
  refine ⟨hevents.trans ?_, fun t ht => hlog.identified (htasks t ht)⟩
  cases hlog with
  | same _ events => simp [events]
  | create _ _ _ _ events | append _ _ _ _ _ _ _ _ events =>
    rw [events]
    exact prefix_append _ _

end AiCloud.Tasks
