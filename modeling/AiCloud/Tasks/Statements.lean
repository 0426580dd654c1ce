import AiCloud.Lib.Numbers
import AiCloud.Tasks.ModelExecution

/-!
# What a successful statement did

One lemma for each shared statement: which table it changed and how. Everything
about commands is derived from these.
-/
namespace AiCloud.Tasks

open Lib Identity Execution Tx Table List Option

variable {p : Principal} {id : String} {db : Db}

theorem scopedTask_some {t : Task} (h : db.scopedTask p id = some t) :
    t ∈ db.tasks.rows ∧ t.id = id ∧ InScope p t.tenantID t.projectID := by
  unfold Db.scopedTask at h
  have hp := find?_some h
  simp only [decide_eq_true_eq] at hp
  exact ⟨mem_of_find?_eq_some h, hp.1, hp.2⟩

variable {db' : Db}

theorem lockTask_ok {t : Task} (h : lockTask p id db = .ok (t, db')) :
    db' = db ∧ t ∈ db.tasks.rows ∧ t.id = id ∧ InScope p t.tenantID t.projectID := by
  simp only [lockTask, bind_ok, query_ok, failIf_ok, pure_ok] at h
  obtain ⟨current, _, ⟨hf, rfl⟩, _, _, ⟨_, rfl⟩, rfl, rfl⟩ := h
  exact ⟨rfl, scopedTask_some hf⟩

theorem insertTask_ok {task : Task} {u : Unit} (h : insertTask task db = .ok (u, db')) :
    (∀ t ∈ db.tasks.rows, t.id ≠ task.id) ∧
      ∃ t, t.rows = db.tasks.rows ++ [task] ∧ db' = { db with tasks := t } := by
  simp only [insertTask, statement_ok, map_eq_some_iff, Prod.mk.injEq, true_and] at h
  obtain ⟨t, ht, rfl⟩ := h
  obtain ⟨_, hclash, hrows⟩ := insert_some ht
  exact ⟨hclash, t, hrows, rfl⟩

/-- The rows a task update reaches. -/
def Targeted (p : Principal) (id : String) (version : Int) (extra : Task → Prop)
    (t : Task) : Prop :=
  (t.id = id ∧ InScope p t.tenantID t.projectID) ∧ t.version = version ∧ extra t

instance (p : Principal) (id : String) (version : Int) (extra : Task → Prop)
    [DecidablePred extra] : DecidablePred (Targeted p id version extra) :=
  fun _ => inferInstanceAs (Decidable (_ ∧ _))

theorem updateTask_ok {context : String} {version increment v : Int} {extra : Task → Prop}
    [DecidablePred extra] {f : Task → Task}
    (h : updateTask context p id version increment extra f db = .ok (v, db')) :
    v = version + increment ∧ (∃ t ∈ db.tasks.rows, Targeted p id version extra t) ∧
      ∃ t, t.rows = db.tasks.rows.map (touch (Targeted p id version extra)
        (fun t => { f t with version := t.version + increment })) ∧
        db' = { db with tasks := t } := by
  simp only [updateTask, bind_ok, statement_ok, map_eq_some_iff, Prod.mk.injEq,
    failIf_ok, pure_ok] at h
  obtain ⟨n, _, ⟨⟨n', t⟩, ht, hn, rfl⟩, _, _, ⟨hpos, rfl⟩, rfl, rfl⟩ := h
  obtain ⟨hcount, hrows⟩ := update_some ht
  refine ⟨rfl, ?_, t, hrows, rfl⟩
  have hn : 0 < db.tasks.rows.countP (fun t => decide (Targeted p id version extra t)) := by
    have heq : n = db.tasks.rows.countP (fun t => decide (Targeted p id version extra t)) :=
      hn.symm.trans hcount
    omega
  obtain ⟨t, hm, hp⟩ := countP_pos_iff.mp hn
  exact ⟨t, hm, of_decide_eq_true hp⟩

theorem nextSequence_bind_ok {α : Type} {f : Int → CommandTx α} {a : α} :
    (nextSequence p id >>= f) db = .ok (a, db') ↔
      f (db.maxSequence p id + 1) db = .ok (a, db') := read_bind_ok

variable {db db' : Db} {codec : Codec} {u : Unit}

theorem validate_ids {e : TaskEvent} (h : e.validate codec = .ok u) :
    e.taskID ≠ "" ∧ ¬ Text.Blank e.traceID := by
  unfold TaskEvent.validate at h
  split at h
  · cases h
  rename_i hb
  simp only [not_or] at hb
  exact ⟨Text.ne_empty hb.2.2.2.1, hb.2.2.2.2.2⟩

theorem appendEvent_ok {context : String} {e : TaskEvent}
    (h : appendEvent codec context e db = .ok (u, db')) :
    (e.taskID ≠ "" ∧ ¬ Text.Blank e.traceID) ∧
      ∃ payload t, t.rows = db.events.rows ++ [{ e with payload := payload }] ∧
        db' = { db with events := t } := by
  obtain ⟨_, hv, h⟩ := lift_bind_ok.mp h
  refine ⟨validate_ids hv, ?_⟩
  simp only [insertTaskEvent, statement_ok] at h
  split at h
  · cases h
  rename_i payload _
  simp only [map_eq_some_iff, Prod.mk.injEq, true_and] at h
  obtain ⟨t, ht, rfl⟩ := h
  exact ⟨payload, t, (insert_some ht).2.2, rfl⟩

/-- The appended events belong to the task, keep their types and take the next numbers. -/
theorem appendEvents_ok {now : Time} {current : Task} {traceID : String}
    {steps : List (TaskTransition × TaskEvent)} {sequence : Int}
    {es : List TaskEvent}
    (h : appendEvents codec now current traceID sequence steps db = .ok (es, db')) :
    ∃ rows t, t.rows = db.events.rows ++ rows ∧ db' = { db with events := t } ∧
      rows.map TaskEvent.sequence = numbersFrom (sequence - 1) steps.length ∧
      rows.map TaskEvent.eventType = steps.map (fun s => s.2.eventType) ∧
      (∀ e ∈ rows, e.taskID = current.id ∧ e.tenantID = current.tenantID ∧
        e.projectID = current.projectID) ∧ (steps ≠ [] → ¬ Text.Blank traceID) := by
  induction steps generalizing sequence db es with
  | nil =>
    simp only [appendEvents, pure_ok] at h
    obtain ⟨_, rfl⟩ := h
    exact ⟨[], db.events, (append_nil _).symm, rfl, rfl, rfl,
      forall_mem_nil _, absurd rfl⟩
  | cons step rest ih =>
    obtain ⟨transition, event⟩ := step
    simp only [appendEvents, bind_ok, pure_ok] at h
    obtain ⟨_, db₁, hone, appended, db₂, hrest, _, rfl⟩ := h
    obtain ⟨hids, payload, t, ht, rfl⟩ := appendEvent_ok hone
    obtain ⟨rows, t', ht', rfl, hseq, htypes, hown, _⟩ := ih hrest
    refine ⟨_ :: rows, t', by rw [ht', ht, append_assoc]; rfl, rfl, ?_, ?_, ?_, fun _ => hids.2⟩
    · rw [map_cons, hseq, length_cons, numbersFrom_cons]
      have hs : sequence - 1 + 1 = sequence := by omega
      have hs' : sequence + 1 - 1 = sequence := by omega
      rw [hs, hs']
      rfl
    · rw [map_cons, map_cons, htypes]
      rfl
    · intro e hm
      rcases mem_cons.mp hm with rfl | hm
      · exact ⟨rfl, rfl, rfl⟩
      · exact hown e hm

/-- The row a command's message becomes. -/
def Queued (codec : Codec) (task : Task) (now : Time) (m : OutboxMessage) (r : OutboxRow) : Prop :=
  (prepareTaskOutboxMessage m task now).validate codec = .ok () ∧
    ∃ payload, codec.jsonb m.payload = some payload ∧
      r = .unleased { prepareTaskOutboxMessage m task now with payload := payload }

theorem appendOutbox_ok {mismatch : String} {task : Task} {now : Time}
    {messages out : List OutboxMessage}
    (h : appendOutbox codec mismatch task now messages db = .ok (out, db')) :
    ∃ t, db' = { db with outbox := t } ∧ ∃ rows, t.rows = db.outbox.rows ++ rows ∧
      Forall₂ (Queued codec task now) messages rows := by
  induction messages generalizing db out with
  | nil =>
    simp only [appendOutbox, pure_ok] at h
    exact ⟨db.outbox, h.2.symm, [], (append_nil _).symm, .nil⟩
  | cons m rest ih =>
    simp only [appendOutbox, bind_ok, failIf_ok, lift_ok, pure_ok] at h
    obtain ⟨_, _, ⟨_, rfl⟩, _, _, ⟨_, rfl⟩, _, _, ⟨hvalid, rfl⟩, _, db₁, hone, _, db₂, hrest, _,
      rfl⟩ := h
    obtain ⟨t, rfl, rows, hrows, hqueued⟩ := ih hrest
    simp only [insertOutboxMessage, statement_ok] at hone
    split at hone
    · cases hone
    rename_i payload hpayload
    simp only [map_eq_some_iff, Prod.mk.injEq, true_and] at hone
    obtain ⟨t₁, hins, rfl⟩ := hone
    refine ⟨t, rfl, _ :: rows, ?_, .cons ⟨hvalid, payload, hpayload, rfl⟩ hqueued⟩
    rw [hrows]
    change t₁.rows ++ rows = _
    rw [(insert_some hins).2.2, append_assoc]
    rfl

theorem insertRouteDecisionTx_ok {priced : Bool} {decision : RouteDecision}
    (h : insertRouteDecisionTx codec priced decision db = .ok (u, db')) :
    ∃ t, db' = { db with decisions := t } := by
  simp only [insertRouteDecisionTx, bind_ok, lift_ok, statement_ok] at h
  obtain ⟨_, _, ⟨_, rfl⟩, _, _, ⟨_, rfl⟩, _, _, ⟨_, rfl⟩, h⟩ := h
  split at h
  · split at h
    · simp only [map_eq_some_iff, Prod.mk.injEq, true_and] at h
      obtain ⟨t, _, rfl⟩ := h
      exact ⟨t, rfl⟩
    · cases h
  · cases h

/-- A final result: no command ever changes it again. -/
def IdempotencyStatus.Final (s : IdempotencyStatus) : Prop := s = .completed ∨ s = .failedFinal

variable {k : IdempotencyKey}

theorem record_key {row : IdempotencyRow} (h : db.record k = some row) :
    row.key = k := (lookup_some h).2

theorem record_touch (db : Db) (k : IdempotencyKey) {p : IdempotencyRow → Prop} [DecidablePred p]
    {f : IdempotencyRow → IdempotencyRow}
    {t : Table IdempotencyRow IdempotencyRow.Check IdempotencyRow.Clash}
    (ht : t.rows = db.idempotency.rows.map (touch p f)) (hf : ∀ r, (f r).key = r.key) :
    ({ db with idempotency := t } : Db).record k = (db.record k).map (touch p f) := by
  change lookup IdempotencyRow.key k t.rows = _
  rw [ht]
  exact lookup_touch hf k _

theorem record_touch_ne {k' : IdempotencyKey} {p : IdempotencyRow → Prop} [DecidablePred p]
    {f : IdempotencyRow → IdempotencyRow} (hp : ∀ r, p r → r.key = k) (hk : k' ≠ k) :
    (db.record k').map (touch p f) = db.record k' := by
  cases hr : db.record k' with
  | none => rfl
  | some row =>
    have hn : ¬ p row := fun h => hk ((record_key hr).symm.trans (hp row h))
    simp [touch, hn]

/-- The command owns its key: the record was free and is now in progress. -/
structure Reserved (desired : IdempotencyRecord) (db db' : Db) : Prop where
  table : ∃ t, db' = { db with idempotency := t }
  free : ∀ row, db.record desired.rowKey = some row → row.status = .failedRetryable ∧
    row.requestDigest = desired.requestDigest
  held : ∃ row, db'.record desired.rowKey = some row ∧ row.status = .inProgress ∧
    row.requestDigest = desired.requestDigest
  others : ∀ k, k ≠ desired.rowKey → db'.record k = db.record k

variable {desired : IdempotencyRecord}

theorem Reserved.isSome (h : Reserved desired db db') :
    (db'.record k).isSome ↔ k = desired.rowKey ∨ (db.record k).isSome := by
  by_cases hk : k = desired.rowKey
  · obtain ⟨row, hrow, _⟩ := h.held
    simp [hk, hrow]
  · simp [hk, h.others k hk]

/-- The key already had a final result for the same request. -/
def Replays (desired : IdempotencyRecord) (db : Db) (existing : IdempotencyRecord) : Prop :=
  ∃ row, db.record desired.rowKey = some row ∧ existing = row.load ∧
    row.requestDigest = desired.requestDigest ∧ row.status.Final

theorem insertRecordOrNothing_ok {row : IdempotencyRow} {inserted : Bool}
    (h : insertRecordOrNothing row db = .ok (inserted, db')) :
    (inserted = false ∧ db' = db) ∨
      (inserted = true ∧ db.record row.key = none ∧ ∃ t, db' = { db with idempotency := t } ∧
        t.rows = db.idempotency.rows ++ [row]) := by
  simp only [insertRecordOrNothing, statement_ok] at h
  split at h
  · cases h
    exact .inl ⟨rfl, rfl⟩
  · simp only [map_eq_some_iff, Prod.mk.injEq] at h
    obtain ⟨t, ht, rfl, rfl⟩ := h
    obtain ⟨_, hclash, hrows⟩ := insert_some ht
    refine .inr ⟨rfl, ?_, t, rfl, hrows⟩
    exact lookup_none.mpr hclash

theorem reserved_of_insert (hnone : db.record desired.rowKey = none)
    {t : Table IdempotencyRow IdempotencyRow.Check IdempotencyRow.Clash}
    (ht : t.rows = db.idempotency.rows ++ [desired.reservedRow]) :
    Reserved desired db { db with idempotency := t } := by
  have hlookup : ∀ k, ({ db with idempotency := t } : Db).record k =
      (db.record k).or (if desired.rowKey = k then some desired.reservedRow else none) := by
    intro k
    change lookup IdempotencyRow.key k t.rows = _
    rw [ht]
    exact lookup_append IdempotencyRow.key k _ _
  refine ⟨⟨t, rfl⟩, ?_, ⟨desired.reservedRow, ?_, rfl, rfl⟩, ?_⟩
  · intro row hrow
    rw [hnone] at hrow
    cases hrow
  · rw [hlookup, hnone, if_pos rfl]
    rfl
  · intro k hk
    rw [hlookup, if_neg (fun h => hk h.symm), or_none]

theorem reserveIdempotency_ok {r : Option IdempotencyRecord}
    (h : reserveIdempotency desired db = .ok (r, db')) :
    (∃ existing, r = some existing ∧ db' = db ∧ Replays desired db existing) ∨
      (r = none ∧ Reserved desired db db') := by
  simp only [reserveIdempotency, bind_ok] at h
  obtain ⟨inserted, db₁, hins, h⟩ := h
  rcases insertRecordOrNothing_ok hins with ⟨rfl, rfl⟩ | ⟨rfl, hnone, t, rfl, ht⟩
  · simp only [Bool.false_eq_true, if_false, bind_ok, failIf_ok, loadIdempotencyForUpdate,
      query_ok, map_eq_some_iff] at h
    obtain ⟨existing, _, ⟨⟨row, hrow, rfl⟩, rfl⟩, _, _, ⟨hdig, rfl⟩, h⟩ := h
    have hdig : row.requestDigest = desired.requestDigest := not_not.mp hdig
    cases hst : row.load.status with
    | completed =>
      simp only [hst, pure_ok] at h
      obtain ⟨rfl, rfl⟩ := h
      exact .inl ⟨_, rfl, rfl, row, hrow, rfl, hdig, .inl hst⟩
    | failedFinal =>
      simp only [hst, pure_ok] at h
      obtain ⟨rfl, rfl⟩ := h
      exact .inl ⟨_, rfl, rfl, row, hrow, rfl, hdig, .inr hst⟩
    | failedRetryable =>
      simp only [hst, updateRecords, bind_ok, statement_ok, map_eq_some_iff,
        Prod.mk.injEq, pure_ok] at h
      obtain ⟨_, _, ⟨⟨n, t⟩, ht, _, rfl⟩, rfl, rfl⟩ := h
      obtain ⟨_, hrows⟩ := update_some ht
      have hrec := fun k => record_touch db₁ k hrows (fun _ => rfl)
      refine .inr ⟨rfl, ⟨t, rfl⟩, ?_, ?_, ?_⟩
      · intro row' hrow'
        rw [hrow] at hrow'
        cases hrow'
        exact ⟨hst, hdig⟩
      · refine ⟨_, by rw [hrec, hrow, map_some], ?_⟩
        simp [touch, record_key hrow, hdig]
      · intro k hk
        rw [hrec]
        exact record_touch_ne (fun _ hr => hr) hk
    | inProgress => simp [hst] at h
    | other text => simp [hst] at h
  · simp only [if_true, pure_ok] at h
    obtain ⟨rfl, rfl⟩ := h
    exact .inr ⟨rfl, reserved_of_insert hnone ht⟩

/-- The row a completed command leaves behind. -/
def IdempotencyRow.finish (row : IdempotencyRow) (record : IdempotencyRecord)
    (payload : Option String) : IdempotencyRow :=
  { row with
    status := record.status, resourceID := record.resourceID, responseCode := record.responseCode
    responseDigest := record.responseDigest, responsePayload := payload }

structure Completed (codec : Codec) (record : IdempotencyRecord) (db db' : Db) : Prop where
  table : ∃ t, db' = { db with idempotency := t }
  stored : ∃ row payload, db.record record.rowKey = some row ∧
    row.requestDigest = record.requestDigest ∧
    codec.payloadColumn record.responsePayload "complete idempotency record" = .ok payload ∧
    db'.record record.rowKey = some (row.finish record payload)
  others : ∀ k, k ≠ record.rowKey → db'.record k = db.record k

theorem Completed.isSome {record : IdempotencyRecord} (h : Completed codec record db db') :
    (db'.record k).isSome ↔ (db.record k).isSome := by
  by_cases hk : k = record.rowKey
  · obtain ⟨row, payload, hrow, _, _, hnew⟩ := h.stored
    simp [hk, hrow, hnew]
  · rw [h.others k hk]

theorem completeIdempotency_ok {record : IdempotencyRecord}
    (h : completeIdempotency codec record db = .ok (u, db')) : Completed codec record db db' := by
  simp only [completeIdempotency, updateRecords, bind_ok, lift_ok, statement_ok,
    map_eq_some_iff, Prod.mk.injEq, failIf_ok] at h
  obtain ⟨payload, _, ⟨hp, rfl⟩, n, _, ⟨⟨n', t⟩, ht, hn, rfl⟩, hone, rfl⟩ := h
  obtain ⟨hcount, hrows⟩ := update_some ht
  have hrec := fun k => record_touch db k hrows (fun _ => rfl)
  have hn : 0 < db.idempotency.rows.countP (fun r =>
      decide (r.key = record.rowKey ∧ r.requestDigest = record.requestDigest)) := by
    rw [← hcount]
    change n' = n at hn
    omega
  obtain ⟨row, hm, hpr⟩ := countP_pos_iff.mp hn
  obtain ⟨hk, hd⟩ := of_decide_eq_true hpr
  refine ⟨⟨t, rfl⟩, ?_, ?_⟩
  · cases hr : db.record record.rowKey with
    | none => exact absurd hk (lookup_none.mp hr row hm)
    | some row' =>
      obtain rfl : row = row' := eq_of_lookup (fun _ _ h => h) hr hm hk
      refine ⟨row, payload, rfl, hd, hp, ?_⟩
      rw [hrec, hr, map_some]
      simp [touch, hk, hd, IdempotencyRow.finish]
  · intro k hne
    rw [hrec]
    exact record_touch_ne (fun _ hr => hr.1) hne

end AiCloud.Tasks
