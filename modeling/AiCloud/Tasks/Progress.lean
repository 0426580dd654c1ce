import AiCloud.Tasks.Inversion

/-!
# When a command goes through

A command whose arguments fit the stored rows is stopped by the database alone:
a violated constraint or a value it refuses. This is the converse of inverting a
success, check by check.
-/
namespace AiCloud.Tasks

open Lib Identity Execution Tx List

def CommandError.IsDatabase (e : CommandError) : Prop := ∃ text, e = .database text

abbrev DatabaseOnly {α : Type} (x : CommandTx α) (db : Db) : Prop :=
  StopsOnly CommandError.IsDatabase x db

/-- The store's own answer, or an error of the database that changed nothing. -/
def Stored {α : Type} (tx : CommandTx α) (db : Db) (a : Except CommandError α) (db' : Db) : Prop :=
  commit tx db = (a, db') ∨ ((∃ text, a = .error (.database text)) ∧ db' = db)

variable {α : Type} {tx : CommandTx α}

theorem Stored.ok {db db' : Db} {x : α} (h : Stored tx db (.ok x) db') : tx db = .ok (x, db') := by
  rcases h with h | ⟨⟨text, ht⟩, _⟩
  · exact commit_ok.mp h
  · cases ht

variable {e : CommandError}

theorem Stored.failed {db db' : Db} (h : Stored tx db (.error e) db') : db' = db := by
  rcases h with h | ⟨_, rfl⟩
  · exact (commit_error.mp h).2.symm
  · rfl

theorem Stored.same {db db' : Db} {a : Except CommandError α} (h : Stored tx db a db')
    (hread : ∀ x db', tx db = .ok (x, db') → db' = db) : db' = db := by
  cases a with
  | error e => exact h.failed
  | ok x => exact hread x db' h.ok

variable {codec : Codec} {db : Db} {p : Principal}

/-- A command that only the database could stop, and that was stopped. -/
theorem Stored.stopped {db' : Db} (h : Stored tx db (.error e) db')
    (hstops : DatabaseOnly tx db) : e.IsDatabase := by
  rcases h with hcommit | ⟨⟨text, htext⟩, _⟩
  · exact hstops e (commit_error.mp hcommit).1
  · exact ⟨text, Except.error.inj htext⟩

variable {current : Task}

theorem lockTask_of_found {id : String} (hp : p.InProject) (h : db.scopedTask p id = some current) :
    lockTask p id db = .ok (current, db) := by
  obtain ⟨_, _, htenant, hproject⟩ := scopedTask_some h
  have howns : p.ownsProject current.tenantID current.projectID := by
    rw [htenant, hproject]
    exact hp.owns
  exact query_bind_ok.mpr ⟨current, h, failIf_bind_ok.mpr ⟨not_not.mpr howns, rfl⟩⟩

theorem updateTask_stops {context id : String} {version increment : Int} {extra : Task → Prop}
    [DecidablePred extra] {f : Task → Task} {t : Task} (hm : t ∈ db.tasks.rows)
    (ht : Targeted p id version extra t) :
    DatabaseOnly (updateTask context p id version increment extra f) db := by
  unfold updateTask
  refine stopsOnly_bind (stopsOnly_statement ⟨context, rfl⟩) ?_
  intro affected db₁ hup
  simp only [statement_ok, Option.map_eq_some_iff, Prod.mk.injEq] at hup
  obtain ⟨⟨n, rows⟩, hrows, hn, rfl⟩ := hup
  obtain ⟨hcount, _⟩ := Table.update_some hrows
  have hpos : 0 < db.tasks.rows.countP (fun t => decide (Targeted p id version extra t)) :=
    countP_pos_iff.mpr ⟨t, hm, decide_eq_true ht⟩
  have haffected : affected =
      db.tasks.rows.countP (fun t => decide (Targeted p id version extra t)) :=
    hn.symm.trans hcount
  exact stopsOnly_failIf (by omega) (stopsOnly_pure _)

/-- An event that is valid once it is stamped for a task. -/
structure Stampable (codec : Codec) (e : TaskEvent) : Prop where
  eventID : ¬ Text.Blank e.eventID
  eventType : ¬ Text.Blank e.eventType
  schemaVersion : 1 ≤ e.schemaVersion
  times : e.occurredAt ≠ 0 ∧ e.createdAt ≠ 0
  actor : ¬ Text.Blank e.actor.principalType ∧ ¬ Text.Blank e.actor.subjectID
  payload : e.payload ≠ "" ∧ codec.valid e.payload = true

/-- The texts a task gives to its events. -/
structure Named (t : Task) : Prop where
  id : ¬ Text.Blank t.id
  tenantID : ¬ Text.Blank t.tenantID
  projectID : ¬ Text.Blank t.projectID

theorem Stampable.validate {e : TaskEvent} (h : Stampable codec e) (hnamed : Named current)
    {sequence : Int} (hseq : 1 ≤ sequence) {traceID : String} (htrace : ¬ Text.Blank traceID)
    {occurredAt now : Time} :
    (e.stamp current sequence traceID occurredAt now).validate codec = .ok () := by
  have hschema : e.schemaVersion ≠ 0 := by
    have := h.schemaVersion
    omega
  have hlow : ¬ sequence < 1 := by omega
  have hlow' : ¬ e.schemaVersion < 1 := by
    have := h.schemaVersion
    omega
  simp [TaskEvent.validate, TaskEvent.stamp, h.eventID, h.eventType, h.times.1, h.times.2,
    h.actor.1, h.actor.2, h.payload.1, h.payload.2, hschema, hlow, hlow', hnamed.id,
    hnamed.tenantID, hnamed.projectID, htrace]

theorem appendEvent_stops {context : String} {e : TaskEvent} (h : e.validate codec = .ok ()) :
    DatabaseOnly (appendEvent codec context e) db :=
  stopsOnly_lift h (stopsOnly_statement ⟨context, rfl⟩)

theorem appendEvents_stops {now : Time} {traceID : String} (hnamed : Named current)
    (htrace : ¬ Text.Blank traceID) {steps : List (TaskTransition × TaskEvent)}
    (hsteps : ∀ s ∈ steps, Stampable codec s.2) : ∀ {sequence : Int} {db : Db}, 1 ≤ sequence →
    DatabaseOnly (appendEvents codec now current traceID sequence steps) db := by
  induction steps with
  | nil =>
    intro sequence db _
    exact stopsOnly_pure _
  | cons step rest ih =>
    intro sequence db hseq
    obtain ⟨transition, event⟩ := step
    have hvalid : (event.stamp current sequence traceID transition.at_ now).validate codec =
        .ok () := (hsteps _ (mem_cons_self ..)).validate hnamed hseq htrace
    refine stopsOnly_bind (appendEvent_stops hvalid) (fun _ db₁ _ => ?_)
    exact stopsOnly_bind (ih (fun s hs => hsteps s (mem_cons_of_mem _ hs)) (by omega))
      (fun _ _ _ => stopsOnly_pure _)

theorem one_le_nextSequence (db : Db) (p : Principal) (taskID : String) :
    1 ≤ db.maxSequence p taskID + 1 := by
  have hmax : 0 ≤ db.maxSequence p taskID := le_foldl_max _ 0
  omega

theorem payloadColumn_error {payload context : String}
    (h : codec.payloadColumn payload context = .error e) : e.IsDatabase := by
  unfold Codec.payloadColumn at h
  split at h
  · cases h
  split at h
  · cases h
    exact ⟨context, rfl⟩
  · cases h

variable {record : IdempotencyRecord} {current : Task} {now : Time} {row : IdempotencyRow}

theorem completeIdempotency_stops (hrow : db.record record.rowKey = some row)
    (hdig : row.requestDigest = record.requestDigest) :
    DatabaseOnly (completeIdempotency codec record) db := by
  unfold completeIdempotency updateRecords
  refine stopsOnly_bind (stopsOnly_lift_any (fun _ => payloadColumn_error)) ?_
  rintro payload db₁ hpayload
  obtain ⟨_, rfl⟩ := lift_ok.mp hpayload
  refine stopsOnly_bind (stopsOnly_statement ⟨_, rfl⟩) ?_
  intro affected db₁ hup
  simp only [statement_ok, Option.map_eq_some_iff, Prod.mk.injEq] at hup
  obtain ⟨⟨n, rows⟩, hrows, hn, rfl⟩ := hup
  obtain ⟨hcount, _⟩ := Table.update_some hrows
  obtain ⟨hm, hkey⟩ := Table.lookup_some hrow
  have hle := Table.countP_le_one db.idempotency
    (p := fun r => r.key = record.rowKey ∧ r.requestDigest = record.requestDigest)
    (fun a _ b _ ha hb => ha.1.trans hb.1.symm)
  have hpos : 0 < db.idempotency.rows.countP (fun r =>
      decide (r.key = record.rowKey ∧ r.requestDigest = record.requestDigest)) :=
    countP_pos_iff.mpr ⟨row, hm, decide_eq_true ⟨hkey, hdig⟩⟩
  have hone : affected = db.idempotency.rows.countP (fun r =>
      decide (r.key = record.rowKey ∧ r.requestDigest = record.requestDigest)) :=
    hn.symm.trans hcount
  have haffected : ¬ affected ≠ 1 := by omega
  intro e he
  rw [failIf, if_neg haffected] at he
  cases he

theorem load_of_record {k : IdempotencyKey} (h : db.record k = some row) :
    loadIdempotencyForUpdate k db = .ok (row.load, db) :=
  query_ok.mpr ⟨congrArg (Option.map IdempotencyRow.load) h, rfl⟩

/-- The key is free, or was released for a retry of the same request. -/
def Reservable (record : IdempotencyRecord) (db : Db) : Prop :=
  ∀ row, db.record record.rowKey = some row →
    row.status = .failedRetryable ∧ row.requestDigest = record.requestDigest

theorem reserveIdempotency_stops (hfree : Reservable record db) :
    DatabaseOnly (reserveIdempotency record) db := by
  unfold reserveIdempotency
  refine stopsOnly_bind (stopsOnly_statement ⟨_, rfl⟩) ?_
  intro inserted db₁ hins
  cases inserted with
  | true => exact stopsOnly_pure _
  | false =>
    obtain ⟨rfl, row, hrow⟩ : db₁ = db ∧ ∃ row, db.record record.rowKey = some row := by
      unfold insertRecordOrNothing at hins
      rw [statement_ok] at hins
      split at hins
      · rename_i hcheck
        cases hins
        exact ⟨rfl, Option.isSome_iff_exists.mp hcheck.2⟩
      · obtain ⟨_, _, hpair⟩ := Option.map_eq_some_iff.mp hins
        cases (Prod.mk.inj hpair).1
    obtain ⟨hst, hdig⟩ := hfree row hrow
    have hst : row.load.status = .failedRetryable := hst
    refine stopsOnly_step (load_of_record hrow) (stopsOnly_failIf (not_not.mpr hdig) ?_)
    rw [hst]
    exact stopsOnly_bind (stopsOnly_statement ⟨_, rfl⟩) (fun _ _ _ => stopsOnly_pure _)

theorem once_stops {replay : IdempotencyRecord → CommandTx α} {body : CommandTx α}
    (hfree : Reservable record db) (hbody : ∀ db₁, Reserved record db db₁ → DatabaseOnly body db₁) :
    DatabaseOnly (once record replay body) db := by
  refine stopsOnly_bind (reserveIdempotency_stops hfree) ?_
  intro r db₁ hres
  rcases reserveIdempotency_ok hres with ⟨_, _, _, row, hrow, _, _, hfinal⟩ | ⟨rfl, hown⟩
  · rw [(hfree row hrow).1] at hfinal
    rcases hfinal with h | h <;> cases h
  · exact hbody db₁ hown

/-- The stored task a command read, still at its version. -/
structure Fits (p : Principal) (task current : Task) (db : Db) : Prop where
  found : db.scopedTask p task.id = some current
  named : Named current
  owned : ¬ current.Disowns task
  version : task.version = current.version
  traced : ¬ Text.Blank task.traceID

theorem Fits.reserved {task : Task} {db₁ : Db} (h : Fits p task current db)
    (hres : Reserved record db db₁) : Fits p task current db₁ := by
  obtain ⟨rows, rfl⟩ := hres.table
  exact ⟨h.found, h.named, h.owned, h.version, h.traced⟩

theorem Fits.targeted {task : Task} (h : Fits p task current db) :
    current ∈ db.tasks.rows ∧ Targeted p task.id task.version (fun _ => True) current := by
  obtain ⟨hm, hid, hscope⟩ := scopedTask_some h.found
  exact ⟨hm, ⟨hid, hscope⟩, h.version.symm, trivial⟩

theorem transitionBody_stops {command : TaskCommandCommit} (hp : p.InProject)
    (hfits : Fits p command.task current db) (hsource : command.transition.source = current.status)
    (htarget : command.transition.target = command.task.status)
    (hcomplete : ¬ command.transition.Incomplete)
    (htype : canonicalTaskStateEvent command.task.status = some command.event.eventType)
    (hevent : Stampable codec command.event) (hout : command.outbox = [])
    (hrow : db.record command.idempotency.rowKey = some row)
    (hdig : row.requestDigest = command.idempotency.requestDigest) :
    DatabaseOnly (transitionBody codec now p command) db := by
  obtain ⟨hm, hreach⟩ := hfits.targeted
  unfold transitionBody
  refine stopsOnly_step (lockTask_of_found hp hfits.found) ?_
  refine stopsOnly_failIf hfits.owned ?_
  refine stopsOnly_failIf (not_not.mpr hfits.version) ?_
  refine stopsOnly_failIf (not_or.mpr ⟨not_not.mpr hsource, not_not.mpr htarget⟩) ?_
  refine stopsOnly_failIf hcomplete ?_
  refine stopsOnly_failIf (not_not.mpr htype) ?_
  refine stopsOnly_step (read_ok.mpr ⟨rfl, rfl⟩) ?_
  refine stopsOnly_bind (updateTask_stops hm hreach) ?_
  intro version db₁ hup
  obtain ⟨_, _, tasks, _, rfl⟩ := updateTask_ok hup
  refine stopsOnly_bind (appendEvent_stops (hevent.validate hfits.named
    (one_le_nextSequence db p current.id) hfits.traced)) ?_
  intro _ db₂ hev
  obtain ⟨_, _, _, _, rfl⟩ := appendEvent_ok hev
  rw [hout]
  refine stopsOnly_step rfl ?_
  refine stopsOnly_bind ?_ (fun _ _ _ => stopsOnly_pure _)
  -- neither write touched the record
  split <;> exact completeIdempotency_stops hrow hdig

structure Codec.Encodes (codec : Codec) (decision : RouteDecision) : Prop where
  selected : ∃ text, codec.marshalCandidate decision.selected = some text
  candidates : ∃ text, codec.marshalCandidates decision.candidates = some text
  fallback : ∃ text, codec.marshalCandidates decision.fallbackChain = some text
  decision : ∃ text, codec.marshalDecision decision = some text

theorem encode_of_some {marshal : α → Option String} {value : α}
    {context text : String} (h : marshal value = some text) :
    encode marshal value context = .ok text := by
  unfold encode
  rw [h]

theorem insertRouteDecisionTx_stops {priced : Bool} {decision : RouteDecision}
    (h : codec.Encodes decision) : DatabaseOnly
    (insertRouteDecisionTx codec priced decision) db := by
  obtain ⟨⟨_, hsel⟩, ⟨_, hcand⟩, ⟨_, hfall⟩, _⟩ := h
  unfold insertRouteDecisionTx
  refine stopsOnly_lift (encode_of_some hsel) ?_
  refine stopsOnly_lift (encode_of_some hcand) ?_
  refine stopsOnly_lift (encode_of_some hfall) ?_
  exact stopsOnly_statement ⟨_, rfl⟩

theorem routeBody_stops {priced : Bool} {command : RouteTaskCommandCommit} (hp : p.InProject)
    (hfits : Fits p command.task current db) (hplanning : current.status = .planning)
    (hsource : command.transition.source = .planning)
    (htarget : command.transition.target = .routing) (hstatus : command.task.status = .routing)
    (hcomplete : ¬ command.transition.Incomplete) (hid : ¬ Text.Blank command.decision.id)
    (htask : command.decision.taskID = current.id)
    (hencodes : codec.Encodes (command.stored current.id))
    (htype : command.event.eventType = "TaskRoutingStarted")
    (hevent : Stampable codec command.event) (hout : command.outbox = [])
    (hrow : db.record command.idempotency.rowKey = some row)
    (hdig : row.requestDigest = command.idempotency.requestDigest) :
    DatabaseOnly (routeBody codec priced now p command) db := by
  obtain ⟨hm, hreach⟩ := hfits.targeted
  have hdefault : command.event.defaultType "TaskRoutingStarted" = command.event := by
    unfold TaskEvent.defaultType
    rw [if_neg]
    rw [htype]
    decide
  unfold routeBody
  refine stopsOnly_step (lockTask_of_found hp hfits.found) ?_
  refine stopsOnly_failIf hfits.owned ?_
  refine stopsOnly_failIf (not_not.mpr hfits.version) ?_
  refine stopsOnly_failIf (by simp [hplanning, hsource, htarget, hstatus]) ?_
  refine stopsOnly_failIf hcomplete ?_
  refine stopsOnly_failIf hid ?_
  refine stopsOnly_failIf (fun h => h.2 htask) ?_
  refine stopsOnly_step (read_ok.mpr ⟨rfl, rfl⟩) ?_
  refine stopsOnly_bind (insertRouteDecisionTx_stops hencodes) ?_
  intro _ db₁ hdec
  obtain ⟨decisions, rfl⟩ := insertRouteDecisionTx_ok hdec
  refine stopsOnly_bind (updateTask_stops hm hreach) ?_
  intro version db₂ hup
  obtain ⟨_, _, tasks, _, rfl⟩ := updateTask_ok hup
  rw [hdefault]
  refine stopsOnly_failIf (not_not.mpr htype) ?_
  refine stopsOnly_bind (appendEvent_stops (hevent.validate hfits.named
    (one_le_nextSequence db p current.id) hfits.traced)) ?_
  intro _ db₃ hev
  obtain ⟨_, _, _, _, rfl⟩ := appendEvent_ok hev
  rw [hout]
  refine stopsOnly_step rfl ?_
  obtain ⟨text, htext⟩ := hencodes.decision
  refine stopsOnly_lift (encode_of_some htext) ?_
  exact stopsOnly_bind (completeIdempotency_stops hrow hdig) (fun _ _ _ => stopsOnly_pure _)

/-- A finalization whose evidence is in order. -/
structure Conclusive (codec : Codec) (command : ModelExecutionFinalizeCommit) : Prop where
  paired : command.transitions.length = command.events.length
  chain : checkChain .executing (command.transitions.zip command.events) = .ok command.task.status
  final : checkFinal command.task.status (command.transitions.map TaskTransition.target)
    command.idempotency.status = .ok ()
  events : ∀ e ∈ command.events, Stampable codec e
  traced : ¬ Text.Blank command.task.traceID

/-- The key is held by a command that is in progress. -/
def Pending (db : Db) (record : IdempotencyRecord) : Prop :=
  ∃ row, db.record record.rowKey = some row ∧ row.requestDigest = record.requestDigest ∧
    row.status = .inProgress

theorem finalizeBody_stops {command : ModelExecutionFinalizeCommit}
    (hp : p.InProject) (hcommand : Conclusive codec command)
    (hpending : Pending db command.idempotency) (hfits : Fits p command.task current db)
    (hexec : current.status = .executing) :
    DatabaseOnly (finalizeBody codec now p command) db := by
  obtain ⟨row, hrow, hdig, hstatus⟩ := hpending
  obtain ⟨hm, hreach⟩ := hfits.targeted
  have hne : command.transitions.length ≠ 0 := by
    intro hzero
    have hnil := length_eq_zero_iff.mp hzero
    rcases checkFinal_ok hcommand.final with ⟨ht, _⟩ | ⟨ht, _⟩ <;> rw [hnil] at ht <;> cases ht
  have hchain : checkChain current.status (command.transitions.zip command.events) =
      .ok command.task.status := by
    rw [hexec]
    exact hcommand.chain
  unfold finalizeBody
  refine stopsOnly_step (load_of_record hrow) ?_
  refine stopsOnly_failIf (not_not.mpr hdig) ?_
  refine stopsOnly_failIf (not_not.mpr hstatus) ?_
  refine stopsOnly_step (lockTask_of_found hp hfits.found) ?_
  refine stopsOnly_failIf (not_not.mpr hexec) ?_
  refine stopsOnly_failIf hfits.owned ?_
  refine stopsOnly_failIf (not_not.mpr hfits.version) ?_
  refine stopsOnly_failIf (not_or.mpr ⟨not_not.mpr hcommand.paired, hne⟩) ?_
  refine stopsOnly_lift hchain ?_
  refine stopsOnly_failIf (not_not.mpr rfl) ?_
  refine stopsOnly_lift hcommand.final ?_
  refine stopsOnly_step (read_ok.mpr ⟨rfl, rfl⟩) ?_
  refine stopsOnly_bind (updateTask_stops hm hreach) ?_
  intro version db₁ hup
  obtain ⟨_, _, tasks, _, rfl⟩ := updateTask_ok hup
  refine stopsOnly_bind (appendEvents_stops hfits.named hcommand.traced
    (fun s hs => hcommand.events _ (of_mem_zip hs).2) (one_le_nextSequence db p current.id)) ?_
  intro events db₂ hev
  obtain ⟨_, _, _, rfl, _⟩ := appendEvents_ok hev
  refine stopsOnly_bind ?_ (fun _ _ _ => stopsOnly_pure _)
  -- neither write touched the record
  split <;> exact completeIdempotency_stops hrow hdig

theorem markModelExecutionRetryable_stops {ctx : Context}
    (hadmitted : admitRetryable codec ctx record = .ok ()) (hpending : Pending db record) :
    DatabaseOnly (markModelExecutionRetryable codec ctx record) db := by
  obtain ⟨row, hrow, hdig, hstatus⟩ := hpending
  unfold markModelExecutionRetryable
  refine stopsOnly_lift hadmitted ?_
  refine stopsOnly_step (load_of_record hrow) ?_
  refine stopsOnly_failIf (not_not.mpr hdig) ?_
  refine stopsOnly_failIf (not_not.mpr hstatus) ?_
  exact completeIdempotency_stops hrow hdig

end AiCloud.Tasks
