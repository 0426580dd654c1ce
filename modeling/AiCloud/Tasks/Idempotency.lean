import AiCloud.Tasks.Log

/-!
# A key applies once

The key of a command that applied is frozen: no command changes a final record.
A later command on that key therefore changes nothing. With another digest it
is refused; with the same digest the earlier result comes back.
-/
namespace AiCloud.Tasks

open Lib Identity Execution Tx

variable {codec : Codec} {db db' : Db} {k : IdempotencyKey} {row : IdempotencyRow} {kind : Kind}

theorem record_congr (h : db'.idempotency = db.idempotency) (k : IdempotencyKey) :
    db'.record k = db.record k := by
  unfold Db.record
  rw [h]

theorem Wrote.others {record result : IdempotencyRecord} (h : Wrote codec record result db db')
    (hk : k ≠ record.rowKey) : db'.record k = db.record k := by
  obtain ⟨db₂, hdone, _, hsame, hkey, _⟩ := h
  rw [hdone.others k (by rw [hkey]; exact hk), record_congr hsame]

theorem Effect.frozen (h : Effect codec db db') (hrow : db.record k = some row)
    (hf : row.status.Final) :
    db'.record k = some row := by
  -- a command only writes keys whose record is absent, retryable or in progress
  have hne : ∀ {s : IdempotencyStatus}, s.Final → s ≠ .failedRetryable ∧ s ≠ .inProgress := by
    rintro s (rfl | rfl) <;> decide
  cases h with
  | replay same => rw [same, hrow]
  | applied record result ha =>
    obtain ⟨db₁, hown, hw⟩ := ha
    have hk : k ≠ record.rowKey := fun he => (hne hf).1 (hown.free row (he ▸ hrow)).1
    rw [hw.others hk, hown.others k hk, hrow]
  | begun record db₁ reserved log records =>
    have hk : k ≠ record.rowKey := fun he => (hne hf).1 (reserved.free row (he ▸ hrow)).1
    rw [record_congr records, reserved.others k hk, hrow]
  | finished result hfin =>
    have hk : k ≠ result.rowKey := fun he => (hne hf).2 (hfin.pending row (he ▸ hrow))
    rw [hfin.wrote.others hk, hrow]

theorem Effect.digest (h : Effect codec db db') (hrow : db.record k = some row) :
    ∃ row', db'.record k = some row' ∧ row'.requestDigest = row.requestDigest := by
  have hreserved : ∀ {record : IdempotencyRecord} {db₁ : Db}, Reserved record db db₁ →
      ∃ row', db₁.record k = some row' ∧ row'.requestDigest = row.requestDigest := by
    intro record db₁ hres
    by_cases hk : k = record.rowKey
    · subst hk
      obtain ⟨row', hrow', _, hdig⟩ := hres.held
      exact ⟨row', hrow', hdig.trans (hres.free row hrow).2.symm⟩
    · exact ⟨row, (hres.others k hk).trans hrow, rfl⟩
  have hwrote : ∀ {record result : IdempotencyRecord} {db₁ : Db} {row₁ : IdempotencyRow},
      Wrote codec record result db₁ db' → db₁.record k = some row₁ →
      ∃ row', db'.record k = some row' ∧ row'.requestDigest = row₁.requestDigest := by
    intro record result db₁ row₁ hw hrow₁
    by_cases hk : k = record.rowKey
    · subst hk
      obtain ⟨db₂, hdone, _, hsame, hkey, _⟩ := hw
      obtain ⟨row₂, payload, hrow₂, _, _, hnew⟩ := hdone.stored
      rw [hkey] at hrow₂ hnew
      rw [record_congr hsame, hrow₁] at hrow₂
      cases hrow₂
      exact ⟨_, hnew, rfl⟩
    · exact ⟨row₁, (hw.others hk).trans hrow₁, rfl⟩
  cases h with
  | replay same => exact ⟨row, by rw [same, hrow], rfl⟩
  | applied record result ha =>
    obtain ⟨db₁, hown, hw⟩ := ha
    obtain ⟨row₁, hrow₁, hdig₁⟩ := hreserved hown
    obtain ⟨row', hrow', hdig⟩ := hwrote hw hrow₁
    exact ⟨row', hrow', hdig.trans hdig₁⟩
  | begun record db₁ reserved log records =>
    obtain ⟨row₁, hrow₁, hdig₁⟩ := hreserved reserved
    exact ⟨row₁, (record_congr records k).trans hrow₁, hdig₁⟩
  | finished result hfin => exact hwrote hfin.wrote hrow

theorem exec_cases (codec : Codec) (db : Db) (c : Call) :
    (exec codec db c).2 = db ∨ Effect codec db (exec codec db c).2 := by
  exact (exec_db codec db c).imp_right (fun ⟨_, hc⟩ => exec_effect hc)

theorem effect_traced (he : db' = db ∨ Effect codec db db') (ht : Traced db) : Traced db' := by
  rcases he with rfl | heff
  · exact ht
  · exact heff.log.traced ht

theorem traced_empty : Traced Db.empty := List.forall_mem_nil _

theorem traced_after (codec : Codec) (calls : List Call) : Traced (after codec calls) :=
  run_stable (I := Traced) (fun db c ht => effect_traced (exec_cases codec db c) ht) traced_empty
    calls

variable {db : Db}

theorem run_frozen (hrow : db.record k = some row) (hf : row.status.Final) (calls : List Call) :
    (run (exec codec) db calls).record k = some row := by
  refine run_stable (I := fun db : Db => db.record k = some row) ?_ hrow calls
  intro db c h
  rcases exec_cases codec db c with hsame | heff
  · rw [hsame]
    exact h
  · exact heff.frozen h hf

theorem run_holds {id tenantID projectID : String} (h : Holds db id tenantID projectID)
    (calls : List Call) : Holds (run (exec codec) db calls) id tenantID projectID := by
  refine run_stable (I := fun db => Holds db id tenantID projectID) ?_ h calls
  intro db c h
  rcases exec_cases codec db c with hsame | heff
  · rw [hsame]
    exact h
  · exact heff.log.holds h

theorem Applied.stored {record result : IdempotencyRecord}
    (h : Applied codec record result db db') :
    ∃ (row : IdempotencyRow) (payload : Option String),
      db'.record record.rowKey = some (row.finish result payload) ∧
      row.key = record.rowKey ∧ row.requestDigest = record.requestDigest ∧
      codec.payloadColumn result.responsePayload "complete idempotency record" = .ok payload := by
  obtain ⟨db₁, _, db₂, hdone, _, _, hkey, hdig, _⟩ := h
  obtain ⟨row, payload, hrow, hd, hp, hnew⟩ := hdone.stored
  rw [hkey] at hrow hnew
  exact ⟨row, payload, hnew, record_key hrow, hd.trans hdig, hp⟩

variable {record : IdempotencyRecord} {text : String}

theorem checkRecord_ok {statusOk : IdempotencyStatus → Bool} {u : Unit}
    (h : checkRecord codec statusOk text record = .ok u) :
    record.createdAt < record.expiresAt ∧ statusOk record.status = true := by
  obtain ⟨_, hv, h⟩ := except_bind_ok.mp h
  split at h
  · rename_i hs
    refine ⟨?_, hs⟩
    unfold IdempotencyRecord.validate at hv
    split at hv
    · cases hv
    split at hv
    · cases hv
    rename_i hlt
    exact not_not.mp hlt
  · cases h

theorem checked_lt {α : Type} {statusOk : IdempotencyStatus → Bool}
    {rest : Unit → Except CommandError α} {a : α}
    (h : (checkRecord codec statusOk text record >>= rest) = .ok a) :
    record.createdAt < record.expiresAt := by
  obtain ⟨_, hcheck, _⟩ := except_bind_ok.mp h
  exact (checkRecord_ok hcheck).1

section

variable {db : Db} {row : IdempotencyRow} (hrow : db.record record.rowKey = some row)
  (hf : row.status.Final) (hlt : record.createdAt < record.expiresAt)

include hrow hf hlt

theorem reserve_final : reserveIdempotency record db =
    if row.requestDigest = record.requestDigest then .ok (some row.load, db)
    else .error .idempotencyConflict := by
  have hins : insertRecordOrNothing record.reservedRow db = .ok (false, db) := by
    have hcheck : record.reservedRow.Check :=
      ⟨.inl rfl, hlt, (by decide : -(integerMax + 1) ≤ 0), (by decide : 0 ≤ integerMax)⟩
    have hsome : (db.record record.reservedRow.key).isSome = true := by
      change (db.record record.rowKey).isSome = true
      rw [hrow]
      rfl
    simp only [insertRecordOrNothing, statement, if_pos (And.intro hcheck hsome)]
  have hload : loadIdempotencyForUpdate record.rowKey db = .ok (row.load, db) := by
    simp only [loadIdempotencyForUpdate, query, hrow, Option.map_some]
  unfold reserveIdempotency
  rw [bind_of_ok hins]
  simp only [Bool.false_eq_true, if_false]
  rw [bind_of_ok hload]
  have hdig : row.load.requestDigest = row.requestDigest := rfl
  by_cases hd : row.requestDigest = record.requestDigest
  · have hguard : (failIf (row.load.requestDigest ≠ record.requestDigest)
        CommandError.idempotencyConflict : CommandTx Unit) db = .ok ((), db) := by
      simp [hdig, hd]
    rw [if_pos hd, bind_of_ok hguard]
    rcases hf with hst | hst
    · have hst : row.load.status = .completed := hst
      rw [hst]
      rfl
    · have hst : row.load.status = .failedFinal := hst
      rw [hst]
      rfl
  · have hguard : (failIf (row.load.requestDigest ≠ record.requestDigest)
        CommandError.idempotencyConflict : CommandTx Unit) db = .error .idempotencyConflict := by
      simp [failIf, hdig, hd]
    rw [if_neg hd, bind_of_error hguard]

theorem once_final {α : Type} {replay : IdempotencyRecord → CommandTx α} {body : CommandTx α} :
    once record replay body db =
      if row.requestDigest = record.requestDigest then replay row.load db
      else .error .idempotencyConflict := by
  have hres := reserve_final hrow hf hlt
  unfold once
  by_cases hd : row.requestDigest = record.requestDigest
  · rw [if_pos hd] at hres ⊢
    rw [bind_of_ok hres]
  · rw [if_neg hd] at hres ⊢
    rw [bind_of_error hres]

end

inductive Kind
  | create
  | transition
  | route

/-- The kind and the idempotency record of a task command. -/
def Op.command : Op → Option (Kind × IdempotencyRecord)
  | .createTask command => some (.create, command.idempotency)
  | .commitTransition command => some (.transition, command.idempotency)
  | .commitRouteTransition _ command => some (.route, command.idempotency)
  | _ => none

/-- The checks a task command makes before it opens its transaction pass. -/
def Call.Admitted (codec : Codec) (c : Call) : Prop :=
  match c.op with
  | .createTask command => ∃ x, admitCreate codec c.ctx command = .ok x
  | .commitTransition command => ∃ p, admitTransition codec c.ctx command = .ok p
  | .commitRouteTransition _ command => ∃ p, admitRoute codec c.ctx command = .ok p
  | _ => True

/-- Whether a reply replays an earlier one, and its idempotency result. -/
def Reply.result : Reply → Option (Bool × IdempotencyRecord)
  | .created r => some (r.replayed, r.idempotency)
  | .transitioned r => some (r.replayed, r.idempotency)
  | .routed r => some (r.replayed, r.idempotency)
  | _ => none

/-- What the result of an applied command guarantees besides its record. -/
def Kind.Stored (codec : Codec) (result : IdempotencyRecord) (db : Db) : Kind → Prop
  | .create => Resource result db
  | .transition => True
  | .route => Resource result db ∧
      ∃ decision, codec.marshalDecision decision = some result.responsePayload

theorem command_outcome {c : Call} (hc : c.op.command = some (kind, record)) {reply : Reply}
    (h : (exec codec db c).1 = .ok reply) :
    ∃ replayed result, reply.result = some (replayed, result) ∧
      Outcome codec record result replayed (fun db' => kind.Stored codec result db') db
        (exec codec db c).2 := by
  have hran := exec_executed (Prod.ext h rfl : exec codec db c = (.ok reply, (exec codec db c).2))
  generalize (exec codec db c).2 = db' at hran ⊢
  obtain ⟨ctx, now, op⟩ := c
  cases hran with
  | createTask hr =>
    cases hc
    exact ⟨_, _, rfl, createTask_ok hr⟩
  | commitTransition hr =>
    cases hc
    exact ⟨_, _, rfl, commitTransition_ok hr⟩
  | commitRouteTransition hr =>
    cases hc
    exact ⟨_, _, rfl, commitRouteTransition_ok hr⟩
  | commitRouteSelection | beginModelExecution | finalizeModelExecution
  | markModelExecutionRetryable => cases hc

/-- What a replay of the kind looks for in the stored record. -/
def Kind.Replayable (codec : Codec) (row : IdempotencyRow) (db : Db) : Kind → Prop
  | .create => row.resourceID ≠ "" ∧ Holds db row.resourceID row.key.tenantID row.key.projectID
  | .transition => True
  | .route => (row.resourceID ≠ "" ∧ Holds db row.resourceID row.key.tenantID row.key.projectID) ∧
      row.load.responsePayload ≠ "" ∧
      ∃ decision, codec.unmarshalDecision row.load.responsePayload = some decision

variable {p : Principal} {kind : Kind} {c : Call}

theorem scopedTask_of_holds {id tenantID projectID : String} (h : Holds db id tenantID projectID)
    (hp : InScope p tenantID projectID) : ∃ t, db.scopedTask p id = some t := by
  obtain ⟨t, hm, hid, rfl, rfl⟩ := h
  apply Option.isSome_iff_exists.mp
  unfold Db.scopedTask
  rw [List.find?_isSome]
  exact ⟨t, hm, by simpa using ⟨hid, hp⟩⟩

section Frozen

variable {codec : Codec} {ctx : Context} {now : Time} {db : Db} {row : IdempotencyRow}

theorem createTask_final {command : TaskCreateCommit} {task : Task}
    (hadm : admitCreate codec ctx command = .ok (p, task))
    (hrow : db.record command.idempotency.rowKey = some row) (hf : row.status.Final) :
    createTask codec ctx now command db =
      if row.requestDigest = command.idempotency.requestDigest then replayCreate p row.load db
      else .error .idempotencyConflict := by
  unfold createTask
  rw [bind_of_ok (lift_ok.mpr ⟨hadm, rfl⟩)]
  exact once_final hrow hf (checked_lt hadm)

theorem commitTransition_final {command : TaskCommandCommit}
    (hadm : admitTransition codec ctx command = .ok p)
    (hrow : db.record command.idempotency.rowKey = some row) (hf : row.status.Final) :
    commitTransition codec ctx now command db =
      if row.requestDigest = command.idempotency.requestDigest then
        .ok (⟨none, none, [], row.load, true⟩, db)
      else .error .idempotencyConflict := by
  unfold commitTransition
  rw [bind_of_ok (lift_ok.mpr ⟨hadm, rfl⟩)]
  exact once_final hrow hf (checked_lt hadm)

theorem commitRouteTransition_final {command : RouteTaskCommandCommit}
    {priced : Bool} (hadm : admitRoute codec ctx command = .ok p)
    (hrow : db.record command.idempotency.rowKey = some row) (hf : row.status.Final) :
    commitRouteTransition codec ctx priced now command db =
      if row.requestDigest = command.idempotency.requestDigest then
        replayRouteCommand codec p row.load db
      else .error .idempotencyConflict := by
  unfold commitRouteTransition
  rw [bind_of_ok (lift_ok.mpr ⟨hadm, rfl⟩)]
  exact once_final hrow hf (checked_lt hadm)

theorem replayCreate_ok (codec : Codec) {p : Principal} (hst : row.status = .completed)
    (hr : Kind.Replayable codec row db .create)
    (hp : InScope p row.key.tenantID row.key.projectID) :
    ∃ r, replayCreate p row.load db = .ok (r, db) ∧
      (r.replayed, r.idempotency) = (true, row.load) := by
  obtain ⟨hid, hh⟩ := hr
  obtain ⟨t, ht⟩ := scopedTask_of_holds hh hp
  refine ⟨⟨some t, none, [], row.load, true⟩, ?_, rfl⟩
  unfold replayCreate
  refine failIf_bind_ok.mpr ⟨fun hbad => hbad.elim (absurd hst) hid, ?_⟩
  refine query_bind_ok.mpr ⟨t, ht, rfl⟩

theorem replayRouteCommand_ok (hst : row.status = .completed)
    (hr : Kind.Replayable codec row db .route) (hp : InScope p row.key.tenantID row.key.projectID) :
    ∃ r, replayRouteCommand codec p row.load db = .ok (r, db) ∧
      (r.replayed, r.idempotency) = (true, row.load) := by
  obtain ⟨⟨hid, hh⟩, hpay, decision, hdec⟩ := hr
  obtain ⟨t, ht⟩ := scopedTask_of_holds hh hp
  refine ⟨⟨some t, some decision, none, [], row.load, true⟩, ?_, rfl⟩
  unfold replayRouteCommand
  refine failIf_bind_ok.mpr ⟨fun hbad => hbad.elim (absurd hst) hid, ?_⟩
  refine failIf_bind_ok.mpr ⟨hpay, ?_⟩
  refine query_bind_ok.mpr ⟨decision, hdec, ?_⟩
  refine query_bind_ok.mpr ⟨t, ht, rfl⟩

/-- A command on a final record is refused if its digest is another one, and replays a
completed record otherwise. -/
theorem tx_final (hc : c.op.command = some (kind, record)) (hadm : c.Admitted codec)
    (hrow : db.record record.rowKey = some row) (hf : row.status.Final) :
    ∃ replay, c.tx codec db = (if row.requestDigest = record.requestDigest then replay
        else .error .idempotencyConflict) ∧
      (row.status = .completed → kind.Replayable codec row db →
        ∃ reply, replay = .ok (reply, db) ∧ reply.result = some (true, row.load)) := by
  have hkey := record_key hrow
  have hreturn : ∀ {α : Type} {x : CommandTx α} {wrap : α → Reply}
      {y : Except CommandError (α × Db)},
      x db = (if row.requestDigest = record.requestDigest then y else .error .idempotencyConflict) →
      (do return wrap (← x) : CommandTx Reply) db =
        if row.requestDigest = record.requestDigest then y.map (fun r => (wrap r.1, r.2))
        else .error .idempotencyConflict := by
    intro α x wrap y h
    split_ifs at h ⊢
    · cases y with
      | error e => exact bind_of_error h
      | ok r => exact bind_of_ok h
    · exact bind_of_error h
  obtain ⟨ctx, now, op⟩ := c
  cases op with
  | createTask command =>
    obtain ⟨⟨p, task⟩, hadm⟩ := hadm
    cases hc
    refine ⟨_, hreturn (createTask_final hadm hrow hf), fun hst hr => ?_⟩
    obtain ⟨r, hrep, hres⟩ := replayCreate_ok codec hst hr
      (by rw [hkey]; exact (admitCreate_ok hadm).2.1)
    exact ⟨_, congrArg _ hrep, congrArg some hres⟩
  | commitTransition command =>
    obtain ⟨p, hadm⟩ := hadm
    cases hc
    exact ⟨_, hreturn (commitTransition_final hadm hrow hf), fun _ _ => ⟨_, rfl, rfl⟩⟩
  | commitRouteTransition priced command =>
    obtain ⟨p, hadm⟩ := hadm
    cases hc
    refine ⟨_, hreturn (commitRouteTransition_final hadm hrow hf), fun hst hr => ?_⟩
    obtain ⟨r, hrep, hres⟩ := replayRouteCommand_ok hst hr (by rw [hkey]; exact admitRoute_ok hadm)
    exact ⟨_, congrArg _ hrep, congrArg some hres⟩
  | commitRouteSelection | beginModelExecution | finalizeModelExecution
  | markModelExecutionRetryable => cases hc

end Frozen

/-- A written decision reads back as a decision. -/
def Codec.DecodesDecisions (codec : Codec) : Prop :=
  ∀ decision text, codec.marshalDecision decision = some text → text ≠ "" ∧
    ∀ stored, codec.jsonb text = some stored →
      stored ≠ "" ∧ stored ≠ "null" ∧ ∃ d, codec.unmarshalDecision stored = some d

/-- A payload as the `jsonb` column returns it. -/
def Codec.readBack (codec : Codec) (payload : String) : String :=
  if payload = "" then ""
  else match codec.jsonb payload with
    | none => ""
    | some text => if text = "null" then "" else text

/-- The stored response of the command that applied. -/
structure SameResponse (codec : Codec) (result stored : IdempotencyRecord) : Prop where
  resource : stored.resourceID = result.resourceID
  code : stored.responseCode = result.responseCode
  digest : stored.responseDigest = result.responseDigest
  payload : stored.responsePayload = codec.readBack result.responsePayload

variable {payload : Option String} {context : String}

theorem payloadColumn_ok (h : codec.payloadColumn text context = .ok payload) :
    (text = "" ∧ payload = none) ∨
      (text ≠ "" ∧ ∃ stored, codec.jsonb text = some stored ∧ payload = some stored) := by
  unfold Codec.payloadColumn at h
  by_cases he : text = ""
  · rw [if_pos he] at h
    cases h
    exact .inl ⟨he, rfl⟩
  · rw [if_neg he] at h
    cases hj : codec.jsonb text with
    | none => simp [hj] at h
    | some stored =>
      simp only [hj, Except.ok.injEq] at h
      exact .inr ⟨he, stored, rfl, h.symm⟩

theorem finish_response {result : IdempotencyRecord}
    (h : codec.payloadColumn result.responsePayload context = .ok payload) (row : IdempotencyRow) :
    SameResponse codec result (row.finish result payload).load := by
  refine ⟨rfl, rfl, rfl, ?_⟩
  simp only [IdempotencyRow.load, IdempotencyRow.finish, Codec.readBack]
  rcases payloadColumn_ok h with ⟨he, rfl⟩ | ⟨he, stored, hj, rfl⟩
  · rw [if_pos he]
  · rw [if_neg he, hj]

/-- What the key of an applied command stores, as long as the run goes on. -/
structure Settled (codec : Codec) (kind : Kind) (record result : IdempotencyRecord)
    (row : IdempotencyRow) (db : Db) : Prop where
  stored : db.record record.rowKey = some row
  status : row.status = .completed
  request : row.requestDigest = record.requestDigest
  response : SameResponse codec result row.load
  replayable : kind.Replayable codec row db

theorem finish_replayable (hcodec : codec.DecodesDecisions) {result : IdempotencyRecord}
    (h : kind.Stored codec result db) (hkey : row.key = result.rowKey)
    (hp : codec.payloadColumn result.responsePayload context = .ok payload) :
    kind.Replayable codec (row.finish result payload) db := by
  have hres : Resource result db → result.resourceID ≠ "" ∧
      Holds db result.resourceID row.key.tenantID row.key.projectID := by
    rw [hkey]
    exact id
  cases kind with
  | create => exact hres h
  | transition => trivial
  | route =>
    obtain ⟨hr, decision, hm⟩ := h
    obtain ⟨hne, hdecode⟩ := hcodec decision _ hm
    refine ⟨hres hr, ?_⟩
    simp only [IdempotencyRow.load, IdempotencyRow.finish]
    rcases payloadColumn_ok hp with ⟨he, _⟩ | ⟨_, stored, hj, rfl⟩
    · exact absurd he hne
    obtain ⟨hs, hnull, hd⟩ := hdecode stored hj
    simp only [if_neg hnull]
    exact ⟨hs, hd⟩

theorem Applied.settled (hcodec : codec.DecodesDecisions) {record result : IdempotencyRecord}
    (h : Applied codec record result db db') (hst : record.status = .completed)
    (hs : kind.Stored codec result db') : ∃ row, Settled codec kind record result row db' := by
  obtain ⟨row, payload, hrow, hkey, hdig, hp⟩ := h.stored
  obtain ⟨_, _, _, _, _, _, hsame⟩ := h
  refine ⟨_, hrow, hsame.2.2.trans hst, hdig, finish_response hp row,
    finish_replayable hcodec hs (hkey.trans hsame.1.symm) hp⟩

theorem Kind.Replayable.run (h : kind.Replayable codec row db) (calls : List Call) :
    kind.Replayable codec row (run (exec codec) db calls) := by
  cases kind with
  | create => exact ⟨h.1, run_holds h.2 calls⟩
  | transition => trivial
  | route => exact ⟨⟨h.1.1, run_holds h.1.2 calls⟩, h.2⟩

theorem Settled.run {record result : IdempotencyRecord}
    (h : Settled codec kind record result row db) (calls : List Call) :
    Settled codec kind record result row (run (exec codec) db calls) where
  stored := run_frozen h.stored (.inl h.status) calls
  status := h.status
  request := h.request
  response := h.response
  replayable := h.replayable.run calls

theorem Settled.unchanged {kind kind' : Kind} {record record' result : IdempotencyRecord}
    (h : Settled codec kind record result row db) (hc : c.op.command = some (kind', record'))
    (hkey : record'.rowKey = record.rowKey) :
    (exec codec db c).2 = db ∧ ∀ reply, (exec codec db c).1 = .ok reply →
      reply.result = some (true, row.load) ∧ record'.requestDigest = record.requestDigest := by
  have hrow : db.record record'.rowKey = some row := hkey ▸ h.stored
  have hok : ∀ reply, (exec codec db c).1 = .ok reply → (exec codec db c).2 = db ∧
      reply.result = some (true, row.load) ∧ record'.requestDigest = record.requestDigest := by
    intro reply hr
    obtain ⟨replayed, result', hres, hout⟩ := command_outcome hc hr
    rcases hout with ⟨rfl, hdb, row', hrow', rfl, hdig, _⟩ | ⟨_, ⟨db₁, hown, _⟩, _⟩
    · obtain rfl := Option.some.inj (hrow'.symm.trans hrow)
      exact ⟨hdb, hres, hdig.symm.trans h.request⟩
    · have hretry := (hown.free row hrow).1
      rw [h.status] at hretry
      cases hretry
  refine ⟨?_, fun reply hr => (hok reply hr).2⟩
  rcases exec_db codec db c with hdb | ⟨reply, hc⟩
  · exact hdb
  · exact (hok reply (congrArg Prod.fst hc)).1

/--
Once a task command with a completed record applied, its key is settled. A later
task command on the key changes nothing and never applies. With the same digest
and the same kind, or as a transition, it returns the stored response; with
another digest it is refused as a conflict.
-/
theorem key_applies_once (codec : Codec) (hcodec : codec.DecodesDecisions) (pre mid : List Call)
    (c c' : Call) {kind kind' : Kind} {record record' result : IdempotencyRecord} {reply : Reply}
    (hc : c.op.command = some (kind, record)) (hst : record.status = .completed)
    (hok : (exec codec (after codec pre) c).1 = .ok reply)
    (happ : reply.result = some (false, result))
    (hc' : c'.op.command = some (kind', record')) (hkey : record'.rowKey = record.rowKey) :
    let db := after codec (pre ++ c :: mid)
    (exec codec db c').2 = db ∧
    (∀ reply' replayed stored, (exec codec db c').1 = .ok reply' →
      reply'.result = some (replayed, stored) →
      replayed = true ∧ record'.requestDigest = record.requestDigest ∧
        SameResponse codec result stored) ∧
    (record'.requestDigest = record.requestDigest → kind' = kind ∨ kind' = .transition →
      c'.Admitted codec → ∃ reply' stored, (exec codec db c').1 = .ok reply' ∧
        reply'.result = some (true, stored) ∧ SameResponse codec result stored) ∧
    (record'.requestDigest ≠ record.requestDigest → c'.Admitted codec →
      (exec codec db c').1 = .error .idempotencyConflict) := by
  intro db
  have hsettled : ∃ row, Settled codec kind record result row db := by
    obtain ⟨replayed, result', hres, hout⟩ := command_outcome hc hok
    rw [happ] at hres
    cases hres
    rcases hout with ⟨hf, _⟩ | ⟨_, ha, hs⟩
    · cases hf
    obtain ⟨row, hrow⟩ := ha.settled hcodec hst hs
    refine ⟨row, ?_⟩
    have hdb : db = run (exec codec) (exec codec (after codec pre) c).2 mid := by
      change run (exec codec) Db.empty (pre ++ c :: mid) = _
      rw [run_append, run_cons]
      rfl
    rw [hdb]
    exact hrow.run mid
  obtain ⟨row, h⟩ := hsettled
  obtain ⟨hsame, hreply⟩ := h.unchanged hc' hkey
  have hrow : db.record record'.rowKey = some row := hkey ▸ h.stored
  refine ⟨hsame, ?_, ?_, ?_⟩
  · intro reply' replayed stored hr hres
    obtain ⟨hload, hdig⟩ := hreply reply' hr
    rw [hres] at hload
    cases hload
    exact ⟨rfl, hdig, h.response⟩
  · intro hd hk hadm
    have hrep : kind'.Replayable codec row db := by
      rcases hk with rfl | rfl
      · exact h.replayable
      · trivial
    obtain ⟨replay, htx, hreplay⟩ := tx_final hc' hadm hrow (.inl h.status)
    obtain ⟨reply', rfl, hres⟩ := hreplay h.status hrep
    rw [if_pos (h.request.trans hd.symm)] at htx
    exact ⟨reply', row.load, congrArg Prod.fst (commit_ok.mpr htx), hres, h.response⟩
  · intro hd hadm
    obtain ⟨replay, htx, -⟩ := tx_final hc' hadm hrow (.inl h.status)
    rw [if_neg (fun he => hd (he.symm.trans h.request))] at htx
    rw [exec, commit, htx]

theorem sampleCodec_decodes : sampleCodec.DecodesDecisions := by
  intro decision text hm
  simp only [sampleCodec] at hm
  split at hm
  · obtain rfl : decisionText = text := Option.some.inj hm
    refine ⟨Json.object_ne _, ?_⟩
    intro stored hj
    obtain rfl : decisionText = stored := Option.some.inj hj
    exact ⟨Json.object_ne _, by decide, sampleDecision, by simp [sampleCodec]⟩
  · cases hm

def plannedRecord : IdempotencyRecord := { sampleRecord "step" "k" "d" with resourceID := "task" }

theorem planned_applied :
    ∃ reply, (exec sampleCodec (after sampleCodec [createCall]) planCall).1 = .ok reply ∧
      reply.result = some (false, plannedRecord) :=
  ⟨_, rfl, by decide⟩

theorem key_applies_once_planned :
    ∃ reply stored, (exec sampleCodec (after sampleCodec [createCall, planCall]) planCall).1 =
      .ok reply ∧ reply.result = some (true, stored) ∧
        SameResponse sampleCodec plannedRecord stored := by
  obtain ⟨reply, hok, happ⟩ := planned_applied
  have hadm : planCall.Admitted sampleCodec := ⟨sampleCaller, by decide⟩
  exact (key_applies_once sampleCodec sampleCodec_decodes [createCall] [] planCall planCall rfl rfl
    hok happ rfl rfl).2.2.1 rfl (.inl rfl) hadm

/-- PLANNING to ROUTING, under the given key. -/
def routeCall (key : String) : Call :=
  ⟨some sampleCaller, 4, .commitRouteTransition true ⟨sampleTask .routing 2,
    ⟨.planning, .routing, "u", "c", 4⟩, sampleDecision, sampleEvent "e3" "TaskRoutingStarted", [],
    sampleRecord "step" key "d"⟩⟩

/--
A route command on the key of an applied transition, with its digest, gets no
stored response: a transition stores no payload, and the route replay wants one.
Under a key of its own the same command applies.
-/
theorem route_replay_of_transition_fails : sampleCodec.DecodesDecisions ∧
    (∃ reply, (exec sampleCodec (after sampleCodec [createCall]) planCall).1 = .ok reply ∧
      reply.result = some (false, plannedRecord)) ∧
    planCall.op.command = some (.transition, sampleRecord "step" "k" "d") ∧
    (routeCall "k").op.command = some (.route, sampleRecord "step" "k" "d") ∧
    (sampleRecord "step" "k" "d").status = .completed ∧ (routeCall "k").Admitted sampleCodec ∧
    (exec sampleCodec (after sampleCodec [createCall, planCall]) (routeCall "k")).1 =
      .error (.invalid "completed route replay is missing durable response payload") ∧
    (exec sampleCodec (after sampleCodec [createCall, planCall]) (routeCall "other")).1.isOk := by
  refine ⟨sampleCodec_decodes, planned_applied, rfl, rfl, rfl, ⟨sampleCaller, ?_⟩, ?_, ?_⟩
  · decide
  · decide
  · decide +kernel

end AiCloud.Tasks
