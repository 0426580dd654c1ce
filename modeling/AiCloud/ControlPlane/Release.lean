import AiCloud.ControlPlane.ModelProtocol

/-!
# The record of a call that returned

A call ends its command by finalizing its record or by releasing it for a retry.
The finalization also moves the task, so it is refused once another command has
moved the task on, and the record then stays in progress. If every finalization
finds the task EXECUTING at the version it was begun with, every response can be
stored and no context is cancelled, no call returns with its record in progress.
-/
namespace AiCloud.ControlPlane

open Lib Text Identity Execution Tasks ModelRuntime System Option List

variable {enc : ModelEncoding} {codec : Codec} {θ : ModelCall} {db db' : Db}

structure Begun (codec : Codec) (θ : ModelCall) (db : Db) (command : ModelExecutionBeginCommit)
    (task : Task) : Prop where
  admitted : ∃ p, admitBegin codec θ.ctx command = .ok p ∧ InScope p task.tenantID task.projectID
  executing : task.status = .executing
  traced : ¬ Blank task.traceID
  row : Identified db task
  held : ∃ row, db.record command.idempotency.rowKey = some row ∧
    row.requestDigest = command.idempotency.requestDigest

variable {task : Task} {p : Principal} {command : ModelExecutionBeginCommit}

theorem beginStep_task (h : BeginStep p command task db db')
    (htraced : Traced db) :
    InScope p task.tenantID task.projectID ∧ task.status = .executing ∧ ¬ Blank task.traceID ∧
      Identified db' task := by
  cases h with
  | first current event status moved outbox result =>
    have howned := moved.owned
    unfold Task.Disowns at howned
    simp only [not_or, not_not] at howned
    obtain ⟨htenant, hproject, hcreator⟩ := howned
    subst result
    refine ⟨?_, (some.inj moved.last).symm, moved.write.traced, _, moved.write.written,
      moved.named, htenant, hproject, hcreator⟩
    exact ⟨htenant.symm.trans moved.write.scope.1, hproject.symm.trans moved.write.scope.2⟩
  | again mem named scope status version same =>
    rw [same]
    exact ⟨scope, status, (htraced task mem).2, task, mem, rfl, rfl, rfl, rfl⟩

variable {q : ModelRequest} {a : ModelAnswer q}

theorem begun_new (ha : modelAnswers codec θ db q a db')
    (htraced : Traced db) (hb : begunBy ⟨q, a⟩ = some (command, task)) :
    Begun codec θ db' command task := by
  cases modelAnswers_step ha with
  | same q a unchanged idle unclosed =>
    rw [idle] at hb
    cases hb
  | begun command' r p db₁ task' began admitted reserved step =>
    rw [began] at hb
    cases hb
    obtain ⟨rows, rfl⟩ := reserved.table
    obtain ⟨hscope, hexec, htrace, hrow⟩ := beginStep_task step htraced
    obtain ⟨row, hheld, _, hdig⟩ := reserved.held
    exact ⟨⟨p, admitted, hscope⟩, hexec, htrace, hrow, row,
      (record_congr step.records _).trans hheld, hdig⟩
  | marked | finalized => cases hb

theorem Begun.later (h : Begun codec θ db command task)
    (he : db' = db ∨ Tasks.Effect codec db db') : Begun codec θ db' command task := by
  rcases he with rfl | heff
  · exact h
  obtain ⟨row, hrow, hdig⟩ := h.held
  obtain ⟨row', hrow', hdig'⟩ := heff.digest hrow
  exact ⟨h.admitted, h.executing, h.traced, heff.log.identified h.row, row', hrow',
    hdig'.trans hdig⟩

variable {begin : ModelExecutionBeginCommit} {task : Task}

theorem finishes_admitted {status : IdempotencyStatus} {result : IdempotencyRecord}
    (hlaw : enc.Lawful codec) (hadm : admitBegin codec θ.ctx begin = .ok p)
    (hf : Finishes enc begin.idempotency status result) (hknown : status.Known) :
    result.validate codec = .ok () ∧ admitScope θ.ctx result = .ok p := by
  obtain ⟨resourceID, responseCode, payload, stored, hstored, rfl⟩ := hf
  unfold admitBegin checkRecord at hadm
  simp only [except_bind_ok] at hadm
  obtain ⟨_, ⟨_, hvalid, _⟩, hscope⟩ := hadm
  refine ⟨?_, hscope⟩
  unfold IdempotencyRecord.validate at hvalid ⊢
  split at hvalid
  · cases hvalid
  rename_i hfields
  split at hvalid
  · cases hvalid
  rename_i htimes
  have hpayload : ¬ (payload ≠ "" ∧ codec.valid payload = false) := by
    rintro ⟨_, hinvalid⟩
    rw [hlaw.storedValid stored payload hstored] at hinvalid
    cases hinvalid
  rw [if_neg hfields, if_neg htimes, if_neg (not_not.mpr hknown), if_neg hpayload]

theorem Finishes.request {reserved result : IdempotencyRecord} {status : IdempotencyStatus}
    (h : Finishes enc reserved status result) :
    result.rowKey = reserved.rowKey ∧ result.requestDigest = reserved.requestDigest ∧
      result.status = status := by
  obtain ⟨_, _, _, _, _, rfl⟩ := h
  exact ⟨rfl, rfl, rfl⟩

theorem admitRetryable_of_scope {record : IdempotencyRecord} (hv : record.validate codec = .ok ())
    (hst : record.status = .failedRetryable) (hscope : admitScope θ.ctx record = .ok p) :
    admitRetryable codec θ.ctx record = .ok () := by
  obtain ⟨htenant, hproject⟩ := admitScope_ok hscope
  unfold admitRetryable
  rw [checkRecord_of_valid hv (decide_eq_true hst)]
  simp only [scopedPrincipal_ok (scopedPrincipal_of_admitScope hscope)]
  exact if_neg (by simp [htenant, hproject])

theorem mark_releases
    {record : IdempotencyRecord} {a : Except CommandError Unit} (hlaw : enc.Lawful codec)
    (hb : Begun codec θ db begin task)
    (hf : Finishes enc begin.idempotency .failedRetryable record)
    (ha : Stored (markModelExecutionRetryable codec θ.ctx record) db a db')
    (hdb : ∀ text, a ≠ .error (.database text)) :
    ∃ row, db'.record begin.idempotency.rowKey = some row ∧ row.status ≠ .inProgress := by
  obtain ⟨p, hadm, _⟩ := hb.admitted
  obtain ⟨row, hrow, hdig⟩ := hb.held
  obtain ⟨hkey, hdigest, hstatus⟩ := hf.request
  obtain ⟨hvalid, hscope⟩ := finishes_admitted hlaw hadm hf (by decide)
  cases a with
  | ok u =>
    obtain ⟨hcomp, _⟩ := markModelExecutionRetryable_inv ha.ok
    obtain ⟨row', payload, _, _, _, hnew⟩ := hcomp.stored
    refine ⟨_, hkey ▸ hnew, ?_⟩
    simp [IdempotencyRow.finish, hstatus]
  | error e =>
    rw [ha.failed]
    refine ⟨row, hrow, fun hst => ?_⟩
    -- a record in progress would have been released
    have hpending : Pending db record := ⟨row, hkey ▸ hrow, hdig.trans hdigest.symm, hst⟩
    obtain ⟨text, rfl⟩ := ha.stopped (markModelExecutionRetryable_stops
      (admitRetryable_of_scope hvalid hstatus hscope) hpending)
    exact hdb text rfl

/-- The stored task is EXECUTING at the version of the finalization. -/
def Current (db : Db) (command : ModelExecutionFinalizeCommit) : Prop :=
  ∃ t ∈ db.tasks.rows, t.id = command.task.id ∧ t.status = .executing ∧
    t.version = command.task.version

section

variable {now : Time} {command : ModelExecutionFinalizeCommit} (hlaw : enc.Lawful codec)
  (htraced : Traced db) (hb : Begun codec θ db begin task)
  (hf : Finishes enc begin.idempotency command.idempotency.status command.idempotency)
  (hsame : SameVersion task command.task) (hcommand : Conclusive codec command)
  (hcurrent : Current db command)

include hlaw htraced hb hf hsame hcommand hcurrent

theorem finalize_stops (hpending : Pending db command.idempotency) :
    DatabaseOnly (finalizeModelExecution codec θ.ctx now command) db := by
  obtain ⟨p, hadm, hscope⟩ := hb.admitted
  have hfinal : command.idempotency.status = .completed ∨
      command.idempotency.status = .failedFinal := by
    rcases checkFinal_ok hcommand.final with ⟨_, _, h⟩ | ⟨_, _, h⟩
    · exact .inl h
    · exact .inr h
  obtain ⟨hvalid, hadmitted⟩ := finishes_admitted hlaw hadm hf
    (hfinal.elim (fun h => .inr (.inl h)) (fun h => .inr (.inr (.inr h))))
  have hin := (requireProject_ok (scopedPrincipal_ok (scopedPrincipal_of_admitScope hadmitted))).2
  obtain ⟨t, hm, hid, hexec, hversion⟩ := hcurrent
  obtain ⟨t', hm', hid', htenant, hproject, hcreator⟩ := hb.row
  obtain rfl := task_unique hm' hm (hid'.trans (hsame.id.symm.trans hid.symm))
  have hscope' : InScope p t'.tenantID t'.projectID :=
    ⟨htenant.trans hscope.1, hproject.trans hscope.2⟩
  have hnamed : Named t' := by
    refine ⟨(htraced t' hm').1, ?_, ?_⟩
    · rw [hscope'.1]
      exact hin.tenant
    · rw [hscope'.2]
      exact hin.project
  have howned : ¬ t'.Disowns command.task := by
    unfold Task.Disowns
    simp only [not_or, not_not]
    exact ⟨htenant.trans hsame.tenantID.symm, hproject.trans hsame.projectID.symm,
      hcreator.trans hsame.createdBy.symm⟩
  have hadmit : admitFinalize codec θ.ctx command = .ok p := by
    unfold admitFinalize
    rw [checkRecord_of_valid hvalid (decide_eq_true hfinal)]
    exact hadmitted
  refine Tx.stopsOnly_lift hadmit (finalizeBody_stops hin hcommand hpending
    ⟨?_, hnamed, howned, hversion.symm, hcommand.traced⟩ hexec)
  rw [← hid]
  exact scopedTask_of_mem hm' hscope'

theorem finalize_releases {a : Except CommandError ModelExecutionFinalizeResult}
    (ha : Stored (finalizeModelExecution codec θ.ctx now command) db a db')
    (hdb : ∀ text, a ≠ .error (.database text)) :
    ∃ row, db'.record begin.idempotency.rowKey = some row ∧ row.status ≠ .inProgress := by
  obtain ⟨row, hrow, hdig⟩ := hb.held
  obtain ⟨hkey, hdigest, _⟩ := hf.request
  cases a with
  | ok r =>
    obtain ⟨_, _, hbody⟩ := Tx.lift_bind_ok.mp ha.ok
    obtain ⟨_, _, db₂, hcomp, _, _, _, hpath, _, hrequest⟩ := finalizeBody_inv hbody
    obtain ⟨row', payload, _, _, _, hnew⟩ := hcomp.stored
    refine ⟨_, (hrequest.1.trans hkey) ▸ hnew, ?_⟩
    change r.idempotency.status ≠ .inProgress
    rw [hrequest.2.2]
    rcases hpath with ⟨_, _, h⟩ | ⟨_, _, h⟩ <;> rw [h] <;> decide
  | error e =>
    rw [ha.failed]
    refine ⟨row, hrow, fun hst => ?_⟩
    -- a record in progress would have been finalized
    have hpending : Pending db command.idempotency :=
      ⟨row, hkey ▸ hrow, hdig.trans hdigest.symm, hst⟩
    obtain ⟨text, rfl⟩ := ha.stopped
      (finalize_stops hlaw htraced hb hf hsame hcommand hcurrent hpending)
    exact hdb text rfl

end

def databaseError : Sigma ModelAnswer → Bool
  | ⟨.resolveIdempotency _, .error (.database _)⟩ => true
  | ⟨.getTask _, .error (.database _)⟩ => true
  | ⟨.beginModelExecution _, .error (.database _)⟩ => true
  | ⟨.markModelExecutionRetryable _, .error (.database _)⟩ => true
  | ⟨.finalizeModelExecution _, .error (.database _)⟩ => true
  | _ => false

/-- What the store's transaction comes to by itself, at some reading of its clock. -/
def Computed (codec : Codec) (θ : ModelCall) (db : Db) : (q : ModelRequest) → ModelAnswer q → Prop
  | .resolveIdempotency lookup, a => (Tx.commit (resolveIdempotency θ.ctx lookup) db).1 = a
  | .getTask id, a => (Tx.commit (getTask θ.ctx id) db).1 = a
  | .beginModelExecution command, a =>
    ∃ now, (Tx.commit (beginModelExecution codec θ.ctx now command) db).1 = a
  | .markModelExecutionRetryable record, a =>
    (Tx.commit (markModelExecutionRetryable codec θ.ctx record) db).1 = a
  | .finalizeModelExecution command, a =>
    ∃ now, (Tx.commit (finalizeModelExecution codec θ.ctx now command) db).1 = a
  | _, _ => True

/-- A transaction did not run to its end: the database failed, or the context of the request
was cancelled. -/
def Interrupted (codec : Codec) (θ : ModelCall) (db : Db) (q : ModelRequest) (a : ModelAnswer q) :
    Prop :=
  databaseError ⟨q, a⟩ = true ∧ ¬Computed codec θ db q a

/-- The end of a command carries a value that the database does not take, such as a JSON
document with a NUL. -/
def Refused (codec : Codec) (θ : ModelCall) (db : Db) (q : ModelRequest) (a : ModelAnswer q) :
    Prop :=
  q.isClosing = true ∧ databaseError ⟨q, a⟩ = true ∧ Computed codec θ db q a

/-- A finalization finds its task EXECUTING at the version it carries, and every
provider response can be marshalled. -/
def undisturbed (enc : ModelEncoding) (db : Db) : Sigma ModelAnswer → Bool
  | ⟨.finalizeModelExecution command, _⟩ => db.tasks.rows.any (fun t =>
      t.id = command.task.id ∧ t.status = .executing ∧ t.version = command.task.version)
  | ⟨.runtime (.generate ..), .ok response⟩ => (enc.marshalResponse response).isSome
  | _ => true

def Calm (enc : ModelEncoding) (codec : Codec) (θ : ModelCall) (db : Db) (q : ModelRequest)
    (a : ModelAnswer q) : Prop :=
  ¬Interrupted codec θ db q a ∧ ¬Refused codec θ db q a ∧ undisturbed enc db ⟨q, a⟩ = true

/-- A step of the calls, or of any other task command, in which nothing interrupts or disturbs
the end of a command. -/
abbrev CalmStep (enc : ModelEncoding) (codec : Codec) : ModelSystem → ModelSystem → Prop :=
  Step (executeModelIdempotent enc) (When (Calm enc codec) (modelAnswers codec))
    (TaskCommands codec)

abbrev CalmReach (enc : ModelEncoding) (codec : Codec) (s : ModelSystem) : Prop :=
  Reach (executeModelIdempotent enc) (When (Calm enc codec) (modelAnswers codec))
    (TaskCommands codec) Db.empty s

theorem Calm.no_error (h : Calm enc codec θ db q a)
    (hc : q.isClosing = true) : databaseError ⟨q, a⟩ = false := by
  by_contra hdb
  rw [Bool.not_eq_false] at hdb
  by_cases hcomputed : Computed codec θ db q a
  · exact h.2.1 ⟨hc, hdb, hcomputed⟩
  · exact h.1 ⟨hdb, hcomputed⟩

theorem calm_of_no_error
    (h : databaseError ⟨q, a⟩ = false) : ¬Interrupted codec θ db q a ∧ ¬Refused codec θ db q a := by
  unfold Interrupted Refused
  rw [h]
  simp

theorem taskCommands_effect (h : TaskCommands codec db db') :
    db' = db ∨ Tasks.Effect codec db db' := by
  cases h with
  | command call => exact exec_cases codec db call

variable {s : ModelSystem}

theorem reachable_traced (hr : ModelReachable enc codec s) : Traced s.shared :=
  hr.invariant traced_empty (fun _ _ _ _ _ ha ht => effect_traced (modelAnswers_effect ha) ht)
    (fun _ _ hc ht => effect_traced (taskCommands_effect hc) ht)

theorem begun_mem {h : ModelHistory} {x : ModelExecutionBeginCommit × Task}
    (hb : begun h = some x) : ∃ e ∈ h, begunBy e = some x :=
  exists_of_findSome?_eq_some hb

variable {i : Nat}

theorem reachable_begun (hr : ModelReachable enc codec s) (hj : s.job i = some θ)
    (hb : begun (s.history i) = some (command, task)) :
    Begun codec θ s.shared command task := by
  obtain ⟨e, he, hbegun⟩ := begun_mem hb
  have hr' := hr.with_invariant traced_empty
    (fun _ _ _ _ _ ha ht => effect_traced (modelAnswers_effect ha) ht)
    (fun _ _ hc ht => effect_traced (taskCommands_effect hc) ht)
  refine hr'.known (K := fun θ db e => ∀ command task, begunBy e = some (command, task) →
    Begun codec θ db command task) ?_ ?_ ?_ hj he command task hbegun
  · intro θ db q a db' ha command task hb
    exact begun_new ha.2 ha.1 hb
  · intro θ θ' db q a db' e ha hk command task hb
    exact (hk command task hb).later (modelAnswers_effect ha.2)
  · intro θ db db' e hc hk command task hb
    exact (hk command task hb).later (taskCommands_effect hc)

theorem reachable_clocks (hr : ModelReachable enc codec s) (hj : s.job i = some θ) :
    Clocks (s.history i) := by
  intro t ht
  refine hr.known (K := fun _ _ e => ∀ t : Time, e = (⟨.now, t⟩ : Sigma ModelAnswer) → 0 < t) ?_
    (fun _ _ _ _ _ _ _ _ hk => hk) (fun _ _ _ _ _ hk => hk) hj ht t rfl
  intro θ db q a db' ha t he
  cases he
  exact ha.1

theorem mem_generations {h : ModelHistory} {x : ProviderResponse}
    (hx : x ∈ generations (runtimeHistory h)) :
    ∃ e ∈ h, (runtimeEntry e).bind generated = some x := by
  unfold generations runtimeHistory at hx
  rw [filterMap_filterMap] at hx
  exact mem_filterMap.mp hx

theorem calm_marshals (hr : CalmReach enc codec s) (hj : s.job i = some θ) {x : ProviderResponse}
    (hx : x ∈ generations (runtimeHistory (s.history i))) : enc.marshalResponse x ≠ none := by
  obtain ⟨e, he, hgen⟩ := mem_generations hx
  refine hr.known (K := fun _ _ e => ∀ x, (runtimeEntry e).bind generated = some x →
    enc.marshalResponse x ≠ none) ?_ (fun _ _ _ _ _ _ _ _ hk => hk) (fun _ _ _ _ _ hk => hk) hj he
    x hgen
  rintro θ db q a db' ⟨⟨_, _, hcalm⟩, _⟩ x hgen
  cases q with
  | runtime q =>
    cases q with
    | generate =>
      cases a with
      | ok response =>
        cases hgen
        exact isSome_iff_ne_none.mp hcalm
      | error e => cases hgen
    | _ => cases hgen
  | _ => cases hgen

theorem current_of_undisturbed {command : ModelExecutionFinalizeCommit}
    {a : ModelAnswer (.finalizeModelExecution command)}
    (h : undisturbed enc db ⟨.finalizeModelExecution command, a⟩ = true) : Current db command := by
  obtain ⟨t, hm, ht⟩ := any_eq_true.mp h
  exact ⟨t, hm, of_decide_eq_true ht⟩

theorem closing_releases (hlaw : enc.Lawful codec) (hr : ModelReachable enc codec s)
    (hj : s.job i = some θ)
    (hq : Allowed enc codec θ (s.history i) q) (hc : q.isClosing = true)
    (hcalm : Calm enc codec θ s.shared q a) (ha : modelAnswers codec θ s.shared q a db')
    (hb : begun (s.history i) = some (command, task)) :
    ∃ row, db'.record command.idempotency.rowKey = some row ∧ row.status ≠ .inProgress := by
  have hbegun := reachable_begun hr hj hb
  have hdb := hcalm.no_error hc
  have hcurrent := hcalm.2.2
  cases q with
  | markModelExecutionRetryable record =>
    obtain ⟨_, command', task', hb', hf, _⟩ := hq
    rw [hb] at hb'
    cases hb'
    refine mark_releases hlaw hbegun hf ha ?_
    rintro text rfl
    cases hdb
  | finalizeModelExecution finalize =>
    obtain ⟨_, command', task', hb', hf, hfinal⟩ := hq
    rw [hb] at hb'
    cases hb'
    obtain ⟨hsame, hcommand⟩ := hfinal hlaw (reachable_clocks hr hj) hbegun.executing hbegun.traced
    obtain ⟨now, ha⟩ := ha
    refine finalize_releases hlaw (reachable_traced hr) hbegun hf hsame hcommand
      (current_of_undisturbed hcurrent) ha ?_
    rintro text rfl
    cases hdb
  | _ => cases hc

/--
Calls with any keys on any tasks run among any other task commands, without a
database failure or a cancelled context. If every finalization finds the stored
task EXECUTING at the version it carries, every provider response can be
marshalled and the database takes every value that ends a command, then whenever
a call that began a command returns, its own record is no longer in progress.
-/
theorem returned_record_closed (hlaw : enc.Lawful codec) {s s' : ModelSystem}
    (hr : CalmReach enc codec s) (hstep : CalmStep enc codec s s') {i : Nat}
    (hret : Returns s s' i) {command : ModelExecutionBeginCommit} {task : Task}
    (hb : begun (s'.history i) = some (command, task)) :
    ∃ row, s'.shared.record command.idempotency.rowKey = some row ∧ row.status ≠ .inProgress := by
  obtain ⟨θ, q, k, a, db', r, hi, ⟨hcalm, ha⟩, hk, rfl⟩ := hstep.returns hret
  have hjob : s.job i = some θ := by
    rw [job, hi]
    rfl
  have hconf := (hr.of_when.protocol (executeModelIdempotent_conforms enc codec)).conforms i θ _ hi
  obtain ⟨hq, hnext⟩ := Prog.conforms_request.mp hconf
  rw [history_advance_self, begun_snoc] at hb
  by_cases hc : q.isClosing = true
  · have hold : begun (s.history i) = some (command, task) := by
      have hnone : begunBy ⟨q, a⟩ = none := by cases q <;> first | rfl | cases hc
      rwa [hnone, or_none] at hb
    exact closing_releases hlaw hr.of_when hjob hq hc hcalm ha hold
  · -- a call that began a command does not return before it asked for the end
    have hr' := hr.next hstep
    have hjob' := hstep.job hjob
    have hfinal := hnext a
    rw [hk] at hfinal
    have hb' : begun ((s.advance i θ q a (k a) db').history i) = some (command, task) := by
      rw [history_advance_self, begun_snoc]
      exact hb
    have hclocks := reachable_clocks hr'.of_when hjob'
    have hexec := (reachable_begun hr'.of_when hjob' hb').executing
    rw [history_advance_self] at hclocks hb'
    rcases hfinal hlaw hclocks command task hb' hexec with hclosed | ⟨x, hx, hnone⟩
    · have hopen : Open (s.history i) := by cases q <;> first | exact hq | exact hq.1
      exact absurd (hopen.snoc (Bool.not_eq_true _ ▸ hc)) hclosed
    · rw [← history_advance_self s i θ q a (k a) db'] at hx
      exact absurd hnone (calm_marshals hr' hjob' hx)

theorem sampleModelEncoding_lawful : sampleModelEncoding.Lawful sampleCodec where
  failed := fun _ _ => ⟨_, rfl, Json.object_ne _, rfl⟩
  validation := fun _ => ⟨_, rfl, Json.object_ne _, rfl⟩
  completed := fun _ _ _ _ => ⟨_, rfl, Json.object_ne _, rfl⟩
  stored := fun stored hresponse hnone => by
    simp only [sampleModelEncoding, storedText, map_eq_none_iff] at hnone
    cases hx : stored.result.response with
    | none => simp [hx] at hnone
    | some x => exact hresponse x hx (by simpa [hx, sampleModelEncoding] using hnone)
  storedValid := fun _ _ _ => rfl

/-- The last step of a schedule whose steps meet a condition. -/
def modelLast (C : ModelCall → Db → (q : ModelRequest) → ModelAnswer q → Prop)
    [∀ θ db q a, Decidable (C θ db q a)] (moves : List ModelMove) (m : ModelMove) :
    Option (ModelSystem × ModelSystem) :=
  lastMove (executeModelIdempotent sampleModelEncoding)
    (guarded C (modelReply sampleCodec)) (commandChange sampleCodec) Db.empty moves m

theorem modelLast_step {G C : ModelCall → Db → (q : ModelRequest) → ModelAnswer q → Prop}
    [∀ θ db q a, Decidable (G θ db q a)] (hC : ∀ θ db q a, G θ db q a → C θ db q a)
    {P : ModelSystem × ModelSystem → Prop} [DecidablePred P]
    {moves : List ModelMove} {m : ModelMove}
    (h : (modelLast G moves m).any (fun r => P r) = true) : ∃ s s',
    Reach (executeModelIdempotent sampleModelEncoding)
      (When C (modelAnswers sampleCodec)) (TaskCommands sampleCodec) Db.empty s ∧
    Step (executeModelIdempotent sampleModelEncoding)
      (When C (modelAnswers sampleCodec)) (TaskCommands sampleCodec) s s' ∧ P (s, s') := by
  obtain ⟨r, hr, hP⟩ := (any_eq_true _ _).mp h
  have hchange : ∀ call db db', commandChange sampleCodec call db = some db' →
      TaskCommands sampleCodec db db' := fun _ _ _ => commandChange_commands
  obtain ⟨hreach, hstep⟩ := lastMove_step (fun θ choice db q a db' ha =>
    (guarded_when (modelReply_answers sampleCodec) θ choice db q a db' ha).imp_left (hC θ db q a))
    hchange hr
  exact ⟨r.1, r.2, hreach, hstep, of_decide_eq_true hP⟩

/-- A call up to its finalization. -/
def completingMoves : List ModelMove :=
  routedMoves ++ [.spawn (sampleModelCall "k")] ++ modelSteps 0 17 (sampleModelChoice (.ok ()) "a")
    ++ [.run 0 (sampleModelChoice (.ok ()) "b"), .run 0 (sampleModelChoice (.ok ()) "c")]

theorem returned_record_closed_completed :
    ∃ s s' : ModelSystem, CalmReach sampleModelEncoding sampleCodec s ∧
      CalmStep sampleModelEncoding sampleCodec s s' ∧ Returns s s' 0 ∧
      ∃ command task, begun (s'.history 0) = some (command, task) ∧
        ∃ row, s'.shared.record command.idempotency.rowKey = some row ∧
          row.status ≠ .inProgress := by
  have hrun : (modelLast (fun _ db q a => databaseError ⟨q, a⟩ = false ∧
      undisturbed sampleModelEncoding db ⟨q, a⟩ = true) completingMoves
      (.run 0 (sampleModelChoice (.ok ()) "c"))).any (fun r =>
        Returns r.1 r.2 0 ∧ (begun (r.2.history 0)).isSome = true) = true := by
    decide +kernel
  obtain ⟨s, s', hr, hstep, hret, hbegun⟩ := modelLast_step
    (fun _ _ _ _ h => and_assoc.mp (h.imp_left calm_of_no_error)) hrun
  obtain ⟨⟨command, task⟩, hb⟩ := isSome_iff_exists.mp hbegun
  exact ⟨s, s', hr, hstep, hret, command, task, hb,
    returned_record_closed sampleModelEncoding_lawful hr hstep hret hb⟩

/-- A second key is admitted while the provider runs, and its call completes the
task first. -/
def overtakenMoves : List ModelMove :=
  routedMoves ++ [.spawn (sampleModelCall "k")]
    ++ modelSteps 0 15 (sampleModelChoice (.ok ()) "a") ++ [.spawn (sampleModelCall "k2")]
    ++ modelSteps 1 17 (sampleModelChoice (.ok ()) "b")
    ++ modelSteps 1 2 (sampleModelChoice (.ok ()) "c")
    ++ modelSteps 0 3 (sampleModelChoice (.ok ()) "d")
    ++ modelSteps 0 1 (sampleModelChoice (.ok ()) "e")

/-- Nothing was interrupted or refused, and the call returned with its record still in
progress. -/
theorem returned_in_progress :
    let answers := When (fun θ db q a => ¬Interrupted sampleCodec θ db q a ∧
      ¬Refused sampleCodec θ db q a) (modelAnswers sampleCodec)
    ∃ s s' : ModelSystem, Reach (executeModelIdempotent sampleModelEncoding) answers
        (TaskCommands sampleCodec) Db.empty s ∧
      Step (executeModelIdempotent sampleModelEncoding) answers (TaskCommands sampleCodec) s s' ∧
      Returns s s' 0 ∧ ∃ command task row, begun (s'.history 0) = some (command, task) ∧
        s'.shared.record command.idempotency.rowKey = some row ∧ row.status = .inProgress := by
  have hrun : (modelLast (fun _ _ q a => databaseError ⟨q, a⟩ = false) overtakenMoves
      (.run 0 (sampleModelChoice (.ok ()) "e"))).any (fun r =>
        Returns r.1 r.2 0 ∧ (begun (r.2.history 0)).any (fun b =>
          (r.2.shared.record b.1.idempotency.rowKey).any (fun row =>
            row.status = .inProgress)) = true) = true := by
    decide +kernel
  obtain ⟨s, s', hr, hstep, hret, hbegun⟩ := modelLast_step (fun _ _ _ _ => calm_of_no_error) hrun
  obtain ⟨⟨command, task⟩, hb, hrow⟩ := (any_eq_true _ _).mp hbegun
  obtain ⟨row, hrow, hst⟩ := (any_eq_true _ _).mp hrow
  exact ⟨s, s', hr, hstep, hret, command, task, row, hb, hrow, of_decide_eq_true hst⟩

end AiCloud.ControlPlane
