import AiCloud.Tasks.Store
import AiCloud.Lib.Program
import AiCloud.Workflow.Activities

/-!
# Leasing and reporting outbox messages

`Lease`, `MarkDelivered` and `FailDelivery` of the scoped outbox repository. A lease
takes pending messages that are due and delivering ones whose lease is over. A report is
guarded by the message's status and by the name of its lease owner. The dispatcher
leases a batch and works it off: calls of the store, of Temporal and of other adapters
are requests.
-/
namespace AiCloud.Outbox

open Lib Text Identity Execution Tasks Tx Prog Table List Workflow

inductive OutboxError
  | invalid (text : String)
  | identity (e : IdentityError)
  | database (text : String)
  | leaseLost

abbrev OutboxTx := Tx Db OutboxError

structure LeasedOutboxMessage where
  message : OutboxMessage
  leaseOwner : String
  leaseExpiresAt : Time
  lastError : String

def scope (ctx : Context) : Except OutboxError Principal :=
  match scopedPrincipal ctx with
  | .error e => .error (.identity e)
  | .ok p => .ok p

def updateOutbox (context : String) (p : OutboxRow → Prop) [DecidablePred p]
    (f : OutboxRow → OutboxRow) : OutboxTx Nat :=
  statement (fun db => (db.outbox.update p f).map (fun r => (r.1, { db with outbox := r.2 })))
    (.database context)

variable (p : Principal)

/-- Due and pending, or under a lease that is over. -/
def Leasable (now : Time) (r : OutboxRow) : Prop :=
  InScope p r.message.tenantID r.message.projectID ∧
    ((r.message.status = .pending ∧ r.message.availableAt ≤ now) ∨
      (r.message.status = .delivering ∧ r.leaseExpiresAt.any (fun expires => expires ≤ now)))

instance (now : Time) (r : OutboxRow) : Decidable (Leasable p now r) :=
  inferInstanceAs (Decidable (_ ∧ _))

/-- `ORDER BY available_at, created_at, outbox_id`. -/
def leaseOrder (a b : OutboxRow) : Bool :=
  if a.message.availableAt ≠ b.message.availableAt then
    a.message.availableAt < b.message.availableAt
  else if a.message.createdAt ≠ b.message.createdAt then a.message.createdAt < b.message.createdAt
  else a.message.outboxID ≤ b.message.outboxID

/-- The rows a lease picks; `locked` are the ids other transactions hold. -/
def candidates (now : Time) (locked : List String) (limit : Int)
    (rows : List OutboxRow) : List OutboxRow :=
  ((rows.filter (fun r => Leasable p now r ∧ r.message.outboxID ∉ locked)).mergeSort
    leaseOrder).take (min limit 1000).toNat

def leaseRow (owner : String) (expires : Time) (r : OutboxRow) : OutboxRow :=
  { r with
    message := { r.message with status := .delivering, attempts := r.message.attempts + 1 }
    leaseOwner := some owner
    leaseExpiresAt := some expires }

/-- The columns `RETURNING` reads back of a leased row. -/
def leasedMessage (owner : String) (expires : Time) (r : OutboxRow) : LeasedOutboxMessage :=
  ⟨(leaseRow owner expires r).message, owner, expires, r.lastError⟩

def lease (codec : Codec) (ctx : Context) (locked : List String) (owner : String) (limit : Int)
    (now leaseDuration : Time) : OutboxTx (List LeasedOutboxMessage) := do
  failIf (trimSpace owner = "" ∨ limit < 1 ∨ leaseDuration ≤ 0 ∨ now = 0)
    (.invalid "lease owner, positive limit, current time and lease duration are required")
  let p ← lift (scope ctx)
  let picked ← read (fun db => candidates p now locked limit db.outbox.rows)
  let _ ← updateOutbox "lease outbox messages"
    (fun r => r.message.outboxID ∈ picked.map (fun r => r.message.outboxID))
    (leaseRow (trimSpace owner) (now + leaseDuration))
  let leased := picked.map (leasedMessage (trimSpace owner) (now + leaseDuration))
  failIf (∃ item ∈ leased, codec.valid item.message.payload = false)
    (.invalid "outbox contains invalid JSON payload")
  return leased

/-- The guard of a report: the message is out for delivery under this owner's name. -/
def Held (outboxID owner : String) (r : OutboxRow) : Prop :=
  (r.message.outboxID = outboxID ∧ InScope p r.message.tenantID r.message.projectID) ∧
    r.message.status = .delivering ∧ r.leaseOwner = some owner

instance (outboxID owner : String) (r : OutboxRow) :
    Decidable (Held p outboxID owner r) := inferInstanceAs (Decidable (_ ∧ _))

def deliverRow (deliveredAt : Time) (r : OutboxRow) : OutboxRow :=
  { message := { r.message with status := .delivered, deliveredAt := some deliveredAt }
    leaseOwner := none
    leaseExpiresAt := none
    lastError := "" }

def markDelivered (ctx : Context) (outboxID owner : String) (deliveredAt : Time) :
    OutboxTx Unit := do
  failIf (Blank outboxID ∨ Blank owner ∨ deliveredAt = 0)
    (.invalid "outbox id, lease owner and delivered time are required")
  let p ← lift (scope ctx)
  let affected ← updateOutbox "mark outbox delivered" (Held p outboxID owner)
    (deliverRow deliveredAt)
  failIf (affected ≠ 1) .leaseLost

def releaseRow (status : OutboxStatus) (availableAt : Time) (reason : String)
    (r : OutboxRow) : OutboxRow :=
  { message := { r.message with status := status, availableAt := availableAt }
    leaseOwner := none
    leaseExpiresAt := none
    lastError := trimSpace reason }

/-- Back to pending until `nextAvailableAt`, or to dead_letter after `maxAttempts`. -/
def failDelivery (ctx : Context) (outboxID owner : String) (now nextAvailableAt : Time)
    (maxAttempts : Int) (reason : String) : OutboxTx OutboxStatus := do
  failIf (Blank outboxID ∨ Blank owner ∨ now = 0 ∨ nextAvailableAt = 0 ∨ maxAttempts < 1)
    (.invalid "outbox id, lease owner, times and positive max attempts are required")
  let p ← lift (scope ctx)
  let row ← query (fun db => db.outbox.rows.find? (fun r => Held p outboxID owner r)) .leaseLost
  let dead := maxAttempts ≤ row.message.attempts
  let status := if dead then OutboxStatus.deadLetter else .pending
  let affected ← updateOutbox "record outbox delivery failure" (Held p outboxID owner)
    (releaseRow status (if dead then now else nextAvailableAt) reason)
  failIf (affected ≠ 1) .leaseLost
  return status

variable {db : Db}

theorem row_unique {a b : OutboxRow} (ha : a ∈ db.outbox.rows) (hb : b ∈ db.outbox.rows)
    (h : a.message.outboxID = b.message.outboxID) : a = b :=
  eq_of_key (fun r : OutboxRow => r.message.outboxID) (fun _ _ => Or.inl) ha hb h

variable {db' : Db}

theorem updateOutbox_ok {context : String} {p : OutboxRow → Prop} [DecidablePred p]
    {f : OutboxRow → OutboxRow} {n : Nat}
    (h : updateOutbox context p f db = .ok (n, db')) :
    n = db.outbox.rows.countP (fun r => decide (p r)) ∧
      ∃ t, db' = { db with outbox := t } ∧ t.rows = db.outbox.rows.map (touch p f) := by
  simp only [updateOutbox, statement_ok, Option.map_eq_some_iff, Prod.mk.injEq] at h
  obtain ⟨⟨m, t⟩, hup, rfl, rfl⟩ := h
  obtain ⟨hn, hrows⟩ := update_some hup
  exact ⟨hn, t, rfl, hrows⟩

variable {p : Principal} {locked : List String} {limit : Int} {now : Time}

theorem mem_candidates {rows : List OutboxRow} {r : OutboxRow}
    (h : r ∈ candidates p now locked limit rows) : r ∈ rows ∧ Leasable p now r := by
  have hm := mem_mergeSort.mp (mem_of_mem_take h)
  obtain ⟨hr, hc⟩ := mem_filter.mp hm
  exact ⟨hr, (of_decide_eq_true hc).1⟩

theorem outboxIDs_nodup (db : Db) : (db.outbox.rows.map (fun r => r.message.outboxID)).Nodup := by
  unfold Nodup
  rw [pairwise_map]
  exact db.outbox.distinct.imp (fun hclash hid => hclash (Or.inl hid))

theorem candidates_nodup {rows : List OutboxRow}
    (h : (rows.map (fun r => r.message.outboxID)).Nodup) :
    ((candidates p now locked limit rows).map (fun r => r.message.outboxID)).Nodup := by
  have hfilter : ∀ q : OutboxRow → Bool,
      ((rows.filter q).map (fun r => r.message.outboxID)).Nodup := fun q =>
    h.sublist (filter_sublist.map _)
  have hsorted : ∀ sub : List OutboxRow, (sub.map (fun r => r.message.outboxID)).Nodup →
      ((sub.mergeSort leaseOrder).map (fun r => r.message.outboxID)).Nodup := fun sub hs =>
    (((mergeSort_perm sub leaseOrder).map _).nodup_iff).mpr hs
  exact (hsorted _ (hfilter _)).sublist ((take_sublist _ _).map _)

theorem lease_ok {codec : Codec} {ctx : Context} {owner : String} {leaseDuration : Time}
    {items : List LeasedOutboxMessage}
    (h : lease codec ctx locked owner limit now leaseDuration db = .ok (items, db')) :
    ∃ p, ∃ picked : List OutboxRow, ∃ t, db' = { db with outbox := t } ∧
      (∀ r ∈ picked, r ∈ db.outbox.rows ∧ Leasable p now r) ∧
      (picked.map (fun r => r.message.outboxID)).Nodup ∧
      items = picked.map (leasedMessage (trimSpace owner) (now + leaseDuration)) ∧
      t.rows = db.outbox.rows.map (touch
        (fun r => r.message.outboxID ∈ picked.map (fun r => r.message.outboxID))
        (leaseRow (trimSpace owner) (now + leaseDuration))) := by
  unfold lease at h
  simp only [↓failIf_bind_ok, ↓lift_bind_ok, ↓read_bind_ok, bind_ok, pure_ok] at h
  obtain ⟨_, p, _, _, _, hup, _, rfl, rfl⟩ := h
  obtain ⟨_, t, rfl, ht⟩ := updateOutbox_ok hup
  exact ⟨p, _, t, rfl, fun r => mem_candidates, candidates_nodup (outboxIDs_nodup db), rfl, ht⟩

variable {outboxID owner : String} {ctx : Context}

theorem held_of_count (h : db.outbox.rows.countP (fun r => decide (Held p outboxID owner r)) = 1) :
    ∃ r ∈ db.outbox.rows, Held p outboxID owner r := by
  have hpos : 0 < db.outbox.rows.countP (fun r => decide (Held p outboxID owner r)) := by omega
  obtain ⟨r, hr, hd⟩ := countP_pos_iff.mp hpos
  exact ⟨r, hr, of_decide_eq_true hd⟩

theorem markDelivered_ok {deliveredAt : Time} {u : Unit}
    (h : markDelivered ctx outboxID owner deliveredAt db = .ok (u, db')) :
    ∃ p t, db' = { db with outbox := t } ∧ (∃ r ∈ db.outbox.rows, Held p outboxID owner r) ∧
      t.rows = db.outbox.rows.map (touch (Held p outboxID owner) (deliverRow deliveredAt)) := by
  unfold markDelivered at h
  simp only [↓failIf_bind_ok, ↓lift_bind_ok, bind_ok, failIf_ok] at h
  obtain ⟨_, p, _, n, _, hup, hn, rfl⟩ := h
  obtain ⟨hcount, t, rfl, ht⟩ := updateOutbox_ok hup
  exact ⟨p, t, rfl, held_of_count (hcount.symm.trans (not_not.mp hn)), ht⟩

theorem failDelivery_ok {nextAvailableAt : Time} {maxAttempts : Int} {reason : String}
    {status : OutboxStatus}
    (h : failDelivery ctx outboxID owner now nextAvailableAt maxAttempts reason db =
      .ok (status, db')) :
    ∃ p row availableAt t, db' = { db with outbox := t } ∧ row ∈ db.outbox.rows ∧
      Held p outboxID owner row ∧
      status = (if maxAttempts ≤ row.message.attempts then OutboxStatus.deadLetter else .pending) ∧
      t.rows = db.outbox.rows.map
        (touch (Held p outboxID owner) (releaseRow status availableAt reason)) := by
  unfold failDelivery at h
  simp only [↓failIf_bind_ok, ↓lift_bind_ok, ↓query_bind_ok, bind_ok, pure_ok] at h
  obtain ⟨_, p, _, row, hrow, n, _, hup, _, rfl, rfl⟩ := h
  obtain ⟨_, t, rfl, ht⟩ := updateOutbox_ok hup
  have hheld := find?_some hrow
  exact ⟨p, row, _, t, rfl, mem_of_find?_eq_some hrow, of_decide_eq_true hheld, rfl, ht⟩

theorem markDelivered_lost {deliveredAt : Time} (hid : ¬ Blank outboxID) (howner : ¬ Blank owner)
    (hat : deliveredAt ≠ 0) (hscope : scope ctx = .ok p)
    (hlost : ∀ r ∈ db.outbox.rows, ¬ Held p outboxID owner r) :
    markDelivered ctx outboxID owner deliveredAt db = .error .leaseLost := by
  obtain ⟨t, ht⟩ := update_missed (f := deliverRow deliveredAt) hlost
  unfold markDelivered
  have hargs : ¬ (Blank outboxID ∨ Blank owner ∨ deliveredAt = 0) := by
    simp [hid, howner, hat]
  have hupdate : updateOutbox "mark outbox delivered" (Held p outboxID owner)
      (deliverRow deliveredAt) db = .ok (0, { db with outbox := t }) := by
    simp [updateOutbox, statement, ht]
  rw [bind_of_ok (a := ()) (failIf_ok.mpr ⟨hargs, rfl⟩),
    bind_of_ok (lift_ok.mpr ⟨hscope, rfl⟩), bind_of_ok hupdate]
  rfl

theorem failDelivery_lost {nextAvailableAt : Time} {maxAttempts : Int} {reason : String}
    (hid : ¬ Blank outboxID) (howner : ¬ Blank owner) (hnow : now ≠ 0) (hnext : nextAvailableAt ≠ 0)
    (hmax : 1 ≤ maxAttempts) (hscope : scope ctx = .ok p)
    (hlost : ∀ r ∈ db.outbox.rows, ¬ Held p outboxID owner r) :
    failDelivery ctx outboxID owner now nextAvailableAt maxAttempts reason db =
      .error .leaseLost := by
  unfold failDelivery
  have hargs : ¬ (Blank outboxID ∨ Blank owner ∨ now = 0 ∨ nextAvailableAt = 0 ∨
    maxAttempts < 1) := by
    simp [hid, howner, hnow, hnext, hmax]
  have hnone : db.outbox.rows.find? (Held p outboxID owner) = none := by
    rw [find?_eq_none]
    intro r hr
    simpa using hlost r hr
  rw [bind_of_ok (a := ()) (failIf_ok.mpr ⟨hargs, rfl⟩), bind_of_ok (lift_ok.mpr ⟨hscope, rfl⟩)]
  apply bind_of_error
  simp only [query, hnone]

/-- What is registered for a destination: the workflow start adapter over an
engine, or any other adapter. -/
inductive Adapter
  | workflowStart (engine : TemporalEngine)
  | other
  deriving DecidableEq

/-- A dispatcher as `NewDispatcher` and `Register` build it. Workflow starts go
to the workflow start adapter or are not configured. -/
structure Dispatcher where
  owner : String
  leaseDuration : Time
  maxAttempts : Int
  baseBackoff : Time
  adapters : String → Option Adapter
  trimmed : trimSpace owner = owner
  named : owner ≠ ""
  positive : 0 < leaseDuration ∧ 1 ≤ maxAttempts ∧ 0 < baseBackoff
  starts : adapters destinationWorkflowStart ≠ some .other

inductive Request
  | now
  | lease (owner : String) (limit : Int) (now leaseDuration : Time)
  | start (request : TemporalStartRequest)
  | deliver (message : OutboxMessage)
  | markDelivered (outboxID owner : String) (deliveredAt : Time)
  | failDelivery (outboxID owner : String) (now nextAvailableAt : Time) (maxAttempts : Int)
      (reason : String)
  deriving DecidableEq

def Answer : Request → Type
  | .now => Time
  | .lease .. => Except OutboxError (List LeasedOutboxMessage)
  | .start _ => Except String TemporalStartResult
  | .deliver _ => Except String Unit
  | .markDelivered .. => Except OutboxError Unit
  | .failDelivery .. => Except OutboxError OutboxStatus

abbrev DispatchProg := Prog Request Answer

abbrev askNow : DispatchProg Time := request (A := Answer) .now

abbrev askLease (owner : String) (limit : Int) (now leaseDuration : Time) :
    DispatchProg (Except OutboxError (List LeasedOutboxMessage)) :=
  request (A := Answer) (.lease owner limit now leaseDuration)

abbrev askStart (request : TemporalStartRequest) :
    DispatchProg (Except String TemporalStartResult) :=
  Prog.request (A := Answer) (.start request)

abbrev askDeliver (m : OutboxMessage) : DispatchProg (Except String Unit) :=
  request (A := Answer) (.deliver m)

abbrev askMarkDelivered (outboxID owner : String) (deliveredAt : Time) :
    DispatchProg (Except OutboxError Unit) :=
  request (A := Answer) (.markDelivered outboxID owner deliveredAt)

abbrev askFailDelivery (outboxID owner : String) (now nextAvailableAt : Time) (maxAttempts : Int)
    (reason : String) : DispatchProg (Except OutboxError OutboxStatus) :=
  request (A := Answer) (.failDelivery outboxID owner now nextAvailableAt maxAttempts reason)

structure DispatchResult where
  (leased delivered retried deadLetter failed : Nat)

inductive DispatchError
  | store (e : OutboxError)
  | destinationNotConfigured (destination : String)

/-- The counts and the joined errors of a run so far. -/
abbrev Progress := DispatchResult × List DispatchError

def maxBackoff : Time := 5 * 60 * 1000000

/-- Doubled at most `n` times, while below five minutes. -/
def double : Nat → Time → Time
  | 0, backoff => backoff
  | n + 1, backoff => if backoff < maxBackoff then double n (backoff * 2) else backoff

variable (d : Dispatcher)

def Dispatcher.backoff (attempt : Int) : Time :=
  min (double ((max attempt 1) - 1).toNat d.baseBackoff) maxBackoff

/-- `StartDeliveryAdapter.Deliver`. -/
def deliverStart (unmarshalPayload : String → Option StartPayload) (engine : TemporalEngine)
    (m : OutboxMessage) : DispatchProg (Except String Unit) :=
  match startDelivery unmarshalPayload m with
  | .error e => pure (.error e.text)
  | .ok request =>
    match engine.sends request with
    | .error e => pure (.error ("start durable Task workflow: " ++ e.text))
    | .ok sent => do
      match TemporalEngine.finish sent (← askStart sent) with
      | .error e => pure (.error ("start durable Task workflow: " ++ e.text))
      | .ok _ => pure (.ok ())

def deliver (unmarshalPayload : String → Option StartPayload) (adapter : Adapter)
    (m : OutboxMessage) : DispatchProg (Except String Unit) :=
  match adapter with
  | .workflowStart engine => deliverStart unmarshalPayload engine m
  | .other => askDeliver m

/-- A message without an adapter fails for good: its own attempts are the limit. -/
def rejectItem (now : Time) (item : LeasedOutboxMessage) (progress : Progress) :
    DispatchProg Progress := do
  let (result, errors) := progress
  match ← askFailDelivery item.message.outboxID d.owner now now item.message.attempts
      "outbox destination is not configured" with
  | .error e => pure ({ result with failed := result.failed + 1 }, errors ++ [.store e])
  | .ok status =>
    let error := DispatchError.destinationNotConfigured item.message.destination
    if status = .deadLetter then
      pure ({ result with deadLetter := result.deadLetter + 1 }, errors ++ [error])
    else pure (result, errors ++ [error])

def failItem (now : Time) (item : LeasedOutboxMessage) (reason : String)
    (progress : Progress) : DispatchProg Progress := do
  let (result, errors) := progress
  match ← askFailDelivery item.message.outboxID d.owner now
      (now + d.backoff item.message.attempts) d.maxAttempts reason with
  | .error e => pure ({ result with failed := result.failed + 1 }, errors ++ [.store e])
  | .ok status =>
    if status = .deadLetter then
      pure ({ result with deadLetter := result.deadLetter + 1 }, errors)
    else pure ({ result with retried := result.retried + 1 }, errors)

def confirmItem (item : LeasedOutboxMessage) (progress : Progress) : DispatchProg Progress := do
  let (result, errors) := progress
  let deliveredAt ← askNow
  match ← askMarkDelivered item.message.outboxID d.owner deliveredAt with
  | .error e => pure ({ result with failed := result.failed + 1 }, errors ++ [.store e])
  | .ok _ => pure ({ result with delivered := result.delivered + 1 }, errors)

section

variable (unmarshalPayload : String → Option StartPayload) (adapters : String → Option Adapter)
  (d : Dispatcher)

/-- `adapters` is what is registered for the destinations. -/
def dispatchItem (now : Time) (item : LeasedOutboxMessage) (progress : Progress) :
    DispatchProg Progress :=
  match adapters item.message.destination with
  | none => rejectItem d now item progress
  | some adapter => do
    match ← deliver unmarshalPayload adapter item.message with
    | .error reason => failItem d now item reason progress
    | .ok _ => confirmItem d item progress

def dispatchItems (now : Time) : List LeasedOutboxMessage → Progress → DispatchProg Progress
  | [], progress => pure progress
  | item :: rest, progress => do
    dispatchItems now rest (← dispatchItem unmarshalPayload adapters d now item progress)

def dispatchOnce (limit : Int) : DispatchProg (Except OutboxError Progress) := do
  let now ← askNow
  match ← askLease d.owner limit now d.leaseDuration with
  | .error e => pure (.error e)
  | .ok leased =>
    let progress ← dispatchItems unmarshalPayload adapters d now leased
      (⟨leased.length, 0, 0, 0, 0⟩, [])
    pure (.ok progress)

end

end AiCloud.Outbox
