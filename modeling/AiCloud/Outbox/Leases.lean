import AiCloud.Outbox.System

/-!
# What a dispatcher run asks for

A run reports only on messages it leased itself, under its own owner name. It confirms a
workflow start only after Temporal took the start, and gives a message up after its own
limit or, without an adapter, at once. For one message, every step of the system is a
lease, a report or nothing.
-/
namespace AiCloud.Outbox

open Lib Text Execution Tasks Workflow Prog List Identity

abbrev History := List (Sigma Answer)

def Leased (h : History) (item : LeasedOutboxMessage) : Prop :=
  ∃ owner limit now leaseDuration items,
    (⟨.lease owner limit now leaseDuration, Except.ok items⟩ : Sigma Answer) ∈ h ∧ item ∈ items

def Clocked (h : History) (t : Time) : Prop := (⟨.now, t⟩ : Sigma Answer) ∈ h

variable (unmarshalPayload : String → Option StartPayload)

/-- The start a message asks for. -/
def Requests (m : OutboxMessage) (sent : TemporalStartRequest) : Prop :=
  ∃ (engine : TemporalEngine) (request : StartRequest),
    startDelivery unmarshalPayload m = .ok request ∧ engine.sends request = .ok sent

/-- Temporal took the start the message asks for. -/
def Confirmed (h : History) (m : OutboxMessage) : Prop :=
  ∃ sent result, Requests unmarshalPayload m sent ∧
    (⟨.start sent, Except.ok result⟩ : Sigma Answer) ∈ h

def Allowed (d : Dispatcher) (h : History) : Request → Prop
  | .now => True
  | .lease owner _ _ _ => owner = d.owner
  | .start sent => ∃ item, Leased h item ∧ Requests unmarshalPayload item.message sent
  | .deliver _ => True
  | .markDelivered outboxID owner deliveredAt => owner = d.owner ∧ Clocked h deliveredAt ∧
      ∃ item, Leased h item ∧ item.message.outboxID = outboxID ∧
        (item.message.destination = destinationWorkflowStart →
          Confirmed unmarshalPayload h item.message)
  | .failDelivery outboxID owner now nextAvailableAt maxAttempts _ =>
    owner = d.owner ∧ Clocked h now ∧ now ≤ nextAvailableAt ∧
      ∃ item, Leased h item ∧ item.message.outboxID = outboxID ∧
        (maxAttempts = d.maxAttempts ∨ maxAttempts = item.message.attempts)

variable {unmarshalPayload} {d : Dispatcher} {h h' : History} {item : LeasedOutboxMessage}

theorem Leased.mono (hl : Leased h item) (hpre : h <+: h') : Leased h' item := by
  obtain ⟨owner, limit, now, leaseDuration, items, hm, hi⟩ := hl
  exact ⟨owner, limit, now, leaseDuration, items, hpre.subset hm, hi⟩

theorem Clocked.mono {t : Time} (hc : Clocked h t) (hpre : h <+: h') : Clocked h' t :=
  hpre.subset hc

theorem double_nonneg {n : Nat} {backoff : Time} (hb : 0 ≤ backoff) : 0 ≤ double n backoff := by
  induction n generalizing backoff with
  | zero => exact hb
  | succ n ih =>
    unfold double
    split
    · exact ih (by unfold Time at *; omega)
    · exact hb

theorem backoff_nonneg (d : Dispatcher) (attempt : Int) : 0 ≤ d.backoff attempt := by
  have hmax : (0 : Time) ≤ maxBackoff := by decide
  exact Int.le_min.mpr ⟨double_nonneg (Int.le_of_lt d.positive.2.2), hmax⟩

theorem deliver_conforms {adapter : Adapter} (hl : Leased h item)
    (ha : d.adapters item.message.destination = some adapter) :
    Conforms (Allowed unmarshalPayload d)
      (fun h' r => r = .ok () → item.message.destination = destinationWorkflowStart →
        Confirmed unmarshalPayload h' item.message) h
      (deliver unmarshalPayload adapter item.message) := by
  cases adapter with
  | other =>
    refine ⟨trivial, ?_⟩
    intro a _ hdest
    rw [hdest] at ha
    exact absurd ha d.starts
  | workflowStart engine =>
    cases hr : startDelivery unmarshalPayload item.message with
    | error e =>
      simp only [deliver, deliverStart, hr, conforms_pure]
      intro he
      cases he
    | ok request =>
      cases hs : engine.sends request with
      | error e =>
        simp only [deliver, deliverStart, hr, hs, conforms_pure]
        intro he
        cases he
      | ok sent =>
        simp only [deliver, deliverStart, hr, hs]
        refine ⟨⟨item, hl, engine, request, hr, hs⟩, ?_⟩
        intro a
        cases a with
        | error text =>
          intro he
          cases he
        | ok result =>
          intro _ _
          exact ⟨sent, result, ⟨engine, request, hr, hs⟩, mem_concat_self⟩

variable {progress : Progress} {now : Time}

theorem rejectItem_conforms (hl : Leased h item) (hc : Clocked h now) :
    Conforms (Allowed unmarshalPayload d) (fun _ _ => True) h (rejectItem d now item progress) := by
  refine ⟨⟨rfl, hc, Int.le_refl _, item, hl, rfl, Or.inr rfl⟩, ?_⟩
  intro a
  cases a with
  | error e => trivial
  | ok status => exact conforms_ite (fun _ => trivial) (fun _ => trivial)

theorem failItem_conforms {reason : String} (hl : Leased h item) (hc : Clocked h now) :
    Conforms (Allowed unmarshalPayload d) (fun _ _ => True) h
      (failItem d now item reason progress) := by
  have hnext : now ≤ now + d.backoff item.message.attempts :=
    Int.le_add_of_nonneg_right (backoff_nonneg d _)
  refine ⟨⟨rfl, hc, hnext, item, hl, rfl, Or.inl rfl⟩, ?_⟩
  intro a
  cases a with
  | error e => trivial
  | ok status => exact conforms_ite (fun _ => trivial) (fun _ => trivial)

theorem confirmItem_conforms (hl : Leased h item)
    (hconfirmed : item.message.destination = destinationWorkflowStart →
      Confirmed unmarshalPayload h item.message) :
    Conforms (Allowed unmarshalPayload d) (fun _ _ => True) h (confirmItem d item progress) := by
  refine ⟨trivial, ?_⟩
  intro deliveredAt
  have hpre := prefix_append h [(⟨.now, deliveredAt⟩ : Sigma Answer)]
  refine ⟨⟨rfl, mem_concat_self, item, hl.mono hpre, rfl, ?_⟩, ?_⟩
  · intro hdest
    obtain ⟨sent, result, hreq, hm⟩ := hconfirmed hdest
    exact ⟨sent, result, hreq, hpre.subset hm⟩
  · intro a
    cases a <;> trivial

theorem dispatchItem_conforms (hl : Leased h item) (hc : Clocked h now) :
    Conforms (Allowed unmarshalPayload d) (fun _ _ => True) h
      (dispatchItem unmarshalPayload d.adapters d now item progress) := by
  unfold dispatchItem
  split
  · exact rejectItem_conforms hl hc
  rename_i adapter ha
  refine conforms_bind (conforms_extends (deliver_conforms hl ha)) ?_
  rintro h' r ⟨hpre, hr⟩
  cases r with
  | error reason => exact failItem_conforms (hl.mono hpre) (hc.mono hpre)
  | ok u => exact confirmItem_conforms (hl.mono hpre) (hr rfl)

variable {items : List LeasedOutboxMessage}

theorem dispatchItems_conforms (hl : ∀ item ∈ items, Leased h item) (hc : Clocked h now) :
    Conforms (Allowed unmarshalPayload d) (fun _ _ => True) h
      (dispatchItems unmarshalPayload d.adapters d now items progress) := by
  induction items generalizing h progress with
  | nil => trivial
  | cons item rest ih =>
    refine conforms_bind (conforms_extends (dispatchItem_conforms (hl item mem_cons_self) hc)) ?_
    rintro h' r ⟨hpre, _⟩
    exact ih (fun item hm => (hl item (mem_cons_of_mem _ hm)).mono hpre) (hc.mono hpre)

theorem body_conforms (unmarshalPayload : String → Option StartPayload) (θ : Run) :
    Conforms (Allowed unmarshalPayload θ.dispatcher) (fun _ _ => True) []
      (body unmarshalPayload θ) := by
  refine ⟨trivial, fun now => ⟨rfl, ?_⟩⟩
  intro a
  cases a with
  | error e => trivial
  | ok leased =>
    change Conforms _ _ _ (dispatchItems unmarshalPayload _ θ.dispatcher now leased _ >>=
      fun progress => pure (Except.ok progress))
    refine conforms_bind (dispatchItems_conforms ?_ ?_) (fun _ _ _ => trivial)
    · intro item hm
      exact ⟨_, _, _, _, leased, mem_concat_self, hm⟩
    · exact mem_append_left _ (mem_singleton_self _)

def World.takenOf (w : World) (outboxID : String) : List Taken :=
  w.taken.filter (fun t => t.outboxID = outboxID)

/-- One message and the leases taken on it, through one request. -/
inductive RowStep (r : OutboxRow) (ts : List Taken) : Request → OutboxRow → List Taken → Prop
  | kept (q : Request) : RowStep r ts q r ts
  | leased (owner : String) (limit : Int) (now leaseDuration : Time)
      (status : r.message.status = .pending ∨ r.message.status = .delivering) :
      RowStep r ts (.lease owner limit now leaseDuration)
        (leaseRow (trimSpace owner) (now + leaseDuration) r)
        (ts ++ [⟨r.message.outboxID, trimSpace owner, decide (r.message.status = .delivering)⟩])
  | delivered (owner : String) (deliveredAt : Time) (status : r.message.status = .delivering)
      (held : r.leaseOwner = some owner) :
      RowStep r ts (.markDelivered r.message.outboxID owner deliveredAt)
        (deliverRow deliveredAt r) ts
  | failed (owner : String) (now nextAvailableAt : Time) (maxAttempts : Int) (reason : String)
      (availableAt : Time) (status : r.message.status = .delivering)
      (held : r.leaseOwner = some owner) : RowStep r ts
        (.failDelivery r.message.outboxID owner now nextAvailableAt maxAttempts reason)
        (releaseRow (if maxAttempts ≤ r.message.attempts then .deadLetter else .pending)
          availableAt reason r) ts

variable {r : OutboxRow}

theorem isDelivering_row {w : World} (hr : r ∈ w.rows) :
    w.isDelivering r.message.outboxID = decide (r.message.status = .delivering) := by
  unfold World.isDelivering
  rw [Bool.eq_iff_iff, any_eq_true]
  simp only [decide_eq_true_eq]
  constructor
  · rintro ⟨r', hr', hid, hst⟩
    obtain rfl : r' = r := row_unique hr' hr hid
    exact hst
  · intro hst
    exact ⟨r, hr, rfl, hst⟩

theorem filter_batch {ids : List String} (h : ids.Nodup) (f : String → Taken)
    (hf : ∀ id, (f id).outboxID = id) (id : String) :
    (ids.map f).filter (fun t => t.outboxID = id) = if id ∈ ids then [f id] else [] := by
  induction ids with
  | nil => rfl
  | cons head rest ih =>
    obtain ⟨hnot, hrest⟩ := nodup_cons.mp h
    rw [map_cons, filter_cons, hf, ih hrest]
    by_cases hid : head = id
    · subst hid
      rw [if_neg hnot]
      simp
    · have hne : id ≠ head := fun he => hid he.symm
      simp [hid, hne]

variable {q : Request} {w w' : World}

theorem Effect.rows (h : Effect w w' q) : ∃ g : OutboxRow → OutboxRow, w'.rows = w.rows.map g ∧
      ∀ r ∈ w.rows, RowStep r (w.takenOf r.message.outboxID) q (g r)
        (w'.takenOf r.message.outboxID) := by
  have hkeep : w'.taken = w.taken → ∀ id, w'.takenOf id = w.takenOf id := by
    intro ht id
    unfold World.takenOf
    rw [ht]
  cases h with
  | same q db taken =>
    refine ⟨id, by rw [World.rows, db, map_id]; rfl, ?_⟩
    intro r hr
    rw [hkeep taken]
    exact .kept q
  | leased owner limit now leaseDuration p picked mem nodup tasks rows taken =>
    refine ⟨_, rows, ?_⟩
    intro r hr
    have htaken : w'.takenOf r.message.outboxID = w.takenOf r.message.outboxID ++
        if r.message.outboxID ∈ picked.map (fun r => r.message.outboxID) then
          [⟨r.message.outboxID, trimSpace owner, w.isDelivering r.message.outboxID⟩] else [] := by
      have hbatch := filter_batch nodup
        (fun id => ⟨id, trimSpace owner, w.isDelivering id⟩) (fun _ => rfl) r.message.outboxID
      rw [map_map] at hbatch
      unfold World.takenOf
      rw [taken, filter_append]
      exact congrArg _ hbatch
    unfold Table.touch
    rw [htaken]
    by_cases hpicked : r.message.outboxID ∈ picked.map (fun r => r.message.outboxID)
    · rw [if_pos hpicked, if_pos hpicked, isDelivering_row hr]
      obtain ⟨r', hr', hid⟩ := mem_map.mp hpicked
      obtain ⟨hmem, hleasable⟩ := mem r' hr'
      obtain rfl : r' = r := row_unique hmem hr hid
      exact .leased owner limit now leaseDuration (hleasable.2.imp And.left And.left)
    · rw [if_neg hpicked, if_neg hpicked, append_nil]
      exact .kept _
  | delivered outboxID owner deliveredAt p held tasks rows taken =>
    refine ⟨_, rows, ?_⟩
    intro r hr
    rw [hkeep taken]
    unfold Table.touch
    by_cases hr' : Held p outboxID owner r
    · rw [if_pos hr', ← hr'.1.1]
      exact .delivered owner deliveredAt hr'.2.1 hr'.2.2
    · rw [if_neg hr']
      exact .kept _
  | failed outboxID owner now nextAvailableAt maxAttempts reason p row status availableAt mem held
      limit tasks rows taken =>
      refine ⟨_, rows, ?_⟩
      intro r hr
      rw [hkeep taken]
      unfold Table.touch
      by_cases hr' : Held p outboxID owner r
      · obtain rfl : r = row := row_unique hr mem (hr'.1.1.trans held.1.1.symm)
        rw [if_pos hr', ← hr'.1.1, limit]
        exact .failed owner now nextAvailableAt maxAttempts reason availableAt hr'.2.1 hr'.2.2
      · rw [if_neg hr']
        exact .kept _

/-- A message without the columns leases and reports write. -/
def fixedColumns (m : OutboxMessage) : OutboxMessage :=
  { m with status := .pending, attempts := 0, availableAt := 0, deliveredAt := none }

/-- Delivered or given up. -/
def Settled (status : OutboxStatus) : Prop := status = .delivered ∨ status = .deadLetter

/-- A later state of a message: the same message, no fewer attempts, and
settled if it was settled. -/
structure Later (r r' : OutboxRow) : Prop where
  message : fixedColumns r'.message = fixedColumns r.message
  attempts : r.message.attempts ≤ r'.message.attempts
  settled : Settled r.message.status → r'.message.status = r.message.status

theorem fixedColumns_outboxID {m m' : OutboxMessage} (h : fixedColumns m' = fixedColumns m) :
    m'.outboxID = m.outboxID := by
  change (fixedColumns m').outboxID = (fixedColumns m).outboxID
  rw [h]

theorem fixedColumns_delivery {m m' : OutboxMessage} (h : fixedColumns m' = fixedColumns m) :
    m'.destination = m.destination ∧ m'.taskID = m.taskID := by
  change (fixedColumns m').destination = (fixedColumns m).destination ∧
    (fixedColumns m').taskID = (fixedColumns m).taskID
  rw [h]
  exact ⟨rfl, rfl⟩

theorem Later.outboxID {r' : OutboxRow} (h : Later r r') :
    r'.message.outboxID = r.message.outboxID :=
  fixedColumns_outboxID h.message

theorem Later.refl (r : OutboxRow) : Later r r :=
  ⟨rfl, Int.le_refl _, fun _ => rfl⟩

theorem Later.trans {a b c : OutboxRow} (h : Later a b) (h' : Later b c) : Later a c := by
  refine ⟨h'.message.trans h.message, Int.le_trans h.attempts h'.attempts, ?_⟩
  intro hs
  have hb := h.settled hs
  rw [← hb] at hs ⊢
  exact h'.settled hs

theorem not_settled_delivering {status : OutboxStatus} (h : status = .delivering) :
    ¬ Settled status := by
  rintro (hs | hs) <;> rw [h] at hs <;> cases hs

theorem RowStep.later {r' : OutboxRow} {ts ts' : List Taken} (h : RowStep r ts q r' ts') :
    Later r r' := by
  cases h with
  | kept => exact Later.refl r
  | leased owner limit now leaseDuration status =>
    refine ⟨rfl, ?_, ?_⟩
    · change r.message.attempts ≤ r.message.attempts + 1
      omega
    · rintro (hs | hs) <;> rcases status with hst | hst <;> rw [hs] at hst <;> cases hst
  | delivered owner deliveredAt status held =>
    exact ⟨rfl, Int.le_refl _, fun hs => absurd hs (not_settled_delivering status)⟩
  | failed owner now nextAvailableAt maxAttempts reason availableAt status held =>
    exact ⟨rfl, Int.le_refl _, fun hs => absurd hs (not_settled_delivering status)⟩

variable {θ : Run} {codec : Codec}

theorem answers_later {a : Answer q} (h : answers codec θ w q a w')
    (hr : r ∈ w.rows) : ∃ r' ∈ w'.rows, Later r r' := by
  obtain ⟨g, hrows, hstep⟩ := (answers_effect h).rows
  refine ⟨g r, ?_, (hstep r hr).later⟩
  rw [hrows]
  exact mem_map_of_mem hr

theorem commands_post (h : Commands codec w w') :
    ∃ rows, w'.rows = w.rows ++ rows ∧ ∀ r ∈ rows, Fresh r := by
  cases h with
  | command call => exact exec_outbox codec w.db call

theorem commands_later (h : Commands codec w w') (hr : r ∈ w.rows) : r ∈ w'.rows := by
  obtain ⟨rows, hrows, _⟩ := commands_post h
  rw [hrows]
  exact mem_append_left _ hr

variable {codec : Codec} {unmarshalPayload : String → Option StartPayload} {s : DispatchSystem}

/-- The message is in the outbox, and was leased at least once. -/
def InOutbox (w : World) (m : OutboxMessage) : Prop :=
  1 ≤ m.attempts ∧ ∃ r ∈ w.rows, fixedColumns r.message = fixedColumns m ∧
    m.attempts ≤ r.message.attempts

/-- What stays true of an answer once it was given. -/
def Known (θ : Run) (w : World) : Sigma Answer → Prop
  | ⟨.now, t⟩ => 0 < (show Time from t)
  | ⟨.lease .., a⟩ => ∀ items, a = .ok items →
      (∃ p, scope θ.ctx = .ok p) ∧ ∀ item ∈ items, InOutbox w item.message
  | ⟨.start sent, a⟩ => ∀ result, a = .ok result → ∃ x ∈ w.workflows, x.id = sent.workflowID
  | _ => True

theorem lease_scope {ctx : Context} {locked : List String} {owner : String} {limit : Int}
    {now leaseDuration : Time} {db db' : Db}
    (h : lease codec ctx locked owner limit now leaseDuration db = .ok (items, db')) :
    ∃ p, scope ctx = .ok p := by
  unfold lease at h
  simp only [↓Tx.failIf_bind_ok, ↓Tx.lift_bind_ok] at h
  obtain ⟨_, p, hp, _⟩ := h
  exact ⟨p, hp⟩

theorem takeLease_known {locked : List String} {owner : String} {limit : Int}
    {now leaseDuration : Time} {w : World}
    (h : (takeLease codec θ.ctx locked owner limit now leaseDuration w).1 = .ok items) :
    (∃ p, scope θ.ctx = .ok p) ∧ ∀ item ∈ items,
      InOutbox (takeLease codec θ.ctx locked owner limit now leaseDuration w).2 item.message := by
  unfold takeLease at h ⊢
  split at h
  · cases h
  rename_i items' db hl
  cases h
  refine ⟨lease_scope hl, ?_⟩
  obtain ⟨p, picked, t, rfl, hmem, _, rfl, ht⟩ := lease_ok hl
  intro item hi
  obtain ⟨r, hr, rfl⟩ := mem_map.mp hi
  have hrow : leaseRow (trimSpace owner) (now + leaseDuration) r ∈ t.rows := by
    rw [ht]
    refine mem_map.mpr ⟨r, (hmem r hr).1, ?_⟩
    exact if_pos (mem_map_of_mem hr)
  have hattempts := (w.db.outbox.checked r (hmem r hr).1).1.1.1
  refine ⟨?_, _, hrow, rfl, Int.le_refl _⟩
  change 1 ≤ r.message.attempts + 1
  omega

variable {w w' : World} {θ : Run}

theorem InOutbox.later {m : OutboxMessage} (h : InOutbox w m)
    (hlater : ∀ r ∈ w.rows, ∃ r' ∈ w'.rows, Later r r') : InOutbox w' m := by
  obtain ⟨hone, r, hr, hfixed, hattempts⟩ := h
  obtain ⟨r', hr', hl⟩ := hlater r hr
  exact ⟨hone, r', hr', hl.message.trans hfixed, Int.le_trans hattempts hl.attempts⟩

theorem Known.later {e : Sigma Answer} (h : Known θ w e)
    (hrows : ∀ r ∈ w.rows, ∃ r' ∈ w'.rows, Later r r')
    (hworkflows : ∀ x ∈ w.workflows, x ∈ w'.workflows) : Known θ w' e := by
  obtain ⟨q, a⟩ := e
  cases q with
  | now => exact h
  | lease owner limit now leaseDuration =>
    intro items ha
    obtain ⟨hscope, hin⟩ := h items ha
    exact ⟨hscope, fun item hi => (hin item hi).later hrows⟩
  | start sent =>
    intro result ha
    obtain ⟨x, hx, hid⟩ := h result ha
    exact ⟨x, hworkflows x hx, hid⟩
  | deliver | markDelivered | failDelivery => trivial

theorem known_answer {a : Answer q} (h : answers codec θ w q a w') : Known θ w' ⟨q, a⟩ := by
  cases q with
  | now => exact h.1
  | lease owner limit now leaseDuration =>
    intro items ha
    obtain ⟨locked, hout⟩ := h
    rcases hout with ⟨rfl, rfl⟩ | ⟨⟨text, rfl⟩, _⟩
    · exact takeLease_known ha
    · cases ha
  | start sent =>
    intro result ha
    cases h with
    | started runID fresh =>
      exact ⟨_, mem_concat_self, rfl⟩
    | duplicate runID known => exact known
    | failed text => cases ha
    | lost text fresh => cases ha
  | deliver | markDelivered | failDelivery => trivial

theorem answers_workflows_kept {a : Answer q} (h : answers codec θ w q a w') {x : StartedWorkflow}
    (hx : x ∈ w.workflows) : x ∈ w'.workflows := by
  rcases answers_workflows h with hsame | ⟨sent, _, _, rfl⟩
  · rw [hsame]
    exact hx
  · exact mem_append_left _ hx

theorem reachable_known (h : Reachable codec unmarshalPayload s) {i : Nat} {e : Sigma Answer}
    (hj : s.job i = some θ) (he : e ∈ s.history i) : Known θ s.shared e := by
  refine h.known (fun _ _ _ _ _ ha => known_answer ha) ?_ ?_ hj he
  · intro θ θ' w q a w' e ha hk
    exact hk.later (fun r hr => answers_later ha hr) (fun x hx => answers_workflows_kept ha hx)
  · intro θ w w' e henv hk
    refine hk.later (fun r hr => ⟨r, commands_later henv hr, Later.refl r⟩) ?_
    cases henv with
    | command call => exact fun x hx => hx

theorem reachable_leased (h : Reachable codec unmarshalPayload s) {i : Nat}
    {item : LeasedOutboxMessage} (hj : s.job i = some θ) (hl : Leased (s.history i) item) :
    (∃ p, scope θ.ctx = .ok p) ∧ InOutbox s.shared item.message := by
  obtain ⟨owner, limit, now, leaseDuration, items, hm, hi⟩ := hl
  obtain ⟨hscope, hin⟩ := reachable_known h hj hm items rfl
  exact ⟨hscope, hin item hi⟩

theorem reachable_allowed (h : Reachable codec unmarshalPayload s) {i : Nat}
    {k : Answer q → DispatchProg (Except OutboxError Progress)}
    (hi : s.threads[i]? = some (θ, .ask q k)) :
    s.job i = some θ ∧ Allowed unmarshalPayload θ.dispatcher (s.history i) q := by
  have hproto := h.protocol (body_conforms unmarshalPayload)
  refine ⟨?_, (hproto.conforms i θ _ hi).1⟩
  rw [System.job, hi]
  rfl

theorem taken_known (h : Reachable codec unmarshalPayload s) :
    ∀ t ∈ s.shared.taken, ∃ r ∈ s.shared.rows, r.message.outboxID = t.outboxID := by
  induction h with
  | start => exact forall_mem_nil _
  | @next s s' hr hs ih =>
    cases hs with
    | spawn θ => exact ih
    | env w henv =>
      intro t ht
      have ht : t ∈ s.shared.taken := by
        cases henv with
        | command call => exact ht
      obtain ⟨r, hr, hid⟩ := ih t ht
      exact ⟨r, commands_later henv hr, hid⟩
    | run i θ q k a w hi ha =>
      intro t ht
      have hold : ∀ t ∈ s.shared.taken, ∃ r ∈ w.rows, r.message.outboxID = t.outboxID := by
        intro t ht
        obtain ⟨r, hr, hid⟩ := ih t ht
        obtain ⟨r', hr', hl⟩ := answers_later ha hr
        exact ⟨r', hr', hl.outboxID.trans hid⟩
      cases answers_effect ha with
      | same q db taken => exact hold t (taken ▸ ht)
      | leased owner limit now leaseDuration p picked mem nodup tasks rows taken =>
        change t ∈ w.taken at ht
        rw [taken] at ht
        rcases mem_append.mp ht with ht | ht
        · exact hold t ht
        · obtain ⟨r, hr, rfl⟩ := mem_map.mp ht
          obtain ⟨r', hr', hl⟩ := answers_later ha (mem r hr).1
          exact ⟨r', hr', hl.outboxID⟩
      | delivered outboxID owner deliveredAt p held tasks rows taken =>
        exact hold t (taken ▸ ht)
      | failed outboxID owner now nextAvailableAt maxAttempts reason p row status availableAt
          mem held limit tasks rows taken => exact hold t (taken ▸ ht)

theorem takenOf_new {rows : List OutboxRow}
    (hknown : ∀ t ∈ w.taken, ∃ r ∈ w.rows, r.message.outboxID = t.outboxID)
    (hrows : w'.rows = w.rows ++ rows) (hr : r ∈ rows) : w.takenOf r.message.outboxID = [] := by
  unfold World.takenOf
  rw [filter_eq_nil_iff]
  intro t ht hid
  obtain ⟨r₀, hr₀, hid₀⟩ := hknown t ht
  have hnodup := outboxIDs_nodup w'.db
  change (w'.rows.map (fun r => r.message.outboxID)).Nodup at hnodup
  rw [hrows, map_append] at hnodup
  refine (disjoint_of_nodup_append hnodup) (mem_map_of_mem hr₀) ?_
  rw [hid₀, of_decide_eq_true hid]
  exact mem_map_of_mem hr

/-- A property of a message and its leases holds in every state reached if it
holds of every message that is posted, no command breaks it, and no request of a
run keeping `C` does. -/
theorem reach_messages {E : World → World → Prop} {F : OutboxRow → Prop} {C : Run → Prop}
    {P : World → OutboxRow → List Taken → Prop} (hcommands : ∀ w w', E w w' → Commands codec w w')
    (hposts : ∀ w w', E w w' → ∃ rows, w'.rows = w.rows ++ rows ∧ ∀ r ∈ rows, F r)
    (hfresh : ∀ w r, F r → P w r [])
    (hkeep : ∀ w w' r ts, Commands codec w w' → P w r ts → P w' r ts)
    (hstep : ∀ (s : DispatchSystem) (i : Nat) (θ : Run) (q : Request)
      (k : Answer q → DispatchProg (Except OutboxError Progress)) (a : Answer q) (w : World)
      (r r' : OutboxRow) (ts : List Taken),
      System.Reach (body unmarshalPayload) (answers codec) E World.empty s →
      s.threads[i]? = some (θ, .ask q k) → answers codec θ s.shared q a w → C θ →
      r ∈ s.shared.rows → RowStep r (s.shared.takenOf r.message.outboxID) q r' ts →
      P s.shared r (s.shared.takenOf r.message.outboxID) → P w r' ts)
    (h : System.Reach (body unmarshalPayload) (answers codec) E World.empty s)
    (hall : ∀ i θ, s.job i = some θ → C θ) :
    ∀ r ∈ s.shared.rows, P s.shared r (s.shared.takenOf r.message.outboxID) := by
  induction h with
  | start => exact forall_mem_nil _
  | @next s s' hr hs ih =>
    have hall' : ∀ i θ, s.job i = some θ → C θ := fun i θ hj => hall i θ (hs.job hj)
    have ih := ih hall'
    cases hs with
    | spawn θ => exact ih
    | run i θ q k a w hi ha =>
      intro r' hr'
      change r' ∈ w.rows at hr'
      change P w r' (w.takenOf r'.message.outboxID)
      obtain ⟨g, hrows, hg⟩ := (answers_effect ha).rows
      rw [hrows] at hr'
      obtain ⟨r, hmem, rfl⟩ := mem_map.mp hr'
      have hj := System.job_of_thread hi
      rw [(hg r hmem).later.outboxID]
      exact hstep s i θ q k a w r (g r) _ hr hi ha (hall' i θ hj) hmem (hg r hmem) (ih r hmem)
    | env w henv =>
      intro r hmem
      change r ∈ w.rows at hmem
      change P w r (w.takenOf r.message.outboxID)
      have hc := hcommands _ _ henv
      have htaken : ∀ id, w.takenOf id = s.shared.takenOf id := by
        cases hc with
        | command call => exact fun _ => rfl
      rw [htaken]
      obtain ⟨rows, hrows, hnew⟩ := hposts _ _ henv
      rw [hrows] at hmem
      rcases mem_append.mp hmem with hold | hr'
      · exact hkeep _ _ _ _ hc (ih r hold)
      · rw [takenOf_new (taken_known (hr.mono (fun _ _ _ _ _ ha => ha) hcommands)) hrows hr']
        exact hfresh w r (hnew r hr')

theorem reachable_named (h : Reachable codec unmarshalPayload s) :
    ∀ r ∈ s.shared.rows, ¬ Blank r.message.outboxID := by
  refine reach_messages (C := fun _ => True) (P := fun _ r _ => ¬ Blank r.message.outboxID)
    (fun _ _ hc => hc) (fun _ _ => commands_post) ?_ (fun _ _ _ _ _ hp => hp) ?_ h
    (fun _ _ _ => trivial)
  · rintro _ _ ⟨m, rfl, hm, _⟩
    exact hm
  · intro s i θ q k a w r r' ts _ _ _ _ _ hstep hold
    rw [hstep.later.outboxID]
    exact hold

end AiCloud.Outbox
