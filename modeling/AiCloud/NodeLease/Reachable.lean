import AiCloud.NodeLease.Refinement

/-!
# Reachable databases

After every run each node is either absent or its cell was reached from its one
registration. All invariants of the store are read off from this. Row and attempts tell
one story, and states move along the kernel's table but for a release.
-/
namespace AiCloud.NodeLease

open Lib Execution Identity List

variable (calls : List Call)

/-- No call registered the node, and the tables hold nothing of it. -/
structure Absent (db : Db) (k : NodeKey) : Prop where
  unregistered : ∀ record, ¬ Registered calls k record
  node : db.node k = none
  attempts : db.attemptsOf k = []
  events : eventsOf calls k = []

/-- The node was registered once, with `record`, and its cell is `c`. -/
structure Present (db : Db) (k : NodeKey) (record : NodeRuntimeRecord) (c : Cell) : Prop where
  registered : ∀ r, Registered calls k r ↔ r = record
  cell : cellOf db k = some c
  idle : record.state ≠ .running
  trace : ∃ now, CellTrace (initCell k record now) (eventsOf calls k) c

def Tracked (db : Db) (k : NodeKey) : Prop :=
  Absent calls db k ∨ ∃ record c, Present calls db k record c

variable {calls : List Call} {db : Db} {k : NodeKey} {record : NodeRuntimeRecord}

theorem Present.coupled {c : Cell} (h : Present calls db k record c) :
    Coupled record.attemptNumber record.leaseFence c := by
  obtain ⟨now, ht⟩ := h.trace
  exact (cell_invariant (I := fun _ _ => True) h.idle ht trivial (fun _ _ _ _ _ _ _ => trivial)).1

theorem Tracked.coupledAt (h : Tracked calls db k) : CoupledAt db k := by
  intro c hc
  rcases h with habs | ⟨record, c', hpres⟩
  · simp [cellOf, habs.node] at hc
  · rw [hpres.cell] at hc
    cases hc
    exact ⟨_, _, hpres.coupled⟩

theorem after_snoc (calls : List Call) (c : Call) :
    after (calls ++ [c]) = (exec (after calls) c).2 := by
  simp [after]

theorem eventsFrom_append (db : Db) (k : NodeKey) (pre post : List Call) :
    eventsFrom db k (pre ++ post) = eventsFrom db k pre ++ eventsFrom (run exec db pre) k post := by
  induction pre generalizing db with
  | nil => rfl
  | cons c pre ih => simp [eventsFrom, ih]

theorem eventsOf_snoc (calls : List Call) (c : Call) (k : NodeKey) :
    eventsOf (calls ++ [c]) k = eventsOf calls k ++ eventsAt (after calls) c k := by
  simp [eventsOf, eventsFrom_append, eventsFrom, after]

theorem registered_snoc {c : Call} : Registered (calls ++ [c]) k record ↔
    Registered calls k record ∨ (c.op = .register record ∧ Succeeds (after calls) c k .done) := by
  constructor
  · rintro ⟨pre, d, post, heq, hop, hs⟩
    rcases snoc_eq_split.mp heq with ⟨rfl, rfl, rfl⟩ | ⟨post', rfl, rfl⟩
    · exact .inr ⟨hop, hs⟩
    · exact .inl ⟨pre, d, post', rfl, hop, hs⟩
  · rintro (⟨pre, d, post, rfl, hop, hs⟩ | ⟨hop, hs⟩)
    · exact ⟨pre, d, post ++ [c], by simp, hop, hs⟩
    · exact ⟨calls, c, [], rfl, hop, hs⟩

theorem register_absent {c : Call}
    (hop : c.op = .register record) (h : Succeeds db c k .done) : db.node k = none := by
  obtain ⟨p, hp, rfl, htx⟩ := h.tx
  obtain ⟨ctx, now, op⟩ := c
  cases hop
  simp only [Call.tx, Tx.bind_ok, Tx.pure_ok] at htx
  obtain ⟨_, _, htx, _, _⟩ := htx
  obtain ⟨q, hq, hnone, _⟩ := register_ok htx
  rw [hp] at hq
  cases hq
  exact hnone

theorem Present.unregisterable {c : Call} {x : Cell} (h : Present calls (after calls) k record x)
    (r : NodeRuntimeRecord) : Registered (calls ++ [c]) k r ↔ r = record := by
  rw [registered_snoc, h.registered]
  refine or_iff_left ?_
  rintro ⟨hop, hs⟩
  have hnone := register_absent hop hs
  rw [(cellOf_some h.cell).1] at hnone
  cases hnone

variable {c : Call} {db' : Db} {x : Cell}

theorem Present.unchanged (h : Present calls (after calls) k record x)
    (he : eventsAt (after calls) c k = []) (hn : db'.node k = (after calls).node k)
    (ha : db'.attemptsOf k = (after calls).attemptsOf k) :
    Present (calls ++ [c]) db' k record x := by
  refine ⟨h.unregisterable, (cellOf_congr hn ha).trans h.cell, h.idle, ?_⟩
  rw [eventsOf_snoc, he, append_nil]
  exact h.trace

theorem Absent.unchanged
    (h : Absent calls (after calls) k) (hno : ¬ Succeeds (after calls) c k .done)
    (he : eventsAt (after calls) c k = []) (hn : db'.node k = (after calls).node k)
    (ha : db'.attemptsOf k = (after calls).attemptsOf k) : Absent (calls ++ [c]) db' k := by
  refine ⟨?_, hn.trans h.node, ha.trans h.attempts, ?_⟩
  · intro r hr
    rcases registered_snoc.mp hr with hr | ⟨_, hs⟩
    · exact h.unregistered r hr
    · exact hno hs
  · rw [eventsOf_snoc, he, h.events]
    rfl

theorem Present.stepped {x x' : Cell} {e : Event}
    (h : Present calls (after calls) k record x) (he : eventsAt (after calls) c k = [e])
    (hc' : cellOf db' k = some x') (hs : CellStep e x x') :
    Present (calls ++ [c]) db' k record x' := by
  obtain ⟨now, ht⟩ := h.trace
  refine ⟨h.unregisterable, hc', h.idle, now, ?_⟩
  rw [eventsOf_snoc, he]
  exact ht.snoc hs

theorem Absent.registered (h : Absent calls (after calls) k)
    (hs : Succeeds (after calls) c k .done) (he : eventsAt (after calls) c k = [])
    (hr : Registers c k record (after calls) db') :
    Present (calls ++ [c]) db' k record (initCell k record c.now) := by
  obtain ⟨hop, _, hrow, ha, _⟩ := hr
  refine ⟨?_, ?_, ?_, c.now, ?_⟩
  · intro r
    rw [registered_snoc, hop]
    refine ⟨?_, ?_⟩
    · rintro (hr | ⟨he, _⟩)
      · exact absurd hr (h.unregistered r)
      cases he
      rfl
    · rintro rfl
      exact .inr ⟨rfl, hs⟩
  · simp [cellOf, hrow, ha, h.attempts, initCell]
  · intro hstate
    rcases (node_check hrow).2.2.2.2.2.2.2.1 with ⟨_, howner, _⟩ | ⟨hnot, _⟩
    · exact howner rfl
    · exact hnot hstate
  · rw [eventsOf_snoc, he, h.events]
    exact Trace.nil

/-- What a call did to one node, with the event it left there. -/
inductive Did (calls : List Call) (c : Call) (k : NodeKey) : Prop
  | nothing : eventsAt (after calls) c k = [] → ¬ Succeeds (after calls) c k .done →
      (exec (after calls) c).2.node k = (after calls).node k →
      (exec (after calls) c).2.attemptsOf k = (after calls).attemptsOf k → Did calls c k
  | registered (record : NodeRuntimeRecord) : eventsAt (after calls) c k = [] →
      Succeeds (after calls) c k .done →
      Registers c k record (after calls) (exec (after calls) c).2 → Did calls c k
  | stepped (e : Event) : eventsAt (after calls) c k = [e] →
      Steps e k (after calls) (exec (after calls) c).2 → Did calls c k

theorem did (calls : List Call) (hcp : ∀ k, CoupledAt (after calls) k) (c : Call) (k : NodeKey) :
    Did calls c k := by
  rcases Tx.commit_cases c.tx (after calls) with ⟨e, he⟩ | ⟨reply, db', hok, htx⟩
  · have hr : exec (after calls) c = (.error e, after calls) := he
    refine .nothing ?_ ?_ (by rw [hr]) (by rw [hr])
    · simp [eventsAt, hr]
    · rintro ⟨p, _, _, hs⟩
      rw [hr] at hs
      cases hs
  · have hr : exec (after calls) c = (.ok reply, db') := hok
    obtain ⟨p, hp, hcase⟩ := tx_ok hcp htx
    by_cases hk : c.key p = k
    · subst hk
      rcases hcase with ⟨rfl, record, hreg⟩ | ⟨e, hev, hs⟩
      · refine .registered record ?_ ⟨p, hp, rfl, by rw [hr]⟩ (by rwa [hr])
        simp [eventsAt, hp, hr, Call.event, hreg.1]
      · exact .stepped e (by simp [eventsAt, hp, hr, hev]) (by rwa [hr])
    · have hsame : SameElsewhere (c.key p) (after calls) db' := by
        rcases hcase with ⟨_, _, hreg⟩ | ⟨_, _, _, _, _, _, _, hs⟩
        · exact hreg.2.2.2.2
        · exact hs
      have hno : ¬ Succeeds (after calls) c k .done := by
        rintro ⟨q, hq, hkey, _⟩
        rw [hp] at hq
        cases hq
        exact hk hkey
      refine .nothing (by simp [eventsAt, hp, hr, hk]) hno ?_ ?_
      · rw [hr]
        exact (hsame k (Ne.symm hk)).1
      · rw [hr]
        exact (hsame k (Ne.symm hk)).2

/-- A further call leaves a present node as it is or is one step of its cell. -/
theorem Present.next
    (hcp : ∀ k, CoupledAt (after calls) k) (h : Present calls (after calls) k record x) (c : Call) :
    (eventsAt (after calls) c k = [] ∧ Present (calls ++ [c]) (exec (after calls) c).2 k record x) ∨
      ∃ e x', eventsAt (after calls) c k = [e] ∧ CellStep e x x' ∧
        Present (calls ++ [c]) (exec (after calls) c).2 k record x' := by
  cases did calls hcp c k with
  | nothing he hno hn ha => exact .inl ⟨he, h.unchanged he hn ha⟩
  | registered r he hs hreg =>
    have hnone := hreg.2.1
    rw [(cellOf_some h.cell).1] at hnone
    cases hnone
  | stepped e he hs =>
    obtain ⟨y, x', hy, hx', hs, _⟩ := hs
    rw [h.cell] at hy
    cases hy
    exact .inr ⟨e, x', he, hs, h.stepped he hx' hs⟩

theorem Absent.next (hcp : ∀ k, CoupledAt (after calls) k)
    (h : Absent calls (after calls) k) (c : Call) :
    Tracked (calls ++ [c]) (exec (after calls) c).2 k := by
  cases did calls hcp c k with
  | nothing he hno hn ha => exact .inl (h.unchanged hno he hn ha)
  | registered r he hs hreg => exact .inr ⟨r, _, h.registered hs he hreg⟩
  | stepped e he hs =>
    obtain ⟨y, _, hy, _⟩ := hs
    simp [cellOf, h.node] at hy

theorem tracked_next (calls : List Call) (c : Call)
    (ih : ∀ k, Tracked calls (after calls) k) (k : NodeKey) :
    Tracked (calls ++ [c]) (exec (after calls) c).2 k := by
  have hcp : ∀ k, CoupledAt (after calls) k := fun k => (ih k).coupledAt
  rcases ih k with habs | ⟨record, x, hpres⟩
  · exact habs.next hcp c
  · rcases hpres.next hcp c with ⟨_, hsame⟩ | ⟨_, x', _, _, hstep⟩
    · exact .inr ⟨record, x, hsame⟩
    · exact .inr ⟨record, x', hstep⟩

theorem tracked (calls : List Call) (k : NodeKey) : Tracked calls (after calls) k := by
  refine run_invariant (I := fun calls db => ∀ k, Tracked calls db k) ?_ tracked_next calls k
  intro k
  refine .inl ⟨?_, rfl, rfl, rfl⟩
  rintro record ⟨pre, c, post, heq, _⟩
  simp at heq

theorem coupledAt_after (calls : List Call) (k : NodeKey) : CoupledAt (after calls) k :=
  (tracked calls k).coupledAt

theorem Present.after_next (h : Present calls (after calls) k record x) (c : Call) :
    (eventsAt (after calls) c k = [] ∧ Present (calls ++ [c]) (after (calls ++ [c])) k record x) ∨
      ∃ e x', eventsAt (after calls) c k = [e] ∧ CellStep e x x' ∧
        Present (calls ++ [c]) (after (calls ++ [c])) k record x' := by
  rw [after_snoc]
  exact h.next (coupledAt_after calls) c

theorem present_of_registered
    (h : Registered calls k record) : ∃ c, Present calls (after calls) k record c := by
  rcases tracked calls k with habs | ⟨record', c, hpres⟩
  · exact absurd h (habs.unregistered record)
  have he := (hpres.registered record).mp h
  exact ⟨c, he ▸ hpres⟩

theorem registered_of_row {row : NodeRow}
    (h : row ∈ (after calls).nodes.rows) : ∃ record, Registered calls row.key record := by
  rcases tracked calls row.key with habs | ⟨record, c, hpres⟩
  · exact absurd rfl (Table.lookup_none.mp habs.node row h)
  · exact ⟨record, (hpres.registered record).mpr rfl⟩

/-- An invariant of a node's events and cell that registration establishes and
every step keeps holds of every reachable node. -/
theorem Present.history {c : Cell} (h : Present calls db k record c) {I : List Event → Cell → Prop}
    (init : ∀ now, I [] (initCell k record now))
    (next : ∀ es e x x', Coupled record.attemptNumber record.leaseFence x → I es x →
      CellStep e x x' → I (es ++ [e]) x') : I (eventsOf calls k) c := by
  obtain ⟨now, ht⟩ := h.trace
  exact (cell_invariant h.idle ht (init now) next).2

theorem Present.invariant {c : Cell} (h : Present calls db k record c) {I : Cell → Prop}
    (init : ∀ now, I (initCell k record now))
    (next : ∀ e x x', Coupled record.attemptNumber record.leaseFence x → I x → CellStep e x x' →
      I x') : I c :=
  h.history (I := fun _ => I) init (fun _ e x => next e x)

structure RowCoupled (row : NodeRow) (attempts : List AttemptRow) : Prop where
  owner : row.state = .running ↔ row.leaseOwner ≠ none
  token : row.state = .running ↔ row.leaseToken ≠ none
  expiry : row.state = .running ↔ row.leaseExpiresAt ≠ none
  one : row.state = .running ↔ (attempts.filter (fun a => a.status.isOpen)).length = 1
  current : ∀ a ∈ attempts, a.status.isOpen →
    a.attemptNumber = row.attemptNumber ∧ a.leaseFence = row.leaseFence
  count : row.attemptNumber = attempts.length
  numbered : attempts.map AttemptRow.attemptNumber = numbersFrom 0 attempts.length
  fenced : ∀ a ∈ attempts, a.leaseFence = a.attemptNumber
  effects : 1 ≤ row.attemptNumber → ∃ a ∈ attempts, a.attemptNumber = row.attemptNumber ∧
    row.effectStartedAt = a.effectStartedAt ∧ row.effectCommittedAt = a.effectCommittedAt

theorem lease_columns {row : NodeRow} (h : row.LeaseStateContract) :
    (row.state = .running ↔ row.leaseOwner ≠ none) ∧
    (row.state = .running ↔ row.leaseToken ≠ none) ∧
    (row.state = .running ↔ row.leaseExpiresAt ≠ none) := by
  rcases h with ⟨hs, ho, ht, _, _, he, _⟩ | ⟨hs, ho, ht, _, _, he⟩
  · exact ⟨iff_of_true hs ho, iff_of_true hs ht, iff_of_true hs he⟩
  · exact ⟨iff_of_false hs (not_not.mpr ho), iff_of_false hs (not_not.mpr ht),
      iff_of_false hs (not_not.mpr he)⟩

variable {base fence : Int} {c : Cell}

section

variable (h : Coupled base fence c)

include h

theorem Coupled.open_attempts : c.attempts.filter (fun a => a.status.isOpen) =
    c.last.toList.filter (fun a => a.status.isOpen) := by
  have hpast : c.past.filter (fun a => decide a.status.isOpen) = [] := by
    rw [filter_eq_nil_iff]
    intro a ha
    simpa using h.closed a ha
  rw [Cell.attempts, filter_append, hpast, nil_append]

theorem Coupled.one_open :
    c.row.state = .running ↔ (c.attempts.filter (fun a => a.status.isOpen)).length = 1 := by
  rw [h.open_attempts, h.running]
  cases hl : c.last with
  | none => simp
  | some cur => by_cases ho : cur.status.isOpen <;> simp [ho]

theorem Coupled.open_current : ∀ a ∈ c.attempts, a.status.isOpen →
    a.attemptNumber = c.row.attemptNumber ∧ a.leaseFence = c.row.leaseFence := by
  intro a ha ho
  obtain ⟨row, past, last⟩ := c
  rcases mem_append.mp ha with hp | hlast
  · exact absurd ho (h.closed a hp)
  have hl : last = some a := Option.mem_toList.mp hlast
  subst hl
  exact ⟨h.last_number.1, h.last_number.2.1⟩

theorem Coupled.last_effects (hn : base < c.row.attemptNumber) :
    ∃ a ∈ c.attempts, a.attemptNumber = c.row.attemptNumber ∧
      c.row.effectStartedAt = a.effectStartedAt ∧
      c.row.effectCommittedAt = a.effectCommittedAt := by
  obtain ⟨row, past, last⟩ := c
  cases last with
  | none =>
    have hp : past = [] := h.first rfl
    subst hp
    have hr : row.attemptNumber = base := by simpa [Cell.attempts] using h.rowNumber
    exact absurd (hr ▸ hn) (Int.lt_irrefl _)
  | some cur =>
    refine ⟨cur, ?_, h.last_number.1, h.started, h.committed⟩
    simp [Cell.attempts]

end

/-- Over every run, on every node registered unclaimed, the runtime row and the
attempts agree on ownership, numbering, fencing and effects. -/
theorem row_coupled_after (calls : List Call) (k : NodeKey) (record : NodeRuntimeRecord)
    (hr : Registered calls k record) (hnumber : record.attemptNumber = 0)
    (hfence : record.leaseFence = 0) :
    ∃ row, (after calls).node k = some row ∧ RowCoupled row ((after calls).attemptsOf k) := by
  obtain ⟨c, hpres⟩ := present_of_registered hr
  obtain ⟨hrow, ha⟩ := cellOf_some hpres.cell
  have hc := hpres.coupled
  rw [hnumber, hfence] at hc
  obtain ⟨ho, ht, he⟩ := lease_columns (node_check hrow).2.2.2.2.2.2.2.1
  refine ⟨c.row, hrow, ?_⟩
  rw [ha]
  refine ⟨ho, ht, he, hc.one_open, hc.open_current, ?_, hc.numbers, ?_, ?_⟩
  · simpa using hc.rowNumber
  · intro a hm
    simpa using hc.fences a hm
  · intro hn
    exact hc.last_effects (by omega)

def samplePrincipal : Principal := ⟨.user, "u", "t", "p", [], [], "m", "", "", ""⟩

variable (effect : EffectClass) (retrySafe : Bool)

def sampleRecord : NodeRuntimeRecord :=
  ⟨"e", 1, "n", .ready, effect, retrySafe, "key", 0, 0⟩

def sampleKey : NodeKey := ⟨"t", "p", "e", 1, "n"⟩

def registerCall : Call :=
  ⟨some samplePrincipal, 1, .register (sampleRecord effect retrySafe)⟩

def claimCall (now : Time) (token attempt : String) : Call :=
  ⟨some samplePrincipal, now, .claim (some token) (some attempt) "e" 1 "n" "w" 10⟩

/-- The lease `claimCall 2 "a" "b"` obtains on the fresh node. -/
def sampleLease : NodeLease := ⟨"e", 1, "n", "att_b", "w", "a", 1, 1, 2, 2, 12⟩

def sampleBinding : AttemptBinding := ⟨"target", 1, "digest", "policy", "budget"⟩

def leaseCall (now : Time) (op : Op) : Call := ⟨some samplePrincipal, now, op⟩

/-- Registration, claim, start and effect start of one mutation. -/
def startedEffectRun : List Call :=
  [registerCall .nonIdempotentMutation false, claimCall 2 "a" "b",
    leaseCall 3 (.startAttempt sampleLease sampleBinding),
    leaseCall 4 (.markEffectStarted sampleLease)]

theorem sample_scope : scopedPrincipal (some samplePrincipal) = .ok samplePrincipal := by decide

theorem sample_registered (rest : List Call)
    (h : (exec Db.empty (registerCall effect retrySafe)).1 = .ok .done) :
    Registered (registerCall effect retrySafe :: rest) sampleKey (sampleRecord effect retrySafe) :=
  ⟨[], _, rest, rfl, rfl, samplePrincipal, sample_scope, rfl, h⟩

theorem row_coupled_claimed :
    ∃ row, (after [registerCall .readOnly true, claimCall 2 "a" "b"]).node sampleKey = some row ∧
      RowCoupled row
        ((after [registerCall .readOnly true, claimCall 2 "a" "b"]).attemptsOf sampleKey) :=
  row_coupled_after _ _ _ (sample_registered .readOnly true _ (by decide)) rfl rfl

theorem step_transition {e : Event} {c c' : Cell} (h : CellStep e c c') :
    canTransitionNode c.row.state c'.row.state ∨
      ((∃ now lease, e = .releaseBeforeEffect now lease) ∧ c.row.state = .running ∧
        c'.row.state = .ready) := by
  cases h with
  | claimReady hready =>
    left
    change canTransitionNode _ NodeState.running
    rw [hready]
    decide
  | reclaim hrun =>
    left
    change canTransitionNode _ NodeState.running
    rw [hrun]
    decide
  | renew => exact .inl (.inl rfl)
  | startAttempt => exact .inl (.inl rfl)
  | markEffectStarted => exact .inl (.inl rfl)
  | markEffectCommitted => exact .inl (.inl rfl)
  | releaseBeforeEffect hown => exact .inr ⟨⟨_, _, rfl⟩, hown.1, rfl⟩
  | @complete _ _ _ _ _ terminal _ hown _ _ hv =>
    left
    change canTransitionNode _ terminal
    rw [hown.1]
    rcases completion_cases hv with ⟨ht, _⟩ | ⟨ht, _⟩ | ⟨ht, _⟩ <;> rw [ht] <;> decide
  | requeueFailed hfailed =>
    left
    change canTransitionNode _ NodeState.ready
    rw [hfailed]
    decide

theorem event_release {c : Call} {reply : Reply} {now : Time} {lease : NodeLease}
    (h : c.event reply = some (.releaseBeforeEffect now lease)) :
    c.op = .releaseBeforeEffect lease := by
  obtain ⟨ctx, at_, op⟩ := c
  cases op with
  | releaseBeforeEffect given =>
    cases h
    rfl
  | claim => cases reply <;> cases h
  | _ => cases h

/-- Over every run, every change of a stored node state is one the kernel's table
allows, apart from the step from RUNNING back to READY of a release. -/
theorem state_changes_allowed (calls : List Call) (c : Call) (k : NodeKey) (row row' : NodeRow)
    (hrow : (after calls).node k = some row) (hrow' : (after (calls ++ [c])).node k = some row') :
    canTransitionNode row.state row'.state ∨
      ((∃ lease, c.op = .releaseBeforeEffect lease) ∧ row.state = .running ∧
        row'.state = .ready) := by
  rcases tracked calls k with habs | ⟨record, x, hpres⟩
  · rw [habs.node] at hrow
    cases hrow
  · have hx : row = x.row := Option.some.inj (hrow.symm.trans (cellOf_some hpres.cell).1)
    rcases hpres.after_next c with ⟨_, hsame⟩ | ⟨e, x', he, hs, hnext⟩
    · have hx' := Option.some.inj (hrow'.symm.trans (cellOf_some hsame.cell).1)
      exact .inl (.inl (by rw [hx, hx']))
    · have hx' := Option.some.inj (hrow'.symm.trans (cellOf_some hnext.cell).1)
      rw [hx, hx']
      rcases step_transition hs with hallowed | ⟨⟨now, lease, rfl⟩, hrun, hready⟩
      · exact .inl hallowed
      · obtain ⟨_, _, _, _, _, hev⟩ := mem_eventsAt (he ▸ mem_singleton_self _)
        exact .inr ⟨⟨lease, event_release hev⟩, hrun, hready⟩

/-- A registered read-only node, claimed once. -/
def claimedRun : List Call := [registerCall .readOnly true, claimCall 2 "a" "b"]

theorem claim_allowed :
    ∃ row row', (after [registerCall .readOnly true]).node sampleKey = some row ∧
      (after ([registerCall .readOnly true] ++ [claimCall 2 "a" "b"])).node sampleKey = some row' ∧
      row.state = .ready ∧ row'.state = .running ∧ (canTransitionNode row.state row'.state ∨
        ((∃ lease, (claimCall 2 "a" "b").op = .releaseBeforeEffect lease) ∧
          row.state = .running ∧ row'.state = .ready)) :=
  ⟨_, _, rfl, rfl, rfl, rfl, state_changes_allowed [registerCall .readOnly true]
    (claimCall 2 "a" "b") sampleKey _ _ rfl rfl⟩

/-- A worker that gives a claimed node back commits a change the table forbids. -/
theorem release_forbidden : ∃ row row', (after claimedRun).node sampleKey = some row ∧
    (after (claimedRun ++ [leaseCall 3 (.releaseBeforeEffect sampleLease)])).node sampleKey =
      some row' ∧
    row.state = .running ∧ row'.state = .ready ∧ ¬ canTransitionNode row.state row'.state := by
  refine ⟨_, _, rfl, rfl, ?_, ?_, ?_⟩ <;> decide

end AiCloud.NodeLease
