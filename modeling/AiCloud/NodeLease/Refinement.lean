import AiCloud.NodeLease.Cell

/-!
# The store refines the cell machine

Every successful operation is one step of the cell it names and leaves all
other cells alone. The statements are inverted once each; the operations are
then read off from them.
-/
namespace AiCloud.NodeLease

open Lib Execution Identity Tx Table Option

/-- The cell the tables hold for a node. -/
def cellOf (db : Db) (k : NodeKey) : Option Cell :=
  (db.node k).map (fun row => ⟨row, (db.attemptsOf k).dropLast, (db.attemptsOf k).getLast?⟩)

/-- Nothing changed outside one node. -/
def SameElsewhere (k : NodeKey) (db db' : Db) : Prop :=
  ∀ k', k' ≠ k → db'.node k' = db.node k' ∧ db'.attemptsOf k' = db.attemptsOf k'

variable {k : NodeKey} {db db' : Db}

theorem SameElsewhere.trans {db'' : Db} (h : SameElsewhere k db db')
    (h' : SameElsewhere k db' db'') : SameElsewhere k db db'' := fun k' hk =>
  ⟨(h' k' hk).1.trans (h k' hk).1, (h' k' hk).2.trans (h k' hk).2⟩

variable {c : Cell}

theorem cellOf_some (h : cellOf db k = some c) :
    db.node k = some c.row ∧ db.attemptsOf k = c.attempts := by
  simp only [cellOf, map_eq_some_iff] at h
  obtain ⟨row, hrow, rfl⟩ := h
  refine ⟨hrow, ?_⟩
  cases hl : (db.attemptsOf k).getLast? with
  | none =>
    rw [List.getLast?_eq_none_iff] at hl
    simp [Cell.attempts, hl]
  | some cur =>
    simp only [Cell.attempts, toList_some]
    exact (List.dropLast_append_getLast? cur hl).symm

variable {row : NodeRow}

theorem cellOf_snoc {past : List AttemptRow} {cur : AttemptRow} (hrow : db.node k = some row)
    (ha : db.attemptsOf k = past ++ [cur]) : cellOf db k = some ⟨row, past, some cur⟩ := by
  simp [cellOf, hrow, ha]

theorem cellOf_row (hc : cellOf db k = some c) (hrow : db'.node k = some row)
    (ha : db'.attemptsOf k = db.attemptsOf k) : cellOf db' k = some ⟨row, c.past, c.last⟩ := by
  simp only [cellOf, map_eq_some_iff] at hc
  obtain ⟨_, _, rfl⟩ := hc
  simp [cellOf, hrow, ha]

theorem cellOf_congr (hn : db'.node k = db.node k) (ha : db'.attemptsOf k = db.attemptsOf k) :
    cellOf db' k = cellOf db k := by
  simp only [cellOf, hn, ha]

theorem node_key (h : db.node k = some row) : row.key = k := (lookup_some h).2

theorem node_check (h : db.node k = some row) : row.Check := db.nodes.checked row (lookup_some h).1

variable {context : String} {f : NodeRow → NodeRow} {k : NodeKey}

theorem updateNodes_one {p : NodeRow → Prop} [DecidablePred p]
    (h : updateNodes context p f db = .ok (1, db')) (hp : ∀ r, p r → r.key = k)
    (hf : ∀ r, (f r).key = r.key) :
    ∃ row, db.node k = some row ∧ p row ∧ db'.node k = some (f row) ∧
      (∀ k', db'.attemptsOf k' = db.attemptsOf k') ∧ SameElsewhere k db db' := by
  simp only [updateNodes, statement_ok, map_eq_some_iff, Prod.mk.injEq] at h
  obtain ⟨⟨n, nodes⟩, hu, rfl, rfl⟩ := h
  obtain ⟨hn, hrows⟩ := update_some hu
  obtain ⟨r, hr, hpr⟩ := List.countP_pos_iff.mp (hn ▸ Nat.one_pos)
  have hpr : p r := by simpa using hpr
  have hlook : db.node k = some r := by
    cases hl : db.node k with
    | none => exact absurd (hp r hpr) (lookup_none.mp hl r hr)
    | some row => rw [eq_of_lookup (fun _ _ he => he) hl hr (hp r hpr)]
  refine ⟨r, hlook, hpr, ?_, fun _ => rfl, ?_⟩
  · change lookup NodeRow.key k nodes.rows = _
    rw [hrows, lookup_touch hf]
    change (db.node k).map _ = _
    rw [hlook]
    simp [touch, hpr]
  · intro k' hk
    refine ⟨?_, rfl⟩
    change lookup NodeRow.key k' nodes.rows = _
    rw [hrows, lookup_touch hf]
    change (db.node k').map _ = _
    cases hl : db.node k' with
    | none => rfl
    | some row =>
      have hnot : ¬ p row := fun hpr => hk ((node_key hl).symm.trans (hp row hpr))
      simp [touch, hnot]

variable {lease : NodeLease} {u : Unit}

theorem updateHeld_ok {now : Time} {extra : NodeRow → Prop} [DecidablePred extra]
    (h : updateHeld context k lease now extra f db = .ok (u, db')) (hf : ∀ r, (f r).key = r.key) :
    ∃ row, db.node k = some row ∧ leaseGuard k lease now row ∧ extra row ∧
      db'.node k = some (f row) ∧ (∀ k', db'.attemptsOf k' = db.attemptsOf k') ∧
      SameElsewhere k db db' := by
  simp only [updateHeld, bind_ok, failIf_ok, not_not] at h
  obtain ⟨n, mid, hu, rfl, rfl⟩ := h
  obtain ⟨row, hrow, ⟨hg, he⟩, hrest⟩ := updateNodes_one hu (fun r hr => hr.1.1) hf
  exact ⟨row, hrow, hg, he, hrest⟩

/-- An UPDATE of one attempt of a node, when older attempts are out of its
reach, changes the newest attempt in place. -/
theorem updateOneAttempt_ok {p : AttemptRow → Prop} [DecidablePred p] {f : AttemptRow → AttemptRow}
    (h : updateOneAttempt context p f db = .ok (u, db')) (hp : ∀ a, p a → a.key = k)
    (hf : ∀ a, (f a).key = a.key) (ha : db.attemptsOf k = c.attempts)
    (hpast : ∀ a ∈ c.past, ¬ p a) :
    ∃ cur, c.last = some cur ∧ p cur ∧ db'.attemptsOf k = c.past ++ [f cur] ∧
      (∀ k', db'.node k' = db.node k') ∧ SameElsewhere k db db' := by
  simp only [updateOneAttempt, updateAttempts, bind_ok, failIf_ok, statement_ok, not_not,
    map_eq_some_iff, Prod.mk.injEq] at h
  obtain ⟨n, mid, ⟨⟨n', attempts⟩, hu, rfl, rfl⟩, hn1, rfl⟩ := h
  obtain ⟨hn, hrows⟩ := update_some hu
  have hcount : (db.attemptsOf k).countP (fun r => decide (p r)) = 1 := by
    rw [Db.attemptsOf, countP_select hp, ← hn]
    exact hn1
  rw [ha] at hcount
  obtain ⟨cur, hcur, hpc, hmap⟩ := map_touch_last (f := f) hpast hcount
  refine ⟨cur, hcur, hpc, ?_, fun _ => rfl, ?_⟩
  · change select AttemptRow.key k attempts.rows = _
    rw [hrows, select_touch hf]
    change (db.attemptsOf k).map _ = _
    rw [ha]
    exact hmap
  · intro k' hk
    refine ⟨rfl, ?_⟩
    change select AttemptRow.key k' attempts.rows = _
    rw [hrows]
    exact select_touch_of_ne hf hp hk _

theorem insertAttempt_ok {row : AttemptRow} (h : insertAttempt context row db = .ok (u, db')) :
    db'.attemptsOf row.key = db.attemptsOf row.key ++ [row] ∧
      (∀ k', db'.node k' = db.node k') ∧ SameElsewhere row.key db db' := by
  simp only [insertAttempt, statement_ok, map_eq_some_iff, Prod.mk.injEq] at h
  obtain ⟨attempts, hi, _, rfl⟩ := h
  obtain ⟨_, _, hrows⟩ := insert_some hi
  refine ⟨?_, fun _ => rfl, ?_⟩
  · simp only [Db.attemptsOf, hrows, select_append, if_true]
  · intro k' hk
    refine ⟨rfl, ?_⟩
    simp only [Db.attemptsOf, hrows, select_append, if_neg (Ne.symm hk), List.append_nil]

theorem withScopedTx_ok {ctx : Context} {p : Principal} (h : withScopedTx ctx db = .ok (p, db')) :
    scopedPrincipal ctx = .ok p ∧ db = db' := by
  unfold withScopedTx at h
  rw [lift_ok] at h
  refine ⟨?_, h.2⟩
  cases hs : scopedPrincipal ctx with
  | error e => simp [hs] at h
  | ok q => simpa [hs] using h.1

theorem loadNodeRuntime_ok (h : loadNodeRuntime k db = .ok (row, db')) :
    db.node k = some row ∧ db = db' := by
  simpa only [loadNodeRuntime, query_ok] using h

theorem claimMode_ok {now : Time} {reclaim : Bool} (h : claimMode row now = .ok reclaim) :
    (reclaim = false ∧ row.state = .ready) ∨
    (reclaim = true ∧ row.state = .running ∧ ¬ later row.leaseExpiresAt (some now) ∧
      row.retrySafe = true ∧ row.effectCommittedAt = none) := by
  unfold claimMode at h
  split at h
  · cases h
  split at h
  · rename_i hs
    split at h
    · cases h
    cases h
    exact .inl ⟨rfl, hs⟩
  · rename_i hs
    split at h
    · cases h
    rename_i hl
    split at h
    · cases h
    rename_i hr
    cases h
    simp only [not_or, Bool.not_eq_false, not_not] at hr
    exact .inr ⟨rfl, hs, hl, hr.1, hr.2⟩
  · cases h

/-- What a successful operation on a node amounts to. -/
def Steps (e : Event) (k : NodeKey) (db db' : Db) : Prop :=
  ∃ c c', cellOf db k = some c ∧ cellOf db' k = some c' ∧ CellStep e c c' ∧ SameElsewhere k db db'

/-- The same for the node a caller names. -/
def StepsFor (ctx : Context) (e : Event) (key : Principal → NodeKey) (db db' : Db) : Prop :=
  ∃ p, scopedPrincipal ctx = .ok p ∧ Steps e (key p) db db'

/-- The row and the attempts of the node are coupled, if it has a row. -/
def CoupledAt (db : Db) (k : NodeKey) : Prop :=
  ∀ c, cellOf db k = some c → ∃ base fence, Coupled base fence c

theorem cellOf_of_node (h : db.node k = some row) :
    ∃ past last, cellOf db k = some ⟨row, past, last⟩ := by
  simp [cellOf, h]

/-- A lease that carries the row's fence locates no older attempt. -/
theorem Coupled.past_guard {base fence : Int} (h : Coupled base fence c)
    (hf : c.row.leaseFence = lease.fence) : ∀ a ∈ c.past, a.leaseFence ≠ lease.fence := by
  intro a ha he
  have hlt := h.past_fence a ha
  omega

section

variable {ctx : Context} {now : Time} {db db' : Db} {leaseDuration : Duration}

theorem renew_steps {lease' : NodeLease}
    (h : renew ctx now lease leaseDuration db = .ok (lease', db')) :
    StepsFor ctx (.renew now lease) (leaseKey · lease) db db' := by
  simp only [renew, bind_ok, lift_ok, pure_ok] at h
  obtain ⟨_, _, ⟨_, rfl⟩, p, _, hw, _, _, hu, _, rfl⟩ := h
  obtain ⟨hp, rfl⟩ := withScopedTx_ok hw
  obtain ⟨row, hrow, ⟨_, hst, ho, ht, hf, hl⟩, _, hrow', ha, hs⟩ := updateHeld_ok hu (fun _ => rfl)
  obtain ⟨past, last, hc⟩ := cellOf_of_node hrow
  exact ⟨p, hp, _, _, hc, cellOf_row hc hrow' (ha _), CellStep.renew ⟨hst, ho, ht, hf, rfl, hl⟩, hs⟩

theorem startAttempt_steps (hcp : ∀ k, CoupledAt db k) {binding : AttemptBinding} {a : AttemptRow}
    (h : startAttempt ctx now lease binding db = .ok (a, db')) :
    StepsFor ctx (.startAttempt now lease binding) (leaseKey · lease) db db' := by
  simp only [startAttempt, loadAttemptTx, bind_ok, lift_ok, failIf_ok, query_ok, not_not] at h
  obtain ⟨_, _, ⟨_, rfl⟩, _, _, ⟨hb, rfl⟩, p, _, hw, row, _, hload, _, _, ⟨hown, rfl⟩, _, _, hu,
    _, rfl⟩ := h
  obtain ⟨hp, rfl⟩ := withScopedTx_ok hw
  obtain ⟨hrow, rfl⟩ := loadNodeRuntime_ok hload
  obtain ⟨past, last, hc⟩ := cellOf_of_node hrow
  obtain ⟨base, fence, hcoupled⟩ := hcp _ _ hc
  obtain ⟨cur, hcur, ⟨⟨hid, _⟩, hst⟩, ha, hn, hs⟩ := updateOneAttempt_ok hu (fun _ ha => ha.1.2.1)
    (fun _ => rfl) (cellOf_some hc).2
    (fun a hm ha => hcoupled.past_guard hown.2.2.2.1 a hm ha.1.2.2.1)
  cases hcur
  exact ⟨p, hp, _, _, hc, cellOf_snoc ((hn _).trans hrow) ha,
    CellStep.startAttempt hown hid hst hb, hs⟩

theorem held_then_attempt (hcp : ∀ k, CoupledAt db k) {mid : Db} {context context' : String}
    {extra : NodeRow → Prop} [DecidablePred extra] {q : AttemptRow → Prop} [DecidablePred q]
    {g : AttemptRow → AttemptRow} {u' : Unit}
    (hu : updateHeld context k lease now extra f db = .ok (u, mid))
    (ha : updateOneAttempt context' q g mid = .ok (u', db')) (hf : ∀ r, (f r).key = r.key)
    (hg : ∀ a, (g a).key = a.key)
    (hq : ∀ a, q a → a.key = k ∧ a.leaseFence = lease.fence ∧
      a.attemptNumber = lease.attemptNumber) :
    ∃ row past cur, cellOf db k = some ⟨row, past, some cur⟩ ∧ leaseOwnsRow row lease now ∧
      extra row ∧ q cur ∧ cellOf db' k = some ⟨f row, past, some (g cur)⟩ ∧
      SameElsewhere k db db' := by
  obtain ⟨row, hrow, ⟨_, hst, ho, ht, hfen, hl⟩, he, hrow', hsame, hs⟩ := updateHeld_ok hu hf
  obtain ⟨past, last, hc⟩ := cellOf_of_node hrow
  obtain ⟨base, fence, hcoupled⟩ := hcp _ _ hc
  obtain ⟨cur, hcur, hqc, ha', hn, hs'⟩ := updateOneAttempt_ok ha (fun a hqa => (hq a hqa).1) hg
    ((hsame k).trans (cellOf_some hc).2)
    (fun a hm hqa => hcoupled.past_guard hfen a hm (hq a hqa).2.1)
  cases hcur
  have hnum := hcoupled.last_number.1
  exact ⟨row, past, cur, hc, ⟨hst, ho, ht, hfen, hnum.symm.trans (hq cur hqc).2.2, hl⟩, he, hqc,
    cellOf_snoc ((hn k).trans hrow') ha', hs.trans hs'⟩

section

variable {lease : NodeLease} {u : Unit} (hcp : ∀ k, CoupledAt db k)

include hcp

theorem markEffectStarted_steps (h : markEffectStarted ctx now lease db = .ok (u, db')) :
    StepsFor ctx (.markEffectStarted now lease) (leaseKey · lease) db db' := by
  simp only [markEffectStarted, bind_ok, lift_ok] at h
  obtain ⟨_, _, ⟨_, rfl⟩, p, _, hw, _, mid, hu, ha⟩ := h
  obtain ⟨hp, rfl⟩ := withScopedTx_ok hw
  obtain ⟨row, past, cur, hc, hown, he, ⟨⟨hid, _⟩, hst, _⟩, hc', hs⟩ := held_then_attempt hcp hu ha
    (fun _ => rfl) (fun _ => rfl) (fun _ hq => hq.1.2)
  exact ⟨p, hp, _, _, hc, hc', CellStep.markEffectStarted hown hid hst he, hs⟩

theorem markEffectCommitted_steps (h : markEffectCommitted ctx now lease db = .ok (u, db')) :
    StepsFor ctx (.markEffectCommitted now lease) (leaseKey · lease) db db' := by
  simp only [markEffectCommitted, bind_ok, lift_ok] at h
  obtain ⟨_, _, ⟨_, rfl⟩, p, _, hw, _, mid, hu, ha⟩ := h
  obtain ⟨hp, rfl⟩ := withScopedTx_ok hw
  obtain ⟨row, past, cur, hc, hown, he, ⟨⟨hid, _⟩, hst, _⟩, hc', hs⟩ := held_then_attempt hcp hu ha
    (fun _ => rfl) (fun _ => rfl) (fun _ hq => hq.1.2)
  exact ⟨p, hp, _, _, hc, hc', CellStep.markEffectCommitted hown hid hst he.1 he.2, hs⟩

theorem releaseBeforeEffect_steps (h : releaseBeforeEffect ctx now lease db = .ok (u, db')) :
    StepsFor ctx (.releaseBeforeEffect now lease) (leaseKey · lease) db db' := by
  simp only [releaseBeforeEffect, bind_ok, lift_ok] at h
  obtain ⟨_, _, ⟨_, rfl⟩, p, _, hw, _, mid, hu, ha⟩ := h
  obtain ⟨hp, rfl⟩ := withScopedTx_ok hw
  obtain ⟨row, past, cur, hc, hown, he, hq, hc', hs⟩ := held_then_attempt hcp hu ha
    (fun _ => rfl) (fun _ => rfl) (fun _ hq => ⟨hq.1, hq.2.2.1, hq.2.1⟩)
  exact ⟨p, hp, _, _, hc, hc', CellStep.releaseBeforeEffect hown hq.2.2.2 he, hs⟩

theorem complete_steps {terminal : NodeState} {completion : AttemptCompletion}
    (h : complete ctx now lease terminal completion db = .ok (u, db')) :
    StepsFor ctx (.complete now lease terminal completion) (leaseKey · lease) db db' := by
  simp only [complete, bind_ok, lift_ok, failIf_ok, not_not] at h
  obtain ⟨_, _, ⟨_, rfl⟩, _, _, ⟨hv, rfl⟩, p, _, hw, row, _, hload, _, _, ⟨hown, rfl⟩, _, _,
    ⟨hmut, rfl⟩, _, mid, ha, hu⟩ := h
  obtain ⟨hp, rfl⟩ := withScopedTx_ok hw
  obtain ⟨hrow, rfl⟩ := loadNodeRuntime_ok hload
  obtain ⟨past, last, hc⟩ := cellOf_of_node hrow
  obtain ⟨base, fence, hcoupled⟩ := hcp _ _ hc
  obtain ⟨cur, hcur, ⟨⟨hid, _⟩, hst⟩, ha', hn, hs⟩ := updateOneAttempt_ok ha (fun _ ha => ha.1.2.1)
    (fun _ => rfl) (cellOf_some hc).2
    (fun a hm ha => hcoupled.past_guard hown.2.2.2.1 a hm ha.1.2.2.1)
  cases hcur
  obtain ⟨row', hrow', _, _, hdone, hsame, hs'⟩ := updateHeld_ok hu (fun _ => rfl)
  rw [hn, hrow] at hrow'
  cases hrow'
  exact ⟨p, hp, _, _, hc, cellOf_snoc hdone ((hsame _).trans ha'),
    CellStep.complete hown hid hst hv hmut, hs.trans hs'⟩

end

theorem requeueFailed_steps {executionID nodeID : String} {planRevision : Int}
    (h : requeueFailed ctx now executionID planRevision nodeID db = .ok (u, db')) :
    StepsFor ctx (.requeueFailed now) (nodeKey · executionID planRevision nodeID) db db' := by
  simp only [requeueFailed, bind_ok, failIf_ok, not_not, not_or, Bool.not_eq_false] at h
  obtain ⟨_, _, ⟨_, rfl⟩, p, _, hw, row, _, hload, _, _, ⟨hst, rfl⟩, _, _, ⟨⟨hretry, hmut⟩, rfl⟩,
    _, _, hu, rfl, rfl⟩ := h
  obtain ⟨hp, rfl⟩ := withScopedTx_ok hw
  obtain ⟨hrow, rfl⟩ := loadNodeRuntime_ok hload
  obtain ⟨row', hrow', _, hdone, ha, hs⟩ := updateNodes_one hu (fun _ hr => hr.1) (fun _ => rfl)
  rw [hrow] at hrow'
  cases hrow'
  obtain ⟨past, last, hc⟩ := cellOf_of_node hrow
  exact ⟨p, hp, _, _, hc, cellOf_row hc hdone (ha _), CellStep.requeueFailed hst hretry hmut, hs⟩

private theorem claim_writes {row : NodeRow} {attempts : List AttemptRow}
    {attemptNumber fence : Int} {owner token attemptID : String} {mid mid' : Db}
    {context context' : String} (hrow : db.node k = some row) (ha : db.attemptsOf k = attempts)
    (hu : updateNodes context (fun r => r.key = k)
      (fun r => r.claimed attemptNumber fence owner token now leaseDuration) db = .ok (1, mid'))
    (hi : insertAttempt context' (AttemptRow.pending k attemptID attemptNumber fence owner
      (row.idempotencyKey.getD "") now) mid' = .ok (u, mid)) :
    cellOf mid k = some ⟨row.claimed attemptNumber fence owner token now leaseDuration, attempts,
      some (AttemptRow.pending row.key attemptID attemptNumber fence owner
        (row.idempotencyKey.getD "") now)⟩ ∧ SameElsewhere k db mid := by
  obtain ⟨row', hrow', _, hclaimed, hsame, hs⟩ := updateNodes_one hu (fun _ hr => hr) (fun _ => rfl)
  rw [hrow] at hrow'
  cases hrow'
  obtain ⟨hins, hn, hs'⟩ := insertAttempt_ok hi
  refine ⟨cellOf_snoc ((hn k).trans hclaimed) ?_, hs.trans hs'⟩
  rw [node_key hrow, ← ha, ← hsame k]
  exact hins

theorem claim_steps (hcp : ∀ k, CoupledAt db k) {tokenRand attemptRand : Option String}
    {executionID nodeID owner : String} {planRevision : Int}
    (h : claim ctx now tokenRand attemptRand executionID planRevision nodeID owner leaseDuration
      db = .ok (lease, db')) :
    ∃ p, scopedPrincipal ctx = .ok p ∧
      leaseKey p lease = nodeKey p executionID planRevision nodeID ∧ lease.ownerWorkerID = owner ∧
      Steps (.claim now lease) (nodeKey p executionID planRevision nodeID) db db' := by
  simp only [claim, bind_ok, lift_ok] at h
  obtain ⟨_, _, ⟨_, rfl⟩, p, _, hw, row, _, hload, reclaim, _, ⟨hmode, rfl⟩, h⟩ := h
  obtain ⟨hp, rfl⟩ := withScopedTx_ok hw
  obtain ⟨hrow, rfl⟩ := loadNodeRuntime_ok hload
  refine ⟨p, hp, ?_⟩
  obtain ⟨past, last, hc⟩ := cellOf_of_node hrow
  have hkey := node_key hrow
  rcases claimMode_ok hmode with ⟨rfl, hready⟩ | ⟨rfl, hrun, hexp, hretry, hcom⟩
  · simp only [Bool.false_eq_true, if_false, bind_ok, lift_ok, failIf_ok, pure_ok, not_not] at h
    obtain ⟨token, _, ⟨_, rfl⟩, attemptID, _, ⟨_, rfl⟩, _, mid, hu, _, _, ⟨rfl, rfl⟩,
      _, _, hi, rfl, rfl⟩ := h
    obtain ⟨hc', hs⟩ := claim_writes hrow (cellOf_some hc).2 hu hi
    exact ⟨rfl, rfl, _, _, hc, hc', CellStep.claimReady hready
      ⟨rfl, rfl, by rw [hkey]; exact ⟨rfl, rfl, rfl⟩⟩, hs⟩
  · simp only [if_true, bind_ok, lift_ok, failIf_ok, pure_ok, not_not] at h
    obtain ⟨_, mid', hab, token, _, ⟨_, rfl⟩, attemptID, _, ⟨_, rfl⟩, _, mid, hu, _, _, ⟨rfl, rfl⟩,
      _, _, hi, rfl, rfl⟩ := h
    obtain ⟨base, fence, hcoupled⟩ := hcp _ _ hc
    obtain ⟨cur, hcur, ⟨_, _, _, hopen⟩, ha, hn, hs⟩ := updateOneAttempt_ok hab
      (fun _ ha => ha.1) (fun _ => rfl) (cellOf_some hc).2
      (fun a hm ha => Int.ne_of_lt (hcoupled.past_fence a hm) ha.2.2.1)
    cases hcur
    obtain ⟨hc', hs'⟩ := claim_writes ((hn _).trans hrow) ha hu hi
    exact ⟨rfl, rfl, _, _, hc, hc', CellStep.reclaim hrun hexp hretry hcom hopen
      ⟨rfl, rfl, by rw [hkey]; exact ⟨rfl, rfl, rfl⟩⟩, hs.trans hs'⟩

theorem register_ok {record : NodeRuntimeRecord} (h : register ctx now record db = .ok (u, db')) :
    ∃ p, scopedPrincipal ctx = .ok p ∧ db.node (recordKey p record) = none ∧
      db'.node (recordKey p record) = some (registeredRow (recordKey p record) record now) ∧
      (∀ k, db'.attemptsOf k = db.attemptsOf k) ∧ SameElsewhere (recordKey p record) db db' := by
  simp only [register, insertNodeOrNothing, bind_ok, lift_ok, failIf_ok, statement_ok, not_not] at h
  obtain ⟨_, _, ⟨_, rfl⟩, p, _, hw, _, _, hi, rfl, rfl⟩ := h
  obtain ⟨hp, rfl⟩ := withScopedTx_ok hw
  split at hi
  · simp at hi
  simp only [map_eq_some_iff, Prod.mk.injEq, true_and] at hi
  obtain ⟨nodes, hi, rfl⟩ := hi
  obtain ⟨_, hclash, hrows⟩ := insert_some hi
  have hnone : db.node (recordKey p record) = none := by
    rw [Db.node, lookup_none]
    exact hclash
  refine ⟨p, hp, hnone, ?_, fun _ => rfl, ?_⟩
  · rw [Db.node, hrows, lookup_append]
    change (db.node _).or _ = _
    rw [hnone]
    simp [registeredRow]
  · intro k hk
    refine ⟨?_, rfl⟩
    rw [Db.node, hrows, lookup_append]
    have hne : (registeredRow (recordKey p record) record now).key ≠ k := Ne.symm hk
    rw [if_neg hne, or_none]
    rfl

end

/-- The event a successful call stands for; registration creates a cell instead. -/
def Call.event (c : Call) (reply : Reply) : Option Event :=
  match c.op, reply with
  | .register _, _ => none
  | .claim .., .lease lease => some (.claim c.now lease)
  | .claim .., _ => none
  | .renew lease _, _ => some (.renew c.now lease)
  | .startAttempt lease binding, _ => some (.startAttempt c.now lease binding)
  | .markEffectStarted lease, _ => some (.markEffectStarted c.now lease)
  | .markEffectCommitted lease, _ => some (.markEffectCommitted c.now lease)
  | .releaseBeforeEffect lease, _ => some (.releaseBeforeEffect c.now lease)
  | .complete lease terminal completion, _ => some (.complete c.now lease terminal completion)
  | .requeueFailed .., _ => some (.requeueFailed c.now)

/-- The event of one call on one node, if it succeeded there. -/
def eventsAt (db : Db) (c : Call) (k : NodeKey) : List Event :=
  match scopedPrincipal c.ctx, (exec db c).1 with
  | .ok p, .ok reply => if c.key p = k then (c.event reply).toList else []
  | _, _ => []

theorem mem_eventsAt {c : Call} {e : Event} (h : e ∈ eventsAt db c k) :
    ∃ p reply, scopedPrincipal c.ctx = .ok p ∧ c.key p = k ∧ (exec db c).1 = .ok reply ∧
      c.event reply = some e := by
  unfold eventsAt at h
  split at h
  · rename_i p reply hp hr
    split at h
    · rename_i hk
      exact ⟨p, reply, hp, hk, hr, mem_toList.mp h⟩
    · cases h
  · cases h

/-- The events of a node along a run, oldest first. -/
def eventsFrom (db : Db) (k : NodeKey) : List Call → List Event
  | [] => []
  | c :: rest => eventsAt db c k ++ eventsFrom (exec db c).2 k rest

def eventsOf (calls : List Call) (k : NodeKey) : List Event := eventsFrom Db.empty k calls

/-- A registration that succeeded created the row of its node. -/
def Registers (c : Call) (k : NodeKey) (record : NodeRuntimeRecord) (db db' : Db) : Prop :=
  c.op = .register record ∧ db.node k = none ∧ db'.node k = some (registeredRow k record c.now) ∧
    (∀ k', db'.attemptsOf k' = db.attemptsOf k') ∧ SameElsewhere k db db'

theorem tx_ok {c : Call} {reply : Reply} (hcp : ∀ k, CoupledAt db k)
    (h : c.tx db = .ok (reply, db')) : ∃ p, scopedPrincipal c.ctx = .ok p ∧
    ((reply = .done ∧ ∃ record, Registers c (c.key p) record db db') ∨
      ∃ e, c.event reply = some e ∧ Steps e (c.key p) db db') := by
  obtain ⟨ctx, now, op⟩ := c
  cases op <;> simp only [Call.tx, bind_ok, pure_ok] at h <;> obtain ⟨_, _, h, rfl, rfl⟩ := h
  case register =>
    obtain ⟨p, hp, h⟩ := register_ok h
    exact ⟨p, hp, .inl ⟨rfl, _, rfl, h⟩⟩
  case claim =>
    obtain ⟨p, hp, _, _, h⟩ := claim_steps hcp h
    exact ⟨p, hp, .inr ⟨_, rfl, h⟩⟩
  case' renew => have h := renew_steps h
  case' startAttempt => have h := startAttempt_steps hcp h
  case' markEffectStarted => have h := markEffectStarted_steps hcp h
  case' markEffectCommitted => have h := markEffectCommitted_steps hcp h
  case' releaseBeforeEffect => have h := releaseBeforeEffect_steps hcp h
  case' complete => have h := complete_steps hcp h
  case' requeueFailed => have h := requeueFailed_steps h
  all_goals
    obtain ⟨p, hp, h⟩ := h
    exact ⟨p, hp, .inr ⟨_, rfl, h⟩⟩

end AiCloud.NodeLease
