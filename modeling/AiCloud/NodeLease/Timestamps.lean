import AiCloud.NodeLease.Reachable

/-!
# Clock readings and row locks

A transaction first reads the database clock and then waits for the row lock of its
node, so transactions may commit in another order than they read the clock. The
timestamps of a node are such readings: they are in order where the lock of the node is
granted in the order of the readings, and only there. The same order puts the timestamps
of the attempts in order.
-/
namespace AiCloud.NodeLease

open Lib Execution Identity List

/-- The transactions that have read the clock wait for their locks, in the order
of their readings; the others have committed, in the order of their locks. -/
structure LockState where
  clock : Time
  (waiting committed : List Call)

/-- The clock never goes back. A transaction that gets its lock runs to its end,
and no other transaction sees or changes its node meanwhile. -/
inductive LockStep (granted : List Call → Call → Prop) : LockState → LockState → Prop
  | tick {s : LockState} {t : Time} : s.clock ≤ t → LockStep granted s { s with clock := t }
  | read {s : LockState} (ctx : Context) (op : Op) :
      LockStep granted s { s with waiting := s.waiting ++ [⟨ctx, s.clock, op⟩] }
  | lock {s : LockState} {before behind : List Call} {c : Call} :
      s.waiting = before ++ c :: behind → granted before c →
      LockStep granted s
        { s with waiting := before ++ behind, committed := s.committed ++ [c] }

/-- What is reached from an empty store, with a clock that shows `t`. -/
def LockReach (granted : List Call → Call → Prop) (t : Time) : LockState → Prop :=
  Relation.ReflTransGen (LockStep granted) ⟨t, [], []⟩

section

variable {granted : List Call → Call → Prop} {t : Time} {s : LockState}

theorem LockReach.wait (h : LockReach granted t s) (c : Call) (hc : s.clock ≤ c.now) :
    LockReach granted t ⟨c.now, s.waiting ++ [c], s.committed⟩ :=
  (Relation.ReflTransGen.tail h (.tick hc)).tail (.read c.ctx c.op)

theorem LockReach.grant {clock : Time} {committed : List Call} {c : Call}
    (before behind : List Call)
    (h : LockReach granted t ⟨clock, before ++ c :: behind, committed⟩) (hg : granted before c) :
    LockReach granted t ⟨clock, before ++ behind, committed ++ [c]⟩ :=
  Relation.ReflTransGen.tail h (.lock rfl hg)

theorem LockReach.alone {clock : Time} {committed : List Call}
    (h : LockReach granted t ⟨clock, [], committed⟩) (c : Call) (hc : clock ≤ c.now)
    (hg : granted [] c) : LockReach granted t ⟨c.now, [], committed ++ [c]⟩ :=
  LockReach.grant [] [] (h.wait c hc) hg

end

def Call.On (c : Call) (k : NodeKey) : Prop :=
  ∃ p, scopedPrincipal c.ctx = .ok p ∧ c.key p = k

/-- Any transaction may get its lock next. -/
def anyOrder : List Call → Call → Prop := fun _ _ => True

/-- A transaction on the node gets the lock before those that read the clock after it. -/
def readOrder (k : NodeKey) : List Call → Call → Prop :=
  fun before c => c.On k → ∀ d ∈ before, ¬ d.On k

/-- The calls on the node read the clock in the order of the list. -/
def Sorted (k : NodeKey) (calls : List Call) : Prop :=
  calls.Pairwise (fun c d => c.On k → d.On k → c.now ≤ d.now)

structure Queued (k : NodeKey) (s : LockState) : Prop where
  elapsed : ∀ c ∈ s.waiting, c.now ≤ s.clock
  waiting : s.waiting.Pairwise (fun c d => c.now ≤ d.now)
  committed : Sorted k s.committed
  ahead : ∀ c ∈ s.committed, ∀ d ∈ s.waiting, c.On k → d.On k → c.now ≤ d.now
  past : ∀ c ∈ s.committed, c.now ≤ s.clock

theorem Queued.step {k : NodeKey} {s s' : LockState} (h : Queued k s)
    (hs : LockStep (readOrder k) s s') : Queued k s' := by
  cases hs with
  | tick ht =>
    exact ⟨fun c hc => Int.le_trans (h.elapsed c hc) ht, h.waiting, h.committed, h.ahead,
      fun c hc => Int.le_trans (h.past c hc) ht⟩
  | read ctx op =>
    refine ⟨?_, ?_, h.committed, ?_, h.past⟩
    · intro c hc
      rcases mem_append.mp hc with hc | hc
      · exact h.elapsed c hc
      · obtain rfl := mem_singleton.mp hc
        exact Int.le_refl _
    · refine pairwise_append.mpr ⟨h.waiting, pairwise_singleton _ _, ?_⟩
      intro c hc d hd
      rw [mem_singleton.mp hd]
      exact h.elapsed c hc
    · intro c hc d hd hck hdk
      rcases mem_append.mp hd with hd | hd
      · exact h.ahead c hc d hd hck hdk
      · rw [mem_singleton.mp hd]
        exact h.past c hc
  | @lock before behind c hw hg =>
    have hsub : (before ++ behind).Sublist s.waiting := by
      rw [hw]
      exact Sublist.append_left (sublist_cons_self c behind) before
    have hcw : c ∈ s.waiting := by simp [hw]
    refine ⟨?_, h.waiting.sublist hsub, ?_, ?_, ?_⟩
    · exact fun d hd => h.elapsed d (hsub.subset hd)
    · refine pairwise_append.mpr ⟨h.committed, pairwise_singleton _ _, ?_⟩
      intro d hd e he
      rw [mem_singleton.mp he]
      exact h.ahead d hd c hcw
    · intro d hd e he hdk hek
      rcases mem_append.mp hd with hd | hd
      · exact h.ahead d hd e (hsub.subset he) hdk hek
      -- The granted transaction read the clock before all that still wait on the node.
      rw [mem_singleton.mp hd] at hdk ⊢
      rcases mem_append.mp he with he | he
      · exact absurd hek (hg hdk e he)
      have hpair := h.waiting
      rw [hw] at hpair
      exact (pairwise_cons.mp (pairwise_append.mp hpair).2.1).1 e he
    · intro d hd
      rcases mem_append.mp hd with hd | hd
      · exact h.past d hd
      · rw [mem_singleton.mp hd]
        exact h.elapsed c hcw

theorem LockReach.queued {k : NodeKey} {t : Time} {s : LockState}
    (h : LockReach (readOrder k) t s) : Queued k s := by
  induction h with
  | refl => constructor <;> simp [Sorted]
  | tail _ hs ih => exact ih.step hs

def Event.now : Event → Time
  | .claim now _ => now
  | .renew now _ => now
  | .startAttempt now _ _ => now
  | .markEffectStarted now _ => now
  | .markEffectCommitted now _ => now
  | .releaseBeforeEffect now _ => now
  | .complete now _ _ _ => now
  | .requeueFailed now => now

theorem event_now {c : Call} {reply : Reply} {e : Event} (h : c.event reply = some e) :
    e.now = c.now := by
  obtain ⟨ctx, now, op⟩ := c
  cases op with
  | register => cases h
  | claim =>
    cases reply <;> cases h
    rfl
  | _ =>
    cases h
    rfl

variable {calls : List Call} {k : NodeKey} {e : Event}

theorem mem_eventsFrom {db : Db}
    (h : e ∈ eventsFrom db k calls) : ∃ c ∈ calls, c.On k ∧ e.now = c.now := by
  induction calls generalizing db with
  | nil => cases h
  | cons c rest ih =>
    rcases mem_append.mp h with he | he
    · obtain ⟨p, reply, hp, hk, _, hev⟩ := mem_eventsAt he
      exact ⟨c, mem_cons_self, ⟨p, hp, hk⟩, event_now hev⟩
    · obtain ⟨d, hd, hon, hnow⟩ := ih he
      exact ⟨d, mem_cons_of_mem c hd, hon, hnow⟩

theorem eventsAt_pairwise (db : Db) (c : Call) (k : NodeKey) :
    (eventsAt db c k).Pairwise (fun d e => d.now ≤ e.now) := by
  unfold eventsAt
  split
  · split
    · cases c.event _ <;> simp
    · exact Pairwise.nil
  · exact Pairwise.nil

theorem eventsFrom_sorted (h : Sorted k calls) (db : Db) :
    (eventsFrom db k calls).Pairwise (fun d e => d.now ≤ e.now) := by
  induction calls generalizing db with
  | nil => exact Pairwise.nil
  | cons c rest ih =>
    obtain ⟨hc, hrest⟩ := pairwise_cons.mp h
    refine pairwise_append.mpr ⟨eventsAt_pairwise db c k, ih hrest _, ?_⟩
    intro d hd e he
    obtain ⟨p, reply, hp, hk, _, hev⟩ := mem_eventsAt hd
    obtain ⟨c', hc', hon, hnow⟩ := mem_eventsFrom he
    rw [event_now hev, hnow]
    exact hc c' hc' ⟨p, hp, hk⟩ hon

/-- The timestamps of an attempt that are set, in the order of its life. -/
def AttemptRow.stamps (a : AttemptRow) : List Time :=
  a.claimedAt :: (a.startedAt.toList ++ a.effectStartedAt.toList ++
    a.effectCommittedAt.toList ++ a.finishedAt.toList)

def Precedes (a b : AttemptRow) : Prop := ∃ t, a.finishedAt = some t ∧ t ≤ b.claimedAt

structure AuditOrdered (attempts : List AttemptRow) : Prop where
  within : ∀ a ∈ attempts, a.stamps.Pairwise (· ≤ ·)
  across : ∀ a ∈ attempts, ∀ b ∈ attempts, b.attemptNumber = a.attemptNumber + 1 → Precedes a b

/-- Later timestamps are set on attempts that have the earlier ones. -/
structure AttemptRow.Advanced (a : AttemptRow) : Prop where
  pending : a.status = .pending → a.startedAt = none ∧ a.effectStartedAt = none
  uncommitted : a.effectStartedAt = none → a.effectCommittedAt = none
  finished : a.status.isOpen ↔ a.finishedAt = none

/-- Every timestamp was read by one of the events, and all are in order. -/
structure Stamped (es : List Event) (c : Cell) : Prop where
  read : ∀ a ∈ c.attempts, ∀ t ∈ a.stamps, t ∈ es.map Event.now
  within : ∀ a ∈ c.attempts, a.stamps.Pairwise (· ≤ ·)
  across : c.attempts.Pairwise Precedes
  advanced : ∀ a ∈ c.attempts, a.Advanced

variable {es : List Event} {c : Cell}

theorem Stamped.later {c' : Cell} (h : Stamped es c) (e : Event) (heq : c'.attempts = c.attempts) :
    Stamped (es ++ [e]) c' := by
  refine ⟨?_, heq ▸ h.within, heq ▸ h.across, heq ▸ h.advanced⟩
  intro a ha t ht
  rw [map_append]
  exact mem_append_left _ (h.read a (heq ▸ ha) t ht)

theorem Stamped.stamp {row row' : NodeRow} {past : List AttemptRow} {cur cur' : AttemptRow}
    (h : Stamped es ⟨row, past, some cur⟩) (hlast : ∀ t ∈ es.map Event.now, t ≤ e.now)
    (hclaimed : cur'.claimedAt = cur.claimedAt) (hstamps : cur'.stamps = cur.stamps ++ [e.now])
    (hadv : cur'.Advanced) : Stamped (es ++ [e]) ⟨row', past, some cur'⟩ := by
  have hcur : cur ∈ (⟨row, past, some cur⟩ : Cell).attempts := by simp [Cell.attempts]
  have hpast : ∀ a ∈ past, a ∈ (⟨row, past, some cur⟩ : Cell).attempts := by
    intro a ha
    simp [Cell.attempts, ha]
  have hsplit : ∀ a ∈ (⟨row', past, some cur'⟩ : Cell).attempts, a ∈ past ∨ a = cur' := by
    intro a ha
    simpa [Cell.attempts] using ha
  refine ⟨?_, ?_, ?_, ?_⟩
  · intro a ha t ht
    rw [map_append]
    rcases hsplit a ha with hp | rfl
    · exact mem_append_left _ (h.read a (hpast a hp) t ht)
    rw [hstamps] at ht
    rcases mem_append.mp ht with ht | ht
    · exact mem_append_left _ (h.read cur hcur t ht)
    · exact mem_append_right _ (by simpa using ht)
  · intro a ha
    rcases hsplit a ha with hp | rfl
    · exact h.within a (hpast a hp)
    rw [hstamps]
    refine pairwise_append.mpr ⟨h.within cur hcur, pairwise_singleton _ _, ?_⟩
    intro t ht t' ht'
    rw [mem_singleton.mp ht']
    exact hlast t (h.read cur hcur t ht)
  · have hold := pairwise_append.mp h.across
    refine pairwise_append.mpr ⟨hold.1, pairwise_singleton _ _, ?_⟩
    intro a ha b hb
    rw [show b = cur' from by simpa using hb]
    unfold Precedes
    rw [hclaimed]
    exact hold.2.2 a ha cur (by simp)
  · intro a ha
    rcases hsplit a ha with hp | rfl
    · exact h.advanced a (hpast a hp)
    · exact hadv

theorem Stamped.claim {row' row : NodeRow} {lease : NodeLease} {now : Time} (h : Stamped es c)
    (hnow : now ∈ es.map Event.now) (hlast : ∀ t ∈ es.map Event.now, t ≤ now)
    (hclosed : ∀ a ∈ c.attempts, ¬ a.status.isOpen) :
    Stamped es ⟨row', c.attempts, some (newAttempt row lease now)⟩ := by
  have hsplit : ∀ a ∈ (⟨row', c.attempts, some (newAttempt row lease now)⟩ : Cell).attempts,
      a ∈ c.attempts ∨ a = newAttempt row lease now := by
    intro a ha
    exact (mem_append.mp ha).imp_right (fun hnew => by simpa using hnew)
  have hstamps : (newAttempt row lease now).stamps = [now] := rfl
  refine ⟨?_, ?_, ?_, ?_⟩
  · intro a ha t ht
    rcases hsplit a ha with hp | rfl
    · exact h.read a hp t ht
    · rw [hstamps] at ht
      rwa [mem_singleton.mp ht]
  · intro a ha
    rcases hsplit a ha with hp | rfl
    · exact h.within a hp
    · rw [hstamps]
      exact pairwise_singleton _ _
  · refine pairwise_append.mpr ⟨h.across, pairwise_singleton _ _, ?_⟩
    intro a ha b hb
    rw [show b = newAttempt row lease now from by simpa using hb]
    have hfin := mt (h.advanced a ha).finished.mpr (hclosed a ha)
    obtain ⟨t, ht⟩ := Option.ne_none_iff_exists'.mp hfin
    refine ⟨t, ht, hlast t (h.read a ha t ?_)⟩
    simp [AttemptRow.stamps, ht]
  · intro a ha
    rcases hsplit a ha with hp | rfl
    · exact h.advanced a hp
    · refine ⟨fun _ => ⟨rfl, rfl⟩, fun _ => rfl, ?_⟩
      exact iff_of_true (.inl rfl) rfl

theorem AttemptRow.Advanced.close {a : AttemptRow} (h : a.Advanced) (hopen : a.status.isOpen)
    (b : AttemptRow) (now : Time) (hclaimed : b.claimedAt = a.claimedAt)
    (hstarted : b.startedAt = a.startedAt) (heffect : b.effectStartedAt = a.effectStartedAt)
    (hcommitted : b.effectCommittedAt = a.effectCommittedAt) (hfinished : b.finishedAt = some now)
    (hclosed : ¬ b.status.isOpen) : b.stamps = a.stamps ++ [now] ∧ b.Advanced := by
  refine ⟨?_, ?_, ?_, ?_⟩
  · simp [AttemptRow.stamps, hclaimed, hstarted, heffect, hcommitted, hfinished,
      h.finished.mp hopen]
  · exact fun hp => absurd (.inl hp) hclosed
  · rw [heffect, hcommitted]
    exact h.uncommitted
  · exact iff_of_false hclosed (by simp [hfinished])

theorem Stamped.step {base fence : Int} {c' : Cell} (hc : Coupled base fence c) (h : Stamped es c)
    (hlast : ∀ t ∈ es.map Event.now, t ≤ e.now) (hs : CellStep e c c') :
    Stamped (es ++ [e]) c' := by
  have hnow : e.now ∈ (es ++ [e]).map Event.now := by simp
  have hlast' : ∀ t ∈ (es ++ [e]).map Event.now, t ≤ e.now := by
    intro t ht
    rw [map_append] at ht
    rcases mem_append.mp ht with ht | ht
    · exact hlast t ht
    · exact Int.le_of_eq (by simpa using ht)
  cases hs with
  | @claimReady row past last now lease leaseDuration hready hl =>
    refine (h.later _ rfl).claim hnow hlast' ?_
    intro a ha ho
    have hnone : ¬ ∃ cur, last = some cur ∧ cur.status.isOpen := by
      intro hex
      rw [hc.running.mpr hex] at hready
      cases hready
    rcases mem_append.mp ha with hp | hl'
    · exact hc.closed a hp ho
    · exact hnone ⟨a, Option.mem_toList.mp hl', ho⟩
  | @reclaim row past cur now lease leaseDuration hrun hexp hretry hcom hopen hl =>
    have hcur := h.advanced cur (by simp [Cell.attempts])
    have hclose := hcur.close hopen (cur.abandon now) now rfl rfl rfl rfl rfl
      (by simp [AttemptRow.abandon, AttemptStatus.isOpen])
    have hended : Stamped (es ++ [.claim now lease]) ⟨row, past, some (cur.abandon now)⟩ :=
      h.stamp hlast rfl hclose.1 hclose.2
    refine hended.claim hnow hlast' ?_
    intro a ha ho
    rcases mem_append.mp ha with hp | hl'
    · exact hc.closed a hp ho
    · rw [show a = cur.abandon now from by simpa using hl'] at ho
      simp [AttemptRow.abandon, AttemptStatus.isOpen] at ho
  | renew => exact h.later _ rfl
  | @startAttempt row past cur now lease binding hown hid hst hb =>
    have hcur := h.advanced cur (by simp [Cell.attempts])
    obtain ⟨hstarted, heffect⟩ := hcur.pending hst
    have hfin := hcur.finished.mp (.inl hst)
    refine h.stamp hlast rfl ?_ ⟨?_, hcur.uncommitted, iff_of_true (.inr rfl) hfin⟩
    · simp [AttemptRow.stamps, AttemptRow.start, hstarted, heffect, hcur.uncommitted heffect, hfin,
        Event.now]
    · intro hp
      cases hp
  | @markEffectStarted row past cur now lease hown hid hst hnone =>
    have hcur := h.advanced cur (by simp [Cell.attempts])
    have heffect : cur.effectStartedAt = none := hc.started.symm.trans hnone
    have hfin := hcur.finished.mp (.inr hst)
    refine h.stamp hlast rfl ?_ ⟨?_, ?_, hcur.finished⟩
    · simp [AttemptRow.stamps, heffect, hcur.uncommitted heffect, hfin, Event.now]
    · intro hp
      rw [show cur.status = .pending from hp] at hst
      cases hst
    · intro hn
      cases hn
  | @markEffectCommitted row past cur now lease hown hid hst hse hnone =>
    have hcur := h.advanced cur (by simp [Cell.attempts])
    have heffect : cur.effectCommittedAt = none := hc.committed.symm.trans hnone
    have hstarted : cur.effectStartedAt ≠ none := fun hn => hse (hc.started.trans hn)
    have hfin := hcur.finished.mp (.inr hst)
    refine h.stamp hlast rfl ?_ ⟨hcur.pending, fun hn => absurd hn hstarted, hcur.finished⟩
    simp [AttemptRow.stamps, heffect, hfin, Event.now]
  | @releaseBeforeEffect row past cur now lease hown hopen hnone =>
    have hcur := h.advanced cur (by simp [Cell.attempts])
    have hclose := hcur.close hopen (cur.abandon now) now rfl rfl rfl rfl rfl
      (by simp [AttemptRow.abandon, AttemptStatus.isOpen])
    exact h.stamp hlast rfl hclose.1 hclose.2
  | @complete row past cur now lease terminal completion hown hid hst hv hmut =>
    have hcur := h.advanced cur (by simp [Cell.attempts])
    have hopen : cur.status.isOpen := hst.elim .inr (fun hp => .inl hp.2)
    have hclose := hcur.close hopen (cur.complete completion now) now rfl rfl rfl rfl rfl
      (completion_state hv).2.2
    exact h.stamp hlast rfl hclose.1 hclose.2
  | requeueFailed => exact h.later _ rfl

/-- Along a history with sorted readings the timestamps are in order. -/
theorem Present.stamped {db : Db} {record : NodeRuntimeRecord} (h : Present calls db k record c)
    (hs : Sorted k calls) : Stamped (eventsOf calls k) c := by
  refine h.history (I := fun es x => es.Pairwise (fun d e => d.now ≤ e.now) → Stamped es x)
    ?_ ?_ (eventsFrom_sorted hs Db.empty)
  · intro now _
    constructor <;> simp [initCell, Cell.attempts]
  · intro es e x x' hc ih hstep hsorted
    obtain ⟨hold, _, hlast⟩ := pairwise_append.mp hsorted
    refine (ih hold).step hc ?_ hstep
    intro t ht
    obtain ⟨d, hd, rfl⟩ := mem_map.mp ht
    exact hlast d hd e (mem_singleton_self e)

theorem Coupled.precedes {base fence : Int} (h : Coupled base fence c)
    (hp : c.attempts.Pairwise Precedes) {a b : AttemptRow} (ha : a ∈ c.attempts)
    (hb : b ∈ c.attempts) (hlt : a.attemptNumber < b.attemptNumber) : Precedes a b := by
  obtain ⟨i, hi, rfl⟩ := mem_iff_getElem.mp ha
  obtain ⟨j, hj, rfl⟩ := mem_iff_getElem.mp hb
  have hnum : ∀ (n : Nat) (hn : n < c.attempts.length),
      (c.attempts[n]).attemptNumber = base + 1 + n := by
    intro n hn
    have hget := getElem_of_eq h.numbers (by simpa using hn)
    rw [getElem_map] at hget
    simpa [numbersFrom] using hget
  rw [hnum i hi, hnum j hj] at hlt
  exact pairwise_iff_getElem.mp hp i j hi hj (by omega)

/-- In every interleaving in which the transactions on a node get its lock in the
order in which they read the clock, the timestamps of its attempts are in order. -/
theorem audit_ordered (k : NodeKey) (t : Time) (s : LockState)
    (h : LockReach (readOrder k) t s) : AuditOrdered ((after s.committed).attemptsOf k) := by
  rcases tracked s.committed k with habs | ⟨record, c, hpres⟩
  · rw [habs.attempts]
    constructor <;> simp
  · rw [(cellOf_some hpres.cell).2]
    have hst := hpres.stamped h.queued.committed
    refine ⟨hst.within, ?_⟩
    intro a ha b hb hnext
    exact hpres.coupled.precedes hst.across ha hb (by omega)

/-- A node registered and claimed, with no transaction waiting. -/
theorem reach_claimed (granted : List Call → Call → Prop) (hg : ∀ c, granted [] c) :
    LockReach granted 1 ⟨2, [], [registerCall .readOnly true, claimCall 2 "a" "b"]⟩ :=
  (LockReach.alone .refl (registerCall .readOnly true) (by decide) (hg _)).alone
    (claimCall 2 "a" "b") (by decide) (hg _)

/-- The second claim reads the clock at 11, after the release. -/
def releasedRun : List Call :=
  [registerCall .readOnly true, claimCall 2 "a" "b",
    leaseCall 10 (.releaseBeforeEffect sampleLease), claimCall 11 "c" "d"]

theorem audit_ordered_released : ((after releasedRun).attemptsOf sampleKey).length = 2 ∧
    AuditOrdered ((after releasedRun).attemptsOf sampleKey) :=
  ⟨by decide, audit_ordered sampleKey 1 ⟨11, [], releasedRun⟩
    (((reach_claimed _ (fun _ _ _ hd => nomatch hd)).alone
      (leaseCall 10 (.releaseBeforeEffect sampleLease)) (by decide)
        (fun _ _ hd => nomatch hd)).alone
      (claimCall 11 "c" "d") (by decide) (fun _ _ hd => nomatch hd))⟩

/-- The second claim reads the clock at 5 and waits while the release, which reads
it at 10, commits. -/
def overtakenRun : List Call :=
  [registerCall .readOnly true, claimCall 2 "a" "b",
    leaseCall 10 (.releaseBeforeEffect sampleLease), claimCall 5 "c" "d"]

theorem overtaken_claim :
    ∃ s, LockReach anyOrder 1 s ∧ ¬ AuditOrdered ((after s.committed).attemptsOf sampleKey) := by
  have hclaim := (reach_claimed anyOrder (fun _ => trivial)).wait (claimCall 5 "c" "d") (by decide)
  have hrelease := hclaim.wait (leaseCall 10 (.releaseBeforeEffect sampleLease)) (by decide)
  have hreleased := LockReach.grant [claimCall 5 "c" "d"] [] hrelease trivial
  refine ⟨⟨10, [], overtakenRun⟩, LockReach.grant [] [] hreleased trivial, ?_⟩
  intro h
  have hacross : ∀ a ∈ (after overtakenRun).attemptsOf sampleKey,
      ∀ b ∈ (after overtakenRun).attemptsOf sampleKey,
        b.attemptNumber = a.attemptNumber + 1 → a.finishedAt.any (fun t => t ≤ b.claimedAt) := by
    intro a ha b hb hnext
    obtain ⟨t, ht, hle⟩ := h.across a ha b hb hnext
    simpa [ht] using hle
  exact absurd hacross (by decide)

end AiCloud.NodeLease
