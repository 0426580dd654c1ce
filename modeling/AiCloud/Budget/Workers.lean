import AiCloud.Budget.Machine
import AiCloud.Budget.Protocol
import AiCloud.Lib.Balance
import Mathlib.Algebra.BigOperators.Ring.Finset

/-!
# Worker runs over one ledger

Any number of `Execute` runs share a ledger; whatever the store and the targets
answer, and wherever runs stop, the reserved and the consumed amounts are those
of the runs.
-/
namespace AiCloud.Budget

open Lib Execution Prog System List
open Worker (Job Request Answer History isInvoke actualBudgetForInvocation)

abbrev BudgetSystem := System BudgetLedger Job Request Answer Worker.Outcome

variable (text : BudgetError → String)

/-- `BudgetLedgerCoordinator` hands the ledger's reply on; an error becomes its text. -/
def relay {α β : Type} (f : α → β)
    (reply : Except BudgetError α × BudgetLedger) : Except String β × BudgetLedger :=
  (match reply.1 with
    | .ok x => .ok (f x)
    | .error e => .error (text e), reply.2)

/-- The ledger answers for the budget; store and target answer anything. -/
def answersWith (w : Int → Int) (l : BudgetLedger) : (q : Request) → Answer q → BudgetLedger → Prop
  | .reserve id executionRef nodeRef estimate, a, l' =>
    relay text (fun r => Worker.BudgetReservation.mk r.id)
      (l.reserveWith w id executionRef nodeRef estimate) = (a, l')
  | .settle id actual, a, l' => relay text (fun u => u) (l.settleWith w id actual) = (a, l')
  | .release id, a, l' => relay text (fun u => u) (l.releaseWith w id) = (a, l')
  | .coordinate _, _, l' => l' = l
  | .invoke .., _, l' => l' = l

abbrev answers := answersWith text UnixTime.wrap64

/-- The answers of the ledger that counts without bounds. -/
abbrev exactAnswers := answersWith text id

variable (l : BudgetLedger) (limit : BudgetLimit)

def fresh : BudgetLedger :=
  newBudgetLedger ⟨limit, ⟨0, 0, 0, 0⟩, ⟨0, 0, 0, 0⟩⟩

abbrev BudgetReach (s : BudgetSystem) : Prop :=
  Reach Worker.body (fun _ => answers text) (fun _ _ => False) (fresh limit) s

abbrev ExactReach (s : BudgetSystem) : Prop :=
  Reach Worker.body (fun _ => exactAnswers text) (fun _ _ => False) (fresh limit) s

def ledgerCall : Request → Option Call
  | .reserve id executionRef nodeRef estimate => some (.reserve id executionRef nodeRef estimate)
  | .settle id actual => some (.settle id actual)
  | .release id => some (.release id)
  | _ => none

/-- Every sum that the ledger forms for a request is a machine word. -/
def InRange (q : Request) : Prop := ∀ c ∈ ledgerCall q, Fits l c

instance (q : Request) : Decidable (InRange l q) :=
  inferInstanceAs (Decidable (∀ c ∈ ledgerCall q, Fits l c))

/-- What one step does to the ledger and to its run's reservation. -/
inductive Moves (θ : Job) (l : BudgetLedger) (h : History) (e : Sigma Answer) (l' : BudgetLedger) :
    Prop
  | stays (same : l' = l) (after : stage (h ++ [e]) = stage h)
  | opens (r : BudgetReservation) (idle : stage h = .idle) (opens : Opens l r l')
      (estimate : r.estimate = θ.candidate.estimate) (after : stage (h ++ [e]) = .held r.id)
  | settles (r : BudgetReservation) (actual : BudgetEstimate) (held : stage h = .held r.id)
      (closes : Closes l ⟨r, some actual⟩ l') (settles : Settles θ h actual)
      (after : stage (h ++ [e]) = .settled actual)
  | releases (r : BudgetReservation) (held : stage h = .held r.id) (closes : Closes l ⟨r, none⟩ l')
      (after : stage (h ++ [e]) = .released)

variable {text : BudgetError → String} {limit : BudgetLimit} {l l' : BudgetLedger}
    {s : BudgetSystem} {actual : BudgetEstimate} {q : Request} {a : Answer q}

theorem answers_exact (h : InRange l q) (ha : answers text l q a l') :
    exactAnswers text l q a l' := by
  cases q with
  | coordinate | invoke => exact ha
  | reserve => simpa only [answersWith, reserveWrapped_eq (h _ rfl)] using ha
  | settle => simpa only [answersWith, settleWrapped_eq (h _ rfl)] using ha
  | release => simpa only [answersWith, releaseWrapped_eq (h _ rfl)] using ha

theorem exact_moves (hq : allowed θ h q) (ha : exactAnswers text l q a l') :
    Moves θ l h ⟨q, a⟩ l' := by
  cases q with
  | coordinate r => exact .stays ha (stage_snoc h _)
  | invoke execution node target => exact .stays ha (stage_snoc h _)
  | reserve id executionRef nodeRef estimate =>
    obtain ⟨hidle, _, rfl⟩ := hq
    rcases l.reserve_cases id executionRef nodeRef θ.candidate.estimate with
      ⟨e, hr⟩ | ⟨l₁, hr, hopens⟩
    all_goals
      simp only [answersWith, hr, relay] at ha
      obtain ⟨rfl, rfl⟩ := ha
    · exact .stays rfl (stage_snoc h _)
    · exact .opens _ hidle hopens rfl (stage_snoc h _)
  | settle id actual =>
    rcases l.settle_cases id actual with ⟨e, hr⟩ | ⟨r, l₁, hfind, hr, hcloses⟩
    all_goals
      simp only [answersWith, hr, relay] at ha
      obtain ⟨rfl, rfl⟩ := ha
    · exact .stays rfl (stage_snoc h _)
    · obtain ⟨_, rfl⟩ := BudgetLedger.find_some hfind
      exact .settles r actual hq.1 hcloses hq.2 (stage_snoc h _)
  | release id =>
    rcases l.release_cases id with ⟨e, hr⟩ | ⟨r, l₁, hfind, hr, hcloses⟩
    all_goals
      simp only [answersWith, hr, relay] at ha
      obtain ⟨rfl, rfl⟩ := ha
    · exact .stays rfl (stage_snoc h _)
    · obtain ⟨_, rfl⟩ := BudgetLedger.find_some hfind
      exact .releases r hq.1 hcloses (stage_snoc h _)

/-- Runs whose every ledger call stays within the range of machine words. -/
abbrev RangeReach (text : BudgetError → String) (limit : BudgetLimit) (s : BudgetSystem) : Prop :=
  Reach Worker.body (When (fun _ l q _ => InRange l q) (fun _ => answers text))
    (fun _ _ => False) (fresh limit) s

theorem rangeReach_exact (hr : RangeReach text limit s) : ExactReach text limit s :=
  hr.mono (fun _ _ _ _ _ ha => answers_exact ha.1 ha.2) (fun _ _ ht => ht)

theorem reach_protocol (hr : ExactReach text limit s) :
    Protocol allowed (fun _ _ _ => True) s := hr.protocol execute_follows

variable {i : Nat}

theorem reach_moves (hr : ExactReach text limit s) {k : Answer q → Worker.WorkerProg}
    (hi : s.threads[i]? = some (θ, .ask q k)) (ha : exactAnswers text s.shared q a l') :
    Moves θ s.shared (s.history i) ⟨q, a⟩ l' :=
  exact_moves ((reach_protocol hr).conforms i θ _ hi).1 ha

/-- The ledger holds an open reservation with the run's estimate. -/
def Owned (θ : Job) (l : BudgetLedger) (id : String) : Prop :=
  ∃ r ∈ l.reservations, r.id = id ∧ r.estimate = θ.candidate.estimate ∧ r.closed = false ∧
    ∀ d : Dimension, 0 ≤ d.estimate r.estimate

/-- Every run that holds a reservation owns it alone. -/
structure Ownership (s : BudgetSystem) : Prop where
  owned : ∀ i θ id, s.job i = some θ → stage (s.history i) = .held id → Owned θ s.shared id
  alone : ∀ i j θ θ' id, s.job i = some θ → s.job j = some θ' → stage (s.history i) = .held id →
    stage (s.history j) = .held id → i = j

variable {id : String}

theorem Owned.opens (ho : Owned θ l id) {r : BudgetReservation} (h : Opens l r l') :
    Owned θ l' id := by
  obtain ⟨r', hr', hrest⟩ := ho
  refine ⟨r', ?_, hrest⟩
  rw [h.reservations]
  exact mem_append_left _ hr'

theorem Owned.closes (ho : Owned θ l id) {x : Closing} (h : Closes l x l')
    (hne : id ≠ x.reservation.id) : Owned θ l' id := by
  obtain ⟨r, hr, rfl, hrest⟩ := ho
  refine ⟨r, ?_, rfl, hrest⟩
  rw [h.reservations]
  refine mem_map.mpr ⟨r, hr, ?_⟩
  exact if_neg hne

theorem Owned.estimate {x : Closing} (ho : Owned θ l x.reservation.id) (h : Closes l x l') :
    x.reservation.estimate = θ.candidate.estimate ∧
      ∀ d : Dimension, 0 ≤ d.estimate θ.candidate.estimate := by
  obtain ⟨r, hr, hid, hestimate, _, hnonneg⟩ := ho
  obtain rfl := inj_on_of_nodup_map l.distinct hr h.mem hid
  exact ⟨hestimate, hestimate ▸ hnonneg⟩

theorem Owned.fresh (ho : Owned θ l id) {r : BudgetReservation} (h : Opens l r l') : id ≠ r.id := by
  obtain ⟨r', hr', rfl, _⟩ := ho
  intro hid
  exact h.fresh (hid ▸ mem_map_of_mem hr')

theorem Moves.owned {e : Sigma Answer} (hm : Moves θ l h e l') {θ' : Job} (ho : Owned θ' l id)
    (hne : stage h ≠ .held id) : Owned θ' l' id := by
  cases hm with
  | stays same => rwa [same]
  | opens r idle opens => exact ho.opens opens
  | settles r actual held closes => exact ho.closes closes (fun hid => hne (hid ▸ held))
  | releases r held closes => exact ho.closes closes (fun hid => hne (hid ▸ held))

theorem Ownership.run {k : Answer q → Worker.WorkerProg} (ho : Ownership s)
    (hi : s.threads[i]? = some (θ, .ask q k)) (hm : Moves θ s.shared (s.history i) ⟨q, a⟩ l') :
    Ownership (s.advance i θ q a (k a) l') := by
  have hjob := job_of_thread hi
  -- what the run holds after the step, and that nobody else held it
  have hown : ∀ id, stage (s.history i ++ [⟨q, a⟩]) = .held id → Owned θ l' id ∧
      ∀ j θ', s.job j = some θ' → stage (s.history j) = .held id → i = j := by
    intro id hheld
    cases hm with
    | stays same after =>
      rw [after] at hheld
      rw [same]
      exact ⟨ho.owned i θ id hjob hheld, fun j θ' hj => ho.alone i j θ θ' id hjob hj hheld⟩
    | opens r idle opens estimate after =>
      rw [after] at hheld
      cases hheld
      refine ⟨⟨r, ?_, rfl, estimate, opens.isOpen, opens.nonneg⟩, fun j θ' hj hj' => ?_⟩
      · rw [opens.reservations]
        exact mem_append_right _ (mem_singleton_self r)
      · exact absurd rfl ((ho.owned j θ' _ hj hj').fresh opens)
    | settles r actual held closes _ after =>
      rw [after] at hheld
      cases hheld
    | releases r held closes after =>
      rw [after] at hheld
      cases hheld
  refine ⟨?_, ?_⟩
  · intro j θ' id hj hheld
    rw [job_advance s q a (k a) l' hi] at hj
    by_cases hij : i = j
    · subst hij
      rw [hjob] at hj
      cases hj
      rw [history_advance_self] at hheld
      exact (hown id hheld).1
    · rw [history_advance_ne s hij] at hheld
      refine hm.owned (ho.owned j θ' id hj hheld) (fun hmine => ?_)
      exact hij (ho.alone i j θ θ' id hjob hj hmine hheld)
  · intro j j' θ₁ θ₂ id hj hj' hheld hheld'
    rw [job_advance s q a (k a) l' hi] at hj hj'
    by_cases hij : i = j <;> by_cases hij' : i = j'
    · exact hij.symm.trans hij'
    · subst hij
      rw [history_advance_self] at hheld
      rw [history_advance_ne s hij'] at hheld'
      exact (hown id hheld).2 j' θ₂ hj' hheld'
    · subst hij'
      rw [history_advance_self] at hheld'
      rw [history_advance_ne s hij] at hheld
      exact ((hown id hheld').2 j θ₁ hj hheld).symm
    · rw [history_advance_ne s hij] at hheld
      rw [history_advance_ne s hij'] at hheld'
      exact ho.alone j j' θ₁ θ₂ id hj hj' hheld hheld'

theorem Ownership.spawn (ho : Ownership s) (hfresh : s.history s.threads.length = []) (θ : Job)
    (p : Worker.WorkerProg) : Ownership (s.spawn θ p) := by
  -- the new run holds nothing yet
  have hold : ∀ {i θ' id}, (s.spawn θ p).job i = some θ' → stage (s.history i) = .held id →
      s.job i = some θ' := by
    intro i θ' id hj hheld
    rcases Nat.lt_trichotomy i s.threads.length with hlt | rfl | hgt
    · rwa [System.job_spawn_of_lt s θ p hlt] at hj
    · rw [hfresh] at hheld
      cases hheld
    · have hlt := System.lt_of_job hj
      simp only [System.spawn, length_append, length_singleton] at hlt
      omega
  refine ⟨fun i θ' id hj hheld => ?_, fun i j θ₁ θ₂ id hi hj hheld hheld' => ?_⟩
  · exact ho.owned i θ' id (hold hj hheld) hheld
  · exact ho.alone i j θ₁ θ₂ id (hold hi hheld) (hold hj hheld') hheld hheld'

section

variable (hr : ExactReach text limit s)

include hr

theorem reach_ownership : Ownership s := by
  induction hr with
  | start => exact ⟨fun _ _ _ hj => (by cases hj), fun _ _ _ _ _ hj => (by cases hj)⟩
  | next hr hs ih =>
    cases hs with
    | spawn θ => exact ih.spawn hr.fresh θ _
    | run i θ q k a t hi ha => exact ih.run hi (reach_moves hr hi ha)
    | env t ht => cases ht

variable (d : Dimension)

def reservedBy (θ : Job) (h : History) : Rat :=
  match stage h with
  | .held _ => d.estimate θ.candidate.estimate
  | _ => 0

def consumedBy (_ : Job) (h : History) : Rat :=
  match stage h with
  | .settled actual => d.estimate actual
  | _ => 0

omit hr in
theorem fresh_counters (limit : BudgetLimit) (d : Dimension) :
    d.counter (fresh limit).state.reserved = 0 ∧ d.counter (fresh limit).state.consumed = 0 := by
  cases d <;> exact ⟨rfl, rfl⟩

theorem reserved_total : d.counter s.shared.state.reserved = s.total (reservedBy d) := by
  have hbalance := hr.balance (G := fun l => d.counter l.state.reserved) (W := reservedBy d)
    (fun _ => rfl) ?_ (fun _ _ h => h.elim)
  · rw [hbalance, (fresh_counters limit d).1, zero_add]
  · intro s hr i θ q k hi a l' ha
    have hjob := job_of_thread hi
    cases reach_moves hr hi ha with
    | stays same after => simp only [reservedBy, same, after]
    | opens r idle opens estimate after =>
      simp only [reservedBy, idle, after, opens.reserved, estimate, add_zero]
    | settles r actual held closes _ after | releases r held closes after =>
      have hown : r.estimate = θ.candidate.estimate :=
        (((reach_ownership hr).owned i θ r.id hjob held).estimate closes).1
      simp only [reservedBy, held, after, closes.reserved, hown, sub_add_cancel, add_zero]

theorem consumed_total : d.counter s.shared.state.consumed = s.total (consumedBy d) := by
  have hbalance := hr.balance (G := fun l => d.counter l.state.consumed) (W := consumedBy d)
    (fun _ => rfl) ?_ (fun _ _ h => h.elim)
  · rw [hbalance, (fresh_counters limit d).2, zero_add]
  · intro s hr i θ q k hi a l' ha
    cases reach_moves hr hi ha with
    | stays same after => simp only [consumedBy, same, after]
    | opens r idle opens _ after => simp only [consumedBy, idle, after, opens.consumed]
    | settles r actual held closes _ after =>
      simp only [consumedBy, held, after, closes.consumed, Closing.spent_settled, add_zero]
    | releases r held closes after =>
      simp only [consumedBy, held, after, closes.consumed, Closing.spent_released, add_zero]

theorem reach_limit : s.shared.state.limit = limit := by
  induction hr with
  | start => rfl
  | next hr hs ih =>
    cases hs with
    | spawn θ => exact ih
    | env t ht => cases ht
    | run i θ q k a t hi ha =>
      cases reach_moves hr hi ha with
      | stays same => exact same ▸ ih
      | opens r _ opens => exact opens.limit.trans ih
      | settles r actual _ closes | releases r _ closes => exact closes.limit.trans ih

end

variable {d : Dimension}

/-- A limit holds in a dimension in which no run settles more than it reserved. -/
theorem within_limit (hr : ExactReach text limit s) (hpos : 0 < d.limit limit)
    (hover : ∀ i θ, s.job i = some θ → ∀ h actual, Settles θ h actual →
      d.estimate actual ≤ max 0 (d.estimate θ.candidate.estimate)) :
    d.counter s.shared.state.reserved + d.counter s.shared.state.consumed ≤ d.limit limit := by
  induction hr with
  | start =>
    rw [(fresh_counters limit d).1, (fresh_counters limit d).2, add_zero]
    exact hpos.le
  | @next s s' hr hs ih =>
    have hbefore := ih (fun i θ hj => hover i θ (hs.job hj))
    cases hs with
    | spawn θ => exact hbefore
    | env t ht => cases ht
    | run i θ q k a t hi ha =>
      have hjob := job_of_thread hi
      have hown := fun id => (reach_ownership hr).owned i θ id hjob
      change d.counter t.state.reserved + d.counter t.state.consumed ≤ d.limit limit
      cases reach_moves hr hi ha with
      | stays same =>
        rw [same]
        exact hbefore
      | opens r _ opens =>
        rw [opens.reserved, opens.consumed]
        have hwithin := opens.within d (by rw [reach_limit hr]; exact hpos)
        rw [reach_limit hr] at hwithin
        linarith
      | settles r actual held closes settles =>
        obtain ⟨hestimate, hnonneg⟩ := (hown _ held).estimate closes
        have hactual := hover i θ ((job_advance s q a (k a) t hi i).trans hjob) _ _ settles
        rw [max_eq_right (hnonneg d)] at hactual
        rw [closes.reserved, closes.consumed, hestimate, Closing.spent_settled]
        linarith
      | releases r held closes =>
        obtain ⟨hestimate, hnonneg⟩ := (hown _ held).estimate closes
        rw [closes.reserved, closes.consumed, hestimate, Closing.spent_released]
        linarith [hnonneg d]

variable (T : ExecutionTarget → Bool)

def invokes : Request → Bool
  | .invoke _ _ target => T target
  | _ => false

/-- How often a run has invoked such a target; a run that waits for its target
has invoked it. -/
def started (s : BudgetSystem) (i : Nat) : Nat :=
  (s.history i).countP (fun e => invokes T e.1) + if (s.asks i).any (invokes T) then 1 else 0

/-- All invocations of such targets, over the whole run. -/
def invocations (s : BudgetSystem) : Nat :=
  ∑ i ∈ Finset.range s.threads.length, started T s i

theorem countP_invokes (hl : Lawful (allowed θ) h) (T : ExecutionTarget → Bool) :
    h.countP (fun e => invokes T e.1) = if T θ.candidate.target then invoked h else 0 := by
  induction h using reverseRecOn with
  | nil => simp [invoked]
  | append_singleton h e ih =>
    obtain ⟨hinit, he⟩ := hl.init
    obtain ⟨q, a⟩ := e
    cases q with
    | invoke execution node target =>
      obtain ⟨rfl, _⟩ := he
      rw [countP_append, ih hinit]
      cases hT : T θ.candidate.target <;> simp [invoked, invokes, isInvoke, hT]
    | coordinate | reserve | settle | release =>
      rw [countP_append, ih hinit, invoked_snoc h rfl]
      simp [invokes]

/-- A run invokes a target at most once, and only one of the asked kind under
an open or settled reservation. -/
theorem started_cases (hr : ExactReach text limit s) (T : ExecutionTarget → Bool)
    (hj : s.job i = some θ) : started T s i = 0 ∨
    (started T s i = 1 ∧ T θ.candidate.target = true ∧ Covered θ (s.history i)) := by
  have hproto := reach_protocol hr
  have hcount := countP_invokes (hproto.lawful i θ hj) T
  unfold started
  by_cases hasks : (s.asks i).any (invokes T) = true
  · -- it waits for its target: it has not invoked it before and holds its reservation
    obtain ⟨q, hq, hinv⟩ := (Option.any_eq_true _ _).mp hasks
    obtain ⟨k, hi⟩ := thread_of_asks hj hq
    have hallowed := (hproto.conforms i θ _ hi).1
    cases q with
    | invoke execution node target =>
      obtain ⟨rfl, hzero, hheld⟩ := hallowed
      rw [hcount, hzero, if_pos hasks]
      exact .inr ⟨by simp, hinv, .inl hheld⟩
    | coordinate | reserve | settle | release => cases hinv
  · rw [if_neg hasks, hcount, Nat.add_zero]
    rcases invoked_covered (hproto.lawful i θ hj) with hzero | ⟨hone, hcovered⟩
    · exact .inl (by simp [hzero])
    · cases hT : T θ.candidate.target with
      | false => exact .inl (by simp)
      | true => exact .inr ⟨by simpa using hone, rfl, hcovered⟩

theorem Settles.nonneg (hs : Settles θ h actual) (hd : d ≠ .cost) : 0 ≤ d.estimate actual := by
  rcases hs with ⟨_, rfl⟩ | ⟨usage, rfl⟩
  · cases d <;> simp [Dimension.estimate] at hd ⊢
  cases d <;> simp [Dimension.estimate, actualBudgetForInvocation] at hd ⊢
  split <;> simp

theorem weights_nonneg (hr : ExactReach text limit s) (hd : d ≠ .cost) (hj : s.job i = some θ) :
    0 ≤ reservedBy d θ (s.history i) ∧ 0 ≤ consumedBy d θ (s.history i) := by
  unfold reservedBy consumedBy
  cases hstage : stage (s.history i) with
  | idle | released => exact ⟨le_refl 0, le_refl 0⟩
  | held id =>
    obtain ⟨r, _, _, hestimate, _, hnonneg⟩ := (reach_ownership hr).owned i θ id hj hstage
    exact ⟨hestimate ▸ hnonneg d, le_refl 0⟩
  | settled actual =>
    obtain ⟨h', hs⟩ := settled_settles ((reach_protocol hr).lawful i θ hj) hstage
    exact ⟨le_refl 0, hs.nonneg hd⟩

variable {T : ExecutionTarget → Bool}

/-- The invocations are within a weight that covers those of each run. -/
theorem invocations_le_total {W : Job → History → Rat}
    (h : ∀ i θ, s.job i = some θ → (started T s i : Rat) ≤ W θ (s.history i)) :
    (invocations T s : Rat) ≤ s.total W := by
  unfold invocations total
  rw [Nat.cast_sum]
  refine Finset.sum_le_sum (fun i hi => ?_)
  have hlt : i < s.threads.length := Finset.mem_range.mp hi
  have hj : s.job i = some (s.threads[i]).1 := by
    unfold job
    rw [getElem?_eq_getElem hlt]
    rfl
  rw [weight_of_job hj]
  exact h i _ hj

/-- The invocations are within what the runs hold and consumed, in a dimension
in which each of them counts one. -/
theorem invocations_le (hr : ExactReach text limit s) (hd : d ≠ .cost)
    (hest : ∀ i θ, s.job i = some θ → T θ.candidate.target = true →
      1 ≤ d.estimate θ.candidate.estimate ∧
        ∀ usage, 1 ≤ d.estimate (actualBudgetForInvocation θ.candidate.target usage)) :
    (invocations T s : Rat) ≤
      d.counter s.shared.state.reserved + d.counter s.shared.state.consumed := by
  rw [reserved_total hr, consumed_total hr, ← total_add]
  refine invocations_le_total (fun i θ hj => ?_)
  obtain ⟨hres, hcon⟩ := weights_nonneg hr hd hj
  rcases started_cases hr T hj with hzero | ⟨hone, hT, hcovered⟩
  · rw [hzero]
    simpa using add_nonneg hres hcon
  · obtain ⟨hestimate, hactual⟩ := hest i θ hj hT
    rw [hone, Nat.cast_one]
    rcases hcovered with ⟨id, hheld⟩ | ⟨usage, hsettled⟩
    · have : reservedBy d θ (s.history i) = d.estimate θ.candidate.estimate := by
        simp only [reservedBy, hheld]
      linarith
    · have : consumedBy d θ (s.history i) =
          d.estimate (actualBudgetForInvocation θ.candidate.target usage) := by
        simp only [consumedBy, hsettled]
      linarith [hactual usage]

/-- The invocations of a kind of targets stay within a limit if each of them
counts one and no run settles more than it reserved. -/
theorem invocations_within (hr : ExactReach text limit s) (hd : d ≠ .cost)
    (hpos : 0 < d.limit limit)
    (hest : ∀ i θ, s.job i = some θ → T θ.candidate.target = true →
      1 ≤ d.estimate θ.candidate.estimate ∧
        ∀ usage, 1 ≤ d.estimate (actualBudgetForInvocation θ.candidate.target usage))
    (hover : ∀ i θ, s.job i = some θ → ∀ h actual, Settles θ h actual →
      d.estimate actual ≤ max 0 (d.estimate θ.candidate.estimate)) :
    (invocations T s : Rat) ≤ d.limit limit :=
  (invocations_le hr hd hest).trans (within_limit hr hpos hover)

theorem settles_one (hs : Settles θ h actual) : actual.nodeAttempts = 1 := by
  rcases hs with ⟨_, rfl⟩ | ⟨usage, rfl⟩ <;> rfl

theorem settles_toolCalls (hs : Settles θ h actual) :
    actual.toolCalls = 0 ∨ (actual.toolCalls = 1 ∧ θ.candidate.target.type = .tool) := by
  rcases hs with ⟨_, rfl⟩ | ⟨usage, rfl⟩
  · exact .inl rfl
  · unfold actualBudgetForInvocation
    by_cases htool : θ.candidate.target.type = .tool <;> simp [htool]

end AiCloud.Budget
