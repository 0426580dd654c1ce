import AiCloud.Budget.Workers
import AiCloud.Lib.Schedule

/-!
# Limits on invocations

Attempts and tool calls are charged at reservation and again at settlement, so
their limits bound all invocations of a run. Frontier calls are charged at
reservation only: settling a model invocation gives its frontier call back.
-/
namespace AiCloud.Budget

open Lib Execution System
open Worker (Job Request Answer History Coordinate actualBudgetForInvocation)

variable {text : BudgetError → String} {limit : BudgetLimit} {θ : Job} {h : History}
  {s : BudgetSystem}

/-- The runs share one ledger: while its sums are machine words, they never invoke more
targets than the limit on node attempts allows, nor more tools than the limit on tool
calls. -/
theorem invocations_within_limits (hr : RangeReach text limit s)
    (hest : ∀ i θ, s.job i = some θ → 1 ≤ θ.candidate.estimate.nodeAttempts ∧
      (θ.candidate.target.type = .tool → 1 ≤ θ.candidate.estimate.toolCalls)) :
    (0 < limit.maxNodeAttempts → (invocations (fun _ => true) s : Int) ≤ limit.maxNodeAttempts) ∧
    (0 < limit.maxToolCalls →
      (invocations (fun target => target.type = .tool) s : Int) ≤ limit.maxToolCalls) := by
  have hr : ExactReach text limit s := rangeReach_exact hr
  constructor
  · intro hpos
    have hwithin : (invocations (fun _ => true) s : Rat) ≤ (limit.maxNodeAttempts : Rat) := by
      refine invocations_within (d := .nodeAttempts) hr (by decide) (Int.cast_pos.mpr hpos) ?_ ?_
      · intro i θ hj _
        exact ⟨Int.cast_one_le_of_pos (hest i θ hj).1, fun usage => le_refl _⟩
      · intro i θ hj h actual hs
        refine le_max_of_le_right (Int.cast_le.mpr ?_)
        rw [settles_one hs]
        exact (hest i θ hj).1
    exact_mod_cast hwithin
  · intro hpos
    have hwithin : (invocations (fun target => target.type = .tool) s : Rat) ≤
        (limit.maxToolCalls : Rat) := by
      refine invocations_within (d := .toolCalls) hr (by decide) (Int.cast_pos.mpr hpos) ?_ ?_
      · intro i θ hj hT
        have htool := of_decide_eq_true hT
        refine ⟨Int.cast_one_le_of_pos ((hest i θ hj).2 htool), fun usage => ?_⟩
        simp [Dimension.estimate, actualBudgetForInvocation, htool]
      · intro i θ hj h actual hs
        rcases settles_toolCalls hs with hzero | ⟨hone, htool⟩
        · refine le_max_of_le_left ?_
          simp [Dimension.estimate, hzero]
        · refine le_max_of_le_right (Int.cast_le.mpr ?_)
          rw [hone]
          exact (hest i θ hj).2 htool
    exact_mod_cast hwithin

/-- A store that acknowledges everything; claims get the chosen attempt. -/
def acknowledge (attemptRef : String) : (r : Coordinate) → r.Result
  | .claim .. => { NodeLease.sampleLease with attemptRef := attemptRef }
  | .startAttempt .. => Worker.sampleAttempt
  | .markEffectStarted _ => ()
  | .markEffectCommitted _ => ()
  | .releaseBeforeEffect _ => ()
  | .complete .. => ()

def budgetReply (text : BudgetError → String) (_ : Job) (attemptRef : String) (l : BudgetLedger) :
    (q : Request) → Option (Answer q × BudgetLedger)
  | .coordinate r => some (Except.ok (acknowledge attemptRef r), l)
  | .invoke .. => some ((Worker.sampleInvocation, none), l)
  | .reserve id executionRef nodeRef estimate =>
    some (relay text (fun r => Worker.BudgetReservation.mk r.id)
      (l.reserveWrapped id executionRef nodeRef estimate))
  | .settle id actual => some (relay text (fun u => u) (l.settleWrapped id actual))
  | .release id => some (relay text (fun u => u) (l.releaseWrapped id))

theorem budgetReply_answers (text : BudgetError → String) : ∀ θ attemptRef l q a l',
    budgetReply text θ attemptRef l q = some (a, l') → answers text l q a l' := by
  intro θ attemptRef l q a l' h
  cases q with
  | coordinate | invoke => exact (Prod.mk.inj (Option.some.inj h)).2.symm
  | reserve | settle | release => exact Option.some.inj h

abbrev BudgetMove := Move Job String Empty

def budgetScheduled (limit : BudgetLimit) (moves : List BudgetMove) : Option BudgetSystem :=
  schedule Worker.body (budgetReply (fun _ => "")) (fun e _ => e.elim) (fresh limit) moves

theorem budgetScheduled_exists {P : BudgetSystem → Prop} [DecidablePred P] (limit : BudgetLimit)
    (moves : List BudgetMove) (h : (budgetScheduled limit moves).any (fun s => P s) = true) :
    ∃ s, BudgetReach (fun _ => "") limit s ∧ P s :=
  exists_schedule (budgetReply_answers _) (fun e _ _ _ => e.elim) h

/-- A run whose every step meets a condition. -/
def scheduledWhen (C : Job → BudgetLedger → (q : Request) → Answer q → Prop)
    [∀ θ l q a, Decidable (C θ l q a)] (limit : BudgetLimit) (moves : List BudgetMove) :
    Option BudgetSystem :=
  schedule Worker.body (guarded C (budgetReply (fun _ => ""))) (fun e _ => e.elim) (fresh limit)
    moves

theorem scheduledWhen_exists {C : Job → BudgetLedger → (q : Request) → Answer q → Prop}
    [∀ θ l q a, Decidable (C θ l q a)] {P : BudgetSystem → Prop} [DecidablePred P]
    (limit : BudgetLimit) (moves : List BudgetMove)
    (h : (scheduledWhen C limit moves).any (fun s => P s) = true) :
    ∃ s, Reach Worker.body (When C (fun _ => answers (fun _ => ""))) (fun _ _ => False)
      (fresh limit) s ∧ P s :=
  exists_schedule (guarded_when (budgetReply_answers _)) (fun e _ _ _ => e.elim) h

def budgetSteps (i n : Nat) (attemptRef : String) : List BudgetMove :=
  List.replicate n (.run i attemptRef)

/-- Two tool runs; the second finds the one tool call reserved. -/
def toolMoves : List BudgetMove :=
  [.spawn Worker.sampleJob, .spawn Worker.sampleJob] ++ budgetSteps 0 5 "a" ++ budgetSteps 1 3 "b"

theorem tool_invocations_within_limit : ∃ s, RangeReach (fun _ => "") ⟨0, 2, 0, 1⟩ s ∧
    (∀ i θ, s.job i = some θ → 1 ≤ θ.candidate.estimate.nodeAttempts ∧
      (θ.candidate.target.type = .tool → 1 ≤ θ.candidate.estimate.toolCalls)) ∧
    invocations (fun target => target.type = .tool) s = 1 ∧
    (invocations (fun target => target.type = .tool) s : Int) ≤ 1 := by
  obtain ⟨s, hr, hest, hone⟩ := scheduledWhen_exists (C := fun _ l q _ => InRange l q)
    (P := fun s => (∀ θ ∈ s.threads.map Prod.fst, 1 ≤ θ.candidate.estimate.nodeAttempts ∧
        (θ.candidate.target.type = .tool → 1 ≤ θ.candidate.estimate.toolCalls)) ∧
      invocations (fun target => target.type = .tool) s = 1) ⟨0, 2, 0, 1⟩ toolMoves
    (by decide)
  have hjobs := fun i θ (hj : s.job i = some θ) => hest θ (mem_of_job hj)
  exact ⟨s, hr, hjobs, hone, (invocations_within_limits hr hjobs).2 (by decide)⟩

/-- A second run that asks for the largest estimate. -/
def largeJob : Job :=
  { Worker.sampleJob with candidate :=
    { Worker.sampleJob.candidate with estimate := ⟨0, maxInt, 0, maxInt⟩ } }

def largeMoves : List BudgetMove :=
  [.spawn Worker.sampleJob, .spawn largeJob] ++ budgetSteps 0 4 "a" ++ budgetSteps 1 4 "b"

/-- With limits of one, the sum of one and the largest estimate wraps around: the second
reservation is accepted and a second tool invoked. -/
theorem overflow_exceeds_limits : ∃ s, BudgetReach (fun _ => "") ⟨0, 1, 0, 1⟩ s ∧
    (∀ i θ, s.job i = some θ → 1 ≤ θ.candidate.estimate.nodeAttempts ∧
      (θ.candidate.target.type = .tool → 1 ≤ θ.candidate.estimate.toolCalls)) ∧
    invocations (fun _ => true) s = 2 ∧
    invocations (fun target => target.type = .tool) s = 2 := by
  obtain ⟨s, hr, hest, htwo⟩ := budgetScheduled_exists (P := fun s =>
      (∀ θ ∈ s.threads.map Prod.fst, 1 ≤ θ.candidate.estimate.nodeAttempts ∧
        (θ.candidate.target.type = .tool → 1 ≤ θ.candidate.estimate.toolCalls)) ∧
      invocations (fun _ => true) s = 2 ∧
      invocations (fun target => target.type = .tool) s = 2) ⟨0, 1, 0, 1⟩ largeMoves
    (by decide)
  exact ⟨s, hr, fun i θ hj => hest θ (mem_of_job hj), htwo⟩

/-- A model run reserves only while the attempts settled so far and the
frontier calls reserved, its own included, are within the limit. -/
def HasRoom (θ : Job) (l : BudgetLedger) : Request → Prop
  | .reserve _ _ _ estimate => θ.candidate.target.type = .model →
    l.state.consumed.nodeAttempts + l.state.reserved.frontierCalls + estimate.frontierCalls ≤
      l.state.limit.maxFrontierCalls
  | _ => True

instance (θ : Job) (l : BudgetLedger) (q : Request) : Decidable (HasRoom θ l q) := by
  cases q with
  | reserve id executionRef nodeRef estimate => exact inferInstanceAs (Decidable (_ → _))
  | coordinate | settle | release | invoke => exact inferInstanceAs (Decidable True)

/-- The sums are machine words, and a model run finds room. -/
abbrev FrontierRoom (θ : Job) (l : BudgetLedger) (q : Request) (_ : Answer q) : Prop :=
  InRange l q ∧ HasRoom θ l q

abbrev FrontierReach (text : BudgetError → String) (limit : BudgetLimit) (s : BudgetSystem) :
    Prop :=
  Reach Worker.body (When FrontierRoom (fun _ => answers text)) (fun _ _ => False) (fresh limit) s

theorem frontierReach_exact (hr : FrontierReach text limit s) : ExactReach text limit s :=
  hr.mono (fun _ _ _ _ _ ha => answers_exact ha.1.1 ha.2) (fun _ _ ht => ht)

/-- A model run that holds a reservation or has settled one. -/
def modelRun (θ : Job) (h : History) : Rat :=
  if θ.candidate.target.type = .model then
    match stage h with
    | .held _ => 1
    | .settled _ => 1
    | _ => 0
  else 0

theorem modelRun_nonneg (θ : Job) (h : History) : 0 ≤ modelRun θ h := by
  unfold modelRun
  split
  · split <;> decide
  · decide

theorem reserve_of_held {q : Request} {a : Answer q} {id : String} (hidle : stage h = .idle)
    (hheld : stage (h ++ [⟨q, a⟩]) = .held id) :
    ∃ key executionRef nodeRef estimate, q = .reserve key executionRef nodeRef estimate := by
  rw [stage_snoc, hidle] at hheld
  cases q with
  | reserve key executionRef nodeRef estimate => exact ⟨_, _, _, _, rfl⟩
  | coordinate | invoke => cases hheld
  | settle | release => cases a <;> cases hheld

/-- The model runs are within the settled attempts and the reserved frontier calls. -/
theorem modelRun_le (hr : ExactReach text limit s)
    (hest : ∀ i θ, s.job i = some θ → θ.candidate.target.type = .model →
      1 ≤ θ.candidate.estimate.frontierCalls) : s.total modelRun ≤
    s.shared.state.consumed.nodeAttempts + s.shared.state.reserved.frontierCalls := by
  have hconsumed : (s.shared.state.consumed.nodeAttempts : Rat) =
      s.total (consumedBy .nodeAttempts) := consumed_total hr .nodeAttempts
  have hreserved : (s.shared.state.reserved.frontierCalls : Rat) =
      s.total (reservedBy .frontierCalls) := reserved_total hr .frontierCalls
  rw [hconsumed, hreserved, ← total_add]
  refine total_le (fun i θ hj => ?_)
  obtain ⟨hres, _⟩ := weights_nonneg (d := .frontierCalls) hr (by decide) hj
  obtain ⟨_, hcon⟩ := weights_nonneg (d := .nodeAttempts) hr (by decide) hj
  unfold modelRun
  split
  · rename_i hmodel
    split
    · rename_i id hheld
      have hone : (1 : Rat) ≤ reservedBy .frontierCalls θ (s.history i) := by
        simp only [reservedBy, hheld]
        exact Int.cast_one_le_of_pos (hest i θ hj hmodel)
      linarith
    · rename_i actual hsettled
      obtain ⟨h', hs⟩ := settled_settles ((reach_protocol hr).lawful i θ hj) hsettled
      have hone : consumedBy .nodeAttempts θ (s.history i) = 1 := by
        simp only [consumedBy, hsettled, Dimension.estimate, settles_one hs, Int.cast_one]
      linarith
    · linarith
  · linarith

/-- With room at every reservation, the model runs stay within the limit. -/
theorem modelRun_bounded (hpos : 0 < limit.maxFrontierCalls) (hr : FrontierReach text limit s)
    (hest : ∀ i θ, s.job i = some θ → θ.candidate.target.type = .model →
      1 ≤ θ.candidate.estimate.frontierCalls) :
    s.total modelRun ≤ limit.maxFrontierCalls := by
  induction hr with
  | start => simpa [total] using hpos.le
  | @next s s' hr hs ih =>
    have hbefore := ih (fun i θ hj => hest i θ (hs.job hj))
    have hreach : ExactReach text limit s := frontierReach_exact hr
    cases hs with
    | spawn θ =>
      rw [total_spawn hr.fresh (by simp [modelRun, stage])]
      exact hbefore
    | env t ht => cases ht
    | run i θ q k a t hi ha =>
      have hjob := job_of_thread hi
      have hmove := total_advance (W := modelRun) hi q a (k a) t
      cases reach_moves hreach hi (answers_exact ha.1.1 ha.2) with
      | stays same after =>
        simp only [modelRun, after] at hmove
        linarith
      | settles r actual held closes _ after =>
        simp only [modelRun, held, after] at hmove
        linarith
      | releases r held closes after =>
        simp only [modelRun, held, after] at hmove
        split at hmove <;> linarith
      | opens r idle opens estimate after =>
        by_cases hmodel : θ.candidate.target.type = .model
        · -- the run itself counts from here on, and there was room for it
          obtain ⟨key, executionRef, nodeRef, est, rfl⟩ := reserve_of_held idle after
          have hroom := ha.1.2 hmodel
          have hq : est = θ.candidate.estimate :=
            ((reach_protocol hreach).conforms i θ _ hi).1.2.2
          rw [reach_limit hreach, hq] at hroom
          have hone := hest i θ ((job_advance s _ a (k a) t hi i).trans hjob) hmodel
          have hle := modelRun_le hreach (fun j θ' hj => hest j θ'
            ((job_advance s _ a (k a) t hi j).trans hj))
          have hroom : ((s.shared.state.consumed.nodeAttempts +
              s.shared.state.reserved.frontierCalls + 1 : Int) : Rat) ≤
              (limit.maxFrontierCalls : Rat) := Int.cast_le.mpr (by omega)
          push_cast at hroom
          simp only [modelRun, idle, after, if_pos hmodel] at hmove
          linarith
        · simp only [modelRun, if_neg hmodel] at hmove
          linarith

/-- All model invocations are within the limit if the ledger's sums are machine words and
every model run finds room. -/
theorem frontier_bounded (hr : FrontierReach text limit s) (hpos : 0 < limit.maxFrontierCalls)
    (hest : ∀ i θ, s.job i = some θ → θ.candidate.target.type = .model →
      1 ≤ θ.candidate.estimate.frontierCalls) :
    (invocations (fun target => target.type = .model) s : Int) ≤ limit.maxFrontierCalls := by
  have hcounted : (invocations (fun target => target.type = .model) s : Rat) ≤
      s.total modelRun := by
    refine invocations_le_total (fun i θ hj => ?_)
    rcases started_cases (frontierReach_exact hr) (fun target => target.type = .model) hj with
      hzero | ⟨hone, hT, hcovered⟩
    · rw [hzero]
      exact modelRun_nonneg θ (s.history i)
    · rw [hone]
      have hmodel := of_decide_eq_true hT
      rcases hcovered with ⟨id, hheld⟩ | ⟨usage, hsettled⟩
      · simp [modelRun, hmodel, hheld]
      · simp [modelRun, hmodel, hsettled]
  have hwithin : (invocations (fun target => target.type = .model) s : Rat) ≤
      (limit.maxFrontierCalls : Rat) := hcounted.trans (modelRun_bounded hpos hr hest)
  exact_mod_cast hwithin

/-- A run of a model target, with the estimate the activity gives it. -/
def modelJob : Job where
  ctx := Worker.sampleJob.ctx
  worker := Worker.sampleJob.worker
  execution := Worker.sampleJob.execution
  candidate := ⟨⟨"n", .model, [], ⟨1, []⟩, ⟨.readOnly, "", true⟩⟩,
    ⟨"target", 1, .model, ⟨"digest"⟩⟩, ⟨"policy", "v", "", 0, "", .allow⟩, ⟨0, 1, 1, 0⟩⟩

/-- Two model runs at once, with room for two. -/
def roomMoves : List BudgetMove :=
  [.spawn modelJob, .spawn modelJob] ++ budgetSteps 0 2 "a" ++ budgetSteps 1 3 "b" ++
    budgetSteps 0 2 "a"

theorem frontier_bounded_pair : ∃ s, FrontierReach (fun _ => "") ⟨0, 0, 2, 0⟩ s ∧
    (∀ i θ, s.job i = some θ → θ.candidate.target.type = .model →
      1 ≤ θ.candidate.estimate.frontierCalls) ∧
    invocations (fun target => target.type = .model) s = 2 ∧
    (invocations (fun target => target.type = .model) s : Int) ≤ 2 := by
  obtain ⟨s, hr, hest, htwo⟩ := scheduledWhen_exists (C := FrontierRoom) (P := fun s =>
      (∀ θ ∈ s.threads.map Prod.fst, θ.candidate.target.type = .model →
        1 ≤ θ.candidate.estimate.frontierCalls) ∧
      invocations (fun target => target.type = .model) s = 2) ⟨0, 0, 2, 0⟩ roomMoves
    (by decide)
  have hjobs := fun i θ (hj : s.job i = some θ) => hest θ (mem_of_job hj)
  exact ⟨s, hr, hjobs, htwo, frontier_bounded hr (by decide) hjobs⟩

/-- One model run after the other, with a limit of one. -/
def settledMoves : List BudgetMove :=
  [.spawn modelJob, .spawn modelJob] ++ budgetSteps 0 6 "a" ++ budgetSteps 1 4 "b"

/-- Settling the first invocation gave its frontier call back. -/
theorem frontier_exceeded : ∃ s, BudgetReach (fun _ => "") ⟨0, 0, 1, 0⟩ s ∧
    (∀ i θ, s.job i = some θ → θ.candidate.target.type = .model →
      1 ≤ θ.candidate.estimate.frontierCalls) ∧
    invocations (fun target => target.type = .model) s = 2 := by
  obtain ⟨s, hr, hest, htwo⟩ := budgetScheduled_exists (P := fun s =>
      (∀ θ ∈ s.threads.map Prod.fst, θ.candidate.target.type = .model →
        1 ≤ θ.candidate.estimate.frontierCalls) ∧
      invocations (fun target => target.type = .model) s = 2) ⟨0, 0, 1, 0⟩ settledMoves
    (by decide)
  exact ⟨s, hr, fun i θ hj => hest θ (mem_of_job hj), htwo⟩

end AiCloud.Budget
