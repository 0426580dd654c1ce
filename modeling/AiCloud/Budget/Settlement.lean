import AiCloud.Budget.Invocations

/-!
# One worker run and the ledger

A single `Execute` call over a ledger that nobody else uses. Whatever the store and
the target answer, every reservation the call took is closed once, with what was
used.
-/
namespace AiCloud.Budget

open Lib Lib.UnixTime Execution Table
open Worker (Request Answer History InvocationResult PersistentWorker WorkerProg
  actualBudgetForInvocation)

/-- The reservations a run took and closed, what its invocations returned, and whether
marking the effect as started failed. -/
structure Tally where
  (reserved closed : List String)
  invocations : List InvocationResult
  startFailed : Bool
  deriving DecidableEq

def Tally.note (t : Tally) : Sigma Answer → Tally
  | ⟨.reserve id .., .ok _⟩ => { t with reserved := id :: t.reserved }
  | ⟨.settle id _, .ok _⟩ => { t with closed := id :: t.closed }
  | ⟨.release id, .ok _⟩ => { t with closed := id :: t.closed }
  | ⟨.invoke .., answer⟩ => { t with invocations := Prod.fst answer :: t.invocations }
  | ⟨.coordinate (.markEffectStarted _), .error _⟩ => { t with startFailed := true }
  | _ => t

def Tally.empty : Tally := ⟨[], [], [], false⟩

def tally : History → Tally
  | [] => .empty
  | e :: h => (tally h).note e

abbrev Runs (text : BudgetError → String) (p : WorkerProg) (l : BudgetLedger) (h : History)
    (l' : BudgetLedger) (outcome : Worker.Outcome) : Prop :=
  Prog.RunsTo (answers text) p l h l' outcome

/-- The ledger holds a reservation that is not closed yet. -/
def Holds (l : BudgetLedger) (r : BudgetReservation) : Prop :=
  l.find r.id = some r ∧ r.closed = false

theorem takes_holds {l l' : BudgetLedger} {r : BudgetReservation}
    (h : BudgetLedger.Takes l r l') : Holds l' r := by
  refine ⟨?_, h.isOpen⟩
  unfold BudgetLedger.find
  rw [h.reservations, lookup_append, if_pos rfl, lookup_none.mpr]
  · rfl
  · intro r' hr' hid
    exact h.fresh (hid ▸ List.mem_map_of_mem hr')

variable {text : BudgetError → String} {l l' : BudgetLedger} {r : BudgetReservation}

/-- The ledger after the reservation was settled with what was used. -/
def settled (l : BudgetLedger) (r : BudgetReservation) (actual : BudgetEstimate) : BudgetLedger :=
  l.closedWrapped r (applyEstimateWrapped l.state.consumed actual 1)

theorem settle_held (h : Holds l r) {actual : BudgetEstimate} (hactual : ¬ Negative actual)
    {a : Except String Unit} (ha : answers text l (.settle r.id actual) a l') :
    a = .ok () ∧ l' = settled l r actual := by
  have hok : l.settleWrapped r.id actual = (.ok (), settled l r actual) := by
    simp [BudgetLedger.settleWith, settled, h.1, h.2, hactual]
  simp only [answers, answersWith, hok, relay] at ha
  obtain ⟨rfl, rfl⟩ := ha
  exact ⟨rfl, rfl⟩

theorem release_held (h : Holds l r) {a : Except String Unit}
    (ha : answers text l (.release r.id) a l') :
    a = .ok () ∧ l' = l.closedWrapped r l.state.consumed := by
  have hok : l.releaseWrapped r.id = (.ok (), l.closedWrapped r l.state.consumed) := by
    simp [BudgetLedger.releaseWith, h.1, h.2]
  simp only [answers, answersWith, hok, relay] at ha
  obtain ⟨rfl, rfl⟩ := ha
  exact ⟨rfl, rfl⟩

section

variable {h : History} {outcome : Worker.Outcome} {lease : NodeLease} {execution : Execution}
  {candidate : PreparedNode}

theorem finishReadOnly_quiet {result : Worker.WorkerExecutionResult}
    {invokeErr : Option Worker.InvokeError}
    (hrun : Runs text (Worker.finishReadOnly lease result invokeErr) l h l' outcome) :
    l' = l ∧ tally h = .empty := by
  cases invokeErr with
  | none =>
    obtain ⟨a, l₁, rest, rfl, rfl, rfl, rfl, -⟩ := hrun
    exact ⟨rfl, rfl⟩
  | some err =>
    obtain ⟨a, l₁, rest, rfl, rfl, rfl, rfl, -⟩ := hrun
    exact ⟨rfl, rfl⟩

theorem finishMutation_quiet {result : Worker.WorkerExecutionResult}
    {invokeErr : Option Worker.InvokeError}
    (hrun : Runs text (Worker.finishMutation lease candidate result invokeErr) l h l' outcome) :
    l' = l ∧ tally h = .empty := by
  unfold Worker.finishMutation at hrun
  split at hrun
  · obtain ⟨a, l₁, rest, rfl, rfl, hrest⟩ := hrun
    cases a with
    | error e =>
      obtain ⟨rfl, rfl, -⟩ := hrest
      exact ⟨rfl, rfl⟩
    | ok _ =>
      cases invokeErr with
      | some err =>
        obtain ⟨rfl, rfl, -⟩ := hrest
        exact ⟨rfl, rfl⟩
      | none =>
        obtain ⟨b, l₂, rest, rfl, rfl, rfl, rfl, -⟩ := hrest
        exact ⟨rfl, rfl⟩
  · cases invokeErr with
    | none =>
      obtain ⟨rfl, rfl, -⟩ := hrun
      exact ⟨rfl, rfl⟩
    | some err =>
      obtain ⟨a, l₁, rest, rfl, rfl, rfl, rfl, -⟩ := hrun
      exact ⟨rfl, rfl⟩
  · obtain ⟨rfl, rfl, -⟩ := hrun
    exact ⟨rfl, rfl⟩
  · obtain ⟨rfl, rfl, -⟩ := hrun
    exact ⟨rfl, rfl⟩
  · obtain ⟨rfl, rfl, -⟩ := hrun
    exact ⟨rfl, rfl⟩

/-- How a reservation that a run holds is closed. -/
inductive Disposes (target : ExecutionTarget) (l : BudgetLedger) (r : BudgetReservation) :
    Tally → BudgetLedger → Prop
  | invoked (result : InvocationResult) : Disposes target l r ⟨[], [r.id], [result], false⟩
      (settled l r (actualBudgetForInvocation target result.usage))
  | startFailed : Disposes target l r ⟨[], [r.id], [], true⟩ (settled l r ⟨0, 1, 0, 0⟩)
  | released :
      Disposes target l r ⟨[], [r.id], [], false⟩ (l.closedWrapped r l.state.consumed)

theorem actual_nonneg (target : ExecutionTarget) {usage : Usage} (h : 0 ≤ usage.cost) :
    ¬ Negative (actualBudgetForInvocation target usage) := by
  unfold Negative actualBudgetForInvocation
  simp only [not_or, not_lt]
  refine ⟨h, by omega, by omega, ?_⟩
  split <;> omega

/-- No invocation of the run reported a negative cost. -/
def NonnegativeCosts (t : Tally) : Prop := ∀ result ∈ t.invocations, 0 ≤ result.usage.cost

theorem invokeAndFinish_disposes {mutation : Bool} (hold : Holds l r)
    (hrun : Runs text (Worker.invokeAndFinish lease execution candidate ⟨r.id⟩ mutation)
      l h l' outcome) (hcost : NonnegativeCosts (tally h)) :
    ∃ result, tally h = ⟨[], [r.id], [result], false⟩ ∧
      l' = settled l r (actualBudgetForInvocation candidate.target result.usage) := by
  obtain ⟨⟨result, invokeErr⟩, l₁, rest, rfl, rfl, b, l₂, rest', hsettle, rfl, hfinish⟩ := hrun
  have hresult : 0 ≤ result.usage.cost := hcost result (List.mem_cons_self)
  obtain ⟨rfl, hsettled⟩ := settle_held hold (actual_nonneg candidate.target hresult) hsettle
  have hquiet : l' = l₂ ∧ tally rest' = .empty := by
    cases mutation with
    | true => exact finishMutation_quiet hfinish
    | false => exact finishReadOnly_quiet hfinish
  obtain ⟨rfl, hrest⟩ := hquiet
  refine ⟨result, ?_, hsettled⟩
  simp [tally, Tally.note, hrest, Tally.empty]

theorem runStarted_disposes (hold : Holds l r)
    (hrun : Runs text (Worker.runStarted lease execution candidate ⟨r.id⟩) l h l' outcome)
    (hcost : NonnegativeCosts (tally h)) : Disposes candidate.target l r (tally h) l' := by
  unfold Worker.runStarted at hrun
  split at hrun
  · obtain ⟨a, l₁, rest, rfl, rfl, hrest⟩ := hrun
    cases a with
    | error e =>
      obtain ⟨b, l₂, rest, hsettle, rfl, c, l₃, rest', rfl, rfl, rfl, rfl, -⟩ := hrest
      obtain ⟨rfl, rfl⟩ := settle_held hold (by decide) hsettle
      exact .startFailed
    | ok _ =>
      obtain ⟨result, htally, rfl⟩ := invokeAndFinish_disposes hold hrest hcost
      simp only [tally, Tally.note, htally]
      exact .invoked result
  · obtain ⟨result, htally, rfl⟩ := invokeAndFinish_disposes hold hrun hcost
    rw [htally]
    exact .invoked result

theorem startAndRun_disposes (hold : Holds l r)
    (hrun : Runs text (Worker.startAndRun lease execution candidate ⟨r.id⟩) l h l' outcome)
    (hcost : NonnegativeCosts (tally h)) : Disposes candidate.target l r (tally h) l' := by
  obtain ⟨a, l₁, rest, rfl, rfl, hrest⟩ := hrun
  cases a with
  | error e =>
    obtain ⟨b, l₂, rest, hrelease, rfl, c, l₃, rest', rfl, rfl, rfl, rfl, -⟩ := hrest
    obtain ⟨rfl, rfl⟩ := release_held hold hrelease
    exact .released
  | ok _ =>
    have hdisposes : Disposes candidate.target _ r (tally rest) l' :=
      runStarted_disposes hold hrest hcost
    exact hdisposes

end

/-- What a run leaves behind: its reservations closed once and nothing else open, the
reserved amounts as before, and the consumed amounts grown by `spent`. -/
structure Balanced (l : BudgetLedger) (t : Tally) (l' : BudgetLedger) (spent : BudgetEstimate) :
    Prop where
  once : t.closed = t.reserved
  single : t.reserved.length ≤ 1
  created : ∀ id ∈ t.reserved, l.find id = none ∧ ∃ r, l'.find id = some r ∧ r.closed = true
  opened : l'.opened = l.opened
  reserved : l'.state.reserved = l.state.reserved
  consumed : l'.state.consumed = applyEstimate l.state.consumed spent 1

theorem applyEstimate_zero (c : AccountingCounters) : applyEstimate c ⟨0, 0, 0, 0⟩ 1 = c := by
  cases c
  simp [applyEstimateWith]

theorem Balanced.untouched (l : BudgetLedger) : Balanced l .empty l ⟨0, 0, 0, 0⟩ where
  once := rfl
  single := by simp [Tally.empty]
  created := by simp [Tally.empty]
  opened := rfl
  reserved := rfl
  consumed := (applyEstimate_zero l.state.consumed).symm

/-- What is added to words and taken off again leaves them as they were, also where the
sum in between wrapped around. -/
theorem applyEstimateWrapped_undo {c : AccountingCounters} (h : Words c) (e : BudgetEstimate) :
    applyEstimateWrapped (applyEstimateWrapped c e 1) e (-1) = c := by
  have hundo : ∀ n v : Int,
      wrap64 (wrap64 (wrap64 n + wrap64 v) + wrap64 (-v)) = wrap64 n := by
    intro n v
    unfold wrap64
    omega
  rw [← wrapped_words h]
  simp [applyEstimateWith, AccountingCounters.wrapped, hundo]

/-- A reservation that is taken and closed again gives back what it reserved. -/
theorem Balanced.of_closed {l₁ : BudgetLedger} (htakes : BudgetLedger.Takes l r l₁)
    (hwords : Words l.state.reserved) (invocations : List InvocationResult) (startFailed : Bool)
    (spent : BudgetEstimate) :
    Balanced l ⟨[r.id], [r.id], invocations, startFailed⟩
      (l₁.closedWrapped r (applyEstimate l.state.consumed spent 1)) spent := by
  have hothers : ∀ r' ∈ l.reservations, ¬ r'.id = r.id := by
    intro r' hr' hid
    exact htakes.fresh (hid ▸ List.mem_map_of_mem hr')
  have hrows : (l₁.closedWrapped r (applyEstimate l.state.consumed spent 1)).reservations =
      l.reservations ++ [{ r with closed := true }] := by
    simp only [BudgetLedger.closedWith, htakes.reservations, List.map_append]
    congr 1
    · exact map_touch_eq_self hothers
    · simp [BudgetLedger.close, touch]
  have hnone : l.find r.id = none := lookup_none.mpr hothers
  refine ⟨rfl, by simp, ?_, ?_, ?_, rfl⟩
  · intro id hid
    obtain rfl := List.mem_singleton.mp hid
    refine ⟨hnone, { r with closed := true }, ?_, rfl⟩
    unfold BudgetLedger.find at hnone ⊢
    rw [hrows, lookup_append, hnone]
    simp
  · unfold BudgetLedger.opened
    rw [hrows, List.filter_append]
    simp
  · simp only [BudgetLedger.closedWith, htakes.state]
    exact applyEstimateWrapped_undo hwords r.estimate

/-- The integer counters are words and the consumed ones have room for one more attempt
and one more tool call. -/
structure Countable (s : BudgetState) : Prop where
  reserved : Words s.reserved
  consumed : Words s.consumed
  attempts : s.consumed.nodeAttempts < maxInt
  tools : s.consumed.toolCalls < maxInt

theorem Countable.spent {s : BudgetState} (h : Countable s) {spent : BudgetEstimate}
    (hattempts : spent.nodeAttempts = 0 ∨ spent.nodeAttempts = 1)
    (hfrontier : spent.frontierCalls = 0)
    (htools : spent.toolCalls = 0 ∨ spent.toolCalls = 1) :
    applyEstimateWrapped s.consumed spent 1 = applyEstimate s.consumed spent 1 := by
  obtain ⟨_, ⟨hn, hf, ht⟩, ha, hto⟩ := h
  rw [applyEstimateWrapped_eq]
  apply wrapped_words
  unfold IsWord maxInt at *
  constructor <;> simp only [applyEstimateWith, id_eq, IsWord, maxInt] <;> omega

theorem Disposes.balanced {target : ExecutionTarget} {t : Tally} {l₁ : BudgetLedger}
    (hcount : Countable l.state) (htakes : BudgetLedger.Takes l r l₁)
    (hdisposes : Disposes target l₁ r t l') :
    (∃ result, t.invocations = [result] ∧ t.startFailed = false ∧
      Balanced l { t with reserved := [r.id] } l'
        (actualBudgetForInvocation target result.usage)) ∨
    (t.invocations = [] ∧ t.startFailed = true ∧
      Balanced l { t with reserved := [r.id] } l' ⟨0, 1, 0, 0⟩) ∨
    (t.invocations = [] ∧ t.startFailed = false ∧
      Balanced l { t with reserved := [r.id] } l' ⟨0, 0, 0, 0⟩) := by
  have hsame : l₁.state.consumed = l.state.consumed := by rw [htakes.state]
  have hbalanced := Balanced.of_closed htakes hcount.reserved
  cases hdisposes with
  | invoked result =>
    refine .inl ⟨result, rfl, rfl, ?_⟩
    unfold settled
    rw [hsame, hcount.spent (.inr rfl) rfl
      (by simp only [actualBudgetForInvocation]; split <;> simp)]
    exact hbalanced _ _ _
  | startFailed =>
    refine .inr (.inl ⟨rfl, rfl, ?_⟩)
    unfold settled
    rw [hsame, hcount.spent (.inr rfl) rfl (.inl rfl)]
    exact hbalanced _ _ _
  | released =>
    refine .inr (.inr ⟨rfl, rfl, ?_⟩)
    rw [hsame, ← applyEstimate_zero l.state.consumed]
    exact hbalanced _ _ _

theorem Disposes.reserved {target : ExecutionTarget} {t : Tally}
    (hdisposes : Disposes target l r t l') : t.reserved = [] := by
  cases hdisposes <;> rfl

/-- Whatever the store and the target answer, a returned run closed every reservation it
took, exactly once, and the ledger holds what it held before plus what was used, as long as
that can be counted. -/
theorem worker_run_accounted {w : PersistentWorker} {execution : Execution}
    {candidate : PreparedNode} {h : History} {outcome : Worker.Outcome}
    (hrun : Runs text (Worker.execute w execution candidate) l h l' outcome)
    (hcost : NonnegativeCosts (tally h)) (hcount : Countable l.state) :
    (∃ result, (tally h).invocations = [result] ∧ (tally h).startFailed = false ∧
      Balanced l (tally h) l' (actualBudgetForInvocation candidate.target result.usage)) ∨
    ((tally h).invocations = [] ∧ (tally h).startFailed = true ∧
      Balanced l (tally h) l' ⟨0, 1, 0, 0⟩) ∨
    ((tally h).invocations = [] ∧ (tally h).startFailed = false ∧
      Balanced l (tally h) l' ⟨0, 0, 0, 0⟩) := by
  unfold Worker.execute at hrun
  cases hvalid : Worker.validate w execution candidate with
  | error e =>
    rw [hvalid] at hrun
    obtain ⟨rfl, rfl, -⟩ := hrun
    exact .inr (.inr ⟨rfl, rfl, Balanced.untouched l'⟩)
  | ok _ =>
    rw [hvalid] at hrun
    obtain ⟨claimed, l₁, rest, rfl, rfl, hrest⟩ := hrun
    cases claimed with
    | error e =>
      obtain ⟨rfl, rfl, -⟩ := hrest
      exact .inr (.inr ⟨rfl, rfl, Balanced.untouched l'⟩)
    | ok lease =>
      obtain ⟨reserved, l₂, rest, hreserve, rfl, hrest⟩ := hrest
      rcases l₁.reserveWrapped_cases ("attempt/" ++ NodeLease.attemptRef lease) execution.id
        candidate.node.id candidate.estimate with
        ⟨-, e, hr, -⟩ | ⟨-, -, e, hr, -⟩ | ⟨-, -, l₃, hr, htakes⟩
      all_goals
        simp only [answersWith, hr, relay] at hreserve
        obtain ⟨rfl, rfl⟩ := hreserve
      case inr.inr =>
        have hdisposes := startAndRun_disposes (takes_holds htakes) hrest hcost
        have hbalanced := hdisposes.balanced hcount htakes
        simp only [tally, Tally.note, hdisposes.reserved]
        exact hbalanced
      all_goals
        obtain ⟨cleanup, l₃, rest, rfl, rfl, rfl, rfl, -⟩ := hrest
        exact .inr (.inr ⟨rfl, rfl, Balanced.untouched l'⟩)

def toolRun (l : BudgetLedger) : Option (History × BudgetLedger × Worker.Outcome) :=
  Prog.runWith (budgetReply (fun _ => "") Worker.sampleJob "a") (Worker.body Worker.sampleJob) l

theorem toolRun_runs {l : BudgetLedger} {P : History × BudgetLedger × Worker.Outcome → Prop}
    [DecidablePred P] (h : (toolRun l).any (fun x => P x) = true) :
    ∃ h l' outcome, Runs (fun _ => "") (Worker.body Worker.sampleJob) l h l' outcome ∧
      P (h, l', outcome) := by
  obtain ⟨⟨h, l', outcome⟩, hs, hp⟩ := (Option.any_eq_true _ _).mp h
  exact ⟨h, l', outcome, Prog.runsTo_runWith (budgetReply_answers _ _ _) hs, of_decide_eq_true hp⟩

instance (t : Tally) : Decidable (NonnegativeCosts t) :=
  inferInstanceAs (Decidable (∀ result ∈ t.invocations, 0 ≤ result.usage.cost))

/-- A tool is invoked once and its attempt settled. -/
theorem toolRun_accounted : ∃ h l' outcome,
    Runs (fun _ => "") (Worker.body Worker.sampleJob) (fresh ⟨0, 2, 0, 1⟩) h l' outcome ∧
      tally h = ⟨["attempt/a"], ["attempt/a"], [Worker.sampleInvocation], false⟩ ∧
      Balanced (fresh ⟨0, 2, 0, 1⟩) (tally h) l' ⟨0, 1, 0, 1⟩ := by
  obtain ⟨h, l', outcome, hruns, htally, hcost⟩ := toolRun_runs (l := fresh ⟨0, 2, 0, 1⟩)
    (P := fun x => tally x.1 =
      ⟨["attempt/a"], ["attempt/a"], [Worker.sampleInvocation], false⟩ ∧
        NonnegativeCosts (tally x.1)) (by decide)
  refine ⟨h, l', outcome, hruns, htally, ?_⟩
  rcases worker_run_accounted hruns hcost
    ⟨by decide, by decide, by decide, by decide⟩ with
    ⟨result, hresult, -, hb⟩ | ⟨hnone, -⟩ | ⟨hnone, -⟩
  · rw [htally] at hresult
    obtain rfl : Worker.sampleInvocation = result := List.head_eq_of_cons_eq hresult
    exact hb
  · simp [htally] at hnone
  · simp [htally] at hnone

/-- A ledger without limits that has counted as many attempts as it can. -/
def fullLedger : BudgetLedger :=
  newBudgetLedger ⟨⟨0, 0, 0, 0⟩, ⟨0, 0, 0, 0⟩, ⟨0, maxInt, 0, 0⟩⟩

/-- One more attempt makes its counter negative. -/
theorem full_ledger_miscounts : ∃ h l' outcome,
    Runs (fun _ => "") (Worker.body Worker.sampleJob) fullLedger h l' outcome ∧
      NonnegativeCosts (tally h) ∧ (tally h).invocations = [Worker.sampleInvocation] ∧
      fullLedger.state.consumed.nodeAttempts = maxInt ∧
      l'.state.consumed.nodeAttempts = -2 ^ 63 :=
  toolRun_runs (P := fun x => NonnegativeCosts (tally x.1) ∧
    (tally x.1).invocations = [Worker.sampleInvocation] ∧
    fullLedger.state.consumed.nodeAttempts = maxInt ∧
    x.2.1.state.consumed.nodeAttempts = -2 ^ 63) (by decide)

end AiCloud.Budget
