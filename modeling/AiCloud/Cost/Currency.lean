import AiCloud.Cost.RouteQuote

/-!
# One currency

`AggregateTask` adds the events of a task up and refuses mixed currencies. The events
of one call start in the currency of the model's prices; reconciling moves the token
events to the currency of the policy and leaves the premium of a tier where it was.
-/
namespace AiCloud.Cost

open Lib Execution Tasks ModelRuntime Pricing List

inductive AggregateError
  | mixedCurrencies
  deriving DecidableEq

/-- The loop of `AggregateTask`, at a total and a currency. -/
def aggregate : List CostEvent → Rat → String → Except AggregateError (Rat × String)
  | [], total, currency => .ok (total, currency)
  | event :: events, total, currency =>
    let currency := if currency = "" then event.currency else currency
    if event.currency ≠ "" ∧ currency ≠ event.currency then .error .mixedCurrencies
    else aggregate events (total + event.amount) currency

def aggregateTask (listed : List CostEvent) : Except AggregateError (Rat × String) :=
  aggregate listed 0 ""

def CostDb.taskCosts (db : CostDb) (taskID : String) : List CostEvent :=
  Table.select CostEvent.taskID taskID db.costs.rows

/-- What `ListByTask` may return: `ORDER BY created_at` leaves rows of one instant in
any order. -/
structure Listing (db : CostDb) (taskID : String) (listed : List CostEvent) : Prop where
  rows : listed.Perm (db.taskCosts taskID)
  ordered : listed.Pairwise (fun a b => a.createdAt ≤ b.createdAt)

variable {events : List CostEvent}

theorem aggregate_uniform {currency : String} (hcurrency : currency ≠ "")
    (huniform : ∀ e ∈ events, e.currency = currency) (total : Rat) {start : String}
    (hstart : start = "" ∨ start = currency) (hsome : start = currency ∨ events ≠ []) :
    aggregate events total start = .ok (total + (events.map CostEvent.amount).sum, currency) := by
  induction events generalizing total start with
  | nil =>
    have hsame : start = currency := hsome.resolve_right (fun h => h rfl)
    rw [aggregate, hsame]
    simp
  | cons event events ih =>
    have hevent : event.currency = currency := huniform event mem_cons_self
    have hnext : (if start = "" then currency else start) = currency := by
      rcases hstart with h | h
      · rw [if_pos h]
      · rw [if_neg (h ▸ hcurrency), h]
    simp only [aggregate, hevent, hnext, ne_eq, not_true_eq_false, and_false, if_false]
    rw [ih (fun e he => huniform e (mem_cons_of_mem _ he)) _ (.inr rfl) (.inl rfl),
      map_cons, sum_cons, add_assoc]

/-- The events of the task have one currency, and the task costs their sum. -/
def OneCurrency (db : CostDb) (taskID : String) : Prop :=
  ∃ currency, (∀ e ∈ db.taskCosts taskID, e.currency = currency) ∧
    ∀ listed, Listing db taskID listed →
      aggregateTask listed = .ok (((db.taskCosts taskID).map CostEvent.amount).sum, currency)

variable {taskID : String}

theorem oneCurrency_of {db : CostDb} {currency : String} (hcurrency : currency ≠ "")
    (huniform : ∀ e ∈ db.taskCosts taskID, e.currency = currency) : OneCurrency db taskID := by
  by_cases hnone : db.taskCosts taskID = []
  · refine ⟨"", by simp [hnone], ?_⟩
    intro listed hlisted
    have hempty : listed = [] := (hnone ▸ hlisted.rows).eq_nil
    rw [hempty, hnone]
    rfl
  · refine ⟨currency, huniform, ?_⟩
    intro listed hlisted
    have hmem : ∀ e ∈ listed, e.currency = currency := fun e he =>
      huniform e (hlisted.rows.mem_iff.mp he)
    have hsome : listed ≠ [] := fun h => hnone (h ▸ hlisted.rows).symm.eq_nil
    rw [aggregateTask, aggregate_uniform hcurrency hmem 0 (.inl rfl) (.inr hsome), zero_add,
      (hlisted.rows.map CostEvent.amount).sum_eq]

section

variable {fold : Folding} {reader : PayloadReader} {db db' : CostDb} {event : CostEvent}

theorem append_cases {answer : Except CostError CostEvent}
    (h : db.append fold reader event = (answer, db')) :
    (∃ r costs, reconcileDeploymentCostEvent fold reader db event = .ok r ∧ answer = .ok r ∧
        db' = { db with costs := costs } ∧ costs.rows = db.costs.rows ++ [r]) ∨
      (∃ e, answer = .error e ∧ db' = db) := by
  unfold CostDb.append at h
  split at h
  · cases h
    exact .inr ⟨_, rfl, rfl⟩
  · rename_i r hr
    split at h
    · cases h
      exact .inr ⟨_, rfl, rfl⟩
    · rename_i costs hcosts
      cases h
      exact .inl ⟨r, costs, hr, rfl, rfl, (Table.insert_some hcosts).2.2⟩

/-- What a call leaves behind: its first events, reconciled; all of them if it succeeds,
not all of them if it fails. -/
theorem appendAll_run {answer : Except CostError (List CostEvent)}
    (h : appendAll (CostDb.append fold reader) events db = (answer, db')) :
    ∃ stored costs, db' = { db with costs := costs } ∧ costs.rows = db.costs.rows ++ stored ∧
      Forall₂ (fun e r => reconcileDeploymentCostEvent fold reader db e = .ok r)
        (events.take stored.length) stored ∧
      ((answer = .ok stored ∧ stored.length = events.length) ∨
        ((∃ e, answer = .error e) ∧ stored.length < events.length)) := by
  induction events generalizing db db' answer with
  | nil =>
    cases h
    exact ⟨[], db.costs, rfl, (append_nil _).symm, Forall₂.nil, .inl ⟨rfl, rfl⟩⟩
  | cons event events ih =>
    unfold appendAll at h
    cases hap : db.append fold reader event with
    | mk first db₁ =>
      rw [hap] at h
      rcases append_cases hap with ⟨r, costs, hrec, rfl, rfl, hrows⟩ | ⟨e, rfl, hsame⟩
      · simp only at h
        cases hrest : appendAll (CostDb.append fold reader) events { db with costs := costs } with
        | mk rest db₂ =>
          rw [hrest] at h
          obtain ⟨stored, costs', rfl, hrows', hall, hend⟩ := ih hrest
          refine ⟨r :: stored, costs', ?_, ?_, Forall₂.cons hrec hall, ?_⟩
          · rcases hend with ⟨rfl, _⟩ | ⟨⟨e, rfl⟩, _⟩ <;> cases h <;> rfl
          · rw [hrows', hrows, append_assoc]
            rfl
          · rcases hend with ⟨rfl, hlen⟩ | ⟨⟨e, rfl⟩, hlen⟩
            · cases h
              exact .inl ⟨rfl, congrArg Nat.succ hlen⟩
            · cases h
              exact .inr ⟨⟨e, rfl⟩, Nat.succ_lt_succ hlen⟩
      · cases h
        exact ⟨[], db.costs, hsame, (append_nil _).symm, Forall₂.nil,
          .inr ⟨⟨e, rfl⟩, Nat.succ_pos _⟩⟩

variable {r : CostEvent}

theorem stored_source {stored : List CostEvent}
    (h : Forall₂ (fun e r => reconcileDeploymentCostEvent fold reader db e = .ok r) events stored)
    (hr : r ∈ stored) :
    ∃ e ∈ events, reconcileDeploymentCostEvent fold reader db e = .ok r := by
  induction h with
  | nil => cases hr
  | cons he _ ih =>
    rcases mem_cons.mp hr with rfl | hr
    · exact ⟨_, mem_cons_self, he⟩
    · obtain ⟨e, hmem, hrec⟩ := ih hr
      exact ⟨e, mem_cons_of_mem _ hmem, hrec⟩

variable {route : RouteDecisionRow} {pin : CostDb.PinnedPolicy}

theorem reconcile_currency (event : CostEvent) {workload : PricingUsageEstimate}
    (hfound : Found db event.taskID event.deploymentID route pin)
    (husage : eventUsage (db.recordedInputs reader event.taskID route.id) pin.policy.region event =
      some workload) (h : reconcileDeploymentCostEvent fold reader db event = .ok r) :
    r.currency = pin.policy.currency ∧ pin.policy.currency ≠ "" := by
  rw [reconcile_found fold reader hfound, husage] at h
  simp only at h
  split at h
  · cases h
  rename_i quote hquote
  cases h
  obtain ⟨hvalid, _, _, hcurrency, _⟩ := quotePricing_ok hquote
  refine ⟨?_, policy_currency hvalid⟩
  rw [← hcurrency]
  change (event.priced quote).currency = quote.currency
  unfold CostEvent.priced
  split <;> rfl

variable {unixNano : Time → Int} {now : Time} {usage : ModelUsage}

theorem token_currency (hfound : Found db usage.taskID usage.deploymentID route pin)
    (hevent : event ∈ [inputEvent unixNano now usage, outputEvent unixNano now usage])
    (h : reconcileDeploymentCostEvent fold reader db event = .ok r) :
    r.currency = pin.policy.currency ∧ pin.policy.currency ≠ "" := by
  rcases mem_cons.mp hevent with rfl | hevent
  · exact reconcile_currency (inputEvent unixNano now usage) hfound rfl h
  · obtain rfl := mem_singleton.mp hevent
    exact reconcile_currency (outputEvent unixNano now usage) hfound rfl h

theorem tier_currency (hfound : Found db usage.taskID usage.deploymentID route pin)
    (hevent : event ∈ tierEvents unixNano now usage)
    (h : reconcileDeploymentCostEvent fold reader db event = .ok r) :
    r.currency = usageCurrency usage := by
  unfold tierEvents at hevent
  split at hevent
  · obtain rfl := mem_singleton.mp hevent
    have hrec := (reconcile_found fold reader hfound).symm.trans h
    cases hrec
    rfl
  · cases hevent

/-- A call that failed never came to its premium. -/
theorem mem_take_usageEvents {n : Nat} (hn : n < (usageEvents unixNano now usage).length)
    (h : event ∈ (usageEvents unixNano now usage).take n) :
    event ∈ [inputEvent unixNano now usage, outputEvent unixNano now usage] := by
  have htier : (tierEvents unixNano now usage).length ≤ 1 := by
    unfold tierEvents
    split <;> simp
  have hshort : n ≤ 2 := by
    simp only [usageEvents, length_cons] at hn
    omega
  have htake : (usageEvents unixNano now usage).take n <+:
    (usageEvents unixNano now usage).take 2 :=
    take_prefix_take_left hshort
  exact htake.subset h

variable {stored : List CostEvent}

theorem taskCosts_stored {n : Nat} {costs : Table CostEvent CostEvent.Check CostEvent.Clash}
    (hfirst : db.taskCosts usage.taskID = []) (hrows : costs.rows = db.costs.rows ++ stored)
    (hall : Forall₂ (fun e r => reconcileDeploymentCostEvent fold reader db e = .ok r)
      ((usageEvents unixNano now usage).take n) stored) :
    CostDb.taskCosts { db with costs := costs } usage.taskID = stored := by
  have hmine : ∀ r ∈ stored, r.taskID = usage.taskID := by
    intro r hr
    obtain ⟨e, he, hrec⟩ := stored_source hall hr
    rw [(reconcile_keeps hrec).task]
    exact (mem_usageEvents (mem_of_mem_take he)).1
  change Table.select CostEvent.taskID usage.taskID costs.rows = stored
  rw [hrows, Table.select, filter_append]
  have hold : db.costs.rows.filter (fun r => decide (r.taskID = usage.taskID)) = [] := hfirst
  rw [hold, nil_append]
  exact filter_eq_self.mpr (fun r hr => decide_eq_true (hmine r hr))

theorem oneCurrency_tokens (hfound : Found db usage.taskID usage.deploymentID route pin)
    (hcosts : db'.taskCosts taskID = stored)
    (hall : Forall₂ (fun e r => reconcileDeploymentCostEvent fold reader db e = .ok r)
      events stored)
    (htokens : ∀ e ∈ events, e ∈ [inputEvent unixNano now usage, outputEvent unixNano now usage]) :
    OneCurrency db' taskID := by
  by_cases hcurrency : pin.policy.currency = ""
  · -- An invalid policy quotes nothing.
    have hnone : ∀ e ∈ db'.taskCosts taskID, e.currency = "USD" := by
      intro r hr
      rw [hcosts] at hr
      obtain ⟨e, he, hrec⟩ := stored_source hall hr
      exact absurd hcurrency (token_currency hfound (htokens e he) hrec).2
    exact oneCurrency_of (by decide) hnone
  · refine oneCurrency_of hcurrency (fun r hr => ?_)
    rw [hcosts] at hr
    obtain ⟨e, he, hrec⟩ := stored_source hall hr
    exact (token_currency hfound (htokens e he) hrec).1

/-- The premium of a tier in another currency than the policy's. -/
theorem oneCurrency_tier (hfound : Found db usage.taskID usage.deploymentID route pin)
    (hdue : usage.serviceTier ≠ "" ∧ 1 < usage.pricing.serviceTierFactor)
    (hcosts : db'.taskCosts taskID = stored)
    (hall : Forall₂ (fun e r => reconcileDeploymentCostEvent fold reader db e = .ok r)
      (usageEvents unixNano now usage) stored) :
    OneCurrency db' taskID ↔ usageCurrency usage = pin.policy.currency := by
  have htier : ∃ event, tierEvents unixNano now usage = [event] := by
    unfold tierEvents
    rw [if_pos hdue]
    exact ⟨_, rfl⟩
  obtain ⟨event, hevent⟩ := htier
  rw [usageEvents, hevent] at hall
  obtain ⟨input, _, hinput, hrest, rfl⟩ := forall₂_cons_left_iff.mp hall
  obtain ⟨output, _, houtput, hlast, rfl⟩ := forall₂_cons_left_iff.mp hrest
  obtain ⟨premium, _, hpremium, hnone, rfl⟩ := forall₂_cons_left_iff.mp hlast
  obtain rfl := forall₂_nil_left_iff.mp hnone
  obtain ⟨hpolicy, hcurrency⟩ := token_currency hfound mem_cons_self hinput
  have hpolicy' := (token_currency hfound (mem_cons_of_mem _ mem_cons_self) houtput).1
  have hmodel := tier_currency hfound (hevent ▸ mem_singleton_self event) hpremium
  constructor
  · rintro ⟨currency, huniform, _⟩
    rw [hcosts] at huniform
    have hone := huniform input (by simp)
    have htwo := huniform premium (by simp)
    rw [← hmodel, ← hpolicy, hone, htwo]
  · intro hsame
    refine oneCurrency_of hcurrency ?_
    rw [hcosts]
    intro e he
    simp only [mem_cons, not_mem_nil, or_false] at he
    rcases he with rfl | rfl | rfl
    · exact hpolicy
    · exact hpolicy'
    · exact hmodel.trans hsame

end

/-- What a call to a found policy leaves has one currency unless the call pays the premium
of a tier in another currency than the policy's. A call that fails leaves one currency. -/
theorem recorded_currency_iff (fold : Folding) (reader : PayloadReader) (unixNano : Time → Int)
    (now : Time) (usage : ModelUsage) (db db' : CostDb) (route : RouteDecisionRow)
    (pin : CostDb.PinnedPolicy) (answer : Except (LedgerError CostError) (List CostEvent))
    (hfound : Found db usage.taskID usage.deploymentID route pin)
    (hfirst : db.taskCosts usage.taskID = [])
    (h : recordModelUsage unixNano (some (CostDb.append fold reader)) now usage db =
      (answer, db')) :
    ((∃ events, answer = .ok events) → (OneCurrency db' usage.taskID ↔
      usage.serviceTier = "" ∨ usage.pricing.serviceTierFactor ≤ 1 ∨
        usageCurrency usage = pin.policy.currency)) ∧
      ((∃ e, answer = .error e) → OneCurrency db' usage.taskID) := by
  unfold recordModelUsage at h
  split at h
  · cases h
    refine ⟨fun ⟨_, hok⟩ => (nomatch hok), fun _ => ?_⟩
    have hnone : ∀ e ∈ db.taskCosts usage.taskID, e.currency = "USD" := by
      rw [hfirst]
      exact fun e he => (nomatch he)
    exact oneCurrency_of (by decide) hnone
  simp only at h
  cases hrun : appendAll (CostDb.append fold reader) (usageEvents unixNano now usage) db with
  | mk stored? db₁ =>
    rw [hrun] at h
    cases h
    obtain ⟨stored, costs, rfl, hrows, hall, hend⟩ := appendAll_run hrun
    have hcosts := taskCosts_stored hfirst hrows hall
    rcases hend with ⟨rfl, hlength⟩ | ⟨⟨e, rfl⟩, hlength⟩
    · refine ⟨fun _ => ?_, fun ⟨_, herror⟩ => (nomatch herror)⟩
      rw [hlength, take_length] at hall
      by_cases hdue : usage.serviceTier ≠ "" ∧ 1 < usage.pricing.serviceTierFactor
      · rw [oneCurrency_tier hfound hdue hcosts hall, or_iff_right hdue.1,
          or_iff_right (not_le.mpr hdue.2)]
      · have htokens : ∀ e ∈ usageEvents unixNano now usage,
            e ∈ [inputEvent unixNano now usage, outputEvent unixNano now usage] := by
          unfold usageEvents tierEvents
          rw [if_neg hdue]
          exact fun e he => he
        refine iff_of_true (oneCurrency_tokens hfound hcosts hall htokens) ?_
        rcases not_and_or.mp hdue with htier | hfactor
        · exact .inl (not_not.mp htier)
        · exact .inr (.inl (not_lt.mp hfactor))
    · refine ⟨fun ⟨_, hok⟩ => (nomatch hok), fun _ => ?_⟩
      exact oneCurrency_tokens hfound hcosts hall (fun _ => mem_take_usageEvents hlength)

def premiumUsage (currency : String) : ModelUsage :=
  { meteredUsage with pricing := ⟨currency, 2, 4, 0, 2⟩, serviceTier := "priority" }

def recordPremium (currency : String) :
    Except (LedgerError CostError) (List CostEvent) × CostDb :=
  recordModelUsage (fun t => t * 1000) (some (CostDb.append asciiFolding meteredReader)) 20
    (premiumUsage currency) (meteredDb 0)

theorem premium_one_currency : OneCurrency (recordPremium "USD").2 "task" := by
  have hok : (recordPremium "USD").1.toOption.isSome = true := by decide +kernel
  have hevents : ∃ events, (recordPremium "USD").1 = .ok events := by
    cases hrun : (recordPremium "USD").1 with
    | error e =>
      rw [hrun] at hok
      cases hok
    | ok events => exact ⟨events, rfl⟩
  exact ((recorded_currency_iff asciiFolding meteredReader (fun t => t * 1000) 20
    (premiumUsage "USD") (meteredDb 0) _ meteredRoute (meteredPin 0) _ (metered_routed 0).found rfl
    rfl).1 hevents).mpr (.inr (.inr rfl))

/-- The premium of a model priced in euros stays in euros. -/
theorem premium_mixed_currencies :
    Found (meteredDb 0) "task" "deployment" meteredRoute (meteredPin 0) ∧
      (meteredDb 0).taskCosts "task" = [] ∧
      ((recordPremium "EUR").2.taskCosts "task").map CostEvent.currency = ["USD", "USD", "EUR"] ∧
      aggregateTask ((recordPremium "EUR").2.taskCosts "task") = .error .mixedCurrencies := by
  refine ⟨(metered_routed 0).found, rfl, by decide +kernel, by decide +kernel⟩

end AiCloud.Cost
