import AiCloud.Budget.Machine
import AiCloud.Execution.Preparation

/-!
# Selecting nodes under a budget

`SelectRunnable` reserves for one prepared node after another. A node beyond the
limits is only reported; any other refusal ends the call, and the reservations made
before it stay in the ledger while their nodes are dropped.
-/
namespace AiCloud.Budget

open Lib Execution List

structure ReadyNode where
  node : ExecutionNode
  target : ExecutionTarget
  policy : PolicyDecisionRecord
  reservation : BudgetReservation
  deriving DecidableEq

inductive SelectError
  | prepare (e : SupervisorError)
  | reserve (e : BudgetError)
  deriving DecidableEq

structure Selection where
  ready : List ReadyNode
  conditions : List ExecutionCondition
  error : Option SelectError
  deriving DecidableEq

def nextAttemptNumber (_nodeID : String) (_runtimes : Runtimes) : Nat := 1

def reservationID (executionID nodeID : String) (attempt : Nat) : String :=
  executionID ++ "/" ++ nodeID ++ "/" ++ toString attempt

/-- The loop over the prepared nodes; `text` is the text of a budget error. -/
def selectNodes (text : BudgetError → String) (execution : Execution) (runtimes : Runtimes) :
    List PreparedNode → List ReadyNode → List ExecutionCondition → BudgetLedger →
      Selection × BudgetLedger
  | [], ready, conditions, l => (⟨ready, conditions, none⟩, l)
  | c :: rest, ready, conditions, l =>
    match l.reserveWrapped (reservationID execution.id c.node.id
      (nextAttemptNumber c.node.id runtimes)) execution.id c.node.id c.estimate with
    | (.ok reservation, l') =>
      selectNodes text execution runtimes rest
        (ready ++ [⟨c.node, c.target, c.policy, reservation⟩]) conditions l'
    | (.error e, l') =>
      if e.exceeded then selectNodes text execution runtimes rest ready
          (conditions ++ [⟨.budgetPressure, true, c.node.id, text e⟩]) l'
      else (⟨[], conditions, some (.reserve e)⟩, l')

def selectRunnable (text : BudgetError → String) (s : Supervisor) (execution : Execution)
    (plan : ExecutionPlan) (runtimes : Runtimes) (l : BudgetLedger) : Selection × BudgetLedger :=
  let preparation := prepareRunnable s execution plan runtimes
  match preparation.error with
  | some e => (⟨[], preparation.conditions, some (.prepare e)⟩, l)
  | none => selectNodes text execution runtimes preparation.prepared [] preparation.conditions l

theorem reservationID_inj {executionID nodeID nodeID' : String} {attempt : Nat}
    (h : reservationID executionID nodeID attempt = reservationID executionID nodeID' attempt) :
    nodeID = nodeID' := by
  have hlist := congrArg String.toList h
  simpa [reservationID, String.toList_inj] using hlist

/-- The ledger refuses the node's reservation whatever the limits are. -/
def Refused (l : BudgetLedger) (execution : Execution) (c : PreparedNode) : Prop :=
  l.Refuses (reservationID execution.id c.node.id 1) c.estimate

instance (l : BudgetLedger) (execution : Execution) (c : PreparedNode) :
    Decidable (Refused l execution c) := inferInstanceAs (Decidable (BudgetLedger.Refuses ..))

variable {text : BudgetError → String} {execution : Execution} {runtimes : Runtimes}
  {l l' : BudgetLedger} {nodes : List PreparedNode} {ready : List ReadyNode}
  {conditions : List ExecutionCondition}

theorem refused_after {b c : PreparedNode} {r : BudgetReservation} (h : l.Takes r l')
    (hr : r.id = reservationID execution.id b.node.id 1) (hne : b.node.id ≠ c.node.id) :
    Refused l' execution c ↔ Refused l execution c := by
  have hid : reservationID execution.id c.node.id 1 ≠ r.id := fun hid =>
    hne (reservationID_inj (hr.symm.trans hid.symm))
  unfold Refused BudgetLedger.Refuses
  rw [h.reservations, map_append, mem_append]
  simp [hid]

theorem selectNodes_keeps : l.reservations.length ≤
    (selectNodes text execution runtimes nodes ready conditions l).2.reservations.length := by
  induction nodes generalizing ready conditions l with
  | nil => exact le_refl _
  | cons c rest ih =>
    unfold selectNodes nextAttemptNumber
    rcases l.reserveWrapped_cases (reservationID execution.id c.node.id 1) execution.id c.node.id
      c.estimate with ⟨-, e, hr, he⟩ | ⟨-, -, e, hr, he⟩ | ⟨-, -, l', hr, htakes⟩
    · simp only [hr, he, Bool.false_eq_true, if_false, le_refl]
    · simp only [hr, he, if_true]
      exact ih
    · simp only [hr]
      refine le_trans ?_ ih
      rw [htakes.reservations, length_append]
      exact Nat.le_add_right _ _

/-- The loop fails exactly where the ledger it started from refuses some node. -/
theorem selectNodes_error_iff (hdistinct : (nodes.map (fun c => c.node.id)).Nodup) :
    (selectNodes text execution runtimes nodes ready conditions l).1.error ≠ none ↔
      ∃ c ∈ nodes, Refused l execution c := by
  induction nodes generalizing ready conditions l with
  | nil => simp [selectNodes]
  | cons c rest ih =>
    obtain ⟨hc, hrest⟩ := nodup_cons.mp hdistinct
    unfold selectNodes nextAttemptNumber
    simp only [exists_mem_cons_iff]
    rcases l.reserveWrapped_cases (reservationID execution.id c.node.id 1) execution.id c.node.id
      c.estimate with ⟨hrefused, e, hr, he⟩ | ⟨hrefused, -, e, hr, he⟩ |
        ⟨hrefused, -, l', hr, htakes⟩
    · simp only [hr, he, Bool.false_eq_true, if_false]
      exact iff_of_true nofun (.inl hrefused)
    · simp only [hr, he, if_true]
      rw [ih hrest]
      exact ⟨.inr, fun h => h.resolve_left hrefused⟩
    · simp only [hr]
      rw [ih hrest]
      have hsame : ∀ b ∈ rest, (Refused l' execution b ↔ Refused l execution b) := fun b hb =>
        refused_after htakes rfl (fun hid => hc (mem_map.mpr ⟨b, hb, hid.symm⟩))
      constructor
      · rintro ⟨b, hb, hrefuses⟩
        exact .inr ⟨b, hb, (hsame b hb).mp hrefuses⟩
      · intro h
        obtain ⟨b, hb, hrefuses⟩ := h.resolve_left hrefused
        exact ⟨b, hb, (hsame b hb).mpr hrefuses⟩

/-- The loop leaves the ledger as it was exactly where it has room for no node before the
first refused one. -/
theorem selectNodes_unchanged_iff :
    (selectNodes text execution runtimes nodes ready conditions l).2 = l ↔
      ∀ a ∈ nodes.takeWhile (fun c => ¬ Refused l execution c),
        ¬ BudgetLedger.Room l.state a.estimate := by
  induction nodes generalizing ready conditions with
  | nil => simp [selectNodes]
  | cons c rest ih =>
    unfold selectNodes nextAttemptNumber
    rcases l.reserveWrapped_cases (reservationID execution.id c.node.id 1) execution.id c.node.id
      c.estimate with ⟨hrefused, e, hr, he⟩ | ⟨hrefused, hroom, e, hr, he⟩ |
        ⟨hrefused, hroom, l', hr, htakes⟩
    · have hc : Refused l execution c := hrefused
      simp [hr, he, hc]
    · have hc : ¬ Refused l execution c := hrefused
      simp only [hr, he, if_true, takeWhile_cons, hc, not_false_iff, decide_true, forall_mem_cons]
      rw [ih]
      exact (and_iff_right hroom).symm
    · have hc : ¬ Refused l execution c := hrefused
      simp only [hr, takeWhile_cons, hc, not_false_iff, decide_true, if_true, forall_mem_cons]
      refine iff_of_false (fun hsame => ?_) (fun h => h.1 hroom)
      have hkept : l'.reservations.length ≤ l.reservations.length :=
        le_trans selectNodes_keeps (le_of_eq (congrArg (fun l => l.reservations.length) hsame))
      rw [htakes.reservations, length_append] at hkept
      exact absurd hkept (by simp)

def pairPlan : ExecutionPlan :=
  { chainPlan with nodes := [chainNode "a" [], chainNode "b" []] }

def noRuntimes : Runtimes := ⟨[], by decide⟩

theorem pairPlan_prepared : prepareRunnable openSupervisor runningExecution pairPlan noRuntimes =
    ⟨pairPlan.nodes.map (fun node => ⟨node, ⟨node.id, 1, .tool, ⟨"digest"⟩⟩,
      ⟨"policy", "v1", "execution", 1, node.id, .allow⟩, ⟨1, 1, 0, 1⟩⟩), [], none⟩ := by
  have hsort : pairPlan.nodes.mergeSort (fun a b => decide (a.id ≤ b.id)) = pairPlan.nodes :=
    mergeSort_of_pairwise (by decide)
  unfold prepareRunnable
  rw [hsort]
  rfl

/-- A ledger that already holds one of the two reservations. -/
def ledgerHolding (nodeID : String) : BudgetLedger :=
  ((newBudgetLedger ⟨⟨10, 10, 10, 10⟩, ⟨0, 0, 0, 0⟩, ⟨0, 0, 0, 0⟩⟩).reserveWrapped
    (reservationID "execution" nodeID 1) "execution" nodeID ⟨1, 1, 0, 1⟩).2

end AiCloud.Budget
