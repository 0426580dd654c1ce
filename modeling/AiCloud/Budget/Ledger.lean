import AiCloud.Execution.Plan
import AiCloud.Lib.Table
import Mathlib.Tactic.Ring
import Mathlib.Tactic.Linarith

/-!
# The budget ledger

`BudgetLedger` with its three operations. Amounts of cost are exact. The map of
reservations is a list in the order of reservation that carries the proof that its ids
are distinct. Each operation fails and changes nothing, or it opens or closes one
reservation.
-/
namespace AiCloud.Budget

open Lib Execution List

structure AccountingCounters where
  cost : Rat
  (nodeAttempts frontierCalls toolCalls : Int)

/-- The limit on the duration is not read by the ledger. -/
structure BudgetLimit where
  maxCost : Rat
  (maxNodeAttempts maxFrontierCalls maxToolCalls : Int)

structure BudgetState where
  limit : BudgetLimit
  (reserved consumed : AccountingCounters)

structure BudgetReservation where
  (id executionRef nodeRef : String)
  estimate : BudgetEstimate
  closed : Bool
  deriving DecidableEq

structure BudgetLedger where
  state : BudgetState
  reservations : List BudgetReservation
  distinct : (reservations.map BudgetReservation.id).Nodup

inductive BudgetError
  | reservationIDRequired
  | reservationExists (id : String)
  | negativeEstimate
  | costExceeded (cost limit : Rat)
  | nodeAttemptsExceeded (attempts limit : Int)
  | frontierCallsExceeded (calls limit : Int)
  | toolCallsExceeded (calls limit : Int)
  | reservationMissing
  | reservationClosed
  | negativeActual
  deriving DecidableEq

def newBudgetLedger (state : BudgetState) : BudgetLedger := ⟨state, [], nodup_nil⟩

def validateCountersAgainstLimit (c : AccountingCounters) (limit : BudgetLimit) :
    Except BudgetError Unit :=
  if limit.maxCost > 0 ∧ c.cost > limit.maxCost then .error (.costExceeded c.cost limit.maxCost)
  else if limit.maxNodeAttempts > 0 ∧ c.nodeAttempts > limit.maxNodeAttempts then
    .error (.nodeAttemptsExceeded c.nodeAttempts limit.maxNodeAttempts)
  else if limit.maxFrontierCalls > 0 ∧ c.frontierCalls > limit.maxFrontierCalls then
    .error (.frontierCallsExceeded c.frontierCalls limit.maxFrontierCalls)
  else if limit.maxToolCalls > 0 ∧ c.toolCalls > limit.maxToolCalls then
    .error (.toolCallsExceeded c.toolCalls limit.maxToolCalls)
  else .ok ()

-- how the integers add up: exactly, or as machine words
variable (w : Int → Int)

def applyEstimateWith (dst : AccountingCounters) (v : BudgetEstimate) (sign : Int) :
    AccountingCounters where
  cost := dst.cost + sign * v.cost
  nodeAttempts := w (dst.nodeAttempts + w (sign * v.nodeAttempts))
  frontierCalls := w (dst.frontierCalls + w (sign * v.frontierCalls))
  toolCalls := w (dst.toolCalls + w (sign * v.toolCalls))

abbrev applyEstimate := applyEstimateWith id

def Negative (e : BudgetEstimate) : Prop :=
  e.cost < 0 ∨ e.nodeAttempts < 0 ∨ e.frontierCalls < 0 ∨ e.toolCalls < 0

instance (e : BudgetEstimate) : Decidable (Negative e) := inferInstanceAs (Decidable (_ ∨ _))

variable (l : BudgetLedger) (r : BudgetReservation)

namespace BudgetLedger

def find (id : String) : Option BudgetReservation :=
  Table.lookup BudgetReservation.id id l.reservations

def close (id : String) : BudgetReservation → BudgetReservation :=
  Table.touch (fun r => r.id = id) (fun r => { r with closed := true })

theorem close_id (id : String) (r : BudgetReservation) : (close id r).id = r.id := by
  have hkeeps : ∀ r : BudgetReservation,
      BudgetReservation.id { r with closed := true } = BudgetReservation.id r := fun _ => rfl
  exact Table.touch_key hkeeps r

theorem map_close_id (id : String) (rs : List BudgetReservation) :
    (rs.map (close id)).map BudgetReservation.id = rs.map BudgetReservation.id := by
  rw [map_map]
  exact map_congr_left (fun r _ => close_id id r)

theorem find_eq_none {l : BudgetLedger} {id : String} (h : l.find id = none) :
    id ∉ l.reservations.map BudgetReservation.id := by
  intro hm
  obtain ⟨r, hr, hid⟩ := mem_map.mp hm
  exact Table.lookup_none.mp h r hr hid

theorem distinct_append {l : BudgetLedger} {id : String} (h : l.find id = none)
    (executionRef nodeRef : String) (estimate : BudgetEstimate) :
    ((l.reservations ++ [BudgetReservation.mk id executionRef nodeRef estimate false]).map
      BudgetReservation.id).Nodup := by
  rw [map_append]
  refine nodup_append.mpr ⟨l.distinct, nodup_singleton _, ?_⟩
  intro a ha b hb hab
  rw [hab, mem_singleton.mp hb] at ha
  exact find_eq_none h ha

theorem distinct_close : ((l.reservations.map (close r.id)).map BudgetReservation.id).Nodup := by
  rw [map_close_id]
  exact l.distinct

/-- What the counters would be with an estimate on top. -/
def nextWith (s : BudgetState) (e : BudgetEstimate) : AccountingCounters where
  cost := s.reserved.cost + s.consumed.cost + e.cost
  nodeAttempts := w (w (s.reserved.nodeAttempts + s.consumed.nodeAttempts) + e.nodeAttempts)
  frontierCalls := w (w (s.reserved.frontierCalls + s.consumed.frontierCalls) + e.frontierCalls)
  toolCalls := w (w (s.reserved.toolCalls + s.consumed.toolCalls) + e.toolCalls)

abbrev next := nextWith id

def reserveWith (id executionRef nodeRef : String) (estimate : BudgetEstimate) :
    Except BudgetError BudgetReservation × BudgetLedger :=
  if id = "" then (.error .reservationIDRequired, l)
  else match hfind : l.find id with
    | some _ => (.error (.reservationExists id), l)
    | none =>
      if Negative estimate then (.error .negativeEstimate, l)
      else match validateCountersAgainstLimit (nextWith w l.state estimate) l.state.limit with
        | .error e => (.error e, l)
        | .ok _ =>
          let reservation : BudgetReservation := ⟨id, executionRef, nodeRef, estimate, false⟩
          (.ok reservation,
            { state := { l.state with reserved := applyEstimateWith w l.state.reserved estimate 1 }
              reservations := l.reservations ++ [reservation]
              distinct := distinct_append hfind executionRef nodeRef estimate })

abbrev reserve := reserveWith id

/-- The ledger after a reservation left the reserved amounts. -/
def closedWith (consumed : AccountingCounters) : BudgetLedger where
  state := { l.state with
    reserved := applyEstimateWith w l.state.reserved r.estimate (-1), consumed := consumed }
  reservations := l.reservations.map (close r.id)
  distinct := distinct_close l r

abbrev closed := closedWith id

def settleWith (id : String) (actual : BudgetEstimate) : Except BudgetError Unit × BudgetLedger :=
  match l.find id with
  | none => (.error .reservationMissing, l)
  | some r =>
    if r.closed then (.error .reservationClosed, l)
    else if Negative actual then (.error .negativeActual, l)
    else (.ok (), l.closedWith w r (applyEstimateWith w l.state.consumed actual 1))

abbrev settle := settleWith id

def releaseWith (id : String) : Except BudgetError Unit × BudgetLedger :=
  match l.find id with
  | none => (.error .reservationMissing, l)
  | some r =>
    if r.closed then (.error .reservationClosed, l)
    else (.ok (), l.closedWith w r l.state.consumed)

abbrev release := releaseWith id

/-- The reservations that are neither settled nor released. -/
def opened : List BudgetReservation :=
  l.reservations.filter (fun r => !r.closed)

end BudgetLedger

inductive Dimension
  | cost
  | nodeAttempts
  | frontierCalls
  | toolCalls
  deriving DecidableEq

namespace Dimension

def estimate : Dimension → BudgetEstimate → Rat
  | .cost, e => e.cost
  | .nodeAttempts, e => e.nodeAttempts
  | .frontierCalls, e => e.frontierCalls
  | .toolCalls, e => e.toolCalls

def counter : Dimension → AccountingCounters → Rat
  | .cost, c => c.cost
  | .nodeAttempts, c => c.nodeAttempts
  | .frontierCalls, c => c.frontierCalls
  | .toolCalls, c => c.toolCalls

def limit : Dimension → BudgetLimit → Rat
  | .cost, l => l.maxCost
  | .nodeAttempts, l => l.maxNodeAttempts
  | .frontierCalls, l => l.maxFrontierCalls
  | .toolCalls, l => l.maxToolCalls

theorem estimate_nonneg {e : BudgetEstimate} (h : ¬ Negative e) (d : Dimension) :
    0 ≤ d.estimate e := by
  obtain ⟨hcost, hattempts, hfrontier, htools⟩ : ¬ e.cost < 0 ∧ ¬ e.nodeAttempts < 0 ∧
      ¬ e.frontierCalls < 0 ∧ ¬ e.toolCalls < 0 := by
    simpa [Negative, not_or] using h
  cases d with
  | cost => exact not_lt.mp hcost
  | nodeAttempts => exact Int.cast_nonneg (not_lt.mp hattempts)
  | frontierCalls => exact Int.cast_nonneg (not_lt.mp hfrontier)
  | toolCalls => exact Int.cast_nonneg (not_lt.mp htools)

theorem counter_applyEstimate (d : Dimension) (c : AccountingCounters) (e : BudgetEstimate)
    (sign : Int) : d.counter (applyEstimate c e sign) = d.counter c + sign * d.estimate e := by
  cases d <;> simp [counter, estimate, applyEstimateWith]

theorem counter_next (d : Dimension) (s : BudgetState) (e : BudgetEstimate) :
    d.counter (BudgetLedger.next s e) =
      d.counter s.reserved + d.counter s.consumed + d.estimate e := by
  cases d <;> simp [counter, estimate, BudgetLedger.nextWith]

end Dimension

/-- Counters that pass keep every limit that is set. -/
theorem validateCountersAgainstLimit_ok {c : AccountingCounters} {limit : BudgetLimit}
    (h : validateCountersAgainstLimit c limit = .ok ()) (d : Dimension)
    (hpos : 0 < d.limit limit) : d.counter c ≤ d.limit limit := by
  unfold validateCountersAgainstLimit at h
  split_ifs at h with h₁ h₂ h₃ h₄
  cases d with
  | cost => exact not_lt.mp (fun hlt => h₁ ⟨hpos, hlt⟩)
  | nodeAttempts =>
    exact Int.cast_le.mpr (not_lt.mp (fun hlt => h₂ ⟨Int.cast_pos.mp hpos, hlt⟩))
  | frontierCalls =>
    exact Int.cast_le.mpr (not_lt.mp (fun hlt => h₃ ⟨Int.cast_pos.mp hpos, hlt⟩))
  | toolCalls => exact Int.cast_le.mpr (not_lt.mp (fun hlt => h₄ ⟨Int.cast_pos.mp hpos, hlt⟩))

/-- The ledger took a reservation. -/
structure Opens (l' : BudgetLedger) : Prop where
  fresh : r.id ∉ l.reservations.map BudgetReservation.id
  isOpen : r.closed = false
  nonneg : ∀ d : Dimension, 0 ≤ d.estimate r.estimate
  within : ∀ d : Dimension, 0 < d.limit l.state.limit →
    d.counter l.state.reserved + d.counter l.state.consumed + d.estimate r.estimate ≤
      d.limit l.state.limit
  reservations : l'.reservations = l.reservations ++ [r]
  limit : l'.state.limit = l.state.limit
  reserved : ∀ d : Dimension,
    d.counter l'.state.reserved = d.counter l.state.reserved + d.estimate r.estimate
  consumed : l'.state.consumed = l.state.consumed

/-- What a reservation was closed with; a release has no actual usage. -/
structure Closing where
  reservation : BudgetReservation
  actual : Option BudgetEstimate

def Closing.spent (x : Closing) (d : Dimension) : Rat := (x.actual.map d.estimate).getD 0

@[simp] theorem Closing.spent_settled (actual : BudgetEstimate)
    (d : Dimension) : (Closing.mk r (some actual)).spent d = d.estimate actual := rfl

@[simp] theorem Closing.spent_released (d : Dimension) :
    (Closing.mk r none).spent d = 0 := rfl

/-- How much more was used than had been reserved, for a settled reservation. -/
def Closing.overspent (x : Closing) (d : Dimension) : Rat :=
  (x.actual.map (fun actual =>
    max 0 (d.estimate actual - d.estimate x.reservation.estimate))).getD 0

/-- The ledger closed a reservation. -/
structure Closes (x : Closing) (l' : BudgetLedger) : Prop where
  mem : x.reservation ∈ l.reservations
  isOpen : x.reservation.closed = false
  nonneg : ∀ d : Dimension, 0 ≤ x.spent d
  reservations : l'.reservations = l.reservations.map (BudgetLedger.close x.reservation.id)
  limit : l'.state.limit = l.state.limit
  reserved : ∀ d : Dimension, d.counter l'.state.reserved =
    d.counter l.state.reserved - d.estimate x.reservation.estimate
  consumed : ∀ d : Dimension, d.counter l'.state.consumed = d.counter l.state.consumed + x.spent d

namespace BudgetLedger

variable {l l' : BudgetLedger} {id executionRef nodeRef : String} {estimate : BudgetEstimate}

theorem reserve_cases (l : BudgetLedger) (id executionRef nodeRef : String)
    (estimate : BudgetEstimate) :
    (∃ e, l.reserve id executionRef nodeRef estimate = (.error e, l)) ∨
      ∃ l', l.reserve id executionRef nodeRef estimate =
          (.ok ⟨id, executionRef, nodeRef, estimate, false⟩, l') ∧
        Opens l ⟨id, executionRef, nodeRef, estimate, false⟩ l' := by
  unfold reserve reserveWith
  split
  · exact .inl ⟨_, rfl⟩
  split
  · exact .inl ⟨_, rfl⟩
  rename_i hfind
  split
  · exact .inl ⟨_, rfl⟩
  rename_i hneg
  split
  · exact .inl ⟨_, rfl⟩
  rename_i hvalid
  refine .inr ⟨_, rfl, find_eq_none hfind, rfl, Dimension.estimate_nonneg hneg, ?_, rfl,
    rfl, ?_, rfl⟩
  · intro d hpos
    rw [← Dimension.counter_next]
    exact validateCountersAgainstLimit_ok hvalid d hpos
  · intro d
    rw [Dimension.counter_applyEstimate]
    simp

theorem find_some {r : BudgetReservation} (h : l.find id = some r) :
    r ∈ l.reservations ∧ r.id = id := Table.lookup_some h

theorem settle_cases (l : BudgetLedger) (id : String) (actual : BudgetEstimate) :
    (∃ e, l.settle id actual = (.error e, l)) ∨
      ∃ r l', l.find id = some r ∧ l.settle id actual = (.ok (), l') ∧
        Closes l ⟨r, some actual⟩ l' := by
  unfold settle settleWith
  split
  · exact .inl ⟨_, rfl⟩
  rename_i r hfind
  split
  · exact .inl ⟨_, rfl⟩
  rename_i hopen
  split
  · exact .inl ⟨_, rfl⟩
  rename_i hneg
  refine .inr ⟨r, _, hfind, rfl, (find_some hfind).1, Bool.eq_false_iff.mpr hopen,
    Dimension.estimate_nonneg hneg, rfl, rfl, ?_, ?_⟩
  · intro d
    simp only [closedWith, Dimension.counter_applyEstimate]
    simp [sub_eq_add_neg]
  · intro d
    simp only [closedWith, Dimension.counter_applyEstimate]
    simp [Closing.spent]

theorem release_cases (l : BudgetLedger) (id : String) : (∃ e, l.release id = (.error e, l)) ∨
    ∃ r l', l.find id = some r ∧ l.release id = (.ok (), l') ∧ Closes l ⟨r, none⟩ l' := by
  unfold release releaseWith
  split
  · exact .inl ⟨_, rfl⟩
  rename_i r hfind
  split
  · exact .inl ⟨_, rfl⟩
  rename_i hopen
  refine .inr ⟨r, _, hfind, rfl, (find_some hfind).1, Bool.eq_false_iff.mpr hopen,
    fun d => le_refl 0, rfl, rfl, ?_, ?_⟩
  · intro d
    simp only [closedWith, Dimension.counter_applyEstimate]
    simp [sub_eq_add_neg]
  · intro d
    simp [closedWith, Closing.spent]

end BudgetLedger

end AiCloud.Budget
