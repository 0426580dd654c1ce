import AiCloud.Budget.Ledger
import AiCloud.Lib.Run
import Mathlib.Algebra.Order.BigOperators.Group.List

/-!
# Conservation of budget

Whatever is asked of a ledger, in any order: the reserved amounts are those of
the open reservations, the consumed ones those of the settlements, and limits
are only passed by what settlements used beyond their estimates.
-/
namespace AiCloud.Budget

open Lib Execution List

inductive Call
  | reserve (id executionRef nodeRef : String) (estimate : BudgetEstimate)
  | settle (id : String) (actual : BudgetEstimate)
  | release (id : String)

/-- The reservation, for a call that makes one. -/
abbrev Reply := Except BudgetError (Option BudgetReservation)

def execWith (w : Int → Int) (l : BudgetLedger) : Call → Reply × BudgetLedger
  | .reserve id executionRef nodeRef estimate =>
    let (reply, l') := l.reserveWith w id executionRef nodeRef estimate
    (reply.map some, l')
  | .settle id actual =>
    let (reply, l') := l.settleWith w id actual
    (reply.map (fun _ => none), l')
  | .release id =>
    let (reply, l') := l.releaseWith w id
    (reply.map (fun _ => none), l')

abbrev exec := execWith id

variable (l : BudgetLedger)

/-- The reservation a call closes, with what it is closed with. -/
def closing (c : Call) : List Closing :=
  match c, (exec l c).1 with
  | .settle id actual, .ok _ => (l.find id).toList.map (fun r => ⟨r, some actual⟩)
  | .release id, .ok _ => (l.find id).toList.map (fun r => ⟨r, none⟩)
  | _, _ => []

/-- A call changes nothing, opens one reservation or closes one. -/
theorem exec_cases (c : Call) : (∃ e, exec l c = (.error e, l) ∧ closing l c = []) ∨
      (∃ r l', exec l c = (.ok (some r), l') ∧ closing l c = [] ∧ Opens l r l') ∨
      ∃ x l', exec l c = (.ok none, l') ∧ closing l c = [x] ∧ Closes l x l' := by
  cases c with
  | reserve id executionRef nodeRef estimate =>
    rcases l.reserve_cases id executionRef nodeRef estimate with ⟨e, h⟩ | ⟨l', h, hopens⟩
    · exact .inl ⟨e, by simp [execWith, h, Except.map], by simp [closing]⟩
    · exact .inr (.inl ⟨_, l', by simp [execWith, h, Except.map], by simp [closing], hopens⟩)
  | settle id actual =>
    rcases l.settle_cases id actual with ⟨e, h⟩ | ⟨r, l', hfind, h, hcloses⟩
    · have hexec : exec l (.settle id actual) = (.error e, l) := by simp [execWith, h, Except.map]
      exact .inl ⟨e, hexec, by simp [closing, hexec]⟩
    · have hexec : exec l (.settle id actual) = (.ok none, l') := by simp [execWith, h, Except.map]
      exact .inr (.inr ⟨_, l', hexec, by simp [closing, hexec, hfind], hcloses⟩)
  | release id =>
    rcases l.release_cases id with ⟨e, h⟩ | ⟨r, l', hfind, h, hcloses⟩
    · have hexec : exec l (.release id) = (.error e, l) := by simp [execWith, h, Except.map]
      exact .inl ⟨e, hexec, by simp [closing, hexec]⟩
    · have hexec : exec l (.release id) = (.ok none, l') := by simp [execWith, h, Except.map]
      exact .inr (.inr ⟨_, l', hexec, by simp [closing, hexec, hfind], hcloses⟩)

variable (state : BudgetState) (calls : List Call)

/-- The ledger after some calls, and what they closed, oldest first. -/
def after : BudgetLedger :=
  run exec (newBudgetLedger state) calls

def closings : List Closing :=
  observed exec closing (newBudgetLedger state) calls

theorem closings_snoc (c : Call) :
    closings state (calls ++ [c]) = closings state calls ++ closing (after state calls) c := by
  unfold closings after
  rw [observed_append]
  simp [observed]

/-- What a reservation counts among the reserved amounts. -/
def BudgetReservation.held (d : Dimension) (r : BudgetReservation) : Rat :=
  if r.closed then 0 else d.estimate r.estimate

theorem sum_opened (d : Dimension) (l : BudgetLedger) :
    (l.opened.map (fun r => d.estimate r.estimate)).sum =
      (l.reservations.map (BudgetReservation.held d)).sum := by
  unfold BudgetLedger.opened
  induction l.reservations with
  | nil => rfl
  | cons r rest ih =>
    cases hr : r.closed <;> simp [BudgetReservation.held, hr, ih]

variable {r : BudgetReservation} {l : BudgetLedger}

theorem Opens.held {l' : BudgetLedger} (h : Opens l r l') (d : Dimension) :
    (l'.reservations.map (BudgetReservation.held d)).sum =
      (l.reservations.map (BudgetReservation.held d)).sum + d.estimate r.estimate := by
  rw [h.reservations]
  simp [BudgetReservation.held, h.isOpen]

theorem Closes.held {l' : BudgetLedger} {x : Closing} (h : Closes l x l') (d : Dimension) :
    (l'.reservations.map (BudgetReservation.held d)).sum =
      (l.reservations.map (BudgetReservation.held d)).sum - d.estimate x.reservation.estimate := by
  rw [h.reservations]
  unfold BudgetLedger.close
  rw [Table.sum_touch l.distinct h.mem]
  simp [BudgetReservation.held, h.isOpen]

/-- What holds after calls that made these closings. -/
structure Conserved (past : List Closing) (l : BudgetLedger) : Prop where
  limit : l.state.limit = state.limit
  reserved : ∀ d : Dimension, d.counter l.state.reserved =
    d.counter state.reserved + (l.reservations.map (BudgetReservation.held d)).sum
  consumed : ∀ d : Dimension, d.counter l.state.consumed =
    d.counter state.consumed + (past.map (fun x => x.spent d)).sum
  capped : ∀ d : Dimension, 0 < d.limit state.limit →
    d.counter state.reserved + d.counter state.consumed ≤ d.limit state.limit →
    d.counter l.state.reserved + d.counter l.state.consumed ≤
      d.limit state.limit + (past.map (fun x => x.overspent d)).sum
  nonneg : ∀ r ∈ l.reservations, ∀ d : Dimension, 0 ≤ d.estimate r.estimate
  closed : ∀ x ∈ past, ∃ r ∈ l.reservations, r.id = x.reservation.id ∧ r.closed = true
  once : (past.map (fun x => x.reservation.id)).Nodup

theorem conserved_start : Conserved state [] (newBudgetLedger state) where
  limit := rfl
  reserved := fun d => by simp [newBudgetLedger]
  consumed := fun d => by simp [newBudgetLedger]
  capped := fun d _ h => by simpa [newBudgetLedger] using h
  nonneg := forall_mem_nil _
  closed := forall_mem_nil _
  once := nodup_nil

variable {state : BudgetState} {past : List Closing} {l l' : BudgetLedger}

theorem overspent_nonneg (x : Closing) (d : Dimension) : 0 ≤ x.overspent d := by
  unfold Closing.overspent
  cases x.actual with
  | none => exact le_refl 0
  | some actual => exact le_max_left _ _

theorem spent_le (x : Closing) (d : Dimension) (h : 0 ≤ d.estimate x.reservation.estimate) :
    x.spent d ≤ d.estimate x.reservation.estimate + x.overspent d := by
  unfold Closing.spent Closing.overspent
  cases x.actual with
  | none => simpa using h
  | some actual =>
    have := le_max_right 0 (d.estimate actual - d.estimate x.reservation.estimate)
    simp only [Option.map_some, Option.getD_some]
    linarith

theorem Conserved.opens (h : Conserved state past l) (ho : Opens l r l') :
    Conserved state past l' where
  limit := ho.limit.trans h.limit
  reserved := fun d => by rw [ho.reserved, h.reserved, ho.held]; ring
  consumed := fun d => by rw [ho.consumed, h.consumed]
  capped := by
    intro d hpos _
    have hover : 0 ≤ (past.map (fun x => x.overspent d)).sum :=
      sum_nonneg (fun v hv => by
        obtain ⟨x, _, rfl⟩ := mem_map.mp hv
        exact overspent_nonneg x d)
    have hwithin := ho.within d (h.limit ▸ hpos)
    rw [h.limit] at hwithin
    rw [ho.reserved, ho.consumed]
    linarith
  nonneg := by
    rw [ho.reservations]
    intro r' hr'
    rcases mem_append.mp hr' with hr' | hr'
    · exact h.nonneg r' hr'
    · rw [mem_singleton.mp hr']
      exact ho.nonneg
  closed := by
    intro x hx
    obtain ⟨r', hr', hid⟩ := h.closed x hx
    rw [ho.reservations]
    exact ⟨r', mem_append_left _ hr', hid⟩
  once := h.once

theorem mem_close {id : String} {rs : List BudgetReservation}
    (h : r ∈ rs) : ∃ r' ∈ rs.map (BudgetLedger.close id), r'.id = r.id ∧
    (r'.closed = true ↔ r.id = id ∨ r.closed = true) := by
  refine ⟨_, mem_map_of_mem h, BudgetLedger.close_id id r, ?_⟩
  unfold BudgetLedger.close Table.touch
  split <;> simp [*]

theorem Conserved.closes {x : Closing} (h : Conserved state past l) (hc : Closes l x l') :
    Conserved state (past ++ [x]) l' where
  limit := hc.limit.trans h.limit
  reserved := fun d => by rw [hc.reserved, h.reserved, hc.held]; ring
  consumed := fun d => by
    rw [hc.consumed, h.consumed]
    simp
    ring
  capped := by
    intro d hpos hinit
    have hcap := h.capped d hpos hinit
    have hspent := spent_le x d (h.nonneg _ hc.mem d)
    rw [hc.reserved, hc.consumed]
    simp only [map_append, map_cons, map_nil, sum_append, sum_singleton]
    linarith
  nonneg := by
    rw [hc.reservations]
    intro r' hr' d
    obtain ⟨r, hr, rfl⟩ := mem_map.mp hr'
    have hkept : (BudgetLedger.close x.reservation.id r).estimate = r.estimate := by
      unfold BudgetLedger.close Table.touch
      split <;> rfl
    rw [hkept]
    exact h.nonneg r hr d
  closed := by
    rw [hc.reservations]
    intro y hy
    rcases mem_append.mp hy with hy | hy
    · obtain ⟨r, hr, hid, hclosed⟩ := h.closed y hy
      obtain ⟨r', hr', hid', hiff⟩ := mem_close hr
      exact ⟨r', hr', hid'.trans hid, hiff.mpr (.inr hclosed)⟩
    · rw [mem_singleton.mp hy]
      obtain ⟨r', hr', hid', hiff⟩ := mem_close hc.mem
      exact ⟨r', hr', hid', hiff.mpr (.inl rfl)⟩
  once := by
    rw [map_append]
    refine nodup_append.mpr ⟨h.once, nodup_singleton _, ?_⟩
    -- a reservation closed before is closed in the ledger, and this one was open
    intro a ha b hb hab
    obtain ⟨y, hy, rfl⟩ := mem_map.mp ha
    obtain ⟨r, hr, hid, hclosed⟩ := h.closed y hy
    have hsame : r = x.reservation := by
      refine inj_on_of_nodup_map l.distinct hr hc.mem ?_
      rw [hid, hab, mem_singleton.mp hb]
    rw [hsame, hc.isOpen] at hclosed
    cases hclosed

theorem conserved_after (state : BudgetState) (calls : List Call) :
    Conserved state (closings state calls) (after state calls) := by
  refine run_invariant (I := fun calls l => Conserved state (closings state calls) l)
    (conserved_start state) ?_ calls
  intro pre c ih
  rw [closings_snoc]
  rcases exec_cases (after state pre) c with
    ⟨e, hexec, hnone⟩ | ⟨r, l', hexec, hnone, hopens⟩ | ⟨x, l', hexec, hone, hcloses⟩
  · rw [hnone, append_nil]
    unfold after at hexec
    rw [hexec]
    exact ih
  · rw [hnone, append_nil]
    unfold after at hexec
    rw [hexec]
    exact ih.opens hopens
  · rw [hone]
    unfold after at hexec
    rw [hexec]
    exact ih.closes hcloses

/-- The conservation law of the ledger. -/
theorem ledger_conserves (state : BudgetState) (calls : List Call) : (∀ d : Dimension,
      d.counter (after state calls).state.reserved = d.counter state.reserved +
        ((after state calls).opened.map (fun r => d.estimate r.estimate)).sum ∧
      d.counter (after state calls).state.consumed = d.counter state.consumed +
        ((closings state calls).map (fun x => x.spent d)).sum ∧ (0 < d.limit state.limit →
        d.counter state.reserved + d.counter state.consumed ≤ d.limit state.limit →
        d.counter (after state calls).state.reserved +
            d.counter (after state calls).state.consumed ≤
          d.limit state.limit + ((closings state calls).map (fun x => x.overspent d)).sum)) ∧
    ((closings state calls).map (fun x => x.reservation.id)).Nodup ∧
    ∀ c e l, exec (after state calls) c = (.error e, l) → l = after state calls := by
  have h := conserved_after state calls
  refine ⟨fun d => ⟨?_, h.consumed d, h.capped d⟩, h.once, ?_⟩
  · rw [sum_opened]
    exact h.reserved d
  · intro c e l herr
    rcases exec_cases (after state calls) c with
      ⟨e', hexec, _⟩ | ⟨r, l', hexec, _⟩ | ⟨x, l', hexec, _⟩
    · rw [hexec] at herr
      exact (Prod.mk.inj herr).2.symm
    · rw [hexec] at herr
      cases herr
    · rw [hexec] at herr
      cases herr

end AiCloud.Budget
