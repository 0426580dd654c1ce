import AiCloud.Budget.Conservation
import AiCloud.Lib.UnixTime

/-!
# The ledger on machine words

`BudgetLedger` counts in 64-bit integers, whose sums wrap around. While no sum leaves
the range this is the ledger of `AiCloud.Budget.Ledger`; beyond it the limit check
compares a wrapped sum.
-/
namespace AiCloud.Budget

open Lib Lib.UnixTime Execution List

def maxInt : Int := 2 ^ 63 - 1

def IsWord (n : Int) : Prop := -2 ^ 63 ≤ n ∧ n ≤ maxInt

instance (n : Int) : Decidable (IsWord n) := inferInstanceAs (Decidable (_ ∧ _))

theorem wrap64_word {n : Int} (h : IsWord n) : wrap64 n = n := by
  unfold IsWord maxInt at h
  exact wrap64_eq_self h.1 (by omega)

theorem wrap64_wrap64_add (m n : Int) : wrap64 (wrap64 m + n) = wrap64 (m + n) := by
  unfold wrap64
  omega

theorem wrap64_add_wrap64 (m n : Int) : wrap64 (m + wrap64 n) = wrap64 (m + n) := by
  unfold wrap64
  omega

abbrev applyEstimateWrapped := applyEstimateWith wrap64

/-- `errors.Is(err, ErrBudgetExceeded)`. -/
def BudgetError.exceeded : BudgetError → Bool
  | .costExceeded .. => true
  | .nodeAttemptsExceeded .. => true
  | .frontierCallsExceeded .. => true
  | .toolCallsExceeded .. => true
  | _ => false

theorem validateCountersAgainstLimit_exceeded {c : AccountingCounters} {limit : BudgetLimit}
    {e : BudgetError} (h : validateCountersAgainstLimit c limit = .error e) :
    e.exceeded = true := by
  unfold validateCountersAgainstLimit at h
  split_ifs at h <;> cases h <;> rfl

variable (l : BudgetLedger) (s : BudgetState)

namespace BudgetLedger

abbrev nextWrapped := nextWith wrap64

abbrev reserveWrapped := reserveWith wrap64

abbrev closedWrapped := closedWith wrap64

abbrev settleWrapped := settleWith wrap64

abbrev releaseWrapped := releaseWith wrap64

variable (id : String) (estimate : BudgetEstimate)

/-- The id is no id, or in use, or the estimate is negative. -/
def Refuses : Prop :=
  id = "" ∨ id ∈ l.reservations.map BudgetReservation.id ∨ Negative estimate

instance :
    Decidable (l.Refuses id estimate) := inferInstanceAs (Decidable (_ ∨ _))

/-- The limits leave room for an estimate, as far as the sums of words tell. -/
def Room : Prop :=
  validateCountersAgainstLimit (nextWrapped s estimate) s.limit = .ok ()

instance : Decidable (Room s estimate) :=
  inferInstanceAs (Decidable (_ = _))

/-- The ledger with one more reservation. -/
structure Takes (r : BudgetReservation) (l' : BudgetLedger) : Prop where
  fresh : r.id ∉ l.reservations.map BudgetReservation.id
  isOpen : r.closed = false
  reservations : l'.reservations = l.reservations ++ [r]
  state : l'.state =
    { l.state with reserved := applyEstimateWrapped l.state.reserved r.estimate 1 }

theorem reserveWrapped_cases (id executionRef nodeRef : String) (estimate : BudgetEstimate) :
    (l.Refuses id estimate ∧
      ∃ e, l.reserveWrapped id executionRef nodeRef estimate = (.error e, l) ∧
        e.exceeded = false) ∨
    (¬ l.Refuses id estimate ∧ ¬ Room l.state estimate ∧
      ∃ e, l.reserveWrapped id executionRef nodeRef estimate = (.error e, l) ∧
        e.exceeded = true) ∨
    (¬ l.Refuses id estimate ∧ Room l.state estimate ∧
      ∃ l', l.reserveWrapped id executionRef nodeRef estimate =
          (.ok ⟨id, executionRef, nodeRef, estimate, false⟩, l') ∧
        Takes l ⟨id, executionRef, nodeRef, estimate, false⟩ l') := by
  unfold reserveWrapped reserveWith
  split
  · rename_i hid
    exact .inl ⟨.inl hid, _, rfl, rfl⟩
  rename_i hid
  split
  · rename_i hfind
    obtain ⟨hmem, rfl⟩ := find_some hfind
    exact .inl ⟨.inr (.inl (mem_map_of_mem hmem)), _, rfl, rfl⟩
  rename_i hfind
  split
  · rename_i hneg
    exact .inl ⟨.inr (.inr hneg), _, rfl, rfl⟩
  rename_i hneg
  have htaken : ¬ l.Refuses id estimate := by
    rintro (hempty | hmem | hnegative)
    · exact hid hempty
    · exact find_eq_none hfind hmem
    · exact hneg hnegative
  split
  · rename_i e hvalid
    refine .inr (.inl ⟨htaken, fun hroom => ?_, e, rfl,
      validateCountersAgainstLimit_exceeded hvalid⟩)
    cases hvalid.symm.trans hroom
  · rename_i hvalid
    exact .inr (.inr ⟨htaken, hvalid, _, rfl, find_eq_none hfind, rfl, rfl, rfl⟩)

end BudgetLedger

abbrev execWrapped := execWith wrap64

def afterWrapped (state : BudgetState) (calls : List Call) : BudgetLedger :=
  run execWrapped (newBudgetLedger state) calls

/-- The counters that are machine words. -/
structure Words (c : AccountingCounters) : Prop where
  nodeAttempts : IsWord c.nodeAttempts
  frontierCalls : IsWord c.frontierCalls
  toolCalls : IsWord c.toolCalls

instance (c : AccountingCounters) : Decidable (Words c) :=
  decidable_of_iff (IsWord c.nodeAttempts ∧ IsWord c.frontierCalls ∧ IsWord c.toolCalls)
    ⟨fun h => ⟨h.1, h.2.1, h.2.2⟩, fun h => ⟨h.nodeAttempts, h.frontierCalls, h.toolCalls⟩⟩

/-- Counters whose integers wrapped around. -/
def AccountingCounters.wrapped (c : AccountingCounters) : AccountingCounters :=
  { c with
    nodeAttempts := wrap64 c.nodeAttempts
    frontierCalls := wrap64 c.frontierCalls
    toolCalls := wrap64 c.toolCalls }

theorem wrapped_words {c : AccountingCounters} (h : Words c) : c.wrapped = c := by
  unfold AccountingCounters.wrapped
  rw [wrap64_word h.nodeAttempts, wrap64_word h.frontierCalls, wrap64_word h.toolCalls]

theorem applyEstimateWrapped_eq (dst : AccountingCounters) (v : BudgetEstimate) (sign : Int) :
    applyEstimateWrapped dst v sign = (applyEstimate dst v sign).wrapped := by
  simp [applyEstimateWith, AccountingCounters.wrapped, wrap64_add_wrap64]

theorem nextWrapped_eq (e : BudgetEstimate) :
    BudgetLedger.nextWrapped s e = (BudgetLedger.next s e).wrapped := by
  simp [BudgetLedger.nextWith, AccountingCounters.wrapped, wrap64_wrap64_add]

/-- Every sum that a call forms is a machine word. A call that is refused before it adds
anything up forms none. -/
def Fits : Call → Prop
  | .reserve id _ _ estimate => id ≠ "" → l.find id = none → ¬ Negative estimate →
    Words (BudgetLedger.next l.state estimate) ∧
      (validateCountersAgainstLimit (BudgetLedger.next l.state estimate) l.state.limit = .ok () →
        Words (applyEstimate l.state.reserved estimate 1))
  | .settle id actual => ∀ r ∈ l.find id, r.closed = false → ¬ Negative actual →
    Words (applyEstimate l.state.reserved r.estimate (-1)) ∧
      Words (applyEstimate l.state.consumed actual 1)
  | .release id => ∀ r ∈ l.find id, r.closed = false →
    Words (applyEstimate l.state.reserved r.estimate (-1))

instance (c : Call) : Decidable (Fits l c) := by
  cases c with
  | reserve => exact inferInstanceAs (Decidable (_ → _))
  | settle | release => exact inferInstanceAs (Decidable (∀ r ∈ l.find _, _))

section

variable {l : BudgetLedger} {id executionRef nodeRef : String}

theorem reserveWrapped_eq {estimate : BudgetEstimate}
    (h : Fits l (.reserve id executionRef nodeRef estimate)) :
    l.reserveWrapped id executionRef nodeRef estimate =
      l.reserve id executionRef nodeRef estimate := by
  unfold BudgetLedger.reserveWrapped BudgetLedger.reserve BudgetLedger.reserveWith
  split
  · rfl
  rename_i hid
  split
  · rfl
  rename_i hnone
  split
  · rfl
  rename_i hneg
  obtain ⟨hnext, hreserved⟩ := h hid hnone hneg
  simp only [nextWrapped_eq, wrapped_words hnext]
  cases hvalid : validateCountersAgainstLimit (BudgetLedger.next l.state estimate)
      l.state.limit with
  | error e => rfl
  | ok u => simp only [applyEstimateWrapped_eq, wrapped_words (hreserved hvalid)]

theorem closedWrapped_eq {r : BudgetReservation}
    (h : Words (applyEstimate l.state.reserved r.estimate (-1)))
    (consumed : AccountingCounters) : l.closedWrapped r consumed = l.closed r consumed := by
  unfold BudgetLedger.closedWrapped BudgetLedger.closed BudgetLedger.closedWith
  simp only [applyEstimateWrapped_eq, wrapped_words h]

theorem settleWrapped_eq {actual : BudgetEstimate} (h : Fits l (.settle id actual)) :
    l.settleWrapped id actual = l.settle id actual := by
  unfold BudgetLedger.settleWrapped BudgetLedger.settle BudgetLedger.settleWith
  split
  · rfl
  rename_i r hfind
  split
  · rfl
  rename_i hopen
  split
  · rfl
  rename_i hneg
  obtain ⟨hreserved, hconsumed⟩ := h r hfind (Bool.eq_false_iff.mpr hopen) hneg
  simp only [closedWrapped_eq hreserved, applyEstimateWrapped_eq, wrapped_words hconsumed]

theorem releaseWrapped_eq (h : Fits l (.release id)) : l.releaseWrapped id = l.release id := by
  unfold BudgetLedger.releaseWrapped BudgetLedger.release BudgetLedger.releaseWith
  split
  · rfl
  rename_i r hfind
  split
  · rfl
  rename_i hopen
  simp only [closedWrapped_eq (h r hfind (Bool.eq_false_iff.mpr hopen))]

theorem execWrapped_eq {c : Call} (h : Fits l c) : execWrapped l c = exec l c := by
  cases c with
  | reserve => simp only [execWith, reserveWrapped_eq h]
  | settle => simp only [execWith, settleWrapped_eq h]
  | release => simp only [execWith, releaseWrapped_eq h]

end

/-- A run in which no sum leaves the range is a run of the unbounded ledger. -/
theorem afterWrapped_eq {state : BudgetState} {calls : List Call}
    (h : ∀ pre c post, calls = pre ++ c :: post → Fits (after state pre) c) :
    afterWrapped state calls = after state calls := by
  induction calls using reverseRecOn with
  | nil => rfl
  | append_singleton pre c ih =>
    have hpre : afterWrapped state pre = after state pre := by
      apply ih
      intro pre' c' post hsplit
      exact h pre' c' (post ++ [c]) (by simp [hsplit])
    have hlast : Fits (after state pre) c := h pre c [] rfl
    unfold afterWrapped after at hpre ⊢
    rw [run_append, run_append, hpre]
    exact congrArg Prod.snd (execWrapped_eq hlast)

/-- The dimensions that are counted in integers. -/
inductive Units
  | nodeAttempts
  | frontierCalls
  | toolCalls

namespace Units

def estimate : Units → BudgetEstimate → Int
  | .nodeAttempts, e => e.nodeAttempts
  | .frontierCalls, e => e.frontierCalls
  | .toolCalls, e => e.toolCalls

def counter : Units → AccountingCounters → Int
  | .nodeAttempts, c => c.nodeAttempts
  | .frontierCalls, c => c.frontierCalls
  | .toolCalls, c => c.toolCalls

def limit : Units → BudgetLimit → Int
  | .nodeAttempts, l => l.maxNodeAttempts
  | .frontierCalls, l => l.maxFrontierCalls
  | .toolCalls, l => l.maxToolCalls

/-- What a ledger would count with an estimate on top, without wrapping. -/
def total (u : Units) (s : BudgetState) (e : BudgetEstimate) : Int :=
  u.counter s.reserved + u.counter s.consumed + u.estimate e

end Units

theorem validateCountersAgainstLimit_units {c : AccountingCounters} {limit : BudgetLimit}
    (h : validateCountersAgainstLimit c limit = .ok ()) (u : Units) (hpos : 0 < u.limit limit) :
    u.counter c ≤ u.limit limit := by
  cases u with
  | nodeAttempts =>
    exact Int.cast_le.mp (validateCountersAgainstLimit_ok h .nodeAttempts (Int.cast_pos.mpr hpos))
  | frontierCalls =>
    exact Int.cast_le.mp (validateCountersAgainstLimit_ok h .frontierCalls (Int.cast_pos.mpr hpos))
  | toolCalls =>
    exact Int.cast_le.mp (validateCountersAgainstLimit_ok h .toolCalls (Int.cast_pos.mpr hpos))

theorem counter_nextWrapped (u : Units) (s : BudgetState) (e : BudgetEstimate) :
    u.counter (BudgetLedger.nextWrapped s e) = wrap64 (u.total s e) := by
  rw [nextWrapped_eq]
  cases u <;> rfl

/-- In any state that calls lead to, a successful reservation keeps a limit that is set
if and only if the sum it is checked by does not overflow. -/
theorem reserved_within_limit_iff (state : BudgetState) (calls : List Call)
    (id executionRef nodeRef : String) (estimate : BudgetEstimate) (u : Units)
    (hpos : 0 < u.limit (afterWrapped state calls).state.limit)
    (hword : u.limit (afterWrapped state calls).state.limit ≤ maxInt) {r : BudgetReservation}
    {l' : BudgetLedger}
    (hok : (afterWrapped state calls).reserveWrapped id executionRef nodeRef estimate =
      (.ok r, l')) :
    u.total (afterWrapped state calls).state estimate ≤
        u.limit (afterWrapped state calls).state.limit ↔
      u.total (afterWrapped state calls).state estimate ≤ maxInt := by
  generalize afterWrapped state calls = l at hpos hword hok ⊢
  have hroom : BudgetLedger.Room l.state estimate := by
    rcases l.reserveWrapped_cases id executionRef nodeRef estimate with
      ⟨-, e, herr, -⟩ | ⟨-, -, e, herr, -⟩ | ⟨-, hroom, -⟩
    · cases hok.symm.trans herr
    · cases hok.symm.trans herr
    · exact hroom
  have hchecked := validateCountersAgainstLimit_units hroom u hpos
  rw [counter_nextWrapped] at hchecked
  constructor
  · intro hwithin
    omega
  · intro hfits
    by_cases hlow : -2 ^ 63 ≤ u.total l.state estimate
    · rwa [wrap64_word ⟨hlow, hfits⟩] at hchecked
    · omega

/-- Ten attempts at most, none made yet. -/
def tenAttempts : BudgetState := ⟨⟨0, 10, 0, 0⟩, ⟨0, 0, 0, 0⟩, ⟨0, 0, 0, 0⟩⟩

def oneAttempt : List Call :=
  [.reserve "a" "execution" "node" ⟨0, 1, 0, 0⟩, .settle "a" ⟨0, 1, 0, 0⟩]

theorem oneAttempt_exact : afterWrapped tenAttempts oneAttempt = after tenAttempts oneAttempt := by
  apply afterWrapped_eq
  rintro (_ | ⟨d, _ | ⟨e, pre⟩⟩) c post hsplit
  · cases hsplit
    decide
  · cases hsplit
    decide
  · simp [oneAttempt] at hsplit

theorem second_attempt_within_limit :
    ((afterWrapped tenAttempts oneAttempt).reserveWrapped "b" "execution" "node"
        ⟨0, 1, 0, 0⟩).1 = .ok ⟨"b", "execution", "node", ⟨0, 1, 0, 0⟩, false⟩ ∧
      (Units.nodeAttempts.total (afterWrapped tenAttempts oneAttempt).state ⟨0, 1, 0, 0⟩ ≤ 10 ↔
        Units.nodeAttempts.total (afterWrapped tenAttempts oneAttempt).state ⟨0, 1, 0, 0⟩ ≤
          maxInt) := by
  have hok : ((afterWrapped tenAttempts oneAttempt).reserveWrapped "b" "execution" "node"
      ⟨0, 1, 0, 0⟩).1 = .ok ⟨"b", "execution", "node", ⟨0, 1, 0, 0⟩, false⟩ := by
    decide
  exact ⟨hok, reserved_within_limit_iff tenAttempts oneAttempt "b" "execution" "node" ⟨0, 1, 0, 0⟩
    .nodeAttempts (by decide) (by decide) (Prod.ext hok rfl)⟩

/-- After one attempt, the largest estimate wraps around and is accepted. -/
theorem overflowing_estimate_accepted :
    ((afterWrapped tenAttempts oneAttempt).reserveWrapped "b" "execution" "node"
        ⟨0, maxInt, 0, 0⟩).1 = .ok ⟨"b", "execution", "node", ⟨0, maxInt, 0, 0⟩, false⟩ ∧
      Units.nodeAttempts.limit (afterWrapped tenAttempts oneAttempt).state.limit = 10 ∧
      ¬ Units.nodeAttempts.total (afterWrapped tenAttempts oneAttempt).state ⟨0, maxInt, 0, 0⟩ ≤
        10 := by
  decide

end AiCloud.Budget
