import Mathlib.Logic.Function.Basic
import Mathlib.Logic.Relation
import AiCloud.Lib.UnixTime
import AiCloud.ModelRuntime.Executor

/-!
# The circuit breaker

Every key has its own circuit. Consecutive failures open it, after the cooldown `Allow`
lets a call through again, and a success closes it. Times and the cooldown are in
nanoseconds.
-/
namespace AiCloud.ModelRuntime

open Lib Execution UnixTime

structure Snapshot where
  key : String
  state : CircuitState
  consecutiveFailures : Int
  (openedAt lastFailureAt lastSuccessAt : Option Time)
  updatedAt : Time

/-- The breaker with its `MemoryStore`, whose `Get` and `Put` do not fail. -/
structure Breaker where
  states : String → Option Snapshot
  failureThreshold : Int
  cooldown : Duration

namespace Breaker

variable (b : Breaker) (now : Time) (key : String)

def get : Snapshot := (b.states key).getD ⟨key, .closed, 0, none, none, none, 0⟩

def put (snapshot : Snapshot) : Breaker :=
  { b with states := Function.update b.states snapshot.key (some snapshot) }

/-- Where `Sub` saturates, the comparison has the same result. -/
def allow : Except RunError (Bool × Snapshot) × Breaker :=
  if key = "" then (.error (.plain "circuit-breaker key is required"), b)
  else
    let snapshot := b.get key
    if snapshot.state = .open ∧ ∃ opened ∈ snapshot.openedAt, b.cooldown ≤ now - opened then
      let snapshot := { snapshot with state := .halfOpen, updatedAt := now }
      (.ok (snapshot.state ≠ .open, snapshot), b.put snapshot)
    else (.ok (snapshot.state ≠ .open, snapshot), b)

def success : Breaker :=
  b.put { b.get key with
    key := key, state := .closed, consecutiveFailures := 0, openedAt := none
    lastSuccessAt := some now, updatedAt := now }

def failure : Snapshot × Breaker :=
  let snapshot := { b.get key with
    key := key, consecutiveFailures := wrap64 ((b.get key).consecutiveFailures + 1)
    lastFailureAt := some now, updatedAt := now }
  let snapshot :=
    if snapshot.state = .halfOpen ∨ b.failureThreshold ≤ snapshot.consecutiveFailures then
      { snapshot with state := .open, openedAt := some now }
    else snapshot
  (snapshot, b.put snapshot)

/-- The circuit of the key is open, and the cooldown has not passed. -/
def OpenAt : Prop :=
  (b.get key).state = .open ∧ ∀ opened ∈ (b.get key).openedAt, now - opened < b.cooldown

instance : Decidable (b.OpenAt now key) := inferInstanceAs (Decidable (_ ∧ _))

theorem allow_denies_iff (hkey : key ≠ "") :
    ∃ snapshot, (b.allow now key).1 = .ok (decide (¬ b.OpenAt now key), snapshot) := by
  unfold allow
  rw [if_neg hkey]
  by_cases hcooled : (b.get key).state = .open ∧
      ∃ opened ∈ (b.get key).openedAt, b.cooldown ≤ now - opened
  · have hnot : ¬ b.OpenAt now key := by
      obtain ⟨-, opened, hopened, hle⟩ := hcooled
      exact fun h => absurd (h.2 opened hopened) (Int.not_lt.mpr hle)
    simp only [if_pos hcooled, hnot]
    exact ⟨_, rfl⟩
  · have hiff : (b.get key).state ≠ .open ↔ ¬ b.OpenAt now key := by
      refine not_congr ⟨fun hopen => ⟨hopen, fun opened hopened => ?_⟩, And.left⟩
      exact Int.not_le.mp (fun hle => hcooled ⟨hopen, opened, hopened, hle⟩)
    simp only [if_neg hcooled, hiff]
    exact ⟨_, rfl⟩

/-- What the breaker answers at a time. The other requests do not move it. -/
def Answers : (q : RuntimeRequest) → RuntimeAnswer q → Breaker → Prop
  | .allow key, a, b' =>
    a = (b.allow now key).1.map (Prod.map id Snapshot.state) ∧ b' = (b.allow now key).2
  | .success key, a, b' => a = .ok () ∧ b' = b.success now key
  | .failure key, a, b' => a = .ok (b.failure now key).1.state ∧ b' = (b.failure now key).2
  | _, _, b' => b' = b

end Breaker

/-- Calls of this and of other runs moved the breaker. -/
abbrev Moved : Breaker → Breaker → Prop :=
  Relation.ReflTransGen (fun b b' => ∃ now q a, b.Answers now q a b')

/-- Between two requests of a run, others may call the breaker. -/
def breakerAnswers (b : Breaker) (q : RuntimeRequest) (a : RuntimeAnswer q) (b' : Breaker) : Prop :=
  ∃ seen now, Moved b seen ∧ seen.Answers now q a b'

theorem breakerAnswers_moved {b b' : Breaker} {q : RuntimeRequest} {a : RuntimeAnswer q}
    (h : breakerAnswers b q a b') : Moved b b' := by
  obtain ⟨seen, now, hmoved, ha⟩ := h
  exact hmoved.tail ⟨now, q, a, ha⟩

end AiCloud.ModelRuntime
