import AiCloud.Lib.Program
import Mathlib.Algebra.Order.BigOperators.Group.Finset
import Mathlib.Tactic.Abel

/-!
# Totals over the threads of a system

A weight says what one thread accounts for, read off its history. If every
step moves the shared quantity by as much as the weight of its thread, then the
shared quantity is the total of the weights.
-/
namespace AiCloud.Lib

open Finset

namespace System

variable {σ Θ Q : Type} {A : Q → Type} {α M : Type} [AddCommMonoid M]

def weight (W : Θ → List (Sigma A) → M) (s : System σ Θ Q A α) (i : Nat) : M :=
  (s.job i).elim 0 (fun θ => W θ (s.history i))

def total (W : Θ → List (Sigma A) → M) (s : System σ Θ Q A α) : M :=
  ∑ i ∈ range s.threads.length, s.weight W i

variable {W : Θ → List (Sigma A) → M} {θ : Θ} {s : System σ Θ Q A α}

theorem weight_of_job {i : Nat} (h : s.job i = some θ) : s.weight W i = W θ (s.history i) := by
  unfold weight
  rw [h]
  rfl

theorem total_add (W W' : Θ → List (Sigma A) → M) (s : System σ Θ Q A α) :
    total (fun θ h => W θ h + W' θ h) s = total W s + total W' s := by
  unfold total
  rw [← sum_add_distrib]
  refine sum_congr rfl (fun i _ => ?_)
  unfold weight
  cases s.job i with
  | none => exact (add_zero 0).symm
  | some θ => rfl

theorem total_spawn {p : Prog Q A α} (hfresh : s.history s.threads.length = [])
    (hzero : W θ [] = 0) : total W (s.spawn θ p) = total W s := by
  have hlen : (s.spawn θ p).threads.length = s.threads.length + 1 := by simp [spawn]
  have hnew : (s.spawn θ p).job s.threads.length = some θ := by simp [job, spawn]
  have hold : ∑ i ∈ range s.threads.length, (s.spawn θ p).weight W i =
      ∑ i ∈ range s.threads.length, s.weight W i := by
    refine sum_congr rfl (fun i hi => ?_)
    unfold weight
    rw [job_spawn_of_lt s θ p (mem_range.mp hi), history_spawn]
  unfold total
  rw [hlen, sum_range_succ, hold, weight_of_job hnew, history_spawn, hfresh, hzero, add_zero]

theorem total_advance {i : Nat} {p₀ : Prog Q A α} (hi : s.threads[i]? = some (θ, p₀)) (q : Q)
    (a : A q) (p : Prog Q A α) (t : σ) : total W (s.advance i θ q a p t) + W θ (s.history i) =
    total W s + W θ (s.history i ++ [⟨q, a⟩]) := by
  have hjob := job_of_thread hi
  have hmem : i ∈ range s.threads.length := mem_range.mpr (lt_of_job hjob)
  have hlen : (s.advance i θ q a p t).threads.length = s.threads.length := by simp [advance]
  have hrest : ∑ j ∈ (range s.threads.length).erase i, (s.advance i θ q a p t).weight W j =
      ∑ j ∈ (range s.threads.length).erase i, s.weight W j := by
    refine sum_congr rfl (fun j hj => ?_)
    unfold weight
    rw [job_advance s q a p t hi, history_advance_ne s (ne_of_mem_erase hj).symm]
  have hnew : (s.advance i θ q a p t).weight W i = W θ (s.history i ++ [⟨q, a⟩]) := by
    rw [weight_of_job ((job_advance s q a p t hi i).trans hjob), history_advance_self]
  unfold total
  rw [hlen, ← add_sum_erase _ _ hmem, ← add_sum_erase _ (s.weight W) hmem, hrest, hnew,
    weight_of_job hjob]
  abel

variable {body : Θ → Prog Q A α} {answers : Θ → σ → (q : Q) → A q → σ → Prop}
  {env : σ → σ → Prop} {init : σ}

theorem Reach.fresh (hr : Reach body answers env init s) : s.history s.threads.length = [] := by
  by_contra hne
  exact Nat.lt_irrefl _ (hr.lt_of_history hne)

/-- A shared quantity that each step moves with the weight of its thread. -/
theorem Reach.balance [IsCancelAdd M] {G : σ → M} {W : Θ → List (Sigma A) → M}
    (hzero : ∀ θ, W θ [] = 0)
    (hstep : ∀ {s : System σ Θ Q A α}, Reach body answers env init s →
      ∀ {i θ q k}, s.threads[i]? = some (θ, .ask q k) → ∀ a t, answers θ s.shared q a t →
        G t + W θ (s.history i) = G s.shared + W θ (s.history i ++ [⟨q, a⟩]))
    (henv : ∀ t t', env t t' → G t' = G t) (hr : Reach body answers env init s) :
    G s.shared = G init + total W s := by
  induction hr with
  | start => simp [total]
  | @next s s' hr hs ih =>
    cases hs with
    | spawn θ =>
      rw [total_spawn hr.fresh (hzero θ)]
      exact ih
    | env t ht => exact (henv _ _ ht).trans ih
    | run i θ q k a t hi ha =>
      have hmove := hstep hr hi a t ha
      have htotal := total_advance (W := W) hi q a (k a) t
      refine add_right_cancel (b := W θ (s.history i)) ?_
      calc G t + W θ (s.history i)
          = G init + (total W s + W θ (s.history i ++ [⟨q, a⟩])) := by
            rw [hmove, ih, add_assoc]
        _ = G init + total W (s.advance i θ q a (k a) t) + W θ (s.history i) := by
            rw [← htotal, add_assoc]

theorem total_le [PartialOrder M] [IsOrderedAddMonoid M] {W W' : Θ → List (Sigma A) → M}
    (h : ∀ i θ, s.job i = some θ → W θ (s.history i) ≤ W' θ (s.history i)) :
    total W s ≤ total W' s := by
  refine sum_le_sum (fun i _ => ?_)
  unfold weight
  cases hj : s.job i with
  | none => exact le_refl _
  | some θ => exact h i θ hj

end System

end AiCloud.Lib
