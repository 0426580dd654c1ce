import Mathlib.Data.List.Forall2

/-!
# Two runs of a nondeterministic store

A store that may answer a call in several ways is a relation between state, call, reply
and next state. To compare two runs of the same calls it is enough to compare one call
made in related states.
-/
namespace AiCloud.Lib
open List

variable {σ κ ρ : Type} {step : σ → κ → ρ → σ → Prop}

/-- A run of some calls, with the reply each of them got. -/
inductive Runs (step : σ → κ → ρ → σ → Prop) : σ → List κ → List ρ → σ → Prop
  | nil {s : σ} : Runs step s [] [] s
  | cons {s t u : σ} {c : κ} {r : ρ} {calls : List κ} {replies : List ρ} :
      step s c r t → Runs step t calls replies u → Runs step s (c :: calls) (r :: replies) u

namespace Runs

theorem total (h : ∀ s c, ∃ r t, step s c r t) (calls : List κ) (s : σ) :
    ∃ replies t, Runs step s calls replies t := by
  induction calls generalizing s with
  | nil => exact ⟨[], s, .nil⟩
  | cons c calls ih =>
    obtain ⟨r, t, hstep⟩ := h s c
    obtain ⟨replies, u, hrun⟩ := ih t
    exact ⟨r :: replies, u, .cons hstep hrun⟩

/-- If related states can give the same replies, so can the runs from them. -/
theorem transfer {R : σ → σ → Prop} {calls : List κ} {replies : List ρ} {s s' t : σ}
    (hrun : Runs step s calls replies s') (init : R s t)
    (next : ∀ c ∈ calls, ∀ s s' t r, R s t → step s c r s' → ∃ t', step t c r t' ∧ R s' t') :
    ∃ t', Runs step t calls replies t' ∧ R s' t' := by
  induction hrun generalizing t with
  | nil => exact ⟨t, .nil, init⟩
  | cons hstep _ ih =>
    obtain ⟨t₁, hstep', hR⟩ := next _ mem_cons_self _ _ _ _ init hstep
    obtain ⟨t₂, hrun', hR'⟩ := ih hR (fun c hc => next c (mem_cons_of_mem _ hc))
    exact ⟨t₂, .cons hstep' hrun', hR'⟩

/-- If the replies of related states always agree, so do those of any two runs. -/
theorem agree {R : σ → σ → Prop} {A : ρ → ρ → Prop} {calls : List κ} {replies : List ρ} {s s' : σ}
    (hrun : Runs step s calls replies s') {replies' : List ρ} {t t' : σ}
    (hrun' : Runs step t calls replies' t') (init : R s t)
    (next : ∀ c ∈ calls, ∀ s s' t t' r r', R s t → step s c r s' → step t c r' t' →
      A r r' ∧ R s' t') : Forall₂ A replies replies' ∧ R s' t' := by
  induction hrun generalizing t replies' with
  | nil =>
    cases hrun'
    exact ⟨.nil, init⟩
  | cons hstep _ ih =>
    cases hrun' with
    | cons hstep' hrest =>
      obtain ⟨hA, hR⟩ := next _ mem_cons_self _ _ _ _ _ _ init hstep hstep'
      obtain ⟨hall, hR'⟩ := ih hrest hR (fun c hc => next c (mem_cons_of_mem _ hc))
      exact ⟨.cons hA hall, hR'⟩

end Runs

end AiCloud.Lib
