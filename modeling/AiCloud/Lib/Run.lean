import Mathlib.Data.List.Induction

/-!
# Runs of a store

A store answers each call with a reply and a new state. A run is a list of
calls; any interleaving of callers is some list of their calls, since each call
is one atomic step.
-/
namespace AiCloud.Lib
open List

variable {σ κ ρ : Type} (step : σ → κ → ρ × σ)

def run (s : σ) (calls : List κ) : σ :=
  calls.foldl (fun s c => (step s c).2) s

@[simp] theorem run_nil (s : σ) : run step s [] = s := rfl

@[simp] theorem run_append (s : σ) (pre post : List κ) :
    run step s (pre ++ post) = run step (run step s pre) post := by
  simp [run]

@[simp] theorem run_cons (s : σ) (c : κ) (post : List κ) :
    run step s (c :: post) = run step (step s c).2 post := rfl

/-- A property of the calls so far and the state they lead to holds after every
run if it holds at the start and each further call keeps it. -/
theorem run_invariant {step : σ → κ → ρ × σ} {s : σ} {I : List κ → σ → Prop} (init : I [] s)
    (next : ∀ pre c, I pre (run step s pre) → I (pre ++ [c]) (step (run step s pre) c).2)
    (calls : List κ) : I calls (run step s calls) := by
  induction calls using reverseRecOn with
  | nil => exact init
  | append_singleton pre c ih =>
    rw [run_append]
    exact next pre c ih

/-- A property of states that every call keeps still holds later. -/
theorem run_stable {step : σ → κ → ρ × σ} {I : σ → Prop} (next : ∀ s c, I s → I (step s c).2)
    {s : σ} (h : I s) (calls : List κ) : I (run step s calls) :=
  run_invariant (I := fun _ => I) h (fun _ c => next _ c) calls

/-- What is seen at the calls of a run, each call looked at before it is made. -/
def observed {ω : Type} (step : σ → κ → ρ × σ) (look : σ → κ → List ω) : σ → List κ → List ω
  | _, [] => []
  | s, c :: rest => look s c ++ observed step look (step s c).2 rest

theorem observed_append {ω : Type} (look : σ → κ → List ω) (s : σ)
    (pre post : List κ) : observed step look s (pre ++ post) =
    observed step look s pre ++ observed step look (run step s pre) post := by
  induction pre generalizing s with
  | nil => rfl
  | cons c rest ih => simp only [cons_append, observed, ih, append_assoc, run_cons]

/-- A sequence of steps of a labelled relation, newest step last. -/
inductive Trace {ε : Type} (step : ε → σ → σ → Prop) (s : σ) : List ε → σ → Prop
  | nil : Trace step s [] s
  | snoc {es : List ε} {e : ε} {t u : σ} :
      Trace step s es t → step e t u → Trace step s (es ++ [e]) u

/-- A property of the labels so far and the state they lead to. -/
theorem Trace.invariant {ε : Type} {step : ε → σ → σ → Prop} {s t : σ} {es : List ε}
    (h : Trace step s es t) {I : List ε → σ → Prop} (init : I [] s)
    (next : ∀ es e t u, I es t → step e t u → I (es ++ [e]) u) : I es t := by
  induction h with
  | nil => exact init
  | snoc _ hs ih => exact next _ _ _ _ ih hs

/-- A marked call in a longer run is the last one or lies in the earlier calls. -/
theorem snoc_eq_split {calls pre post : List κ} {c d : κ} : calls ++ [c] = pre ++ d :: post ↔
    (post = [] ∧ calls = pre ∧ c = d) ∨ ∃ post', post = post' ++ [c] ∧
      calls = pre ++ d :: post' := by
  constructor
  · intro h
    rcases eq_nil_or_concat post with rfl | ⟨post', x, rfl⟩
    · obtain ⟨hc, hd⟩ := append_inj' h rfl
      exact Or.inl ⟨rfl, hc, singleton_inj.mp hd⟩
    · have h' : calls ++ [c] = (pre ++ d :: post') ++ [x] := by simpa using h
      obtain ⟨hc, hx⟩ := append_inj' h' rfl
      exact Or.inr ⟨post', by rw [singleton_inj.mp hx, concat_eq_append], hc⟩
  · rintro (⟨rfl, rfl, rfl⟩ | ⟨post', rfl, rfl⟩)
    · rfl
    · simp

end AiCloud.Lib
