import AiCloud.Lib.Program

/-!
# Schedules that run

A schedule is a list of moves: start a program, let one thread take its next
step, or change the shared state from outside. What a step leaves open is a
choice of the move. `System.schedule` computes the system a schedule leads to;
every such system is reachable. `Prog.runWith` runs one program to its end.
-/
namespace AiCloud.Lib

inductive Move (Θ μ ε : Type)
  | spawn (θ : Θ)
  | run (i : Nat) (choice : μ)
  | env (event : ε)

namespace System

variable {σ Θ Q : Type} {A : Q → Type} {α μ ε : Type}

section

variable (body : Θ → Prog Q A α) (reply : Θ → μ → σ → (q : Q) → Option (A q × σ))
  (change : ε → σ → Option σ)

/-- One move; `none` if the thread has nothing to ask or the choice does not fit. -/
def move (s : System σ Θ Q A α) : Move Θ μ ε → Option (System σ Θ Q A α)
  | .spawn θ => some (s.spawn θ (body θ))
  | .run i choice =>
    match s.threads[i]? with
    | some (θ, .ask q k) =>
      (reply θ choice s.shared q).map (fun r => s.advance i θ q r.1 (k r.1) r.2)
    | _ => none
  | .env event => (change event s.shared).map (fun t => { s with shared := t })

def schedule (init : σ) (moves : List (Move Θ μ ε)) : Option (System σ Θ Q A α) :=
  moves.foldlM (move body reply change) ⟨init, [], []⟩

def lastMove (init : σ) (moves : List (Move Θ μ ε)) (m : Move Θ μ ε) :
    Option (System σ Θ Q A α × System σ Θ Q A α) :=
  (schedule body reply change init moves).bind (fun s =>
    (move body reply change s m).map (fun s' => (s, s')))

end

variable {body : Θ → Prog Q A α} {reply : Θ → μ → σ → (q : Q) → Option (A q × σ)}
  {change : ε → σ → Option σ} {answers : Θ → σ → (q : Q) → A q → σ → Prop} {env : σ → σ → Prop}
  {init : σ}

section

variable (hreply : ∀ θ choice t q a t', reply θ choice t q = some (a, t') → answers θ t q a t')
  (hchange : ∀ event t t', change event t = some t' → env t t')

include hreply hchange

theorem Step.of_move {s s' : System σ Θ Q A α} {m : Move Θ μ ε}
    (hm : s.move body reply change m = some s') : Step body answers env s s' := by
  cases m with
  | spawn θ =>
    cases hm
    exact .spawn s θ
  | env event =>
    obtain ⟨t, ht, rfl⟩ := Option.map_eq_some_iff.mp hm
    exact .env s t (hchange event _ _ ht)
  | run i choice =>
    simp only [System.move] at hm
    split at hm
    · rename_i θ q k hi
      obtain ⟨⟨a, t⟩, ha, rfl⟩ := Option.map_eq_some_iff.mp hm
      exact .run s i θ q k a t hi (hreply θ choice _ _ _ _ ha)
    · cases hm

variable {moves : List (Move Θ μ ε)}

theorem reach_schedule {s : System σ Θ Q A α}
    (hs : schedule body reply change init moves = some s) : Reach body answers env init s := by
  suffices hgen : ∀ (moves : List (Move Θ μ ε)) (s₀ : System σ Θ Q A α),
      Reach body answers env init s₀ → moves.foldlM (System.move body reply change) s₀ = some s →
      Reach body answers env init s from hgen moves _ .start hs
  intro moves
  induction moves with
  | nil =>
    intro s₀ h₀ hs
    cases hs
    exact h₀
  | cons m moves ih =>
    intro s₀ h₀ hs
    rw [List.foldlM_cons] at hs
    obtain ⟨s₁, hm, hs⟩ := Option.bind_eq_some_iff.mp hs
    exact ih s₁ (h₀.next (.of_move hreply hchange hm)) hs

/-- A schedule that passes a test leads to a reachable system that does. -/
theorem exists_schedule {P : System σ Θ Q A α → Prop} [DecidablePred P]
    (h : (schedule body reply change init moves).any (fun s => P s) = true) :
    ∃ s, Reach body answers env init s ∧ P s := by
  obtain ⟨s, hs, hP⟩ := (Option.any_eq_true _ _).mp h
  exact ⟨s, reach_schedule hreply hchange hs, of_decide_eq_true hP⟩

theorem lastMove_step {m : Move Θ μ ε} {r : System σ Θ Q A α × System σ Θ Q A α}
    (hr : lastMove body reply change init moves m = some r) :
    Reach body answers env init r.1 ∧ Step body answers env r.1 r.2 := by
  obtain ⟨s, hs, hlast⟩ := Option.bind_eq_some_iff.mp hr
  obtain ⟨s', hm, rfl⟩ := Option.map_eq_some_iff.mp hlast
  exact ⟨reach_schedule hreply hchange hs, .of_move hreply hchange hm⟩

end

/-- The replies that meet a condition. -/
def guarded (C : Θ → σ → (q : Q) → A q → Prop) [∀ θ t q a, Decidable (C θ t q a)]
    (reply : Θ → μ → σ → (q : Q) → Option (A q × σ)) :
    Θ → μ → σ → (q : Q) → Option (A q × σ) :=
  fun θ choice t q => (reply θ choice t q).filter (fun r => C θ t q r.1)

theorem guarded_when {C : Θ → σ → (q : Q) → A q → Prop} [∀ θ t q a, Decidable (C θ t q a)]
    (hreply : ∀ θ choice t q a t', reply θ choice t q = some (a, t') → answers θ t q a t')
    (θ : Θ) (choice : μ) (t : σ) (q : Q) (a : A q) (t' : σ)
    (h : guarded C reply θ choice t q = some (a, t')) : When C answers θ t q a t' := by
  obtain ⟨hr, hc⟩ := Option.filter_eq_some_iff.mp h
  exact ⟨of_decide_eq_true hc, hreply θ choice t q a t' hr⟩

end System

namespace Prog

variable {σ Q : Type} {A : Q → Type} {α : Type} {answers : σ → (q : Q) → A q → σ → Prop}

/-- Run a program to its end; `none` if a request gets no reply. -/
def runWith (reply : σ → (q : Q) → Option (A q × σ)) :
    Prog Q A α → σ → Option (List (Sigma A) × σ × α)
  | .ret a, s => some ([], s, a)
  | .ask q k, s =>
    (reply s q).bind (fun r =>
      (runWith reply (k r.1) r.2).map (fun x => (⟨q, r.1⟩ :: x.1, x.2)))

theorem runsTo_runWith {reply : σ → (q : Q) → Option (A q × σ)}
    (hreply : ∀ s q a s', reply s q = some (a, s') → answers s q a s') {p : Prog Q A α} {s s' : σ}
    {h : List (Sigma A)} {r : α} (hrun : runWith reply p s = some (h, s', r)) :
    RunsTo answers p s h s' r := by
  induction p generalizing s h with
  | ret a =>
    cases hrun
    exact ⟨rfl, rfl, rfl⟩
  | ask q k ih =>
    obtain ⟨⟨a, s₁⟩, ha, hmap⟩ := Option.bind_eq_some_iff.mp hrun
    obtain ⟨⟨rest, s₂, r₂⟩, hrest, heq⟩ := Option.map_eq_some_iff.mp hmap
    cases heq
    exact ⟨a, s₁, rest, hreply s q a s₁ ha, rfl, ih a hrest⟩

end Prog

end AiCloud.Lib
