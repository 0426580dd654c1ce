import AiCloud.Lib.Program

/-!
# Relying on what the others do

A thread is verified on its own. Between two of its steps the others change the
shared state, but only along `rely`, and each of its own steps has to keep its
guarantee, which is a case of `rely`. If every program keeps its guarantee, all
of them rely on each other, however they interleave.
-/
namespace AiCloud.Lib
open List

variable {σ Θ Q : Type} {A : Q → Type} {α β : Type}

namespace Prog

section

variable (rely : σ → σ → Prop) (answers guarantee : σ → (q : Q) → A q → σ → Prop)

/-- From this state and history on, the program keeps its guarantee at every
step, and `post` holds once it has returned. -/
def Ensures (post : σ → List (Sigma A) → α → Prop) :
    Prog Q A α → σ → List (Sigma A) → Prop
  | .ret x, t, h => ∀ t', rely t t' → post t' h x
  | .ask q k, t, h => ∀ t', rely t t' → ∀ a t'', answers t' q a t'' →
      guarantee t' q a t'' ∧ Ensures post (k a) t'' (h ++ [⟨q, a⟩])

end

variable {rely : σ → σ → Prop} {answers guarantee : σ → (q : Q) → A q → σ → Prop}
  {post : σ → List (Sigma A) → α → Prop} {t : σ} {h : List (Sigma A)}

theorem ensures_pure {x : α} (hx : ∀ t', rely t t' → post t' h x) :
    Ensures rely answers guarantee post (pure x) t h := hx

theorem ensures_request {q : Q} {f : A q → Prog Q A α}
    (hf : ∀ t', rely t t' → ∀ a t'', answers t' q a t'' →
      guarantee t' q a t'' ∧ Ensures rely answers guarantee post (f a) t'' (h ++ [⟨q, a⟩])) :
    Ensures rely answers guarantee post (request q >>= f) t h := hf

variable {p : Prog Q A α}

theorem Ensures.later (htrans : ∀ a b c : σ, rely a b → rely b c → rely a c)
    (hp : Ensures rely answers guarantee post p t h) {t' : σ} (ht : rely t t') :
    Ensures rely answers guarantee post p t' h := by
  cases p with
  | ret x => exact fun u hu => hp u (htrans _ _ _ ht hu)
  | ask q k => exact fun u hu => hp u (htrans _ _ _ ht hu)

theorem ensures_bind (hrefl : ∀ a : σ, rely a a) {post : σ → List (Sigma A) → β → Prop}
    {f : α → Prog Q A β}
    (hp : Ensures rely answers guarantee
      (fun t' h' a => Ensures rely answers guarantee post (f a) t' h') p t h) :
    Ensures rely answers guarantee post (p >>= f) t h := by
  induction p generalizing t h with
  | ret x => exact hp t (hrefl t)
  | ask q k ih =>
    intro t' ht a t'' ha
    obtain ⟨hg, hk⟩ := hp t' ht a t'' ha
    exact ⟨hg, ih a hk⟩

theorem ensures_mono {post post' : σ → List (Sigma A) → α → Prop}
    (hpost : ∀ t h x, post t h x → post' t h x) (hp : Ensures rely answers guarantee post p t h) :
    Ensures rely answers guarantee post' p t h := by
  induction p generalizing t h with
  | ret x => exact fun t' ht => hpost _ _ _ (hp t' ht)
  | ask q k ih =>
    intro t' ht a t'' ha
    obtain ⟨hg, hk⟩ := hp t' ht a t'' ha
    exact ⟨hg, ih a hk⟩

theorem Ensures.and {post' : σ → List (Sigma A) → α → Prop}
    (hp : Ensures rely answers guarantee post p t h)
    (hp' : Ensures rely answers guarantee post' p t h) :
    Ensures rely answers guarantee (fun t h x => post t h x ∧ post' t h x) p t h := by
  induction p generalizing t h with
  | ret x => exact fun t' ht => ⟨hp t' ht, hp' t' ht⟩
  | ask q k ih =>
    intro t' ht a t'' ha
    obtain ⟨hg, hk⟩ := hp t' ht a t'' ha
    exact ⟨hg, ih a hk (hp' t' ht a t'' ha).2⟩

/-- What holds of every program whose steps the others may rely on. -/
theorem ensures_rely (htrans : ∀ a b c : σ, rely a b → rely b c → rely a c)
    (hanswers : ∀ t q a t', answers t q a t' → guarantee t q a t' ∧ rely t t')
    {t₀ : σ} (ht₀ : rely t₀ t) {h₀ : List (Sigma A)} (hh₀ : h₀ <+: h) :
    Ensures rely answers guarantee (fun t' h' _ => rely t₀ t' ∧ h₀ <+: h') p t h := by
  induction p generalizing t h with
  | ret x => exact fun t' ht => ⟨htrans _ _ _ ht₀ ht, hh₀⟩
  | ask q k ih =>
    intro t' ht a t'' ha
    obtain ⟨hg, hr⟩ := hanswers t' q a t'' ha
    exact ⟨hg, ih a (htrans _ _ _ ht₀ (htrans _ _ _ ht hr)) (hh₀.trans (prefix_append _ _))⟩

end Prog

namespace System

variable {body : Θ → Prog Q A α} {answers guarantee : Θ → σ → (q : Q) → A q → σ → Prop}
  {env rely : σ → σ → Prop} {post : Θ → σ → List (Sigma A) → α → Prop} {init : σ}
  {s : System σ Θ Q A α}

/-- The threads of a run, each relying on the others. -/
structure Relying (answers guarantee : Θ → σ → (q : Q) → A q → σ → Prop) (rely : σ → σ → Prop)
    (post : Θ → σ → List (Sigma A) → α → Prop) (init : σ) (s : System σ Θ Q A α) : Prop where
  fresh : ∀ i, s.threads.length ≤ i → s.history i = []
  later : rely init s.shared
  ensures : ∀ i θ p, s.threads[i]? = some (θ, p) →
    Prog.Ensures rely (answers θ) (guarantee θ) (post θ) p s.shared (s.history i)

section

variable (hrefl : ∀ a : σ, rely a a) (htrans : ∀ a b c : σ, rely a b → rely b c → rely a c)

include hrefl in
theorem Relying.step (h : Relying answers guarantee rely post init s)
    {i : Nat} {θ : Θ} {q : Q} {k : A q → Prog Q A α} (hi : s.threads[i]? = some (θ, .ask q k))
    {a : A q} {t : σ} (ha : answers θ s.shared q a t) : guarantee θ s.shared q a t ∧
      Prog.Ensures rely (answers θ) (guarantee θ) (post θ) (k a) t (s.history i ++ [⟨q, a⟩]) :=
  h.ensures i θ _ hi s.shared (hrefl _) a t ha

include hrefl htrans in
theorem Relying.run (hguarantee : ∀ θ t q a t', guarantee θ t q a t' → rely t t')
    (h : Relying answers guarantee rely post init s) {i : Nat} {θ : Θ}
    {q : Q} {k : A q → Prog Q A α} (hi : s.threads[i]? = some (θ, .ask q k)) {a : A q} {t : σ}
    (ha : answers θ s.shared q a t) :
    Relying answers guarantee rely post init (s.advance i θ q a (k a) t) := by
  obtain ⟨hg, hnext⟩ := h.step hrefl hi ha
  have hstep := hguarantee θ _ q a t hg
  have hlt := lt_of_job (job_of_thread hi)
  refine ⟨fresh_advance h.fresh hlt q a t, htrans _ _ _ h.later hstep, ?_⟩
  exact forall_advance
    (T := fun θ h p => Prog.Ensures rely (answers θ) (guarantee θ) (post θ) p t h)
    (fun j θ' p hp => (h.ensures j θ' p hp).later htrans hstep) hlt hnext t

theorem Relying.spawn (h : Relying answers guarantee rely post init s)
    (θ : Θ) (hbody : Prog.Ensures rely (answers θ) (guarantee θ) (post θ) (body θ) s.shared []) :
    Relying answers guarantee rely post init (s.spawn θ (body θ)) :=
  ⟨fresh_spawn h.fresh, h.later, forall_spawn
    (T := fun θ h p => Prog.Ensures rely (answers θ) (guarantee θ) (post θ) p s.shared h)
    h.fresh h.ensures hbody⟩

include hrefl htrans in
/-- Every step of a run keeps its guarantee, and every thread its assertion. -/
theorem Reach.relying (hguarantee : ∀ θ t q a t', guarantee θ t q a t' → rely t t')
    (henv : ∀ t t', env t t' → rely t t') (hbody : ∀ θ t, rely init t →
      Prog.Ensures rely (answers θ) (guarantee θ) (post θ) (body θ) t [])
    (hr : Reach body answers env init s) :
    Reach body (fun θ t q a t' => answers θ t q a t' ∧ guarantee θ t q a t') env init s ∧
      Relying answers guarantee rely post init s := by
  induction hr with
  | start => exact ⟨.start, fun _ _ => rfl, hrefl _, fun i θ p hi => by cases hi⟩
  | next hr hs ih =>
    obtain ⟨hreach, hrel⟩ := ih
    cases hs with
    | spawn θ => exact ⟨hreach.next (.spawn _ θ), hrel.spawn θ (hbody θ _ hrel.later)⟩
    | run i θ q k a t hi ha =>
      exact ⟨hreach.next (.run _ i θ q k a t hi ⟨ha, (hrel.step hrefl hi ha).1⟩),
        hrel.run hrefl htrans hguarantee hi ha⟩
    | env t ht =>
      have hstep := henv _ _ ht
      exact ⟨hreach.next (.env _ t ht), hrel.fresh, htrans _ _ _ hrel.later hstep,
        fun i θ p hi => (hrel.ensures i θ p hi).later htrans hstep⟩

end

/-- An event that makes a lasting property true, and only happens before it is,
happens in one thread at most. -/
theorem Reach.sole {E : Sigma A → Prop} {P : σ → Prop}
    (hnew : ∀ θ t q a t', answers θ t q a t' → E ⟨q, a⟩ → ¬ P t ∧ P t')
    (hanswer : ∀ θ t q a t', answers θ t q a t' → P t → P t')
    (henv : ∀ t t', env t t' → P t → P t')
    (hr : Reach body answers env init s) :
    (∀ i, (∃ e ∈ s.history i, E e) → P s.shared) ∧
      ∀ i j, (∃ e ∈ s.history i, E e) → (∃ e ∈ s.history j, E e) → i = j := by
  induction hr with
  | start =>
    refine ⟨?_, ?_⟩
    · rintro i ⟨e, he, _⟩
      cases he
    · rintro i j ⟨e, he, _⟩
      cases he
  | @next s s' hr hs ih =>
    obtain ⟨hpast, hone⟩ := ih
    cases hs with
    | spawn θ => exact ⟨hpast, hone⟩
    | env t ht => exact ⟨fun i hi => henv _ _ ht (hpast i hi), hone⟩
    | run m θ q k a t hm ha =>
      -- a thread with the event had it before, or has it from this step
      have hcases : ∀ i, (∃ e ∈ (s.advance m θ q a (k a) t).history i, E e) →
          (∃ e ∈ s.history i, E e) ∨ (m = i ∧ E ⟨q, a⟩) := by
        rintro i ⟨e, he, hE⟩
        rw [history_advance] at he
        rcases mem_append.mp he with he | he
        · exact Or.inl ⟨e, he, hE⟩
        split at he
        · rw [mem_singleton.mp he] at hE
          exact Or.inr ⟨‹_›, hE⟩
        · cases he
      refine ⟨?_, ?_⟩
      · intro i hi
        rcases hcases i hi with hi | ⟨_, hE⟩
        · exact hanswer θ _ q a t ha (hpast i hi)
        · exact (hnew θ _ q a t ha hE).2
      · intro i j hi hj
        rcases hcases i hi with hi | ⟨rfl, hE⟩ <;> rcases hcases j hj with hj | ⟨rfl, hE'⟩
        · exact hone i j hi hj
        · exact absurd (hpast i hi) (hnew θ _ q a t ha hE').1
        · exact absurd (hpast j hj) (hnew θ _ q a t ha hE).1
        · rfl

end System

end AiCloud.Lib
