import AiCloud.Lib.Run

/-!
# Interleaved programs

A program asks its surroundings one request after another and continues with
the answers. Any number of programs run against one shared state; a request is
one atomic step, and a program that crashed is one that is never scheduled
again. `Conforms` is a program's protocol: which request it may make after
which history, and what it may return.
-/
namespace AiCloud.Lib
open List

inductive Prog (Q : Type) (A : Q → Type) (α : Type)
  | ret (a : α)
  | ask (q : Q) (k : A q → Prog Q A α)

namespace Prog

variable {Q : Type} {A : Q → Type} {α β : Type}

def bind : Prog Q A α → (α → Prog Q A β) → Prog Q A β
  | .ret a, f => f a
  | .ask q k, f => .ask q (fun a => (k a).bind f)

instance : Monad (Prog Q A) where
  pure := .ret
  bind := bind

def request (q : Q) : Prog Q A (A q) := .ask q .ret

/-- Along every sequence of answers the program asks only what its history
allows and returns only what its history justifies. -/
def Conforms (allowed : List (Sigma A) → Q → Prop) (final : List (Sigma A) → α → Prop) :
    List (Sigma A) → Prog Q A α → Prop
  | h, .ret r => final h r
  | h, .ask q k => allowed h q ∧ ∀ a, Conforms allowed final (h ++ [⟨q, a⟩]) (k a)

section

variable {allowed : List (Sigma A) → Q → Prop} {final : List (Sigma A) → α → Prop}

@[simp] theorem conforms_pure {h : List (Sigma A)} {r : α} :
    Conforms allowed final h (pure r) ↔ final h r := Iff.rfl

@[simp] theorem conforms_request {h : List (Sigma A)} {q : Q} {f : A q → Prog Q A α} :
    Conforms allowed final h (request q >>= f) ↔
      allowed h q ∧ ∀ a, Conforms allowed final (h ++ [⟨q, a⟩]) (f a) := Iff.rfl

end

theorem conforms_true (h : List (Sigma A)) (p : Prog Q A α) :
    Conforms (fun _ _ => True) (fun _ _ => True) h p := by
  induction p generalizing h with
  | ret r => trivial
  | ask q k ih => exact ⟨trivial, fun a => ih a _⟩

variable {allowed : List (Sigma A) → Q → Prop} {final : List (Sigma A) → α → Prop}
  {h : List (Sigma A)} {p : Prog Q A α}

theorem conforms_mono {final' : List (Sigma A) → α → Prop} (hf : ∀ h r, final h r → final' h r)
    (hp : Conforms allowed final h p) : Conforms allowed final' h p := by
  induction p generalizing h with
  | ret r => exact hf h r hp
  | ask q k ih => exact ⟨hp.1, fun a => ih a (hp.2 a)⟩

/-- What a program is known to return when it is part of a longer history. -/
theorem conforms_extends (hp : Conforms allowed final h p) :
    Conforms allowed (fun h' r => h <+: h' ∧ final h' r) h p := by
  suffices hgen : ∀ h₀, h₀ <+: h → Conforms allowed (fun h' r => h₀ <+: h' ∧ final h' r) h p from
    hgen h (prefix_refl h)
  induction p generalizing h with
  | ret r => exact fun h₀ hpre => ⟨hpre, hp⟩
  | ask q k ih =>
    intro h₀ hpre
    exact ⟨hp.1, fun a => ih a (hp.2 a) h₀ (hpre.trans (prefix_append h _))⟩

theorem conforms_ite {c : Prop} [Decidable c] {q : Prog Q A α} (hp : c → Conforms allowed final h p)
    (hq : ¬ c → Conforms allowed final h q) : Conforms allowed final h (if c then p else q) := by
  split
  · exact hp ‹c›
  · exact hq ‹¬ c›

theorem conforms_bind {mid : List (Sigma A) → α → Prop} {final : List (Sigma A) → β → Prop}
    {f : α → Prog Q A β} (hp : Conforms allowed mid h p)
    (hf : ∀ h' a, mid h' a → Conforms allowed final h' (f a)) :
    Conforms allowed final h (p >>= f) := by
  induction p generalizing h with
  | ret r => exact hf h r hp
  | ask q k ih => exact ⟨hp.1, fun a => ih a (hp.2 a)⟩

/-- The program alone against a state: it ran from the first state, asked and was
answered what the history says, and returned in the last state. -/
def RunsTo {σ : Type} (answers : σ → (q : Q) → A q → σ → Prop) :
    Prog Q A α → σ → List (Sigma A) → σ → α → Prop
  | .ret a, s, h, s', r => h = [] ∧ s' = s ∧ r = a
  | .ask q k, s, h, s', r =>
    ∃ a s₁ rest, answers s q a s₁ ∧ h = ⟨q, a⟩ :: rest ∧ RunsTo answers (k a) s₁ rest s' r

section

variable {σ : Type} {answers : σ → (q : Q) → A q → σ → Prop} {s s' : σ} {h : List (Sigma A)} {r : α}

@[simp] theorem runsTo_pure {a : α} :
    RunsTo answers (pure a) s h s' r ↔ h = [] ∧ s' = s ∧ r = a := Iff.rfl

theorem RunsTo.of_bind {p : Prog Q A β} {f : β → Prog Q A α}
    (hrun : RunsTo answers (p >>= f) s h s' r) :
    ∃ h₁ h₂ s₁ b, h = h₁ ++ h₂ ∧ RunsTo answers p s h₁ s₁ b ∧ RunsTo answers (f b) s₁ h₂ s' r := by
  induction p generalizing s h with
  | ret b => exact ⟨[], h, s, b, rfl, ⟨rfl, rfl, rfl⟩, hrun⟩
  | ask q k ih =>
    obtain ⟨a, s₁, rest, ha, rfl, hrest⟩ := hrun
    obtain ⟨h₁, h₂, s₂, b, rfl, hp, hf⟩ := ih a hrest
    exact ⟨⟨q, a⟩ :: h₁, h₂, s₂, b, rfl, ⟨a, s₁, h₁, ha, rfl, hp⟩, hf⟩

theorem Conforms.of_runsTo {h₀ : List (Sigma A)} (hp : Conforms allowed final h₀ p)
    (hrun : RunsTo answers p s h s' r) : final (h₀ ++ h) r := by
  induction p generalizing s h h₀ with
  | ret a =>
    obtain ⟨rfl, -, rfl⟩ := hrun
    rwa [append_nil]
  | ask q k ih =>
    obtain ⟨a, s₁, rest, -, rfl, hrest⟩ := hrun
    rw [append_cons]
    exact ih a (hp.2 a) hrest

end

theorem conforms_of_runsTo {h₀ : List (Sigma A)}
    (hall : ∀ h r, RunsTo (fun (_ : Unit) _ _ _ => True) p () h () r → final (h₀ ++ h) r) :
    Conforms (fun _ _ => True) final h₀ p := by
  induction p generalizing h₀ with
  | ret a =>
    have hret := hall [] a ⟨rfl, rfl, rfl⟩
    rwa [append_nil] at hret
  | ask q k ih =>
    refine ⟨trivial, fun a => ih a (fun h r hrun => ?_)⟩
    rw [← append_cons]
    exact hall _ r ⟨a, (), h, trivial, rfl, hrun⟩

/-- A program over other requests, made one over these. -/
def embed {Q' : Type} {A' : Q' → Type} (emb : Q' → Q) (back : (q : Q') → A (emb q) → A' q) :
    Prog Q' A' α → Prog Q A α
  | .ret a => .ret a
  | .ask q k => .ask (emb q) (fun a => (k (back q a)).embed emb back)

/-- An embedded program follows the outer protocol if every request of its own
protocol is one of the outer, along related histories. -/
theorem conforms_embed {Q' : Type} {A' : Q' → Type} {emb : Q' → Q}
    {back : (q : Q') → A (emb q) → A' q} {allowed' : List (Sigma A') → Q' → Prop}
    {final' : List (Sigma A') → α → Prop} {R : List (Sigma A) → List (Sigma A') → Prop}
    (hstep : ∀ h h' q, R h h' → allowed' h' q → allowed h (emb q) ∧
      ∀ a, R (h ++ [⟨emb q, a⟩]) (h' ++ [⟨q, back q a⟩]))
    (hret : ∀ h h' r, R h h' → final' h' r → final h r) {h' : List (Sigma A')} {p : Prog Q' A' α}
    (hr : R h h') (hp : Conforms allowed' final' h' p) :
    Conforms allowed final h (p.embed emb back) := by
  induction p generalizing h h' with
  | ret r => exact hret h h' r hr hp
  | ask q k ih =>
    obtain ⟨ha, hnext⟩ := hstep h h' q hr hp.1
    exact ⟨ha, fun a => ih (back q a) (hnext a) (hp.2 (back q a))⟩

/-- Every entry of a history was allowed when it was asked. -/
def Lawful (allowed : List (Sigma A) → Q → Prop) (h : List (Sigma A)) : Prop :=
  ∀ pre e post, h = pre ++ e :: post → allowed pre e.1

theorem lawful_nil (allowed : List (Sigma A) → Q → Prop) : Lawful allowed [] := by
  intro pre e post h
  simp at h

variable {e : Sigma A}

theorem Lawful.snoc (hl : Lawful allowed h) (he : allowed h e.1) : Lawful allowed (h ++ [e]) := by
  intro pre d post hd
  rcases snoc_eq_split.mp hd with ⟨_, rfl, rfl⟩ | ⟨post', _, rfl⟩
  · exact he
  · exact hl pre d post' rfl

theorem Lawful.init (hl : Lawful allowed (h ++ [e])) : Lawful allowed h ∧ allowed h e.1 := by
  refine ⟨?_, hl h e [] rfl⟩
  intro pre d post hd
  exact hl pre d (post ++ [e]) (by rw [hd]; simp)

theorem Lawful.mem (hl : Lawful allowed h) (he : e ∈ h) :
    ∃ pre post, h = pre ++ e :: post ∧ allowed pre e.1 := by
  obtain ⟨pre, post, rfl⟩ := append_of_mem he
  exact ⟨pre, post, rfl, hl pre e post rfl⟩

end Prog

abbrev Fallible (Q : Type) (A : Q → Type) (ε : Type) := ExceptT ε (Prog Q A)

namespace Fallible

variable {Q : Type} {A : Q → Type} {ε δ α β : Type}

def ask (q : Q) : Fallible Q A ε (A q) := ExceptT.lift (Prog.request q)

def failIf (c : Prop) [Decidable c] (e : ε) : Fallible Q A ε Unit :=
  if c then throw e else pure ()

/-- An answer that may be an error, which then stops the program. -/
def orFail (wrap : δ → ε) : Except δ α → Fallible Q A ε α
  | .ok a => pure a
  | .error e => throw (wrap e)

/-- The program asks only what its history allows; if it returns a value, `post`
holds of it. -/
structure Follows (allowed : List (Sigma A) → Q → Prop) (post : List (Sigma A) → α → Prop)
    (h : List (Sigma A)) (x : Fallible Q A ε α) : Prop where
  conforms : Prog.Conforms allowed (fun h' r => ∀ a, r = Except.ok a → post h' a) h x.run

variable {allowed : List (Sigma A) → Q → Prop} {post : List (Sigma A) → β → Prop}
  {h : List (Sigma A)}

theorem follows_pure {a : β} (ha : post h a) :
    Follows allowed post h (pure a : Fallible Q A ε β) := by
  refine ⟨?_⟩
  rintro b hb
  cases hb
  exact ha

theorem follows_throw {e : ε} : Follows allowed post h (throw e : Fallible Q A ε β) := by
  refine ⟨?_⟩
  rintro b hb
  cases hb

theorem follows_bind {mid : List (Sigma A) → α → Prop} {x : Fallible Q A ε α}
    {f : α → Fallible Q A ε β} (hx : Follows allowed mid h x)
    (hf : ∀ h' a, h <+: h' → mid h' a → Follows allowed post h' (f a)) :
    Follows allowed post h (x >>= f) := by
  refine ⟨Prog.conforms_bind (Prog.conforms_extends hx.conforms) ?_⟩
  rintro h' r ⟨hpre, hr⟩
  cases r with
  | error e => exact (follows_throw (e := e)).conforms
  | ok a => exact (hf h' a hpre (hr a rfl)).conforms

theorem follows_ask {q : Q} {f : A q → Fallible Q A ε β} (hq : allowed h q)
    (hf : ∀ a, Follows allowed post (h ++ [⟨q, a⟩]) (f a)) :
    Follows allowed post h (ask q >>= f) := ⟨hq, fun a => (hf a).conforms⟩

theorem follows_failIf {c : Prop} [Decidable c] {e : ε} {f : Unit → Fallible Q A ε β}
    (hf : ¬ c → Follows allowed post h (f ())) : Follows allowed post h (failIf c e >>= f) := by
  unfold failIf
  by_cases hc : c
  · rw [if_pos hc]
    exact ⟨(follows_throw (e := e)).conforms⟩
  · rw [if_neg hc]
    exact ⟨(hf hc).conforms⟩

theorem follows_orFail {wrap : δ → ε} {x : Except δ α} {f : α → Fallible Q A ε β}
    (hf : ∀ a, x = .ok a → Follows allowed post h (f a)) :
    Follows allowed post h (orFail wrap x >>= f) := by
  cases x with
  | error e => exact ⟨(follows_throw (e := wrap e)).conforms⟩
  | ok a => exact ⟨(hf a rfl).conforms⟩

theorem follows_failIf_last {c : Prop} [Decidable c] {e : ε} {post : List (Sigma A) → Unit → Prop}
    (hp : ¬ c → post h ()) : Follows allowed post h (failIf c e : Fallible Q A ε Unit) := by
  unfold failIf
  by_cases hc : c
  · rw [if_pos hc]
    exact follows_throw
  · rw [if_neg hc]
    exact follows_pure (hp hc)

theorem follows_orFail_last {wrap : δ → ε} {x : Except δ β} (hp : ∀ a, x = .ok a → post h a) :
    Follows allowed post h (orFail wrap x : Fallible Q A ε β) := by
  cases x with
  | error e => exact follows_throw
  | ok a => exact follows_pure (hp a rfl)

theorem follows_lift {p : Prog Q A β} (hp : Prog.Conforms allowed post h p) :
    Follows allowed post h (ExceptT.lift p : Fallible Q A ε β) := by
  refine ⟨Prog.conforms_bind hp ?_⟩
  rintro h' r hr b hb
  cases hb
  exact hr

end Fallible

/-- Running programs, each with the job it was started for, over one shared
state; the log holds all requests with their answers, oldest first. -/
structure System (σ Θ Q : Type) (A : Q → Type) (α : Type) where
  shared : σ
  threads : List (Θ × Prog Q A α)
  log : List (Nat × Sigma A)

namespace System

variable {σ Θ Q : Type} {A : Q → Type} {α : Type} (s : System σ Θ Q A α) (i : Nat)

def history : List (Sigma A) :=
  s.log.filterMap (fun x => if x.1 = i then some x.2 else none)

def job : Option Θ := (s.threads[i]?).map Prod.fst

def result : Option α :=
  match s.threads[i]? with
  | some (_, .ret x) => some x
  | _ => none

def asks : Option Q :=
  match s.threads[i]? with
  | some (_, .ask q _) => some q
  | _ => none

def spawn (θ : Θ) (p : Prog Q A α) : System σ Θ Q A α :=
  { s with threads := s.threads ++ [(θ, p)] }

/-- Thread `i` got answer `a` to request `q` and continues as `p`. -/
def advance (θ : Θ) (q : Q) (a : A q) (p : Prog Q A α) (shared : σ) : System σ Θ Q A α :=
  ⟨shared, s.threads.set i (θ, p), s.log ++ [(i, ⟨q, a⟩)]⟩

@[simp] theorem history_spawn (θ : Θ) (p : Prog Q A α) (i : Nat) :
    (s.spawn θ p).history i = s.history i := rfl

theorem history_advance (i j : Nat) (θ : Θ) (q : Q) (a : A q) (p : Prog Q A α) (t : σ) :
    (s.advance i θ q a p t).history j = s.history j ++ if i = j then [⟨q, a⟩] else [] := by
  unfold history advance
  rw [filterMap_append]
  by_cases hij : i = j <;> simp [hij]

variable {i : Nat} {s : System σ Θ Q A α}

theorem mem_history {e : Sigma A} : e ∈ s.history i ↔ (i, e) ∈ s.log := by
  unfold history
  rw [mem_filterMap]
  constructor
  · rintro ⟨⟨j, d⟩, hm, hd⟩
    split at hd
    · rename_i hj
      cases hd
      exact hj ▸ hm
    · cases hd
  · intro hm
    exact ⟨(i, e), hm, if_pos rfl⟩

theorem history_split {pre post : List (Nat × Sigma A)} {e : Sigma A}
    (h : s.log = pre ++ (i, e) :: post) :
    ∃ before rest, s.history i = before ++ e :: rest ∧ ∀ d, d ∈ before ↔ (i, d) ∈ pre := by
  refine ⟨history ⟨s.shared, s.threads, pre⟩ i, history ⟨s.shared, s.threads, post⟩ i, ?_,
    fun d => mem_history⟩
  unfold history
  rw [h, filterMap_append, filterMap_cons, if_pos rfl]

theorem history_advance_self (s : System σ Θ Q A α) (i : Nat) (θ : Θ) (q : Q) (a : A q)
    (p : Prog Q A α) (t : σ) : (s.advance i θ q a p t).history i = s.history i ++ [⟨q, a⟩] := by
  rw [history_advance, if_pos rfl]

variable {i : Nat}

theorem history_advance_ne (s : System σ Θ Q A α) {j : Nat} (hij : i ≠ j) (θ : Θ) (q : Q) (a : A q)
    (p : Prog Q A α) (t : σ) : (s.advance i θ q a p t).history j = s.history j := by
  rw [history_advance, if_neg hij, append_nil]

variable {θ : Θ}

theorem job_advance (s : System σ Θ Q A α) {p₀ : Prog Q A α} (q : Q) (a : A q) (p : Prog Q A α)
    (t : σ) (hi : s.threads[i]? = some (θ, p₀)) (j : Nat) :
    (s.advance i θ q a p t).job j = s.job j := by
  unfold job advance
  by_cases hij : i = j
  · subst hij
    rw [getElem?_set_self (List.getElem?_eq_some_iff.mp hi).1, hi]
    rfl
  · rw [getElem?_set_ne hij]

theorem job_spawn_of_lt (s : System σ Θ Q A α) (θ : Θ) (p : Prog Q A α) {j : Nat}
    (hj : j < s.threads.length) : (s.spawn θ p).job j = s.job j := by
  unfold job spawn
  rw [getElem?_append_left hj]

theorem job_of_thread {p : Prog Q A α} (hi : s.threads[i]? = some (θ, p)) : s.job i = some θ := by
  rw [job, hi]
  rfl

theorem job_of_asks {q : Q} (hq : s.asks i = some q) : ∃ θ, s.job i = some θ := by
  unfold asks at hq
  split at hq
  · rename_i θ q' k hi
    exact ⟨θ, job_of_thread hi⟩
  · cases hq

theorem thread_of_result {x : α} (hx : s.result i = some x) :
    ∃ θ, s.threads[i]? = some (θ, .ret x) := by
  unfold result at hx
  split at hx
  · rename_i θ x' hi
    cases hx
    exact ⟨θ, hi⟩
  · cases hx

theorem thread_of_asks {q : Q} (hj : s.job i = some θ) (hq : s.asks i = some q) :
    ∃ k, s.threads[i]? = some (θ, .ask q k) := by
  unfold asks at hq
  split at hq
  · rename_i θ' q' k hi
    cases hq
    rw [job, hi] at hj
    cases hj
    exact ⟨k, hi⟩
  · cases hq

theorem mem_of_job (h : s.job i = some θ) : θ ∈ s.threads.map Prod.fst := by
  obtain ⟨x, hx, rfl⟩ := Option.map_eq_some_iff.mp h
  exact mem_map_of_mem (mem_of_getElem? hx)

theorem lt_of_job (h : s.job i = some θ) : i < s.threads.length := by
  obtain ⟨x, hx, _⟩ := Option.map_eq_some_iff.mp h
  exact (List.getElem?_eq_some_iff.mp hx).1

section Threads

variable {T : Θ → List (Sigma A) → Prog Q A α → Prop} {p : Prog Q A α}
  (hfresh : ∀ j, s.threads.length ≤ j → s.history j = [])
  (hall : ∀ j θ p, s.threads[j]? = some (θ, p) → T θ (s.history j) p)

include hfresh in
theorem fresh_advance (hi : i < s.threads.length) (q : Q) (a : A q) (t : σ) (j : Nat)
    (hj : (s.advance i θ q a p t).threads.length ≤ j) : (s.advance i θ q a p t).history j = [] := by
  rw [advance, length_set] at hj
  rw [history_advance_ne s (by omega)]
  exact hfresh j hj

include hall in
theorem forall_advance (hi : i < s.threads.length) {q : Q} {a : A q}
    (hnew : T θ (s.history i ++ [⟨q, a⟩]) p) (t : σ) (j : Nat) (θ' : Θ) (p' : Prog Q A α)
    (hj : (s.advance i θ q a p t).threads[j]? = some (θ', p')) :
    T θ' ((s.advance i θ q a p t).history j) p' := by
  by_cases hij : i = j
  · subst hij
    rw [advance, getElem?_set_self hi] at hj
    cases hj
    rw [history_advance_self]
    exact hnew
  · rw [advance, getElem?_set_ne hij] at hj
    rw [history_advance_ne s hij]
    exact hall j θ' p' hj

include hfresh in
theorem fresh_spawn (j : Nat) (hj : (s.spawn θ p).threads.length ≤ j) : s.history j = [] := by
  rw [spawn, length_append] at hj
  exact hfresh j (Nat.le_of_add_right_le hj)

include hfresh hall in
theorem forall_spawn (hnew : T θ [] p) (j : Nat) (θ' : Θ) (p' : Prog Q A α)
    (hj : (s.spawn θ p).threads[j]? = some (θ', p')) : T θ' (s.history j) p' := by
  by_cases hlt : j < s.threads.length
  · rw [spawn, getElem?_append_left hlt] at hj
    exact hall j θ' p' hj
  · have hge := Nat.le_of_not_lt hlt
    rw [spawn, getElem?_append_right hge] at hj
    cases mem_singleton.mp (mem_of_getElem? hj)
    rw [hfresh j hge]
    exact hnew

end Threads

section Runs

variable (body : Θ → Prog Q A α) (answers : Θ → σ → (q : Q) → A q → σ → Prop) (env : σ → σ → Prop)

inductive Step : System σ Θ Q A α → System σ Θ Q A α → Prop
  | spawn (s : System σ Θ Q A α) (θ : Θ) : Step s (s.spawn θ (body θ))
  | run (s : System σ Θ Q A α) (i : Nat) (θ : Θ) (q : Q) (k : A q → Prog Q A α) (a : A q) (t : σ) :
      s.threads[i]? = some (θ, .ask q k) → answers θ s.shared q a t →
      Step s (s.advance i θ q a (k a) t)
  | env (s : System σ Θ Q A α) (t : σ) : env s.shared t → Step s { s with shared := t }

/-- The systems any schedule reaches from `init` with no program running. -/
inductive Reach (init : σ) : System σ Θ Q A α → Prop
  | start : Reach init ⟨init, [], []⟩
  | next {s s' : System σ Θ Q A α} : Reach init s → Step body answers env s s' → Reach init s'

variable {body answers env} {init : σ}

theorem Step.job {s' : System σ Θ Q A α} (h : Step body answers env s s') (hj : s.job i = some θ) :
    s'.job i = some θ := by
  cases h with
  | spawn θ' => exact (job_spawn_of_lt s θ' _ (lt_of_job hj)).trans hj
  | run j θ' q k a t hi ha => exact (job_advance s q a (k a) t hi i).trans hj
  | env t ht => exact hj

/-- The thread had something to ask and has nothing to ask any more. -/
def Returns (s s' : System σ Θ Q A α) (i : Nat) : Prop :=
  (s.asks i).isSome ∧ (s'.asks i).isNone

instance (s s' : System σ Θ Q A α) (i : Nat) : Decidable (Returns s s' i) :=
  inferInstanceAs (Decidable (_ ∧ _))

theorem Step.returns {s' : System σ Θ Q A α} (h : Step body answers env s s')
    (hret : Returns s s' i) :
    ∃ θ q k a t r, s.threads[i]? = some (θ, .ask q k) ∧ answers θ s.shared q a t ∧ k a = .ret r ∧
      s' = s.advance i θ q a (k a) t := by
  obtain ⟨hasks, hdone⟩ := hret
  obtain ⟨q, hq⟩ := Option.isSome_iff_exists.mp hasks
  obtain ⟨θ, hjob⟩ := job_of_asks hq
  obtain ⟨k, hi⟩ := thread_of_asks hjob hq
  have hlt : i < s.threads.length := lt_of_job hjob
  have hmoved : s'.threads[i]? ≠ s.threads[i]? := by
    intro hsame
    rw [asks, hsame, hi] at hdone
    cases hdone
  cases h with
  | spawn θ' => exact absurd (getElem?_append_left hlt) hmoved
  | env t ht => exact absurd rfl hmoved
  | run j θ' q' k' a t hj ha =>
    by_cases hij : j = i
    · subst hij
      rw [hi] at hj
      cases hj
      have hset : (s.advance j θ q a (k a) t).threads[j]? = some (θ, k a) :=
        getElem?_set_self hlt
      cases hk : k a with
      | ask q' k' =>
        rw [asks, hset, hk] at hdone
        cases hdone
      | ret r => exact ⟨θ, q, k, a, t, r, hi, ha, hk, by rw [hk]⟩
    · exact absurd (getElem?_set_ne hij) hmoved

/-- What is reached with fewer answers and fewer events from outside is reached. -/
theorem Reach.mono {answers' : Θ → σ → (q : Q) → A q → σ → Prop} {env' : σ → σ → Prop}
    (hanswers : ∀ θ t q a t', answers θ t q a t' → answers' θ t q a t')
    (henv : ∀ t t', env t t' → env' t t') (h : Reach body answers env init s) :
    Reach body answers' env' init s := by
  induction h with
  | start => exact .start
  | next _ hs ih =>
    cases hs with
    | spawn θ => exact ih.next (.spawn _ θ)
    | run i θ q k a t hi ha => exact ih.next (.run _ i θ q k a t hi (hanswers _ _ _ _ _ ha))
    | env t ht => exact ih.next (.env _ t (henv _ _ ht))

/-- The answers of steps that meet a condition. -/
def When (C : Θ → σ → (q : Q) → A q → Prop) (answers : Θ → σ → (q : Q) → A q → σ → Prop) :
    Θ → σ → (q : Q) → A q → σ → Prop :=
  fun θ t q a t' => C θ t q a ∧ answers θ t q a t'

/-- A run whose steps all meet a condition is a run. -/
theorem Reach.of_when {C : Θ → σ → (q : Q) → A q → Prop}
    (h : Reach body (When C answers) env init s) : Reach body answers env init s :=
  h.mono (fun _ _ _ _ _ ha => ha.2) (fun _ _ ht => ht)

section

variable {I : σ → Prop} {s : System σ Θ Q A α} (hinit : I init)
  (hanswer : ∀ θ t q a t', answers θ t q a t' → I t → I t') (henv : ∀ t t', env t t' → I t → I t')
  (hr : Reach body answers env init s)

include hinit hanswer henv hr

theorem Reach.invariant : I s.shared := by
  induction hr with
  | start => exact hinit
  | next _ hs ih =>
    cases hs with
    | spawn θ => exact ih
    | run i θ q k a t hi ha => exact hanswer θ _ q a t ha ih
    | env t ht => exact henv _ t ht ih

/-- Every step of a run finds the invariant. -/
theorem Reach.with_invariant : Reach body (When (fun _ t _ _ => I t) answers) env init s := by
  induction hr with
  | start => exact .start
  | next hr hs ih =>
    have hinv := hr.invariant hinit hanswer henv
    cases hs with
    | spawn θ => exact ih.next (.spawn _ θ)
    | run i θ q k a t hi ha => exact ih.next (.run _ i θ q k a t hi ⟨hinv, ha⟩)
    | env t ht => exact ih.next (.env _ t ht)

end

/-- Threads follow the protocol of their job. -/
structure Protocol (allowed : Θ → List (Sigma A) → Q → Prop)
    (final : Θ → List (Sigma A) → α → Prop) (s : System σ Θ Q A α) : Prop where
  fresh : ∀ i, s.threads.length ≤ i → s.history i = []
  lawful : ∀ i θ, s.job i = some θ → Prog.Lawful (allowed θ) (s.history i)
  conforms : ∀ i θ p, s.threads[i]? = some (θ, p) →
    Prog.Conforms (allowed θ) (final θ) (s.history i) p

variable {allowed : Θ → List (Sigma A) → Q → Prop} {final : Θ → List (Sigma A) → α → Prop}

theorem Protocol.run (h : Protocol allowed final s) {q : Q} {k : A q → Prog Q A α}
    (hi : s.threads[i]? = some (θ, .ask q k)) (a : A q) (t : σ) :
    Protocol allowed final (s.advance i θ q a (k a) t) := by
  have hc := h.conforms i θ _ hi
  have hjob := job_of_thread hi
  have hlen := lt_of_job hjob
  refine ⟨fresh_advance h.fresh hlen q a t, ?_, forall_advance h.conforms hlen (hc.2 a) t⟩
  intro j θ' hj
  obtain ⟨⟨_, p⟩, hp, rfl⟩ := Option.map_eq_some_iff.mp hj
  exact forall_advance (T := fun θ h _ => Prog.Lawful (allowed θ) h)
    (fun j θ _ hp => h.lawful j θ (job_of_thread hp)) hlen
    ((h.lawful i θ hjob).snoc hc.1) t j _ p hp

theorem Protocol.spawn (h : Protocol allowed final s) {p : Prog Q A α}
    (hp : Prog.Conforms (allowed θ) (final θ) [] p) : Protocol allowed final (s.spawn θ p) := by
  refine ⟨fresh_spawn h.fresh, ?_, forall_spawn h.fresh h.conforms hp⟩
  intro j θ' hj
  obtain ⟨⟨_, p'⟩, hp', rfl⟩ := Option.map_eq_some_iff.mp hj
  exact forall_spawn (T := fun θ h _ => Prog.Lawful (allowed θ) h) h.fresh
    (fun j θ _ hp => h.lawful j θ (job_of_thread hp)) (Prog.lawful_nil _) j _ p' hp'

theorem Reach.protocol (hbody : ∀ θ, Prog.Conforms (allowed θ) (final θ) [] (body θ))
    (hr : Reach body answers env init s) : Protocol allowed final s := by
  induction hr with
  | start => exact ⟨fun _ _ => rfl, fun i θ hi => (by cases hi), fun i θ p hi => (by cases hi)⟩
  | next _ hs ih =>
    cases hs with
    | spawn θ => exact ih.spawn (hbody θ)
    | run i θ q k a t hi ha => exact ih.run hi a t
    | env t ht => exact ⟨ih.fresh, ih.lawful, ih.conforms⟩

/-- Only a thread that was started has a history. -/
theorem Reach.lt_of_history (hr : Reach body answers env init s) (hne : s.history i ≠ []) :
    i < s.threads.length := by
  have hproto : Protocol (fun _ _ _ => True) (fun _ _ _ => True) s :=
    hr.protocol (fun θ => Prog.conforms_true _ _)
  by_contra hge
  exact hne (hproto.fresh i (Nat.le_of_not_lt hge))

/-- What an answer tells stays true if no step makes it false. -/
theorem Reach.known {K : Θ → σ → Sigma A → Prop}
    (hnew : ∀ θ t q a t', answers θ t q a t' → K θ t' ⟨q, a⟩)
    (hanswer : ∀ θ θ' t q a t' e, answers θ' t q a t' → K θ t e → K θ t' e)
    (henv : ∀ θ t t' e, env t t' → K θ t e → K θ t' e) (hr : Reach body answers env init s)
    {e : Sigma A} (hj : s.job i = some θ) (he : e ∈ s.history i) : K θ s.shared e := by
  induction hr generalizing i θ e with
  | start => cases hj
  | @next s s' hr hs ih =>
    cases hs with
    | spawn θ' =>
      rw [job_spawn_of_lt s θ' _ (hr.lt_of_history (ne_nil_of_mem he))] at hj
      exact ih hj he
    | run j θ' q k a t hi ha =>
      rw [job_advance s q a (k a) t hi] at hj
      rw [history_advance] at he
      rcases mem_append.mp he with hold | hnow
      · exact hanswer θ θ' s.shared q a t e ha (ih hj hold)
      by_cases hij : j = i
      · subst hij
        rw [if_pos rfl] at hnow
        rw [job, hi] at hj
        cases hj
        rw [mem_singleton.mp hnow]
        exact hnew θ' s.shared q a t ha
      · rw [if_neg hij] at hnow
        cases hnow
    | env t ht => exact henv θ s.shared t e ht (ih hj he)

/-- What appears in the shared state was caused by some request. -/
theorem Reach.caused {X : Type} {P : σ → X → Prop} {C : Θ → Sigma A → X → Prop}
    (hinit : ∀ x, ¬ P init x)
    (hanswer : ∀ θ t q a t' x, answers θ t q a t' → P t' x → P t x ∨ C θ ⟨q, a⟩ x)
    (henv : ∀ t t' x, env t t' → P t' x → P t x) (hr : Reach body answers env init s) {x : X}
    (hx : P s.shared x) : ∃ i θ e, s.job i = some θ ∧ e ∈ s.history i ∧ C θ e x := by
  induction hr with
  | start => exact absurd hx (hinit x)
  | @next s s' hr hs ih =>
    cases hs with
    | spawn θ' =>
      obtain ⟨i, θ, e, hj, he, hc⟩ := ih hx
      exact ⟨i, θ, e, (job_spawn_of_lt s θ' _ (lt_of_job hj)).trans hj, he, hc⟩
    | run j θ' q k a t hi ha =>
      rcases hanswer θ' s.shared q a t x ha hx with hold | hc
      · obtain ⟨i, θ, e, hj, he, hc⟩ := ih hold
        refine ⟨i, θ, e, (job_advance s q a (k a) t hi i).trans hj, ?_, hc⟩
        rw [history_advance]
        exact mem_append_left _ he
      · refine ⟨j, θ', ⟨q, a⟩, ?_, ?_, hc⟩
        · rw [job_advance s q a (k a) t hi, job, hi]
          rfl
        · rw [history_advance_self]
          exact mem_concat_self
    | env t ht => exact ih (henv s.shared t x ht hx)

end Runs

end System

end AiCloud.Lib
