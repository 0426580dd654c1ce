import Mathlib.Data.List.Forall2

/-!
# Atomic transactions with rollback

A transaction body reads and writes a database state and may stop with an
error. `commit` runs a body as one atomic step: the writes of a body that
stopped are discarded, whatever it had written before the error.
-/
namespace AiCloud.Lib
open List

variable {ε α β : Type} {f : α → Except ε β}

/-- A sequence of checks passes exactly when each of them does. -/
theorem except_bind_ok {x : Except ε α} {b : β} :
    (x >>= f) = .ok b ↔ ∃ a, x = .ok a ∧ f a = .ok b := by
  cases x with
  | error e => simp [bind, Except.bind]
  | ok a => simp [bind, Except.bind]

variable {c : Prop}

theorem except_guard_ok {ε α : Type} [Decidable c] {e : ε} {x : Except ε α} {a : α} :
    (if c then .error e else x) = .ok a ↔ ¬ c ∧ x = .ok a := by
  by_cases h : c <;> simp [h]

theorem except_forM_ok {ε α : Type} {f : α → Except ε Unit} {xs : List α} :
    xs.forM f = .ok () ↔ ∀ x ∈ xs, f x = .ok () := by
  induction xs with
  | nil => exact ⟨fun _ _ hx => absurd hx not_mem_nil, fun _ => rfl⟩
  | cons x xs ih =>
    have hcons : (x :: xs).forM f = (f x >>= fun _ => xs.forM f) := rfl
    rw [hcons, except_bind_ok, forall_mem_cons]
    constructor
    · rintro ⟨_, hx, hxs⟩
      exact ⟨hx, ih.mp hxs⟩
    · rintro ⟨hx, hxs⟩
      exact ⟨(), hx, ih.mpr hxs⟩

/-- A loop that ran through has one result for each element, in order. -/
theorem except_mapM_eq_ok {xs : List α} {ys : List β} :
    xs.mapM f = .ok ys ↔ Forall₂ (fun x y => f x = .ok y) xs ys := by
  induction xs generalizing ys with
  | nil =>
    rw [mapM_nil, forall₂_nil_left_iff]
    exact ⟨fun h => (Except.ok.inj h).symm, fun h => h ▸ rfl⟩
  | cons x xs ih =>
    rw [mapM_cons, except_bind_ok, forall₂_cons_left_iff]
    constructor
    · rintro ⟨y, hy, hrest⟩
      obtain ⟨tail, htail, hys⟩ := except_bind_ok.mp hrest
      exact ⟨y, tail, hy, ih.mp htail, (Except.ok.inj hys).symm⟩
    · rintro ⟨y, tail, hy, htail, rfl⟩
      exact ⟨y, hy, except_bind_ok.mpr ⟨tail, ih.mpr htail, rfl⟩⟩

theorem except_mapM_ok {xs : List α} {ys : List β} (h : xs.mapM f = .ok ys) :
    (∀ y ∈ ys, ∃ x ∈ xs, f x = .ok y) ∧ ∀ x ∈ xs, ∃ y ∈ ys, f x = .ok y := by
  have hall := except_mapM_eq_ok.mp h
  clear h
  induction hall with
  | nil => exact ⟨forall_mem_nil _, forall_mem_nil _⟩
  | cons hfx _ ih => simp_all

theorem except_mapError_ok {ε δ α : Type} {x : Except ε α} {f : ε → δ} {a : α} :
    x.mapError f = .ok a ↔ x = .ok a := by
  cases x with
  | error e => exact iff_of_false (by intro h; cases h) (by intro h; cases h)
  | ok b => exact ⟨fun h => congrArg Except.ok (Except.ok.inj h), fun h => h ▸ rfl⟩

/-- The body of a transaction over states `σ` with errors `ε`. -/
def Tx (σ ε α : Type) : Type := σ → Except ε (α × σ)

namespace Tx

variable {σ ε α β : Type}

instance : Monad (Tx σ ε) where
  pure a := fun s => .ok (a, s)
  bind x f := fun s =>
    match x s with
    | .error e => .error e
    | .ok (a, s') => f a s'

def fail (e : ε) : Tx σ ε α := fun _ => .error e

def failIf (c : Prop) [Decidable c] (e : ε) : Tx σ ε Unit := fun s =>
  if c then .error e else .ok ((), s)

/-- A computation that does not touch the database. -/
def lift (x : Except ε α) : Tx σ ε α := fun s =>
  match x with
  | .error e => .error e
  | .ok a => .ok (a, s)

def read (f : σ → α) : Tx σ ε α := fun s => .ok (f s, s)

/-- A read of the database that may come back empty. -/
def query (f : σ → Option α) (missing : ε) : Tx σ ε α := fun s =>
  match f s with
  | none => .error missing
  | some a => .ok (a, s)

/-- A write statement; a violated constraint stops the transaction. -/
def statement (f : σ → Option (α × σ)) (violated : ε) : Tx σ ε α := fun s =>
  match f s with
  | none => .error violated
  | some r => .ok r

def commit (x : Tx σ ε α) (s : σ) : Except ε α × σ :=
  match x s with
  | .error e => (.error e, s)
  | .ok (a, s') => (.ok a, s')

variable {t s : σ}

@[simp] theorem pure_ok {a b : α} : (pure a : Tx σ ε α) s = .ok (b, t) ↔ a = b ∧ s = t := by
  change (Except.ok (a, s) : Except ε (α × σ)) = .ok (b, t) ↔ _
  simp

variable {f : α → Tx σ ε β} {x : Tx σ ε α} {a : α} {b : β}

theorem bind_eq : (x >>= f) s =
    match x s with
    | .error e => .error e
    | .ok (a, s') => f a s' := rfl

@[simp] theorem bind_ok :
    (x >>= f) s = .ok (b, t) ↔ ∃ a u, x s = .ok (a, u) ∧ f a u = .ok (b, t) := by
  rw [bind_eq]
  cases hx : x s with
  | error e => simp
  | ok r =>
    obtain ⟨a, u⟩ := r
    constructor
    · intro h
      exact ⟨a, u, rfl, h⟩
    · rintro ⟨a', u', he, h⟩
      cases he
      exact h

theorem bind_of_ok (h : x s = .ok (a, t)) : (x >>= f) s = f a t := by
  rw [bind_eq, h]

variable {e : ε}

theorem bind_of_error (h : x s = .error e) : (x >>= f) s = .error e := by
  rw [bind_eq, h]

@[simp] theorem fail_ok : (fail e : Tx σ ε α) s = .ok (a, t) ↔ False := by
  simp [fail]

@[simp] theorem failIf_ok [Decidable c] {u : Unit} :
    (failIf c e : Tx σ ε Unit) s = .ok (u, t) ↔ ¬ c ∧ s = t := by
  unfold failIf
  by_cases hc : c <;> simp [hc]

@[simp] theorem lift_ok {x : Except ε α} :
    (lift x : Tx σ ε α) s = .ok (a, t) ↔ x = .ok a ∧ s = t := by
  unfold lift
  cases x <;> simp

@[simp] theorem read_ok {f : σ → α} :
    (read f : Tx σ ε α) s = .ok (a, t) ↔ f s = a ∧ s = t := by
  simp [read]

@[simp] theorem query_ok {f : σ → Option α} :
    (query f e : Tx σ ε α) s = .ok (a, t) ↔ f s = some a ∧ s = t := by
  unfold query
  cases hf : f s <;> simp

@[simp] theorem statement_ok {f : σ → Option (α × σ)} :
    (statement f e : Tx σ ε α) s = .ok (a, t) ↔ f s = some (a, t) := by
  unfold statement
  cases hf : f s <;> simp

theorem bind_ok_of_pure {P : α → Prop} (hx : ∀ a u, x s = .ok (a, u) ↔ P a ∧ s = u) :
    (x >>= f) s = .ok (b, t) ↔ ∃ a, P a ∧ f a s = .ok (b, t) := by
  simp only [bind_ok, hx]
  constructor
  · rintro ⟨a, _, ⟨ha, rfl⟩, h⟩
    exact ⟨a, ha, h⟩
  · rintro ⟨a, ha, h⟩
    exact ⟨a, s, ⟨ha, rfl⟩, h⟩

theorem failIf_bind_ok [Decidable c] {f : Unit → Tx σ ε β} :
    (failIf c e >>= f) s = .ok (b, t) ↔ ¬ c ∧ f () s = .ok (b, t) := by
  rw [bind_ok_of_pure (fun _ _ => failIf_ok)]
  exact ⟨fun ⟨_, hc, h⟩ => ⟨hc, h⟩, fun ⟨hc, h⟩ => ⟨(), hc, h⟩⟩

theorem lift_bind_ok {x : Except ε α} :
    (lift x >>= f) s = .ok (b, t) ↔ ∃ a, x = .ok a ∧ f a s = .ok (b, t) :=
  bind_ok_of_pure (fun _ _ => lift_ok)

theorem query_bind_ok {g : σ → Option α} :
    (query g e >>= f) s = .ok (b, t) ↔ ∃ a, g s = some a ∧ f a s = .ok (b, t) :=
  bind_ok_of_pure (fun _ _ => query_ok)

theorem read_bind_ok {g : σ → α} :
    (read g >>= f) s = .ok (b, t) ↔ f (g s) s = .ok (b, t) := by
  rw [bind_ok_of_pure (fun _ _ => read_ok)]
  simp

theorem commit_ok : commit x s = (.ok a, t) ↔ x s = .ok (a, t) := by
  unfold commit
  cases hx : x s with
  | error e => simp
  | ok r => simp [Prod.ext_iff]

theorem commit_error : commit x s = (.error e, t) ↔ x s = .error e ∧ s = t := by
  unfold commit
  cases hx : x s with
  | error e => simp
  | ok r => simp

/-- Every step either failed and changed nothing, or ran its body to the end. -/
theorem commit_cases (x : Tx σ ε α) (s : σ) :
    (∃ e, commit x s = (.error e, s)) ∨ ∃ a t, commit x s = (.ok a, t) ∧ x s = .ok (a, t) := by
  cases hx : x s with
  | error e => exact Or.inl ⟨e, by simp [commit, hx]⟩
  | ok r => exact Or.inr ⟨r.1, r.2, by simp [commit, hx], rfl⟩

/-- Whenever the body stops in this state, the error is one of these. -/
def StopsOnly (tolerated : ε → Prop) (x : Tx σ ε α) (s : σ) : Prop :=
  ∀ e, x s = .error e → tolerated e

section Stops

variable {tolerated : ε → Prop} {s : σ}

theorem stopsOnly_pure (a : α) : StopsOnly tolerated (pure a : Tx σ ε α) s := by
  intro e he
  cases he

theorem stopsOnly_bind (hx : StopsOnly tolerated x s)
    (hf : ∀ a t, x s = .ok (a, t) → StopsOnly tolerated (f a) t) :
    StopsOnly tolerated (x >>= f) s := by
  intro e he
  cases hr : x s with
  | error e' =>
    rw [bind_of_error hr] at he
    cases he
    exact hx _ hr
  | ok r =>
    rw [bind_of_ok hr] at he
    exact hf r.1 r.2 hr e he

theorem stopsOnly_step (hx : x s = .ok (a, t)) (hf : StopsOnly tolerated (f a) t) :
    StopsOnly tolerated (x >>= f) s := by
  intro e he
  rw [bind_of_ok hx] at he
  exact hf e he

theorem stopsOnly_failIf [Decidable c] {f : Unit → Tx σ ε β} (hc : ¬ c)
    (hf : StopsOnly tolerated (f ()) s) : StopsOnly tolerated (failIf c e >>= f) s :=
  stopsOnly_step (failIf_ok.mpr ⟨hc, rfl⟩) hf

theorem stopsOnly_lift {x : Except ε α} (hx : x = .ok a) (hf : StopsOnly tolerated (f a) s) :
    StopsOnly tolerated (lift x >>= f) s :=
  stopsOnly_step (lift_ok.mpr ⟨hx, rfl⟩) hf

theorem stopsOnly_lift_any {x : Except ε α} (hx : ∀ e, x = .error e → tolerated e) :
    StopsOnly tolerated (lift x) s := by
  intro e he
  unfold lift at he
  split at he
  · cases he
    exact hx _ rfl
  · cases he

theorem stopsOnly_statement {g : σ → Option (α × σ)} {violated : ε} (hv : tolerated violated) :
    StopsOnly tolerated (statement g violated) s := by
  intro e he
  unfold statement at he
  split at he
  · cases he
    exact hv
  · cases he

end Stops

end Tx

end AiCloud.Lib
