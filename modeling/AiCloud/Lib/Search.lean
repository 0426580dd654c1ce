import Mathlib.Data.List.Nodup
import Mathlib.Order.RelClasses

/-!
# Searching a list until something is found

A search carries a state from element to element and stops at the first element where it
succeeds. A relation on the members of a list is well founded exactly when the list has
a topological order.
-/
namespace AiCloud.Lib
open List

section

variable {α σ : Type} (f : α → σ → Bool × σ)

def searchList (xs : List α) (found : Bool × σ) : Bool × σ :=
  xs.foldl (fun found x => if found.1 then found else f x found.2) found

theorem searchList_found (xs : List α) (s : σ) : searchList f xs (true, s) = (true, s) := by
  induction xs with
  | nil => rfl
  | cons x xs ih => exact ih

theorem searchList_cons (x : α) (xs : List α) (s : σ) :
    searchList f (x :: xs) (false, s) = searchList f xs (f x s) := rfl

variable {xs : List α} {s : σ}

theorem searchList_next {x : α} (h : (f x s).1 = false) :
    searchList f (x :: xs) (false, s) = searchList f xs (false, (f x s).2) := by
  rw [searchList_cons, ← h]

variable {I : σ → Prop}

/-- A search that finds nothing has tried every element in turn. -/
theorem searchList_false {P : α → σ → Prop} (init : I s)
    (next : ∀ x t, x ∈ xs → I t → (f x t).1 = false → I (f x t).2 ∧ P x (f x t).2 ∧ ∀ y, P y t →
      P y (f x t).2)
    (h : (searchList f xs (false, s)).1 = false) :
    I (searchList f xs (false, s)).2 ∧ (∀ x ∈ xs, P x (searchList f xs (false, s)).2) ∧
      ∀ y, P y s → P y (searchList f xs (false, s)).2 := by
  induction xs generalizing s with
  | nil => exact ⟨init, forall_mem_nil _, fun _ hy => hy⟩
  | cons x xs ih =>
    cases hx : (f x s).1 with
    | true =>
      rw [searchList_cons, show f x s = (true, (f x s).2) from Prod.ext hx rfl,
        searchList_found] at h
      cases h
    | false =>
      rw [searchList_next f hx] at h ⊢
      obtain ⟨hI, hP, hkeep⟩ := next x s mem_cons_self init hx
      obtain ⟨hI', hP', hkeep'⟩ := ih hI (fun y t hy => next y t (mem_cons_of_mem x hy)) h
      refine ⟨hI', ?_, fun y hy => hkeep' y (hkeep y hy)⟩
      intro y hy
      rcases mem_cons.mp hy with rfl | hy
      · exact hkeep' y hP
      · exact hP' y hy

/-- A search that finds something found it at some element. -/
theorem searchList_true (init : I s) (next : ∀ x t, x ∈ xs → I t → (f x t).1 = false → I (f x t).2)
    (h : (searchList f xs (false, s)).1 = true) : ∃ x ∈ xs, ∃ t, I t ∧ (f x t).1 = true := by
  induction xs generalizing s with
  | nil => cases h
  | cons x xs ih =>
    cases hx : (f x s).1 with
    | true => exact ⟨x, mem_cons_self, s, init, hx⟩
    | false =>
      rw [searchList_next f hx] at h
      obtain ⟨y, hy, t, ht⟩ := ih (next x s mem_cons_self init hx)
        (fun y t hy => next y t (mem_cons_of_mem x hy)) h
      exact ⟨y, mem_cons_of_mem x hy, t, ht⟩

/-- A search whose steps may run out of fuel runs through where no step does. -/
theorem searchList_within (g : α → σ → Option (Bool × σ)) (xs : List α) (init : I s)
    (next : ∀ x t, x ∈ xs → I t → (f x t).1 = false → I (f x t).2)
    (answers : ∀ x t, x ∈ xs → I t → g x t = some (f x t)) :
    xs.foldlM (fun found x => if found.1 then some found else g x found.2) (false, s) =
      some (searchList f xs (false, s)) := by
  have hfound : ∀ (xs : List α) (s : σ),
      xs.foldlM (fun found x => if found.1 then some found else g x found.2) (true, s) =
        some (true, s) := by
    intro xs s
    induction xs with
    | nil => rfl
    | cons x xs ih => exact ih
  induction xs generalizing s with
  | nil => rfl
  | cons x xs ih =>
    have hstep : (x :: xs).foldlM (fun found x => if found.1 then some found else g x found.2)
        (false, s) = (g x s).bind (fun found =>
          xs.foldlM (fun found x => if found.1 then some found else g x found.2) found) := rfl
    rw [hstep, answers x s mem_cons_self init, Option.bind_some]
    cases hx : (f x s).1 with
    | true =>
      have hpair : f x s = (true, (f x s).2) := Prod.ext hx rfl
      rw [searchList_cons, hpair, hfound, searchList_found]
    | false =>
      have hpair : f x s = (false, (f x s).2) := Prod.ext hx rfl
      rw [searchList_next f hx, hpair]
      exact ih (next x s mem_cons_self init hx) (fun y t hy => next y t (mem_cons_of_mem x hy))
        (fun y t hy => answers y t (mem_cons_of_mem x hy))

end

section

variable {α : Type} {r : α → α → Prop}

/-- Below every accessible member there is one with no member below it. -/
theorem exists_minimal {l : List α} {x : α} (hacc : Acc r x) (hx : x ∈ l) :
    ∃ m ∈ l, ∀ y ∈ l, ¬ r y m := by
  induction hacc with
  | intro x _ ih =>
    by_cases hmin : ∀ y ∈ l, ¬ r y x
    · exact ⟨x, hx, hmin⟩
    · push Not at hmin
      obtain ⟨y, hy, hr⟩ := hmin
      exact ih y hr hy

variable [DecidableEq α]

def Topological (r : α → α → Prop) (order : List α) : Prop :=
  ∀ x ∈ order, ∀ y ∈ order, r y x → order.idxOf y < order.idxOf x

theorem Topological.cons {m : α} {order : List α} (h : Topological r order)
    (hmin : ∀ y ∈ m :: order, ¬ r y m) : Topological r (m :: order) := by
  intro x hx y hy hr
  have hxm : m ≠ x := by
    rintro rfl
    exact hmin y hy hr
  have hx' : x ∈ order := (mem_cons.mp hx).resolve_left (Ne.symm hxm)
  rw [idxOf_cons_ne _ hxm]
  by_cases hym : m = y
  · rw [hym, idxOf_cons_self]
    omega
  · have hy' : y ∈ order := (mem_cons.mp hy).resolve_left (Ne.symm hym)
    rw [idxOf_cons_ne _ hym]
    have hlt := h x hx' y hy' hr
    omega

/-- Take a least member, then order the rest. -/
theorem exists_topological (l : List α) (hacc : ∀ x ∈ l, Acc r x) :
    ∃ order : List α, order.Perm l ∧ Topological r order := by
  induction hn : l.length generalizing l with
  | zero =>
    refine ⟨[], ?_, ?_⟩
    · rw [length_eq_zero_iff.mp hn]
    · intro x hx
      cases hx
  | succ n ih =>
    have hne : l ≠ [] := by
      rintro rfl
      cases hn
    obtain ⟨first, hfirst⟩ := exists_mem_of_ne_nil l hne
    obtain ⟨m, hm, hmin⟩ := exists_minimal (hacc first hfirst) hfirst
    have hlen : (l.erase m).length = n := by
      rw [length_erase_of_mem hm]
      omega
    obtain ⟨order, hperm, htop⟩ := ih (l.erase m) (fun x hx => hacc x (mem_of_mem_erase hx)) hlen
    have hall : (m :: order).Perm l := (hperm.cons m).trans (perm_cons_erase hm).symm
    exact ⟨m :: order, hall, htop.cons (fun y hy => hmin y (hall.mem_iff.mp hy))⟩

/-- Position in a topological order bounds the descent, where descent stays inside. -/
theorem Topological.acc {order : List α} (h : Topological r order)
    (hclosed : ∀ x ∈ order, ∀ y, r y x → y ∈ order) : ∀ x ∈ order, Acc r x := by
  intro x hx
  induction hn : order.idxOf x using Nat.strongRecOn generalizing x with
  | ind n ih =>
    refine Acc.intro x (fun y hr => ?_)
    have hy := hclosed x hx y hr
    have hlt := h x hx y hy hr
    rw [hn] at hlt
    exact ih _ hlt y hy rfl

end

end AiCloud.Lib
